import Emporos.Backtest.Turns
/-!
# The book over its calls

On a sound book the indexes hold the ids of the open orders as they were
placed, and nothing is filled beyond its quantity. Each call keeps the book
sound; what it makes of an order is an `Evolves`.
-/

namespace Emporos

namespace SimOrder

/-- What a call may make of an order: shares are added, a closed order is
left alone, and what was armed stays so. -/
structure Evolves (o o' : SimOrder) (quantity : ℕ) : Prop where
  orderId : o'.orderId = o.orderId
  request : o'.request = o.request
  acceptedAt : o'.acceptedAt = o.acceptedAt
  filled : o'.filled = o.filled + quantity
  closed : o.isOpen = false → o' = o ∧ quantity = 0
  armed : ∀ t, o.armedAt = some t → o'.armedAt = some t

theorem Evolves.refl (o : SimOrder) : o.Evolves o 0 :=
  ⟨rfl, rfl, rfl, rfl, fun _ => ⟨rfl, rfl⟩, fun _ h => h⟩

/-- Filled for no more than the quantity, and for less while it is open. -/
structure Sound (o : SimOrder) : Prop where
  filled_le : o.filled ≤ o.request.quantity
  filled_lt : o.isOpen = true → o.filled < o.request.quantity

theorem Sound.remaining_nonneg {o : SimOrder} (h : o.Sound) : 0 ≤ o.remaining := by
  have := h.filled_le
  unfold remaining
  omega

end SimOrder

namespace SimulatedBroker

/-! ## Ids -/

theorem orderIdOf_injective : Function.Injective orderIdOf := fun _ _ h =>
  Text.padded_injective (List.append_cancel_left (String.ofList_injective h))

/-- What the indexes of the book hold. -/
structure Sound (b : SimulatedBroker) : Prop where
  ids : b.orders.map (·.orderId) = (List.range b.orders.length).map fun n => orderIdOf (n + 1)
  resting : b.resting = (b.orders.filter (·.isOpen)).map (·.orderId)
  restingIn : ∀ i, b.restingIn i =
    (b.orders.filter fun o => o.isOpen && decide (o.request.instrumentId = i)).map (·.orderId)
  orders : ∀ o ∈ b.orders, o.Sound

theorem sound_empty : empty.Sound := ⟨rfl, rfl, fun _ => rfl, fun _ h => (by cases h)⟩

variable {b : SimulatedBroker} {o o' : SimOrder} {orderId : String}

theorem Sound.nodup (h : b.Sound) : (b.orders.map (·.orderId)).Nodup := by
  rw [h.ids]
  refine List.Nodup.map (fun m n hmn => ?_) List.nodup_range
  have := orderIdOf_injective hmn
  omega

/-- The next id is a new one. -/
theorem Sound.nextOrderId_notMem (h : b.Sound) : b.nextOrderId ∉ b.orders.map (·.orderId) := by
  rw [h.ids]
  intro hmem
  obtain ⟨n, hn, hid⟩ := List.mem_map.mp hmem
  have heq := orderIdOf_injective hid
  have hlt := List.mem_range.mp hn
  omega

theorem Sound.find_of_mem (h : b.Sound) (ho : o ∈ b.orders) : b.find o.orderId = some o :=
  Table.lookup_of_mem h.nodup ho

theorem mem_of_find (h : b.find orderId = some o) : o ∈ b.orders ∧ o.orderId = orderId :=
  ⟨Table.mem_of_lookup h, Table.key_of_lookup h⟩

/-! ## The indexes -/

/-- The ids of the orders that a test lets through, after one was
replaced. -/
theorem ids_replace {rows : List SimOrder} {p : SimOrder → Bool} (hnd : (rows.map (·.orderId)).Nodup)
    (ho : o ∈ rows) (hid : o'.orderId = o.orderId) (hp : p o = true) :
    ((Table.replace SimOrder.orderId o' rows).filter p).map (·.orderId) =
      if p o' then (rows.filter p).map (·.orderId)
      else ((rows.filter p).map (·.orderId)).filter (· ≠ o.orderId) := by
  have hids : ((Table.replace SimOrder.orderId o' rows).filter p).map (·.orderId) =
      (rows.filter fun x => if x.orderId = o.orderId then p o' else p x).map (·.orderId) := by
    rw [Table.replace, List.filter_map, List.map_map]
    congr 1
    · funext x
      simp only [Function.comp_apply]
      split
      · rename_i h
        exact h.symm
      · rfl
    · refine List.filter_congr fun x _ => ?_
      simp only [Function.comp_apply, hid]
      split <;> rfl
  have hsame : ∀ x ∈ rows, x.orderId = o.orderId → p x = true := fun x hx hxid =>
    Table.eq_of_key hnd hx ho hxid ▸ hp
  rw [hids]
  split
  · rename_i hp'
    congr 1
    refine List.filter_congr fun x hx => ?_
    by_cases hxid : x.orderId = o.orderId
    · rw [if_pos hxid, hp', hsame x hx hxid]
    · rw [if_neg hxid]
  · rename_i hp'
    rw [List.filter_map, List.filter_filter]
    congr 1
    refine List.filter_congr fun x hx => ?_
    by_cases hxid : x.orderId = o.orderId
    · simp [hxid, Bool.not_eq_true _ ▸ hp']
    · simp [hxid]

/-- Replacing a row that the test refuses changes nothing, if it refuses
the new one too. -/
theorem ids_replace_of_not {rows : List SimOrder} {p : SimOrder → Bool}
    (hnd : (rows.map (·.orderId)).Nodup) (ho : o ∈ rows) (hid : o'.orderId = o.orderId)
    (hp : p o = false) (hp' : p o' = false) :
    ((Table.replace SimOrder.orderId o' rows).filter p).map (·.orderId) =
      (rows.filter p).map (·.orderId) := by
  rw [Table.replace, List.filter_map, List.map_map]
  congr 1
  · funext x
    simp only [Function.comp_apply]
    split
    · rename_i h
      exact h.symm
    · rfl
  · refine List.filter_congr fun x hx => ?_
    simp only [Function.comp_apply, hid]
    split
    · rename_i hxid
      rw [hp', Table.eq_of_key hnd hx ho hxid, hp]
    · rfl

@[simp] theorem put_ids : (b.put o).orders.map (·.orderId) = b.orders.map (·.orderId) :=
  Table.map_key_replace

@[simp] theorem put_length : (b.put o).orders.length = b.orders.length := List.length_map ..

/-- **An order that stays as open as it was.** -/
theorem Sound.put (h : b.Sound) (ho : o ∈ b.orders) (hid : o'.orderId = o.orderId)
    (hrequest : o'.request = o.request) (hopen : o'.isOpen = o.isOpen) (ho' : o'.Sound) :
    (b.put o').Sound where
  ids := by
    rw [put_ids, h.ids, put_length]
  resting := by
    show b.resting = _
    rw [h.resting]
    cases hcase : o.isOpen with
    | true => rw [SimulatedBroker.put, ids_replace h.nodup ho hid hcase, if_pos (hopen.trans hcase)]
    | false => rw [SimulatedBroker.put, ids_replace_of_not h.nodup ho hid hcase (hopen.trans hcase)]
  restingIn := by
    intro i
    have hsame : (o'.isOpen && decide (o'.request.instrumentId = i)) =
        (o.isOpen && decide (o.request.instrumentId = i)) := by rw [hopen, hrequest]
    show b.restingIn i = _
    rw [h.restingIn]
    cases hcase : o.isOpen && decide (o.request.instrumentId = i) with
    | true =>
        rw [SimulatedBroker.put, ids_replace (p := fun o => o.isOpen && decide (o.request.instrumentId = i))
          h.nodup ho hid hcase, if_pos (hsame.trans hcase)]
    | false =>
        rw [SimulatedBroker.put, ids_replace_of_not
          (p := fun o => o.isOpen && decide (o.request.instrumentId = i))
          h.nodup ho hid hcase (hsame.trans hcase)]
  orders := by
    intro x hx
    rcases Table.mem_replace.mp hx with ⟨rfl, -⟩ | ⟨hx, -⟩
    · exact ho'
    · exact h.orders x hx

/-- **An open order that closes**, and no longer rests. -/
theorem Sound.put_close (h : b.Sound) (ho : o ∈ b.orders) (hid : o'.orderId = o.orderId)
    (hrequest : o'.request = o.request) (hopen : o.isOpen = true) (hclosed : o'.isOpen = false)
    (ho' : o'.Sound) : ((b.put o').close o').Sound where
  ids := by
    show (b.put o').orders.map (·.orderId) = _
    rw [put_ids, h.ids]
    exact congrArg (fun n => (List.range n).map fun n => orderIdOf (n + 1)) put_length.symm
  resting := by
    show b.resting.filter (· ≠ o'.orderId) = ((b.put o').orders.filter (·.isOpen)).map (·.orderId)
    rw [h.resting, SimulatedBroker.put, ids_replace h.nodup ho hid hopen,
      if_neg (by rw [hclosed]; exact Bool.false_ne_true), hid]
  restingIn := by
    intro i
    show (if i = o'.request.instrumentId then (b.restingIn i).filter (· ≠ o'.orderId)
      else b.restingIn i) = ((b.put o').orders.filter _).map (·.orderId)
    rw [h.restingIn, hrequest]
    by_cases hi : i = o.request.instrumentId
    · rw [if_pos hi, SimulatedBroker.put,
        ids_replace (p := fun o => o.isOpen && decide (o.request.instrumentId = i)) h.nodup ho hid
          (by simp [hopen, hi]),
        if_neg (by simp [hclosed]), hid]
    · rw [if_neg hi, SimulatedBroker.put,
        ids_replace_of_not (p := fun o => o.isOpen && decide (o.request.instrumentId = i)) h.nodup ho
          hid (by simp [Ne.symm hi]) (by simp [hclosed])]
  orders := by
    intro x hx
    rcases Table.mem_replace.mp hx with ⟨rfl, -⟩ | ⟨hx, -⟩
    · exact ho'
    · exact h.orders x hx

theorem Sound.register_ids (h : b.Sound) (hid : o.orderId = b.nextOrderId) :
    (b.orders ++ [o]).map (·.orderId) =
      (List.range (b.orders ++ [o]).length).map fun n => orderIdOf (n + 1) := by
  rw [List.map_append, h.ids, List.length_append, List.length_singleton, List.range_succ,
    List.map_append, List.map_singleton, List.map_singleton, hid]
  rfl

/-- **A new order that does not rest.** -/
theorem Sound.append {b' : SimulatedBroker} (h : b.Sound) (horders : b'.orders = b.orders ++ [o])
    (hresting : b'.resting = b.resting) (hrestingIn : ∀ i, b'.restingIn i = b.restingIn i)
    (hid : o.orderId = b.nextOrderId) (hclosed : o.isOpen = false) (ho : o.Sound) : b'.Sound where
  ids := by
    rw [horders]
    exact h.register_ids hid
  resting := by
    rw [hresting, horders, List.filter_append, List.filter_singleton, hclosed, h.resting]
    simp
  restingIn := by
    intro i
    rw [hrestingIn, horders, List.filter_append, List.filter_singleton, h.restingIn, hclosed]
    simp
  orders := by
    intro x hx
    rw [horders] at hx
    rcases List.mem_append.mp hx with hx | hx
    · exact h.orders x hx
    · exact List.mem_singleton.mp hx ▸ ho

/-- The next id rests nowhere. -/
theorem Sound.nextOrderId_notMem_resting (h : b.Sound) :
    b.nextOrderId ∉ b.resting ∧ ∀ i, b.nextOrderId ∉ b.restingIn i := by
  refine ⟨fun hmem => ?_, fun i hmem => ?_⟩
  · rw [h.resting] at hmem
    obtain ⟨x, hx, hid⟩ := List.mem_map.mp hmem
    exact h.nextOrderId_notMem (List.mem_map.mpr ⟨x, List.mem_of_mem_filter hx, hid⟩)
  · rw [h.restingIn] at hmem
    obtain ⟨x, hx, hid⟩ := List.mem_map.mp hmem
    exact h.nextOrderId_notMem (List.mem_map.mpr ⟨x, List.mem_of_mem_filter hx, hid⟩)

/-- **A new order that rests.** -/
theorem Sound.register_rest (h : b.Sound) (hid : o.orderId = b.nextOrderId) (hopen : o.isOpen = true)
    (ho : o.Sound) : ((b.register o).rest o).Sound where
  ids := h.register_ids hid
  resting := by
    show b.resting ++ [o.orderId] = ((b.orders ++ [o]).filter (·.isOpen)).map (·.orderId)
    rw [List.filter_append, List.filter_singleton, hopen, h.resting]
    simp
  restingIn := by
    intro i
    show (if i = o.request.instrumentId then b.restingIn i ++ [o.orderId] else b.restingIn i) =
      ((b.orders ++ [o]).filter _).map (·.orderId)
    rw [List.filter_append, List.filter_singleton, h.restingIn, hopen]
    by_cases hi : i = o.request.instrumentId
    · simp [hi]
    · simp [hi, Ne.symm hi]
  orders := by
    intro x hx
    rcases List.mem_append.mp hx with hx | hx
    · exact h.orders x hx
    · exact List.mem_singleton.mp hx ▸ ho

/-! ## The fill of an order -/

variable [DecimalContext] {quantity : ℕ} {price : Money} {reason : FillReason} {now : ℕ → Timestamp}

theorem afterFill_sound (h : (o.filled + quantity) ≤ o.request.quantity) :
    (o.afterFill quantity price).Sound := by
  refine ⟨h, fun hopen => ?_⟩
  by_cases hall : o.filled + quantity = o.request.quantity
  · simp [SimOrder.isOpen, SimOrder.afterFill, hall, OrderUpdateStatus.isTerminal] at hopen
  · exact lt_of_le_of_ne h hall

/-- **A fill of an open order.** -/
theorem fill_spec (h : b.Sound) (ho : o ∈ b.orders) (hopen : o.isOpen = true) (hpos : 0 < quantity)
    (hle : o.filled + quantity ≤ o.request.quantity) :
    (b.fill o quantity hpos price reason now).1.Sound ∧
      (b.fill o quantity hpos price reason now).1.orders =
        Table.replace SimOrder.orderId (o.afterFill quantity price) b.orders := by
  have hcounted : ({ b with fills := b.fills + 1 } : SimulatedBroker).Sound :=
    ⟨h.ids, h.resting, h.restingIn, h.orders⟩
  have hsound : (o.afterFill quantity price).Sound := afterFill_sound hle
  unfold fill
  dsimp only
  split
  · rename_i hterminal
    exact ⟨hcounted.put_close ho rfl rfl hopen (by simp [SimOrder.isOpen, hterminal]) hsound, rfl⟩
  · rename_i hterminal
    refine ⟨hcounted.put ho rfl rfl ?_ hsound, rfl⟩
    rw [hopen]
    simpa [SimOrder.isOpen] using hterminal

/-! ## The turns of a bar -/

omit [DecimalContext] in
theorem Sound.replace_self (h : b.Sound) (ho : o ∈ b.orders) :
    Table.replace SimOrder.orderId o b.orders = b.orders := by
  refine (List.map_congr_left fun x hx => ?_).trans (List.map_id _)
  split
  · rename_i hid
    exact (Table.eq_of_key h.nodup hx ho hid).symm
  · rfl

variable {model : BarFillModel} {bar : Candle} {m m' : Matching} {ids : List String}
  {error : Option PyError}

omit [DecimalContext] in
/-- An accepted order either waits, perhaps armed by this bar, or is
eligible. -/
theorem stillWaiting_spec {waiting : Bool} (haccepted : o.acceptedAt ≤ bar.ts)
    (h : o.stillWaitingForTrigger model bar = .ok (waiting, o')) :
    (waiting = true ∧ o' = o ∧ ¬ o.Eligible bar) ∨
      (waiting = true ∧ o' = { o with armedAt := some bar.closesAt } ∧
        o.request.orderType = .stoplossLimit ∧ o.armedAt = none ∧ ∃ trigger,
          o.request.triggerPrice = some trigger ∧ model.triggers o.request.side bar trigger) ∨
      (waiting = false ∧ o' = o ∧ o.Eligible bar) := by
  unfold SimOrder.stillWaitingForTrigger at h
  cases htype : o.request.orderType with
  | limit =>
      simp only [htype, Except.ok.injEq, Prod.mk.injEq] at h
      obtain ⟨rfl, rfl⟩ := h
      exact .inr (.inr ⟨rfl, rfl, haccepted, fun hstop => by rw [htype] at hstop; cases hstop⟩)
  | stoplossLimit =>
      cases harmed : o.armedAt with
      | some armedAt =>
          simp only [htype, harmed, Except.ok.injEq, Prod.mk.injEq] at h
          obtain ⟨rfl, rfl⟩ := h
          by_cases hlate : bar.ts < armedAt
          · refine .inl ⟨decide_eq_true hlate, rfl, fun heligible => ?_⟩
            obtain ⟨t, ht, hle⟩ := heligible.armed htype
            rw [harmed] at ht
            exact absurd (Option.some.inj ht ▸ hle) (not_le.mpr hlate)
          · exact .inr (.inr ⟨decide_eq_false hlate, rfl, haccepted,
              fun _ => ⟨armedAt, harmed, not_lt.mp hlate⟩⟩)
      | none =>
          cases htrigger : o.request.triggerPrice with
          | none =>
              simp only [htype, harmed, htrigger] at h
              cases h
          | some trigger =>
              simp only [htype, harmed, htrigger, Except.ok.injEq, Prod.mk.injEq] at h
              obtain ⟨rfl, rfl⟩ := h
              by_cases hfires : model.triggers o.request.side bar trigger = true
              · rw [if_pos hfires]
                exact .inr (.inl ⟨rfl, rfl, rfl, rfl, trigger, rfl, hfires⟩)
              · rw [if_neg hfires]
                refine .inl ⟨rfl, rfl, fun heligible => ?_⟩
                obtain ⟨t, ht, -⟩ := heligible.armed htype
                rw [harmed] at ht
                cases ht

/-- What a step of the loop comes to. -/
structure Visited (model : BarFillModel) (bar : Candle) (m m' : Matching) (o o' : SimOrder)
    (fills : List SimFill) : Prop where
  turned : o.Turned model bar m.capacity o' fills
  sound : m'.broker.Sound
  orders : m'.broker.orders = Table.replace SimOrder.orderId o' m.broker.orders
  capacity : m'.capacity = m.capacity - SimFill.total fills
  fills : SimEvent.fills m'.events = SimEvent.fills m.events ++ fills

/-- **A turn of the loop.** -/
theorem turn_spec (h : m.broker.Sound) (ho : o ∈ m.broker.orders) (hopen : o.isOpen = true)
    (hturn : turn model bar now m o = .ok m') : ∃ o' fills, Visited model bar m m' o o' fills := by
  have hself := h.replace_self ho
  have hidle (hidle : ¬ o.Eligible bar ∨
      model.priceIfFilled o.request.side o.request.limitPrice bar = .ok none ∨
        min o.remaining m.capacity ≤ 0) : Visited model bar m m o o [] :=
    ⟨.idle hidle, h, hself.symm, by simp, by simp⟩
  unfold turn at hturn
  by_cases hlate : bar.ts < o.acceptedAt
  · rw [if_pos hlate] at hturn
    obtain rfl := Except.ok.inj hturn
    exact ⟨o, [], hidle (.inl fun heligible => absurd heligible.accepted (not_le.mpr hlate))⟩
  · rw [if_neg hlate] at hturn
    have haccepted := not_lt.mp hlate
    cases hwaiting : o.stillWaitingForTrigger model bar with
    | error e =>
        rw [hwaiting] at hturn
        cases hturn
    | ok result =>
        obtain ⟨waiting, o₁⟩ := result
        simp only [hwaiting, ok_bind] at hturn
        rcases stillWaiting_spec haccepted hwaiting with ⟨rfl, rfl, hnot⟩ |
          ⟨rfl, rfl, htype, harmed, trigger, htrigger, hfires⟩ | ⟨rfl, rfl, heligible⟩
        · obtain rfl := Except.ok.inj hturn
          exact ⟨o₁, [], .idle (.inl hnot), h.put ho rfl rfl rfl (h.orders _ ho), rfl, by simp, by simp⟩
        · obtain rfl := Except.ok.inj hturn
          refine ⟨_, [], .armed trigger htype haccepted harmed htrigger hfires, ?_, rfl, by simp, by simp⟩
          exact h.put ho rfl rfl rfl ⟨(h.orders _ ho).filled_le, (h.orders _ ho).filled_lt⟩
        · simp only [Bool.false_eq_true, if_false] at hturn
          cases hprice : model.priceIfFilled o₁.request.side o₁.request.limitPrice bar with
          | error e =>
              rw [hprice] at hturn
              cases hturn
          | ok price =>
              simp only [hprice, ok_bind] at hturn
              cases price with
              | none =>
                  obtain rfl := Except.ok.inj hturn
                  exact ⟨o₁, [], hidle (.inr (.inl hprice))⟩
              | some price =>
                  dsimp only at hturn
                  by_cases hpos : 0 < min o₁.remaining m.capacity
                  · rw [dif_pos hpos] at hturn
                    obtain rfl := Except.ok.inj hturn
                    have hquantity : ((min o₁.remaining m.capacity).toNat : ℤ) =
                        min o₁.remaining m.capacity := by omega
                    have hle : o₁.filled + (min o₁.remaining m.capacity).toNat ≤
                        o₁.request.quantity := by
                      have : min o₁.remaining m.capacity ≤ o₁.remaining := min_le_left _ _
                      unfold SimOrder.remaining at this hquantity
                      unfold SimOrder.remaining
                      omega
                    have htaken : 0 < (min o₁.remaining m.capacity).toNat := by omega
                    obtain ⟨hsound, horders⟩ := @fill_spec _ _ _ _ price .matched
                      (fun k => now (2 * m.events.length + k)) h ho hopen htaken hle
                    refine ⟨_, _, .filled (m.broker.record o₁ _ htaken price .matched
                      (now (2 * m.events.length))) heligible hprice hquantity rfl, hsound, horders,
                      ?_, ?_⟩
                    · exact congrArg (m.capacity - ·) hquantity.symm
                    · simp only [SimEvent.fills, List.filterMap_append]
                      rfl
                  · rw [dif_neg hpos] at hturn
                    obtain rfl := Except.ok.inj hturn
                    exact ⟨o₁, [], hidle (.inr (.inr (not_lt.mp hpos)))⟩

omit [DecimalContext] in
/-- Rows put where they are already. -/
theorem Sound.foldl_replace_self (h : b.Sound) {orders : List SimOrder}
    (horders : ∀ o ∈ orders, o ∈ b.orders) :
    orders.foldl (fun rows o => Table.replace SimOrder.orderId o rows) b.orders = b.orders := by
  induction orders with
  | nil => rfl
  | cons o rest ih =>
      rw [List.foldl_cons, h.replace_self (horders o (List.mem_cons_self ..))]
      exact ih fun x hx => horders x (List.mem_cons_of_mem _ hx)

/-- **The loop is the turns of its orders.** -/
theorem turns_spec {orders : List SimOrder} (h : m.broker.Sound)
    (horders : ∀ o ∈ orders, o ∈ m.broker.orders ∧ o.isOpen = true)
    (hnd : (orders.map (·.orderId)).Nodup)
    (hturns : turns model bar now (orders.map (·.orderId)) m = (m', error)) :
    ∃ orders' fills, SimOrder.Turns model bar m.capacity orders orders' fills error ∧
      m'.broker.Sound ∧ m'.broker.orders =
        orders'.foldl (fun rows o => Table.replace SimOrder.orderId o rows) m.broker.orders ∧
      SimEvent.fills m'.events = SimEvent.fills m.events ++ fills := by
  induction orders generalizing m with
  | nil =>
      obtain ⟨rfl, rfl⟩ := Prod.mk.inj hturns
      exact ⟨[], [], .nil, h, rfl, by simp⟩
  | cons o rest ih =>
      obtain ⟨ho, hopen⟩ := horders o (List.mem_cons_self ..)
      obtain ⟨hother, hnd⟩ := List.nodup_cons.mp hnd
      have hfind := h.find_of_mem ho
      rw [List.map_cons, turns, hfind] at hturns
      dsimp only at hturns
      cases hturn : turn model bar now m o with
      | error e =>
          rw [hturn] at hturns
          obtain ⟨rfl, rfl⟩ := Prod.mk.inj hturns
          refine ⟨o :: rest, [], .stop e, h, ?_, by simp⟩
          exact (h.foldl_replace_self fun x hx => (horders x hx).1).symm
      | ok m₁ =>
          rw [hturn] at hturns
          obtain ⟨o', fills, hvisited⟩ := turn_spec h ho hopen hturn
          have hrest : ∀ x ∈ rest, x ∈ m₁.broker.orders ∧ x.isOpen = true := by
            intro x hx
            obtain ⟨hmem, hxopen⟩ := horders x (List.mem_cons_of_mem _ hx)
            refine ⟨?_, hxopen⟩
            rw [hvisited.orders]
            refine (Table.mem_replace_of_ne fun hid => hother ?_).mpr hmem
            exact List.mem_map.mpr ⟨x, hx, hid.trans hvisited.turned.same.1⟩
          obtain ⟨rest', fills', hturns', hsound, horders', hfills⟩ :=
            ih hvisited.sound hrest hnd hturns
          refine ⟨o' :: rest', fills ++ fills', .cons hvisited.turned ?_, hsound, ?_, ?_⟩
          · rwa [← hvisited.capacity]
          · rw [horders', hvisited.orders, List.foldl_cons]
          · rw [hfills, hvisited.fills, List.append_assoc]

end SimulatedBroker

end Emporos
