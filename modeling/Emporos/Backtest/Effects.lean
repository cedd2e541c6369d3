import Emporos.Backtest.Book
/-!
# What a call does to the book

`Effect` says what a call does to each order: it evolves, by the fills the
call reports under its id, and a new one starts with its own. A stop is
armed by a bar only. Every call on a sound book has an effect.
-/

namespace Emporos

namespace SimOrder

variable {o o' o'' : SimOrder} {m n : ℕ}

theorem Evolves.trans (h : o.Evolves o' m) (h' : o'.Evolves o'' n) : o.Evolves o'' (m + n) where
  orderId := h'.orderId.trans h.orderId
  request := h'.request.trans h.request
  acceptedAt := h'.acceptedAt.trans h.acceptedAt
  filled := by rw [h'.filled, h.filled, Nat.add_assoc]
  closed := by
    intro hclosed
    obtain ⟨rfl, rfl⟩ := h.closed hclosed
    obtain ⟨rfl, rfl⟩ := h'.closed hclosed
    exact ⟨rfl, rfl⟩
  armed := fun t ht => h'.armed t (h.armed t ht)

variable [DecimalContext] {model : BarFillModel} {bar : Candle} {capacity : ℤ} {fills : List SimFill}

/-- A turn of an open order is an evolution of it. -/
theorem Turned.evolves (h : Turned model bar capacity o o' fills) (hopen : o.isOpen = true) :
    o.Evolves o' (SimFill.total fills) where
  orderId := h.same.1
  request := h.same.2.1
  acceptedAt := h.same.2.2
  filled := h.filled_eq
  closed := by
    intro hclosed
    rw [hopen] at hclosed
    cases hclosed
  armed := by
    intro t ht
    cases h with
    | idle => exact ht
    | armed _ _ _ hnone _ _ =>
        rw [hnone] at ht
        cases ht
    | filled => exact ht

end SimOrder

/-- The call is a bar that arms the stop until a time. -/
def BrokerCall.Arms (model : BarFillModel) (c : BrokerCall) (o : SimOrder) (t : Timestamp) : Prop :=
  ∃ bar trigger, c = .matchBar bar ∧ o.request.instrumentId = bar.instrumentId ∧
    o.request.orderType = .stoplossLimit ∧ o.acceptedAt ≤ bar.ts ∧
    o.request.triggerPrice = some trigger ∧ model.triggers o.request.side bar trigger ∧
    t = bar.closesAt

namespace SimulatedBroker

/-- What a call does: `arms` is what it takes to arm a stop. -/
structure Effect (arms : SimOrder → Timestamp → Prop) (b b' : SimulatedBroker) (fills : List SimFill) :
    Prop where
  sound : b'.Sound
  ids : b.orders.map (·.orderId) <+: b'.orders.map (·.orderId)
  old : ∀ o' ∈ b'.orders, o'.orderId ∈ b.orders.map (·.orderId) → ∃ o ∈ b.orders,
    o.Evolves o' (SimFill.total (SimFill.ofOrders [o.orderId] fills)) ∧
      ∀ t, o'.armedAt = some t → o.armedAt = some t ∨ (o.armedAt = none ∧ arms o t)
  new : ∀ o' ∈ b'.orders, o'.orderId ∉ b.orders.map (·.orderId) →
    o'.filled = SimFill.total (SimFill.ofOrders [o'.orderId] fills) ∧ o'.armedAt = none
  known : ∀ fill ∈ fills, fill.orderId ∈ b'.orders.map (·.orderId)

variable {arms : SimOrder → Timestamp → Prop} {b b' b'' : SimulatedBroker} {o o' : SimOrder}
  {fills fills' : List SimFill} {orderId : String}

theorem Effect.refl (h : b.Sound) : Effect arms b b [] where
  sound := h
  ids := List.prefix_rfl
  old := fun o' ho' _ => ⟨o', ho', .refl o', fun _ ht => .inl ht⟩
  new := fun o' ho' hnew => absurd (List.mem_map_of_mem ho') hnew
  known := fun _ hfill => by cases hfill

/-- An order of the book after the call that was there before. -/
theorem Effect.find (h : Effect arms b b' fills) (ho : o ∈ b.orders) :
    ∃ o' ∈ b'.orders, o.Evolves o' (SimFill.total (SimFill.ofOrders [o.orderId] fills)) := by
  have hid : o.orderId ∈ b'.orders.map (·.orderId) := h.ids.subset (List.mem_map_of_mem ho)
  obtain ⟨o', ho', hid'⟩ := List.mem_map.mp hid
  obtain ⟨x, hx, hevolves, -⟩ := h.old o' ho' (hid' ▸ List.mem_map_of_mem ho)
  have hnd : (b.orders.map (·.orderId)).Nodup := h.ids.sublist.nodup h.sound.nodup
  obtain rfl : x = o := Table.eq_of_key hnd hx ho (hevolves.orderId.symm.trans hid')
  exact ⟨o', ho', hevolves⟩

/-- Effects that arm nothing, one after the other. -/
theorem Effect.trans (h : Effect (fun _ _ => False) b b' fills)
    (h' : Effect (fun _ _ => False) b' b'' fills') : Effect (fun _ _ => False) b b'' (fills ++ fills') where
  sound := h'.sound
  ids := h.ids.trans h'.ids
  old := by
    intro o'' ho'' hid
    obtain ⟨o', ho', hevolves', harmed'⟩ := h'.old o'' ho'' (h.ids.subset hid)
    obtain ⟨o, ho, hevolves, harmed⟩ := h.old o' ho' (hevolves'.orderId ▸ hid)
    refine ⟨o, ho, ?_, fun t ht => ?_⟩
    · rw [SimFill.ofOrders_append, SimFill.total_append]
      exact hevolves.trans (hevolves.orderId ▸ hevolves')
    · rcases harmed' t ht with ht | ⟨-, hf⟩
      · exact harmed t ht
      · exact hf.elim
  new := by
    intro o'' ho'' hnew
    by_cases hid : o''.orderId ∈ b'.orders.map (·.orderId)
    · obtain ⟨o', ho', hevolves', harmed'⟩ := h'.old o'' ho'' hid
      obtain ⟨hfilled, hnone⟩ := h.new o' ho' (hevolves'.orderId ▸ hnew)
      constructor
      · rw [hevolves'.filled, hfilled, SimFill.ofOrders_append, SimFill.total_append, hevolves'.orderId]
      · cases harmed : o''.armedAt with
        | none => rfl
        | some t =>
            rcases harmed' t harmed with ht | ⟨-, hf⟩
            · rw [hnone] at ht
              cases ht
            · exact hf.elim
    · obtain ⟨hfilled, hnone⟩ := h'.new o'' ho'' hid
      refine ⟨?_, hnone⟩
      have hearlier : SimFill.ofOrders [o''.orderId] fills = [] := by
        refine SimFill.ofOrders_eq_nil fun fill hfill hmem => hid ?_
        exact List.mem_singleton.mp hmem ▸ h.known fill hfill
      rw [SimFill.ofOrders_append, hearlier, List.nil_append, hfilled]
  known := by
    intro fill hfill
    rcases List.mem_append.mp hfill with hfill | hfill
    · exact h'.ids.subset (h.known fill hfill)
    · exact h'.known fill hfill

theorem Effect.mono {arms' : SimOrder → Timestamp → Prop} (h : Effect arms b b' fills)
    (harms : ∀ o t, arms o t → arms' o t) : Effect arms' b b' fills where
  sound := h.sound
  ids := h.ids
  old := by
    intro o' ho' hid
    obtain ⟨o, ho, hevolves, harmed⟩ := h.old o' ho' hid
    exact ⟨o, ho, hevolves, fun t ht => (harmed t ht).imp id fun h => ⟨h.1, harms o t h.2⟩⟩
  new := h.new
  known := h.known

/-- A new order with its fills. -/
theorem Effect.register (hsound : b'.Sound) (h : b.Sound) (horders : b'.orders = b.orders ++ [o])
    (hid : o.orderId = b.nextOrderId) (hnone : o.armedAt = none)
    (hfilled : o.filled = SimFill.total fills) (howned : ∀ fill ∈ fills, fill.orderId = o.orderId) :
    Effect arms b b' fills where
  sound := hsound
  ids := by
    rw [horders, List.map_append]
    exact List.prefix_append ..
  old := by
    intro o' ho' hold
    rw [horders] at ho'
    rcases List.mem_append.mp ho' with ho' | ho'
    · refine ⟨o', ho', ?_, fun _ ht => .inl ht⟩
      have hother : SimFill.ofOrders [o'.orderId] fills = [] := by
        refine SimFill.ofOrders_eq_nil fun fill hfill hmem => h.nextOrderId_notMem ?_
        rw [← hid, ← howned fill hfill, List.mem_singleton.mp hmem]
        exact hold
      rw [hother]
      exact .refl o'
    · rw [List.mem_singleton.mp ho', hid] at hold
      exact absurd hold h.nextOrderId_notMem
  new := by
    intro o' ho' hnew
    rw [horders] at ho'
    rcases List.mem_append.mp ho' with ho' | ho'
    · exact absurd (List.mem_map_of_mem ho') hnew
    · obtain rfl := List.mem_singleton.mp ho'
      have hown : SimFill.ofOrders [o'.orderId] fills = fills :=
        SimFill.ofOrders_eq_self fun fill hfill => List.mem_singleton.mpr (howned fill hfill)
      rw [hown]
      exact ⟨hfilled, hnone⟩
  known := by
    intro fill hfill
    rw [howned fill hfill, horders]
    exact List.mem_map_of_mem (List.mem_append_right _ (List.mem_singleton_self _))

/-! ## Orders that are cancelled -/

theorem cancelled_sound (h : b.Sound) (ho : o ∈ b.orders) (hopen : o.isOpen = true) :
    (b.cancelled o).Sound :=
  @Sound.put_close b o { o with status := .cancelled } h ho rfl rfl hopen rfl
    ⟨(h.orders o ho).filled_le, fun h => by cases h⟩

theorem cancelled_orders : (b.cancelled o).orders =
    Table.replace SimOrder.orderId { o with status := .cancelled } b.orders := rfl

theorem cancelled_resting : (b.cancelled o).resting = b.resting.filter (· ≠ o.orderId) := rfl

/-- **A cancellation.** -/
theorem cancelled_effect (h : b.Sound) (ho : o ∈ b.orders) (hopen : o.isOpen = true) :
    Effect arms b (b.cancelled o) [] where
  sound := cancelled_sound h ho hopen
  ids := by
    rw [cancelled_orders, Table.map_key_replace]
  old := by
    intro o' ho' _
    rcases Table.mem_replace.mp (cancelled_orders ▸ ho') with ⟨rfl, -⟩ | ⟨ho', -⟩
    · refine ⟨o, ho, ⟨rfl, rfl, rfl, rfl, fun hclosed => ?_, fun _ ht => ht⟩, fun _ ht => .inl ht⟩
      rw [hopen] at hclosed
      cases hclosed
    · exact ⟨o', ho', .refl o', fun _ ht => .inl ht⟩
  new := by
    intro o' ho' hnew
    refine absurd ?_ hnew
    have := List.mem_map_of_mem (f := (·.orderId)) ho'
    rwa [cancelled_orders, Table.map_key_replace] at this
  known := fun _ hfill => by cases hfill

/-! ## The calls -/

variable [DecimalContext] {request : SimOrderRequest} {rejection : Option String} {now : ℕ → Timestamp}
  {model : BarFillModel} {bar : Candle}

theorem submit_effect (h : b.Sound) : Effect arms b (b.submit request rejection now).broker
    (SimEvent.fills (b.submit request rejection now).events) := by
  have hsound (status : OrderUpdateStatus) :
      ({ b.newOrder request (now 0) with status := status } : SimOrder).Sound :=
    ⟨Nat.zero_le _, fun _ => request.quantity_pos⟩
  unfold submit
  by_cases hused : request.tag ∈ b.tags
  · rw [if_pos hused]
    exact .refl h
  · rw [if_neg hused]
    cases rejection with
    | some why =>
        exact .register (h.append rfl rfl (fun _ => rfl) rfl rfl (hsound .rejected)) h rfl rfl rfl rfl fun _ hf => by cases hf
    | none =>
        exact .register (h.register_rest rfl rfl (hsound .working)) h rfl rfl rfl rfl
          fun _ hf => by cases hf

theorem cancel_effect (h : b.Sound) : Effect arms b (b.cancel orderId now).broker
    (SimEvent.fills (b.cancel orderId now).events) := by
  unfold cancel
  cases hfind : b.find orderId with
  | none => exact .refl h
  | some o =>
      dsimp only
      split
      · rename_i hopen
        exact cancelled_effect h (mem_of_find hfind).1 hopen
      · exact .refl h

/-- **The end of a session.** Every order that rests is cancelled. -/
theorem expireEach_spec {ids : List String} {events : List SimEvent} (h : b.Sound)
    (hids : b.resting = ids) :
    Effect (fun _ _ => False) b (expireEach now ids (b, events)).1 [] ∧
      (expireEach now ids (b, events)).1.resting = [] ∧
      SimEvent.fills (expireEach now ids (b, events)).2 = SimEvent.fills events := by
  induction ids generalizing b events with
  | nil => exact ⟨.refl h, hids, rfl⟩
  | cons id rest ih =>
      have hmem : id ∈ (b.orders.filter (·.isOpen)).map (·.orderId) := by
        rw [← h.resting, hids]
        exact List.mem_cons_self ..
      obtain ⟨o, ho, rfl⟩ := List.mem_map.mp hmem
      obtain ⟨ho, hopen⟩ := List.mem_filter.mp ho
      have hnd : (o.orderId :: rest).Nodup := by
        rw [← hids, h.resting]
        exact h.nodup.sublist (List.filter_sublist.map _)
      have hrest : (b.cancelled o).resting = rest := by
        rw [cancelled_resting, hids, List.filter_cons_of_neg (by simp)]
        refine List.filter_eq_self.mpr fun x hx => ?_
        exact decide_eq_true fun heq => (List.nodup_cons.mp hnd).1 (heq ▸ hx)
      rw [expireEach, h.find_of_mem ho]
      obtain ⟨heffect, hnone, hfills⟩ := @ih (b.cancelled o)
        (events ++ [{ o with status := .cancelled }.event (now events.length)
          "expired at the end of the session" none]) (cancelled_sound h ho hopen) hrest
      refine ⟨(cancelled_effect h ho hopen).trans heffect, hnone, hfills.trans ?_⟩
      simp [SimEvent.fills, SimOrder.event]

theorem expireOpenOrders_effect (h : b.Sound) : Effect arms b (b.expireOpenOrders now).broker
    (SimEvent.fills (b.expireOpenOrders now).events) := by
  obtain ⟨heffect, -, hfills⟩ := @expireEach_spec b _ now _ [] h rfl
  have hnone : SimEvent.fills (b.expireOpenOrders now).events = [] := hfills
  rw [hnone]
  exact heffect.mono fun _ _ hf => hf.elim

/-- **After it nothing rests.** -/
theorem closed_of_expireOpenOrders (h : b.Sound) (ho : o ∈ (b.expireOpenOrders now).broker.orders) :
    o.isOpen = false := by
  obtain ⟨heffect, hnone, -⟩ := @expireEach_spec b _ now _ [] h rfl
  have hempty := heffect.sound.resting
  rw [hnone] at hempty
  have hnil := List.map_eq_nil_iff.mp hempty.symm
  simpa using List.filter_eq_nil_iff.mp hnil o ho

/-- **A square-off** is an order that is filled at once. -/
theorem squareOff_effect {instrumentId runId : String} {side : OrderSide} {quantity : ℕ} {price : Money}
    (h : b.Sound) : Effect arms b (b.squareOff instrumentId side quantity price runId now).broker
      (SimEvent.fills (b.squareOff instrumentId side quantity price runId now).events) := by
  unfold squareOff
  cases hmake : SimOrderRequest.make instrumentId side .limit quantity price s!"SQUAREOFF-{b.fills + 1}"
      runId none with
  | error e => exact .refl h
  | ok request =>
      dsimp only
      have hsound : ((b.newOrder request (now 0)).afterFill request.quantity price).Sound :=
        afterFill_sound (by simp [newOrder])
      have hterminal :
          ((b.newOrder request (now 0)).afterFill request.quantity price).status.isTerminal = true := by
        simp [SimOrder.afterFill, newOrder, OrderUpdateStatus.isTerminal]
      -- the order is the last of the book, and the only one of its id
      have hreplace : Table.replace SimOrder.orderId
          ((b.newOrder request (now 0)).afterFill request.quantity price)
          (b.orders ++ [b.newOrder request (now 0)]) =
          b.orders ++ [(b.newOrder request (now 0)).afterFill request.quantity price] := by
        rw [Table.replace, List.map_append, List.map_singleton]
        congr 1
        · refine (List.map_congr_left fun x hx => if_neg fun hid => ?_).trans (List.map_id _)
          exact h.nextOrderId_notMem (List.mem_map.mpr ⟨x, hx, hid⟩)
        · exact congrArg (fun x => [x]) (if_pos rfl)
      obtain ⟨hresting, hrestingIn⟩ := h.nextOrderId_notMem_resting
      have hother {ids : List String} (hids : b.nextOrderId ∉ ids) :
          ids.filter (· ≠ b.nextOrderId) = ids :=
        List.filter_eq_self.mpr fun x hx => decide_eq_true fun heq => hids (heq ▸ hx)
      unfold fill
      dsimp only
      rw [if_pos hterminal]
      refine .register (h.append (o := (b.newOrder request (now 0)).afterFill request.quantity price)
        hreplace (hother hresting) (fun i => ?_) rfl ?_ hsound) h hreplace rfl rfl ?_ ?_
      · show (if i = request.instrumentId then (b.restingIn i).filter (· ≠ b.nextOrderId)
          else b.restingIn i) = b.restingIn i
        split
        · exact hother (hrestingIn i)
        · rfl
      · simp [SimOrder.isOpen, hterminal]
      · simp [SimOrder.afterFill, newOrder, SimEvent.fills, SimOrder.event, SimFill.total, record]
      · intro fill hfill
        have := List.mem_singleton.mp hfill
        rw [this]
        rfl

/-- The orders a bar of an instrument goes through. -/
def working (b : SimulatedBroker) (i : String) : List SimOrder :=
  b.orders.filter fun o => o.isOpen && decide (o.request.instrumentId = i)

omit [DecimalContext] in
theorem mem_working {i : String} :
    o ∈ b.working i ↔ o ∈ b.orders ∧ o.isOpen = true ∧ o.request.instrumentId = i := by
  simp [working, List.mem_filter]

omit [DecimalContext] in
theorem Sound.nodup_working (h : b.Sound) (i : String) : ((b.working i).map (·.orderId)).Nodup :=
  h.nodup.sublist (List.filter_sublist.map _)

/-- **A bar goes through its orders.** -/
theorem matchBar_spec (h : b.Sound) : ∃ orders' fills,
    SimOrder.Turns model bar (model.capacity bar) (b.working bar.instrumentId) orders' fills
        (b.matchBar model bar now).error ∧
      (b.matchBar model bar now).broker.Sound ∧
      (b.matchBar model bar now).broker.orders =
        orders'.foldl (fun rows o => Table.replace SimOrder.orderId o rows) b.orders ∧
      SimEvent.fills (b.matchBar model bar now).events = fills := by
  have hids : b.restingIn bar.instrumentId = (b.working bar.instrumentId).map (·.orderId) :=
    h.restingIn _
  unfold matchBar
  rw [hids]
  have hopen : ∀ o ∈ b.working bar.instrumentId, o ∈ b.orders ∧ o.isOpen = true := fun o ho =>
    ⟨(mem_working.1 ho).1, (mem_working.1 ho).2.1⟩
  obtain ⟨orders', fills, hturned, hsound, horders, hfills⟩ :=
    turns_spec (m := ⟨b, model.capacity bar, []⟩) h hopen (h.nodup_working _)
      (Prod.mk.eta (p := turns model bar now _ _)).symm
  exact ⟨orders', fills, hturned, hsound, horders, hfills⟩

/-- A stop that is armed after a turn was armed before, or by the bar. -/
theorem armed_of_turned {capacity : ℤ} {t : Timestamp} (h : SimOrder.Turned model bar capacity o o' fills)
    (hinstrument : o.request.instrumentId = bar.instrumentId) (ht : o'.armedAt = some t) :
    o.armedAt = some t ∨ (o.armedAt = none ∧ (BrokerCall.matchBar bar).Arms model o t) := by
  cases h with
  | idle => exact .inl ht
  | armed trigger htype haccepted hnone htrigger hfires =>
      exact .inr ⟨hnone, bar, trigger, rfl, hinstrument, htype, haccepted, htrigger, hfires,
        (Option.some.inj ht).symm⟩
  | filled => exact .inl ht

theorem matchBar_effect (h : b.Sound) :
    Effect ((BrokerCall.matchBar bar).Arms model) b (b.matchBar model bar now).broker
      (SimEvent.fills (b.matchBar model bar now).events) := by
  obtain ⟨orders', fills, hturns, hsound, horders, hfills⟩ := @matchBar_spec b _ now model bar h
  have hids : (orders'.map (·.orderId)) = (b.working bar.instrumentId).map (·.orderId) := hturns.map_id
  have hnd : (orders'.map (·.orderId)).Nodup := hids ▸ h.nodup_working _
  have hkeys : (b.matchBar model bar now).broker.orders.map (·.orderId) = b.orders.map (·.orderId) := by
    rw [horders]
    clear horders hturns hids hnd
    generalize b.orders = rows
    induction orders' generalizing rows with
    | nil => rfl
    | cons o rest ih => rw [List.foldl_cons, ih, Table.map_key_replace]
  rw [hfills]
  refine ⟨hsound, hkeys ▸ List.prefix_rfl, fun o' ho' _ => ?_, fun o' ho' hnew => ?_, fun fill hfill => ?_⟩
  · rw [horders] at ho'
    rcases (Table.mem_foldl_replace hnd).mp ho' with ⟨ho', hother⟩ | ⟨ho', -⟩
    · refine ⟨o', ho', ?_, fun _ ht => .inl ht⟩
      have hnone : SimFill.ofOrders [o'.orderId] fills = [] := by
        refine SimFill.ofOrders_eq_nil fun fill hfill hmem => hother ?_
        exact List.mem_singleton.mp hmem ▸ hids ▸ hturns.owned fill hfill
      rw [hnone]
      exact .refl o'
    · obtain ⟨ahead, o, behind, hsplit, -, hcase⟩ := hturns.turned_of_mem (h.nodup_working _) ho'
      have hworking : o ∈ b.working bar.instrumentId :=
        hsplit ▸ List.mem_append_right _ (List.mem_cons_self ..)
      obtain ⟨ho, hopen, hinstrument⟩ := mem_working.1 hworking
      refine ⟨o, ho, ?_⟩
      rcases hcase with ⟨rfl, hnone, -⟩ | hturned
      · rw [hnone]
        exact ⟨.refl o', fun _ ht => .inl ht⟩
      · exact ⟨hturned.evolves hopen, fun t ht => armed_of_turned hturned hinstrument ht⟩
  · exact absurd (hkeys ▸ List.mem_map_of_mem ho') hnew
  · rw [hkeys]
    obtain ⟨o, ho, hid⟩ := List.mem_map.mp (hturns.owned fill hfill)
    exact hid ▸ List.mem_map_of_mem (mem_working.1 ho).1

/-- **Every call has an effect**, and only a bar arms a stop. -/
theorem call_effect {c : BrokerCall} (h : b.Sound) :
    Effect (c.Arms model) b (b.call model c now).broker (SimEvent.fills (b.call model c now).events) := by
  cases c with
  | submit request rejection => exact submit_effect h
  | cancel orderId => exact cancel_effect h
  | matchBar bar => exact matchBar_effect h
  | expireOpenOrders => exact expireOpenOrders_effect h
  | squareOff instrumentId side quantity price runId => exact squareOff_effect h

end SimulatedBroker

end Emporos
