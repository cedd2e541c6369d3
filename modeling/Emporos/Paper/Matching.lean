import Mathlib.Algebra.Order.BigOperators.Group.List
import Emporos.Paper.Exchange
/-!
# What a tick trades

A tick offers a price to some of the orders, and its budget goes to them in
time priority: each takes what it still wants of what the ones ahead of it
leave. `Turns` is the loop of the exchange without its exceptions, which
do not arise on a sound book.
-/

namespace Emporos

/-- The quantity of an order's trades. -/
def BrokerTrade.quantityOf (orderId : String) (trades : List BrokerTrade) : ℕ :=
  ((trades.filter fun t => t.brokerOrderId = orderId).map (·.quantity)).sum

namespace BrokerTrade

variable {orderId : String} {trades trades' : List BrokerTrade} {t : BrokerTrade}

@[simp] theorem quantityOf_nil : quantityOf orderId [] = 0 := rfl

@[simp] theorem quantityOf_append :
    quantityOf orderId (trades ++ trades') = quantityOf orderId trades + quantityOf orderId trades' := by
  simp [quantityOf]

theorem quantityOf_singleton :
    quantityOf orderId [t] = if t.brokerOrderId = orderId then t.quantity else 0 := by
  unfold quantityOf
  split <;> simp [*]

theorem quantityOf_eq_zero (h : ∀ t ∈ trades, t.brokerOrderId ≠ orderId) :
    quantityOf orderId trades = 0 := by
  have hnone : trades.filter (fun t => t.brokerOrderId = orderId) = [] :=
    List.filter_eq_nil_iff.mpr fun t ht => by simpa using h t ht
  simp [quantityOf, hnone]

/-- A trade counts for its order. -/
theorem quantityOf_pos (h : t ∈ trades) : 0 < quantityOf t.brokerOrderId trades := by
  have hmem : t.quantity ∈
      (trades.filter fun u => u.brokerOrderId = t.brokerOrderId).map (·.quantity) :=
    List.mem_map_of_mem (List.mem_filter.mpr ⟨h, by simp⟩)
  exact lt_of_lt_of_le t.quantity_pos (List.single_le_sum (by simp) _ hmem)

end BrokerTrade

namespace SimulatedOrder

/-- An order the exchange can match: it has a limit price, and is filled
for no more than its quantity. -/
structure Sound (o : SimulatedOrder) : Prop where
  priced : o.order.price.isSome
  filled_le : o.order.filledQuantity ≤ o.order.quantity

variable {o : SimulatedOrder}

theorem Sound.remaining_nonneg (h : o.Sound) : 0 ≤ o.remaining := by
  have := h.filled_le
  unfold remaining
  omega

theorem Sound.view_eq (h : o.Sound) : ∃ view, o.view = .ok view ∧ view.remaining = o.remaining := by
  obtain ⟨price, hprice⟩ := Option.isSome_iff_exists.mp h.priced
  exact ⟨_, by rw [SimulatedOrder.view, hprice], rfl⟩

/-- The price at which a tick trades the order, if it does. -/
def offer (P : ExchangePolicies) (tick : Tick) (o : SimulatedOrder) : Option Money :=
  if SimulatedExchange.Eligible tick o ∧ ¬ o.awaitingTrigger then
    o.view.toOption.bind fun view => P.executionPrice view tick
  else none

end SimulatedOrder

namespace SimulatedExchange

theorem share_le (budget : Option ℤ) (remaining : ℤ) : share budget remaining ≤ remaining := by
  cases budget with
  | none => exact le_rfl
  | some left => exact min_le_left _ _

variable [DecimalContext] {P : ExchangePolicies} {tick : Tick} {now : Timestamp}

/-- One order's turn and the trades it makes. -/
inductive Turn (P : ExchangePolicies) (tick : Tick) (now : Timestamp) :
    Option ℤ → SimulatedOrder → SimulatedOrder → Option ℤ → List BrokerTrade → Prop
  /-- Nothing is traded; the trigger may have fired. -/
  | idle {budget : Option ℤ} {o o' : SimulatedOrder} :
      o.offer P tick = none ∨ share budget o.remaining ≤ 0 → o'.id = o.id →
      o'.order.filledQuantity = o.order.filledQuantity → o'.Sound → Turn P tick now budget o o' budget []
  | fill {budget : Option ℤ} {o : SimulatedOrder} {price : Money} {quantity : ℕ} (h : 0 < quantity) :
      o.offer P tick = some price → (quantity : ℤ) = share budget o.remaining → o.Sound →
      Turn P tick now budget o (o.fill now quantity price h).1 (budget.map (· - (quantity : ℤ)))
        [o.trade now quantity price h]

/-- The turns of the orders, in time priority. -/
inductive Turns (P : ExchangePolicies) (tick : Tick) (now : Timestamp) :
    Option ℤ → List SimulatedOrder → List SimulatedOrder → List BrokerTrade → Prop
  | nil {budget : Option ℤ} : Turns P tick now budget [] [] []
  | cons {budget budget' : Option ℤ} {o o' : SimulatedOrder} {rest rest' : List SimulatedOrder}
      {trades trades' : List BrokerTrade} :
      Turn P tick now budget o o' budget' trades → Turns P tick now budget' rest rest' trades' →
      Turns P tick now budget (o :: rest) (o' :: rest') (trades ++ trades')

variable (P tick now) in
/-- On a sound order the loop's body is a turn. -/
theorem visit_turn (budget : Option ℤ) {o : SimulatedOrder} (h : o.Sound) :
    ∃ o' budget' e, visit P tick now budget o = .ok (o', budget', e) ∧
      Turn P tick now budget o o' budget' (e.toList.filterMap (·.trade)) := by
  obtain ⟨view, hview, hremaining⟩ := h.view_eq
  unfold visit
  by_cases heligible : Eligible tick o
  · rw [if_neg (not_not.mpr heligible)]
    by_cases hwaits : o.awaitingTrigger
    · -- the tick may trigger the order and does not fill it
      have hnone : o.offer P tick = none := if_neg fun hboth => hboth.2 hwaits
      simp only [if_pos hwaits, hview, ok_bind]
      by_cases hfires : P.fires view tick
      · have htriggered : o.triggered now = .ok (o.event now { o.order with status := .open } "" none) := by
          simp [SimulatedOrder.triggered, SimulatedOrder.requireWorking, heligible.1]
        simp only [if_pos hfires, htriggered, ok_bind]
        exact ⟨_, _, _, rfl, .idle (.inl hnone) rfl rfl ⟨h.priced, h.filled_le⟩⟩
      · rw [if_neg hfires]
        exact ⟨_, _, _, rfl, .idle (.inl hnone) rfl rfl h⟩
    · have hoffer : o.offer P tick = P.executionPrice view tick := by
        rw [SimulatedOrder.offer, if_pos ⟨heligible, hwaits⟩, hview]
        rfl
      simp only [if_neg hwaits, hview, ok_bind]
      cases hprice : P.executionPrice view tick with
      | none => exact ⟨_, _, _, rfl, .idle (.inl (hoffer.trans hprice)) rfl rfl h⟩
      | some price =>
          simp only [hremaining]
          by_cases hshare : share budget o.remaining ≤ 0
          · rw [if_pos hshare]
            exact ⟨_, _, _, rfl, .idle (.inr hshare) rfl rfl h⟩
          · rw [if_neg hshare]
            have hpos : 0 < share budget o.remaining := not_le.mp hshare
            have hquantity : 0 < (share budget o.remaining).toNat := by omega
            have hfilled : o.filled now (share budget o.remaining) price =
                .ok (o.fill now (share budget o.remaining).toNat price hquantity) := by
              simp [SimulatedOrder.filled, SimulatedOrder.requireWorking, heligible.1, hpos,
                share_le]
            rw [hfilled]
            have hcast : ((share budget o.remaining).toNat : ℤ) = share budget o.remaining := by omega
            refine ⟨_, _, _, rfl, ?_⟩
            have hturn : Turn P tick now budget o _ _ _ :=
              .fill hquantity (hoffer.trans hprice) hcast h
            rwa [hcast] at hturn
  · rw [if_pos heligible]
    exact ⟨_, _, _, rfl, .idle (.inl (if_neg fun hboth => heligible hboth.1)) rfl rfl h⟩

variable {budget budget' : Option ℤ} {o o' : SimulatedOrder} {orders orders' : List SimulatedOrder}
  {trades : List BrokerTrade} {t : BrokerTrade}

variable (P tick now budget) in
/-- On a sound book the exchange raises nothing, and its loop is the turns
of the orders. -/
theorem matchAll_turns (h : ∀ o ∈ orders, o.Sound) :
    ∃ orders' events, matchAll P tick now budget orders = (orders', .ok events) ∧
      Turns P tick now budget orders orders' (events.filterMap (·.trade)) := by
  induction orders generalizing budget with
  | nil => exact ⟨[], [], rfl, .nil⟩
  | cons o rest ih =>
      obtain ⟨o', left, e, hvisit, hturn⟩ := visit_turn P tick now budget (h o (List.mem_cons_self ..))
      obtain ⟨rest', events, hrest, hturns⟩ := ih left fun x hx => h x (List.mem_cons_of_mem _ hx)
      refine ⟨o' :: rest', e.toList ++ events, ?_, ?_⟩
      · simp only [matchAll, hvisit, hrest]
        rfl
      · rw [List.filterMap_append]
        exact .cons hturn hturns

/-! ## What a turn changes -/

theorem Turn.id_eq (h : Turn P tick now budget o o' budget' trades) : o'.id = o.id := by
  cases h with
  | idle _ hid _ _ => exact hid
  | fill _ _ _ _ => rfl

theorem Turn.sound (h : Turn P tick now budget o o' budget' trades) : o'.Sound := by
  cases h with
  | idle _ _ _ hsound => exact hsound
  | fill _ _ hquantity hsound =>
      refine ⟨hsound.priced, ?_⟩
      have hle := share_le budget o.remaining
      have hfilled := hsound.filled_le
      unfold SimulatedOrder.remaining at hquantity hle
      change o.order.filledQuantity + _ ≤ o.order.quantity
      omega

/-- The trades are the order's. -/
theorem Turn.owned (h : Turn P tick now budget o o' budget' trades) (ht : t ∈ trades) :
    t.brokerOrderId = o.id := by
  cases h with
  | idle => cases ht
  | fill =>
      obtain rfl := List.mem_singleton.mp ht
      rfl

/-- An order is filled for what its turn trades. -/
theorem Turn.filled (h : Turn P tick now budget o o' budget' trades) :
    o'.order.filledQuantity = o.order.filledQuantity + BrokerTrade.quantityOf o.id trades := by
  cases h with
  | idle _ _ hfilled _ => exact hfilled
  | @fill price quantity hpos _ _ _ =>
      have hown : (o.trade now quantity price hpos).brokerOrderId = o.id := rfl
      rw [BrokerTrade.quantityOf_singleton, if_pos hown]
      rfl

theorem Turns.map_id (h : Turns P tick now budget orders orders' trades) :
    orders'.map (·.id) = orders.map (·.id) := by
  induction h with
  | nil => rfl
  | cons hturn _ ih => rw [List.map_cons, List.map_cons, hturn.id_eq, ih]

theorem Turns.sound (h : Turns P tick now budget orders orders' trades) :
    ∀ o' ∈ orders', o'.Sound := by
  induction h with
  | nil => exact fun o' ho' => by cases ho'
  | cons hturn _ ih =>
      intro o' ho'
      rcases List.mem_cons.mp ho' with rfl | ho'
      · exact hturn.sound
      · exact ih o' ho'

theorem Turns.owned (h : Turns P tick now budget orders orders' trades) :
    ∀ t ∈ trades, ∃ o ∈ orders, t.brokerOrderId = o.id := by
  induction h with
  | nil => exact fun t ht => by cases ht
  | cons hturn _ ih =>
      intro t ht
      rcases List.mem_append.mp ht with ht | ht
      · exact ⟨_, List.mem_cons_self .., hturn.owned ht⟩
      · obtain ⟨o, ho, hid⟩ := ih t ht
        exact ⟨o, List.mem_cons_of_mem _ ho, hid⟩

/-- Where ids are distinct, each order is filled for what the tick traded
under its id. -/
theorem Turns.filled (h : Turns P tick now budget orders orders' trades)
    (hnd : (orders.map (·.id)).Nodup) :
    ∀ o' ∈ orders', ∃ o ∈ orders, o'.id = o.id ∧
      o'.order.filledQuantity = o.order.filledQuantity + BrokerTrade.quantityOf o.id trades := by
  induction h with
  | nil => exact fun o' ho' => by cases ho'
  | @cons _ _ o o₁ rest rest' trades₁ trades₂ hturn hturns ih =>
      rw [List.map_cons, List.nodup_cons] at hnd
      obtain ⟨hother, hnd⟩ := hnd
      intro o' ho'
      rcases List.mem_cons.mp ho' with rfl | ho'
      · have hnone : BrokerTrade.quantityOf o.id trades₂ = 0 := by
          refine BrokerTrade.quantityOf_eq_zero fun t ht hid => hother ?_
          obtain ⟨x, hx, hxid⟩ := hturns.owned t ht
          exact List.mem_map.mpr ⟨x, hx, hxid.symm.trans hid⟩
        refine ⟨o, List.mem_cons_self .., hturn.id_eq, ?_⟩
        rw [BrokerTrade.quantityOf_append, hnone, hturn.filled, Nat.add_zero]
      · obtain ⟨x, hx, hid, hfilled⟩ := ih hnd o' ho'
        have hnone : BrokerTrade.quantityOf x.id trades₁ = 0 := by
          refine BrokerTrade.quantityOf_eq_zero fun t ht hxid => hother ?_
          exact List.mem_map.mpr ⟨x, hx, hxid.symm.trans (hturn.owned ht)⟩
        refine ⟨x, List.mem_cons_of_mem _ hx, hid, ?_⟩
        rw [BrokerTrade.quantityOf_append, hnone, hfilled, Nat.zero_add]

/-- **The trades of a tick are within its budget.** -/
theorem Turns.spent {left : ℤ} (h : Turns P tick now budget orders orders' trades)
    (hbudget : budget = some left) (hleft : 0 ≤ left) : ((trades.map (·.quantity)).sum : ℤ) ≤ left := by
  induction h generalizing left with
  | nil => simpa using hleft
  | @cons budget budget' o o' rest rest' trades₁ trades₂ hturn _ ih =>
      subst hbudget
      cases hturn with
      | idle => exact ih rfl hleft
      | @fill price quantity hpos _ hquantity _ =>
          have hle : (quantity : ℤ) ≤ left := hquantity ▸ min_le_right _ _
          have hrest : ((trades₂.map (·.quantity)).sum : ℤ) ≤ left - quantity :=
            ih rfl (sub_nonneg.mpr hle)
          have hown : (o.trade now quantity price hpos).quantity = quantity := rfl
          simp only [List.singleton_append, List.map_cons, List.sum_cons, hown]
          linarith

/-! ## Time priority -/

/-- What the orders of a list want of a tick: the rest of those it offers a
price. -/
def wanted (P : ExchangePolicies) (tick : Tick) (orders : List SimulatedOrder) : ℤ :=
  (orders.map fun o => if (o.offer P tick).isSome then o.remaining else 0).sum

/-- A trade the tick has for an order: what the order still wants of what
those ahead of it leave. -/
def Deals (P : ExchangePolicies) (tick : Tick) (now : Timestamp) (budget : Option ℤ)
    (orders : List SimulatedOrder) (t : BrokerTrade) : Prop :=
  ∃ ahead o behind price, ∃ (quantity : ℕ) (h : 0 < quantity), orders = ahead ++ o :: behind ∧
    o.offer P tick = some price ∧
    (quantity : ℤ) = share (budget.map (· - wanted P tick ahead)) o.remaining ∧
    t = o.trade now quantity price h

omit [DecimalContext] in
theorem wanted_nonneg (h : ∀ o ∈ orders, o.Sound) : 0 ≤ wanted P tick orders := by
  refine List.sum_nonneg fun x hx => ?_
  obtain ⟨o, ho, rfl⟩ := List.mem_map.mp hx
  split
  · exact (h o ho).remaining_nonneg
  · exact le_rfl

omit [DecimalContext] in
/-- The first order's trade, or one of the others' on what it leaves. -/
theorem deals_cons : Deals P tick now budget (o :: orders) t ↔
    (∃ price, ∃ (quantity : ℕ) (h : 0 < quantity), o.offer P tick = some price ∧
      (quantity : ℤ) = share budget o.remaining ∧ t = o.trade now quantity price h) ∨
    Deals P tick now (budget.map (· - wanted P tick [o])) orders t := by
  constructor
  · rintro ⟨ahead, x, behind, price, quantity, hpos, horders, hoffer, hquantity, rfl⟩
    cases ahead with
    | nil =>
        obtain ⟨rfl, -⟩ := List.cons.inj horders
        refine .inl ⟨price, quantity, hpos, hoffer, ?_, rfl⟩
        cases budget <;> simpa [wanted] using hquantity
    | cons y ahead =>
        obtain ⟨rfl, hrest⟩ := List.cons.inj horders
        refine .inr ⟨ahead, x, behind, price, quantity, hpos, hrest, hoffer, ?_, rfl⟩
        cases budget <;> simpa [wanted, sub_sub] using hquantity
  · rintro (⟨price, quantity, hpos, hoffer, hquantity, rfl⟩ |
      ⟨ahead, x, behind, price, quantity, hpos, rfl, hoffer, hquantity, rfl⟩)
    · refine ⟨[], o, orders, price, quantity, hpos, rfl, hoffer, ?_, rfl⟩
      cases budget <;> simpa [wanted] using hquantity
    · refine ⟨o :: ahead, x, behind, price, quantity, hpos, rfl, hoffer, ?_, rfl⟩
      cases budget <;> simpa [wanted, sub_sub] using hquantity

omit [DecimalContext] in
/-- Nothing is dealt of an empty budget. -/
theorem not_deals_of_nonpos {left : ℤ} (hleft : left ≤ 0) (h : ∀ o ∈ orders, o.Sound) :
    ¬ Deals P tick now (some left) orders t := by
  rintro ⟨ahead, o, behind, price, quantity, hpos, rfl, -, hquantity, -⟩
  have hwanted : 0 ≤ wanted P tick ahead :=
    wanted_nonneg fun x hx => h x (List.mem_append_left _ hx)
  have hle : share (some (left - wanted P tick ahead)) o.remaining ≤ left - wanted P tick ahead :=
    min_le_right _ _
  rw [Option.map_some] at hquantity
  omega

/-- What a turn leaves for the orders behind it is what the order does not
want. -/
theorem Turn.deals_rest (h : Turn P tick now budget o o' budget' trades)
    (hremaining : 0 ≤ o.remaining) (hsound : ∀ o ∈ orders, o.Sound) :
    Deals P tick now budget' orders t ↔
      Deals P tick now (budget.map (· - wanted P tick [o])) orders t := by
  have hwanted : wanted P tick [o] = if (o.offer P tick).isSome then o.remaining else 0 := by
    simp [wanted]
  have hempty {left left' : ℤ} (hleft : left ≤ 0) (hleft' : left' ≤ 0) :
      Deals P tick now (some left) orders t ↔ Deals P tick now (some left') orders t :=
    iff_of_false (not_deals_of_nonpos hleft hsound) (not_deals_of_nonpos hleft' hsound)
  cases budget with
  | none => cases h <;> rfl
  | some left =>
      rw [Option.map_some, hwanted]
      cases h with
      | idle hidle _ _ _ =>
          by_cases hleft : left ≤ 0
          · refine hempty hleft ?_
            split <;> omega
          · -- the order wants nothing: it has no offer, or is filled
            have hzero : (if (o.offer P tick).isSome then o.remaining else 0) = 0 := by
              rcases hidle with hnone | hshare
              · simp [hnone]
              · have : o.remaining = 0 := by
                  have hmin : min o.remaining left ≤ 0 := hshare
                  omega
                simp [this]
            rw [hzero, sub_zero]
      | @fill price quantity hpos hoffer hquantity _ =>
          have hquantity : (quantity : ℤ) = min o.remaining left := hquantity
          rw [Option.map_some, hoffer, Option.isSome_some, if_pos rfl]
          rcases le_total o.remaining left with hle | hle
          · rw [min_eq_left hle] at hquantity
            rw [hquantity]
          · rw [min_eq_right hle] at hquantity
            exact hempty (by omega) (by omega)

/-- **Time priority.** The tick trades exactly what it deals. -/
theorem Turns.mem_trades (h : Turns P tick now budget orders orders' trades)
    (hsound : ∀ o ∈ orders, o.Sound) : t ∈ trades ↔ Deals P tick now budget orders t := by
  induction h with
  | nil =>
      refine iff_of_false (by simp) ?_
      rintro ⟨ahead, o, behind, price, quantity, hpos, hnil, -⟩
      simp at hnil
  | @cons budget budget' o o' rest rest' trades₁ trades₂ hturn hturns ih =>
      have hrest : ∀ x ∈ rest, x.Sound := fun x hx => hsound x (List.mem_cons_of_mem _ hx)
      have hremaining := (hsound o (List.mem_cons_self ..)).remaining_nonneg
      rw [List.mem_append, deals_cons, ih hrest]
      refine or_congr ?_ (hturn.deals_rest hremaining hrest)
      cases hturn with
      | idle hidle _ _ _ =>
          refine iff_of_false (by simp) ?_
          rintro ⟨price, quantity, hpos, hoffer, hquantity, -⟩
          rcases hidle with hnone | hshare
          · rw [hnone] at hoffer
            cases hoffer
          · omega
      | @fill price quantity hpos hoffer hquantity _ =>
          rw [List.mem_singleton]
          constructor
          · exact fun ht => ⟨price, quantity, hpos, hoffer, hquantity, ht⟩
          · rintro ⟨price', quantity', hpos', hoffer', hquantity', rfl⟩
            obtain rfl : price = price' := Option.some.inj (hoffer.symm.trans hoffer')
            obtain rfl : quantity = quantity' := by omega
            rfl

/-! ## The tick -/

/-- A trade the tick has for the book. -/
def Dealt (P : ExchangePolicies) (x : SimulatedExchange) (tick : Tick) (now : Timestamp)
    (t : BrokerTrade) : Prop :=
  tick.outOfOrder = false ∧ Deals P tick now (P.budget (x.tape.sincePrevious tick).2) x.orders t

/-- What a tick makes of the book, with the trades of its events. -/
structure Ticked (P : ExchangePolicies) (tick : Tick) (now : Timestamp) (x x' : SimulatedExchange)
    (trades : List BrokerTrade) : Prop where
  map_id : x'.orders.map (·.id) = x.orders.map (·.id)
  sound : ∀ o' ∈ x'.orders, o'.Sound
  owned : ∀ t ∈ trades, ∃ o ∈ x.orders, t.brokerOrderId = o.id
  filled : ∀ o' ∈ x'.orders, ∃ o ∈ x.orders, o'.id = o.id ∧
    o'.order.filledQuantity = o.order.filledQuantity + BrokerTrade.quantityOf o.id trades
  mem_trades : ∀ t, t ∈ trades ↔ x.Dealt P tick now t

omit [DecimalContext] in
/-- An order stays on the book, filled for what the tick traded. -/
theorem Ticked.of_mem {x x' : SimulatedExchange} (h : Ticked P tick now x x' trades)
    (hnd : (x.orders.map (·.id)).Nodup) (ho : o ∈ x.orders) :
    ∃ o' ∈ x'.orders, o'.id = o.id ∧
      o'.order.filledQuantity = o.order.filledQuantity + BrokerTrade.quantityOf o.id trades := by
  have hid : o.id ∈ x'.orders.map (·.id) := h.map_id ▸ List.mem_map_of_mem ho
  obtain ⟨o', ho', hid'⟩ := List.mem_map.mp hid
  obtain ⟨y, hy, hyid, hfilled⟩ := h.filled o' ho'
  obtain rfl : y = o := Table.eq_of_key hnd hy ho (hyid.symm.trans hid')
  exact ⟨o', ho', hid', hfilled⟩

variable (P tick now) in
theorem onTick_ticked {x : SimulatedExchange} (hsound : ∀ o ∈ x.orders, o.Sound)
    (hnd : (x.orders.map (·.id)).Nodup) :
    ∃ x' events, x.onTick P tick now = (x', .ok events) ∧
      Ticked P tick now x x' (events.filterMap (·.trade)) := by
  unfold onTick
  by_cases hlate : tick.outOfOrder = true
  · rw [if_pos hlate]
    refine ⟨x, [], rfl, rfl, hsound, by simp, fun o ho => ⟨o, ho, rfl, rfl⟩, fun t => ?_⟩
    simp [Dealt, hlate]
  · rw [if_neg hlate]
    obtain ⟨orders', events, hmatch, hturns⟩ := matchAll_turns P tick now
      (P.budget (x.tape.sincePrevious tick).2) hsound
    refine ⟨⟨orders', (x.tape.sincePrevious tick).1⟩, events, by simp only [hmatch], hturns.map_id,
      hturns.sound, hturns.owned, hturns.filled hnd, fun t => ?_⟩
    rw [hturns.mem_trades hsound, Dealt, Bool.eq_false_iff, and_iff_right hlate]

end SimulatedExchange

end Emporos
