import Emporos.Backtest.Broker
/-!
# What a bar fills

The open orders of a book are indexed twice, all of them and by
instrument, in the order they were placed. A bar goes through those of its
instrument: `Turned` is what one order's turn can come to, `Turns` the
turns of a list of orders, each with what those ahead of it leave.
-/

namespace Emporos

namespace SimOrder

/-- The order was accepted by the time the bar opened, and a stop is armed
by then. -/
structure Eligible (bar : Candle) (o : SimOrder) : Prop where
  accepted : o.acceptedAt ≤ bar.ts
  armed : o.request.orderType = .stoplossLimit → ∃ t, o.armedAt = some t ∧ t ≤ bar.ts

variable [DecimalContext]

/-- What one order's turn can come to: the order after it, and its fill. -/
inductive Turned (model : BarFillModel) (bar : Candle) (capacity : ℤ) (o : SimOrder) :
    SimOrder → List SimFill → Prop
  | idle :
      (¬ o.Eligible bar ∨ model.priceIfFilled o.request.side o.request.limitPrice bar = .ok none ∨
        min o.remaining capacity ≤ 0) → Turned model bar capacity o o []
  /-- The bar reaches the trigger of a stop, and arms it. -/
  | armed (trigger : Money) : o.request.orderType = .stoplossLimit → o.acceptedAt ≤ bar.ts →
      o.armedAt = none → o.request.triggerPrice = some trigger →
      model.triggers o.request.side bar trigger →
      Turned model bar capacity o { o with armedAt := some bar.closesAt } []
  | filled (fill : SimFill) : o.Eligible bar →
      model.priceIfFilled o.request.side o.request.limitPrice bar = .ok (some fill.price) →
      (fill.quantity : ℤ) = min o.remaining capacity → fill.orderId = o.orderId →
      Turned model bar capacity o (o.afterFill fill.quantity fill.price) [fill]

/-- The turns of orders, in the order they were placed. An exception leaves
the rest without theirs. -/
inductive Turns (model : BarFillModel) (bar : Candle) :
    ℤ → List SimOrder → List SimOrder → List SimFill → Option PyError → Prop
  | nil {capacity : ℤ} : Turns model bar capacity [] [] [] none
  | cons {capacity : ℤ} {o o' : SimOrder} {rest rest' : List SimOrder} {fills fills' : List SimFill}
      {error : Option PyError} :
      Turned model bar capacity o o' fills →
      Turns model bar (capacity - SimFill.total fills) rest rest' fills' error →
      Turns model bar capacity (o :: rest) (o' :: rest') (fills ++ fills') error
  | stop {capacity : ℤ} {orders : List SimOrder} (e : PyError) :
      Turns model bar capacity orders orders [] (some e)

variable {model : BarFillModel} {bar : Candle} {capacity : ℤ} {o o' : SimOrder}
  {orders orders' : List SimOrder} {fills : List SimFill} {error : Option PyError}

/-! ## One turn -/

theorem Turned.same (h : Turned model bar capacity o o' fills) :
    o'.orderId = o.orderId ∧ o'.request = o.request ∧ o'.acceptedAt = o.acceptedAt := by
  cases h with
  | idle => exact ⟨rfl, rfl, rfl⟩
  | armed => exact ⟨rfl, rfl, rfl⟩
  | filled => exact ⟨rfl, rfl, rfl⟩

theorem Turned.filled_eq (h : Turned model bar capacity o o' fills) :
    o'.filled = o.filled + SimFill.total fills := by
  cases h with
  | idle => rfl
  | armed => rfl
  | filled fill => simp [SimFill.total, afterFill]

theorem Turned.owned (h : Turned model bar capacity o o' fills) :
    ∀ fill ∈ fills, fill.orderId = o.orderId := by
  cases h with
  | idle => simp
  | armed => simp
  | filled fill _ _ _ hid => simpa using hid

/-- A turn takes no more than the order wants, nor than is left. -/
theorem Turned.total_le (h : Turned model bar capacity o o' fills) (hremaining : 0 ≤ o.remaining)
    (hcapacity : 0 ≤ capacity) :
    (SimFill.total fills : ℤ) ≤ o.remaining ∧ (SimFill.total fills : ℤ) ≤ capacity := by
  cases h with
  | idle => exact ⟨by simpa using hremaining, by simpa using hcapacity⟩
  | armed => exact ⟨by simpa using hremaining, by simpa using hcapacity⟩
  | filled fill _ _ hquantity _ =>
      have htotal : SimFill.total [fill] = fill.quantity := by simp [SimFill.total]
      rw [htotal, hquantity]
      exact ⟨min_le_left _ _, min_le_right _ _⟩

/-- What an order that the bar crosses is given: what it wants of what is
left. -/
theorem Turned.total_eq (h : Turned model bar capacity o o' fills) (hremaining : 0 ≤ o.remaining)
    (hcapacity : 0 ≤ capacity) (heligible : o.Eligible bar) {price : Money}
    (hprice : model.priceIfFilled o.request.side o.request.limitPrice bar = .ok (some price)) :
    (SimFill.total fills : ℤ) = min o.remaining capacity := by
  cases h with
  | idle hidle =>
      rcases hidle with hnot | hnone | hempty
      · exact absurd heligible hnot
      · rw [hnone] at hprice
        cases hprice
      · have : 0 ≤ min o.remaining capacity := le_min hremaining hcapacity
        simp only [SimFill.total_nil]
        omega
  | armed trigger hstop _ hnone _ _ =>
      obtain ⟨t, ht, -⟩ := heligible.armed hstop
      rw [hnone] at ht
      cases ht
  | filled fill _ _ hquantity _ => simpa [SimFill.total] using hquantity

/-! ## The turns of a list -/

theorem Turns.map_id (h : Turns model bar capacity orders orders' fills error) :
    orders'.map (·.orderId) = orders.map (·.orderId) := by
  induction h with
  | nil => rfl
  | cons hturn _ ih => rw [List.map_cons, List.map_cons, hturn.same.1, ih]
  | stop => rfl

theorem Turns.owned (h : Turns model bar capacity orders orders' fills error) :
    ∀ fill ∈ fills, fill.orderId ∈ orders.map (·.orderId) := by
  induction h with
  | nil => simp
  | cons hturn _ ih =>
      intro fill hfill
      rw [List.map_cons, List.mem_cons]
      rcases List.mem_append.mp hfill with hfill | hfill
      · exact .inl (hturn.owned fill hfill)
      · exact .inr (ih fill hfill)
  | stop => simp

/-- **The fills of a bar are no more than its capacity.** -/
theorem Turns.total_le (h : Turns model bar capacity orders orders' fills error)
    (hremaining : ∀ o ∈ orders, 0 ≤ o.remaining) (hcapacity : 0 ≤ capacity) :
    (SimFill.total fills : ℤ) ≤ capacity := by
  induction h with
  | nil => simpa using hcapacity
  | cons hturn _ ih =>
      have hfirst := (hturn.total_le (hremaining _ (List.mem_cons_self ..)) hcapacity).2
      have hrest := ih (fun o ho => hremaining o (List.mem_cons_of_mem _ ho)) (by omega)
      rw [SimFill.total_append]
      push_cast
      omega
  | stop => simpa using hcapacity

/-- Each order's turn, with what those ahead of it leave: of orders with
distinct ids the fills of one are those of its turn. -/
theorem Turns.turned_of_mem (h : Turns model bar capacity orders orders' fills error)
    (hnd : (orders.map (·.orderId)).Nodup) (ho : o' ∈ orders') :
    ∃ ahead o behind, orders = ahead ++ o :: behind ∧ o'.orderId = o.orderId ∧
      ((o' = o ∧ SimFill.ofOrders [o.orderId] fills = [] ∧ error ≠ none) ∨
        Turned model bar (capacity - SimFill.total (SimFill.ofOrders (ahead.map (·.orderId)) fills)) o o'
          (SimFill.ofOrders [o.orderId] fills)) := by
  induction h with
  | nil => cases ho
  | @cons capacity o₁ o₁' rest rest' fills₁ fills₂ error hturn hturns ih =>
      rw [List.map_cons, List.nodup_cons] at hnd
      obtain ⟨hother, hnd⟩ := hnd
      rcases List.mem_cons.mp ho with rfl | ho
      · refine ⟨[], o₁, rest, rfl, hturn.same.1, .inr ?_⟩
        have hown : SimFill.ofOrders [o₁.orderId] (fills₁ ++ fills₂) = fills₁ := by
          rw [SimFill.ofOrders_append, SimFill.ofOrders_eq_self, SimFill.ofOrders_eq_nil,
            List.append_nil]
          · intro fill hfill hid
            exact hother (List.mem_singleton.mp hid ▸ hturns.owned fill hfill)
          · exact fun fill hfill => List.mem_singleton.mpr (hturn.owned fill hfill)
        have hnone : SimFill.ofOrders (([] : List SimOrder).map (·.orderId)) (fills₁ ++ fills₂) = [] :=
          SimFill.ofOrders_eq_nil fun fill _ => by simp
        rw [hown, hnone, SimFill.total_nil]
        simpa using hturn
      · obtain ⟨ahead, o, behind, rfl, hid, hcase⟩ := ih hnd ho
        have hfirst : o.orderId ≠ o₁.orderId := by
          intro heq
          refine hother ?_
          rw [← heq]
          exact List.mem_map_of_mem (List.mem_append_right _ (List.mem_cons_self ..))
        have hown : SimFill.ofOrders [o.orderId] (fills₁ ++ fills₂) =
            SimFill.ofOrders [o.orderId] fills₂ := by
          rw [SimFill.ofOrders_append, SimFill.ofOrders_eq_nil, List.nil_append]
          intro fill hfill hmem
          exact hfirst ((List.mem_singleton.mp hmem).symm.trans (hturn.owned fill hfill))
        refine ⟨o₁ :: ahead, o, behind, rfl, hid, ?_⟩
        rw [hown]
        refine hcase.imp id fun hturned => ?_
        have hahead : SimFill.total (SimFill.ofOrders ((o₁ :: ahead).map (·.orderId)) (fills₁ ++ fills₂)) =
            SimFill.total fills₁ + SimFill.total (SimFill.ofOrders (ahead.map (·.orderId)) fills₂) := by
          rw [SimFill.ofOrders_append, SimFill.total_append, SimFill.ofOrders_eq_self]
          · congr 2
            refine List.filter_congr fun fill hfill => ?_
            have hne : fill.orderId ≠ o₁.orderId := fun heq => hother (heq ▸ hturns.owned fill hfill)
            simp [hne]
          · intro fill hfill
            rw [List.map_cons, hturn.owned fill hfill]
            exact List.mem_cons_self ..
        rw [hahead]
        push_cast
        rwa [← sub_sub]
  | stop e =>
      obtain ⟨ahead, behind, rfl⟩ := List.append_of_mem ho
      exact ⟨ahead, _, behind, rfl, rfl, .inl ⟨rfl, rfl, by simp⟩⟩

end SimOrder

end Emporos
