import Emporos.Domain.Candles
import Emporos.Domain.Signal
import Emporos.Marketdata.Session
/-!
# How a bar fills a resting order

Small policies: when a bar crosses a limit, at what price it fills, for how
much in all, and when it fires a trigger. `BarFillModel` is one of each. A
bar known to be incomplete fills nothing and fires nothing.
-/

namespace Emporos

open Timestamp

/-- The nominal span of one bar. -/
def Timeframe.duration : Timeframe → Duration
  | .m1 => minute
  | .m5 => 5 * minute
  | .m15 => 15 * minute
  | .h1 => 60 * minute
  | .d1 => day

/-- When the bar is complete. -/
def Candle.closesAt (bar : Candle) : Timestamp := bar.ts + bar.timeframe.duration

theorem Candle.ts_lt_closesAt (bar : Candle) : bar.ts < bar.closesAt := by
  have hspan : 0 < bar.timeframe.duration := by cases bar.timeframe <;> decide
  exact lt_add_of_pos_right _ hspan

/-- `LimitCrossing`. -/
inductive LimitCrossing
  /-- `ThroughBar`: strictly beyond the limit. -/
  | through
  /-- `TouchBar`: at it or beyond. -/
  | touch
  deriving DecidableEq

namespace LimitCrossing

def crossed (crossing : LimitCrossing) (side : OrderSide) (limit : Money) (bar : Candle) : Bool :=
  match crossing, side with
  | through, .buy => bar.low < limit
  | through, .sell => limit < bar.high
  | touch, .buy => bar.low ≤ limit
  | touch, .sell => limit ≤ bar.high

end LimitCrossing

/-- `TriggerRule`: `TouchTrigger` is the one there is. -/
inductive TriggerRule
  | touch
  deriving DecidableEq

/-- A purchase's trigger fires on the bar's high, a sale's on its low. -/
def TriggerRule.triggered (_rule : TriggerRule) (side : OrderSide) (trigger : Money) (bar : Candle) :
    Bool :=
  match side with
  | .buy => trigger ≤ bar.high
  | .sell => bar.low ≤ trigger

/-- `quantize(_PAISA)` of so many hundredths: more digits than the context
has are an error. -/
def paise (n : ℤ) : Except PyError Decimal :=
  if |n| < 10 ^ Decimal.precision then .ok (n / 100) else .error (.other "InvalidOperation")

/-- `ROUND_UP` and `ROUND_DOWN`: away from zero, and towards it. -/
def awayFromZero (x : ℚ) : ℤ := if 0 ≤ x then ⌈x⌉ else ⌊x⌋

def towardsZero (x : ℚ) : ℤ := if 0 ≤ x then ⌊x⌋ else ⌈x⌉

/-- `FillPrice`. -/
inductive FillPrice
  /-- `AtLimitPrice`. -/
  | atLimit
  /-- `GapAwareSlippage`: the open where that is better, moved against the
  order and never past the limit. -/
  | gapAware (slippageBps : Decimal) (nonneg : 0 ≤ slippageBps)

namespace FillPrice

variable [DecimalContext]

/-- The price of a fill that the crossing rule allows. -/
def priceAt (pricing : FillPrice) (side : OrderSide) (limit : Money) (bar : Candle) : Except PyError Money :=
  match pricing, side with
  | atLimit, _ => .ok limit
  | gapAware slippageBps _, .buy => do
      let reference := (min limit bar.openPrice).amount
      let moved ← paise (awayFromZero
        (100 * reference.mul (Decimal.add 1 (slippageBps.div 10000))))
      return ⟨min limit.amount moved⟩
  | gapAware slippageBps _, .sell => do
      let reference := (max limit bar.openPrice).amount
      let moved ← paise (towardsZero
        (100 * reference.mul (Decimal.sub 1 (slippageBps.div 10000))))
      return ⟨max limit.amount moved⟩

omit [DecimalContext] in
/-- A last step that cannot fail gives the result. -/
theorem eq_of_bind_pure {x : Except PyError Decimal} {f : Decimal → Money} {price : Money}
    (h : (x >>= fun moved => pure (f moved)) = Except.ok price) : ∃ moved, price = f moved := by
  cases x with
  | error e => cases h
  | ok moved => exact ⟨moved, (Except.ok.inj h).symm⟩

/-- **A fill is never worse than the limit.** -/
theorem within_of_priceAt {pricing : FillPrice} {side : OrderSide} {limit price : Money} {bar : Candle}
    (h : pricing.priceAt side limit bar = .ok price) : side.Within limit price := by
  cases pricing with
  | atLimit =>
      obtain rfl := Except.ok.inj h
      cases side <;> exact le_rfl
  | gapAware slippageBps hbps =>
      cases side with
      | buy =>
          obtain ⟨moved, rfl⟩ := eq_of_bind_pure h
          exact Money.le_iff.mpr (min_le_left _ _)
      | sell =>
          obtain ⟨moved, rfl⟩ := eq_of_bind_pure h
          exact Money.le_iff.mpr (le_max_left _ _)

end FillPrice

/-- `BarParticipation`: a share of what the bar traded. -/
structure BarParticipation where
  fraction : Decimal
  fraction_pos : 0 < fraction
  fraction_le : fraction ≤ 1

/-- The policies together: what a bar does to a resting order. -/
structure BarFillModel where
  crossing : LimitCrossing
  price : FillPrice
  liquidity : BarParticipation
  trigger : TriggerRule

namespace BarFillModel

variable [DecimalContext] (model : BarFillModel)

/-- The shares of the bar that the orders, together, may take. -/
def capacity (bar : Candle) : ℤ :=
  if bar.isPartial then 0 else ⌊Decimal.mul bar.volume model.liquidity.fraction⌋

/-- The fill price, or none where the bar does not cross the limit. -/
def priceIfFilled (side : OrderSide) (limit : Money) (bar : Candle) : Except PyError (Option Money) :=
  if bar.isPartial || !model.crossing.crossed side limit bar then .ok none
  else (model.price.priceAt side limit bar).map some

omit [DecimalContext] in
variable (side : OrderSide) (bar : Candle) in
def triggers (trigger : Money) : Bool := !bar.isPartial && model.trigger.triggered side trigger bar

variable {model} {side : OrderSide} {limit price : Money} {bar : Candle}

theorem within_of_priceIfFilled (h : model.priceIfFilled side limit bar = .ok (some price)) :
    side.Within limit price := by
  unfold priceIfFilled at h
  split at h
  · cases h
  · cases hat : model.price.priceAt side limit bar with
    | error e =>
        rw [hat] at h
        cases h
    | ok p =>
        rw [hat] at h
        obtain rfl := Option.some.inj (Except.ok.inj h)
        exact FillPrice.within_of_priceAt hat

/-- An incomplete bar fills nothing. -/
theorem priceIfFilled_of_partial (h : bar.isPartial = true) :
    model.priceIfFilled side limit bar = .ok none := by
  simp [priceIfFilled, h]

theorem capacity_of_partial (h : bar.isPartial = true) : model.capacity bar = 0 := if_pos h

end BarFillModel

end Emporos
