import Emporos.Paper.Exchange
/-!
# The policies there are

The fill, liquidity and trigger policies an exchange may be built with. A
fill is never worse than the limit: a slipped price is taken only where the
rounded distance to the limit says so, and rounding keeps its sign.
-/

namespace Emporos

namespace Paper

/-- `PriceCrossing`. -/
inductive Crossing
  | touch
  | through

/-- `FillPricing`. -/
inductive Pricing
  | atLimit
  | atTrade (adverse : Money) (nonneg : Money.zero ≤ adverse)

/-- `LiquidityModel`. -/
inductive Liquidity
  | full
  | participation (rate : Decimal) (rate_pos : 0 < rate) (rate_le : rate ≤ 1)
  | capped (shares : ℕ) (shares_pos : 0 < shares)

/-- `TriggerRule`. -/
inductive Trigger
  | stop

variable [DecimalContext]

def Crossing.crosses : Crossing → WorkingOrder → Money → Bool
  | touch => touchCrossing
  | through => throughCrossing

def Pricing.price : Pricing → WorkingOrder → Money → Money
  | atLimit => atLimitPrice
  | atTrade adverse _ => atTradePrice adverse

def Liquidity.budget : Liquidity → Option ℕ → Option ℤ
  | full => fullLiquidity
  | participation rate _ _ => participationLiquidity rate
  | capped shares _ => cappedLiquidity shares

def Trigger.fires : Trigger → WorkingOrder → Tick → Bool
  | stop => stopTrigger

/-- A price with an edge is within the limit. -/
theorem within_of_edge [Decimal.Lawful] [Decimal.Positive] {side : OrderSide} {limit price : Money}
    (h : 0 ≤ edge side limit price) : side.Within limit price := by
  unfold edge Decimal.mul Decimal.sub at h
  have hsigned := Decimal.nonneg_of_round_nonneg h
  cases side with
  | buy =>
      rw [OrderSide.direction, Int.cast_one, mul_one] at hsigned
      have := Decimal.nonneg_of_round_nonneg hsigned
      exact Money.le_iff.mpr (by linarith)
  | sell =>
      rw [OrderSide.direction, Int.cast_neg, Int.cast_one, mul_neg_one, ← Decimal.Lawful.round_neg]
        at hsigned
      have := Decimal.nonneg_of_round_nonneg hsigned
      exact Money.le_iff.mpr (by linarith)

/-- **No policy fills worse than the limit.** -/
theorem Pricing.within [Decimal.Lawful] [Decimal.Positive] (pricing : Pricing) (order : WorkingOrder)
    (price : Money) : order.side.Within order.limitPrice (pricing.price order price) := by
  have hlimit : order.side.Within order.limitPrice order.limitPrice := by
    cases order.side <;> exact le_rfl
  cases pricing with
  | atLimit => exact hlimit
  | atTrade adverse hadverse =>
      simp only [Pricing.price, atTradePrice]
      split
      · rename_i hedge
        exact within_of_edge hedge
      · exact hlimit

/-- No budget is below nothing. -/
theorem Liquidity.budget_nonneg [Decimal.Positive] (liquidity : Liquidity)
    (traded : Option ℕ) {left : ℤ} (h : liquidity.budget traded = some left) : 0 ≤ left := by
  cases liquidity with
  | full => cases h
  | participation rate rate_pos _ =>
      cases traded with
      | none =>
          obtain rfl := Option.some.inj h
          exact le_rfl
      | some volume =>
          obtain rfl := Option.some.inj h
          refine Int.floor_nonneg.mpr (Decimal.Positive.round_nonneg ?_)
          exact mul_nonneg (Nat.cast_nonneg volume) rate_pos.le
  | capped shares _ =>
      obtain rfl := Option.some.inj h
      exact Int.natCast_nonneg shares

end Paper

/-- The policies of the module, one of each kind, and a latency. -/
structure FillPolicies where
  crossing : Paper.Crossing
  pricing : Paper.Pricing
  liquidity : Paper.Liquidity
  trigger : Paper.Trigger
  latency : Duration
  latency_nonneg : 0 ≤ latency

/-- What an exchange is built with of them. -/
def FillPolicies.exchange [DecimalContext] (policies : FillPolicies) : ExchangePolicies where
  executionPrice := Paper.limitFill policies.crossing.crosses policies.pricing.price
  budget := policies.liquidity.budget
  fires := policies.trigger.fires
  latency := policies.latency
  latency_nonneg := policies.latency_nonneg

end Emporos
