import Emporos.Domain.Fees
/-!
# What a delivery fill costs

The charges of a delivery trade, and a scenario's slippage and fees over
them. A delivery pays the transaction tax on both sides, and a depository
charge on each sale.
-/

namespace Emporos

/-- The delivery rates in force. -/
structure DeliverySchedule extends FeeSchedule where
  sttBuyPercent : Decimal
  dpChargePerSale : Money
  delivery_nonneg : 0 ≤ sttBuyPercent ∧ Money.zero ≤ dpChargePerSale

namespace DeliveryCharges

variable [DecimalContext]

/-- `_stt_percent`. -/
def sttPercent (schedule : DeliverySchedule) : OrderSide → Decimal
  | .buy => schedule.sttBuyPercent
  | .sell => schedule.sttSellPercent

/-- `_dp_charge`. -/
def dpCharge (schedule : DeliverySchedule) : OrderSide → Decimal
  | .buy => 0
  | .sell => schedule.dpChargePerSale.amount

open IntradayCharges in
/-- What the schedule charges on a turnover at an exchange's rate. -/
def breakdown (schedule : DeliverySchedule) (rate : Decimal) (side : OrderSide) (turnover : Decimal) :
    ChargeBreakdown :=
  let brokerage := brokerage schedule.toFeeSchedule turnover
  let transaction := paisa (percent turnover rate)
  let sebi := sebi schedule.toFeeSchedule turnover
  let dp := paisa (dpCharge schedule side)
  { brokerage
    stt := paisa (percent turnover (sttPercent schedule side))
    exchangeTransaction := transaction
    sebi
    stampDuty := paisa (match side with
      | .buy => percent turnover schedule.stampDutyBuyPercent
      | .sell => 0)
    gst := paisa (percent (((brokerage.amount.add transaction.amount).add sebi.amount).add dp.amount)
      schedule.gstPercent)
    dp }

def forTrade (schedule : DeliverySchedule) (exchange : Exchange) (side : OrderSide) (quantity : ℕ)
    (price : Money) : Except PyError ChargeBreakdown :=
  if quantity = 0 then .error (.valueError "a trade has a positive quantity")
  else
    match schedule.exchangeTransactionPercent exchange with
    | none => .error (.valueError s!"the schedule has no rate for {exchange.value}")
    | some rate => .ok (breakdown schedule rate side (Decimal.mul price.amount quantity))

end DeliveryCharges

namespace Swing

structure CostScenario where
  feeMultiple : Decimal
  slippageBps : Decimal
  feeMultiple_ge : 1 ≤ feeMultiple
  slippageBps_nonneg : 0 ≤ slippageBps

structure SwingCostModel where
  schedule : DeliverySchedule
  scenario : CostScenario

namespace SwingCostModel

variable (costs : SwingCostModel)

def bps : Decimal := 10000

def buyPrice (rawPrice : Decimal) : Decimal := rawPrice * (1 + costs.scenario.slippageBps / bps)

def sellPrice (rawPrice : Decimal) : Decimal := rawPrice * (1 - costs.scenario.slippageBps / bps)

/-- The scenario's fees for an order, in exact arithmetic. -/
def fees (side : OrderSide) (quantity : ℕ) (fillPrice : Decimal) : Except PyError Decimal :=
  (@DeliveryCharges.forTrade Decimal.rational costs.schedule .nse side quantity ⟨fillPrice⟩).map
    fun c => (@ChargeBreakdown.total Decimal.rational c).amount * costs.scenario.feeMultiple

end SwingCostModel

end Swing

end Emporos
