import Emporos.Domain.Signal
/-!
# Charges of an intraday trade

Brokerage, taxes and levies of one executed order from a dated schedule.
Every component is put to the paisa. A trade is refused for two reasons
only: it has no shares, or the schedule has no rate for its exchange.
-/

namespace Emporos

inductive Exchange
  | nse
  | bse
  deriving DecidableEq, Repr

namespace Exchange

def value : Exchange → String
  | nse => "NSE"
  | bse => "BSE"

/-- `Exchange(value)`. -/
def ofValue (value : String) : Except PyError Exchange :=
  if value = nse.value then .ok nse
  else if value = bse.value then .ok bse
  else .error (.valueError s!"'{value}' is not a valid Exchange")

/-- `Exchange(instrument_id.split(":", 1)[0])`. -/
def ofInstrument (instrumentId : String) : Except PyError Exchange :=
  ofValue (String.ofList (instrumentId.toList.takeWhile (· ≠ ':')))

end Exchange

/-- The intraday rates in force. No STT on the buy and no charge for a
delivery: an intraday schedule has neither. -/
structure FeeSchedule where
  /-- The cap for each executed order. -/
  brokerageFlat : Money
  brokeragePercent : Decimal
  brokerageMinimum : Money
  sttSellPercent : Decimal
  exchangeTransactionPercent : Exchange → Option Decimal
  sebiPerCrore : Money
  stampDutyBuyPercent : Decimal
  gstPercent : Decimal
  rates_nonneg : 0 ≤ brokeragePercent ∧ 0 ≤ sttSellPercent ∧ 0 ≤ stampDutyBuyPercent ∧ 0 ≤ gstPercent
  transaction_nonneg : ∀ exchange rate, exchangeTransactionPercent exchange = some rate → 0 ≤ rate
  charges_nonneg : Money.zero ≤ brokerageFlat ∧ Money.zero ≤ brokerageMinimum ∧
    Money.zero ≤ sebiPerCrore
  some_rate : ∃ exchange, (exchangeTransactionPercent exchange).isSome

structure ChargeBreakdown where
  brokerage : Money
  stt : Money
  exchangeTransaction : Money
  sebi : Money
  stampDuty : Money
  gst : Money
  dp : Money

/-- `quantize(Decimal("0.01"), rounding=ROUND_HALF_UP)`: a tie goes away
from zero. -/
def paisa (amount : Decimal) : Money :=
  ⟨(if 0 ≤ amount then ⌊amount * 100 + 1 / 2⌋ else -⌊-amount * 100 + 1 / 2⌋ : ℤ) / 100⟩

theorem paisa_nonneg {amount : Decimal} (h : 0 ≤ amount) : Money.zero ≤ paisa amount := by
  have hpaise : 0 ≤ ⌊amount * 100 + 1 / 2⌋ := Int.floor_nonneg.mpr (by positivity)
  rw [Money.le_iff, Money.zero_amount, paisa, if_pos h]
  positivity

variable [DecimalContext]

def ChargeBreakdown.total (c : ChargeBreakdown) : Money :=
  c.brokerage + c.stt + c.exchangeTransaction + c.sebi + c.stampDuty + c.gst + c.dp

namespace IntradayCharges

def hundred : Decimal := 100

def crore : Decimal := 10000000

/-- A share of the turnover, in percent. -/
def percent (turnover rate : Decimal) : Decimal := (turnover.mul rate).div hundred

def brokerage (schedule : FeeSchedule) (turnover : Decimal) : Money :=
  paisa (max schedule.brokerageMinimum.amount
    (min schedule.brokerageFlat.amount (percent turnover schedule.brokeragePercent)))

def sebi (schedule : FeeSchedule) (turnover : Decimal) : Money :=
  paisa ((turnover.mul schedule.sebiPerCrore.amount).div crore)

/-- What the schedule charges on a turnover at an exchange's rate. -/
def breakdown (schedule : FeeSchedule) (rate : Decimal) (side : OrderSide) (turnover : Decimal) :
    ChargeBreakdown :=
  let brokerage := brokerage schedule turnover
  let transaction := paisa (percent turnover rate)
  let sebi := sebi schedule turnover
  let dp := paisa 0
  { brokerage
    stt := paisa (percent turnover (match side with | .buy => 0 | .sell => schedule.sttSellPercent))
    exchangeTransaction := transaction
    sebi
    stampDuty := paisa (match side with
      | .buy => percent turnover schedule.stampDutyBuyPercent
      | .sell => 0)
    gst := paisa (percent (((brokerage.amount.add transaction.amount).add sebi.amount).add dp.amount)
      schedule.gstPercent)
    dp }

def forTrade (schedule : FeeSchedule) (exchange : Exchange) (side : OrderSide) (quantity : ℕ)
    (price : Money) : Except PyError ChargeBreakdown :=
  if quantity = 0 then .error (.valueError "a trade has a positive quantity")
  else
    match schedule.exchangeTransactionPercent exchange with
    | none => .error (.valueError s!"the schedule has no rate for {exchange.value}")
    | some rate => .ok (breakdown schedule rate side (Decimal.mul price.amount quantity))

variable {schedule : FeeSchedule} {rate turnover : Decimal} {exchange : Exchange} {side : OrderSide}
  {quantity : ℕ} {price : Money}

/-- **When a trade is charged.** -/
theorem forTrade_isOk (hquantity : 0 < quantity) :
    (∃ c, forTrade schedule exchange side quantity price = .ok c) ↔
      (schedule.exchangeTransactionPercent exchange).isSome := by
  rw [forTrade, if_neg hquantity.ne']
  cases schedule.exchangeTransactionPercent exchange with
  | none => simp
  | some rate => simp

section Nonnegative

variable [Decimal.Nonnegative]

theorem percent_nonneg (hturnover : 0 ≤ turnover) (hrate : 0 ≤ rate) : 0 ≤ percent turnover rate :=
  Decimal.nonneg_div (Decimal.nonneg_mul hturnover hrate) (by norm_num [hundred])

/-- A charge is not negative. -/
theorem total_breakdown_nonneg (hrate : 0 ≤ rate) (hturnover : 0 ≤ turnover) :
    Money.zero ≤ (breakdown schedule rate side turnover).total := by
  obtain ⟨-, hstt, hstamp, hgst⟩ := schedule.rates_nonneg
  obtain ⟨-, hminimum, hsebi⟩ := schedule.charges_nonneg
  have hbrokerage : Money.zero ≤ brokerage schedule turnover :=
    paisa_nonneg (le_max_of_le_left hminimum)
  have htransaction : Money.zero ≤ paisa (percent turnover rate) :=
    paisa_nonneg (percent_nonneg hturnover hrate)
  have hlevy : Money.zero ≤ sebi schedule turnover :=
    paisa_nonneg (Decimal.nonneg_div (Decimal.nonneg_mul hturnover hsebi) (by norm_num [crore]))
  have hdp : Money.zero ≤ paisa 0 := paisa_nonneg le_rfl
  have htax := paisa_nonneg (percent_nonneg (Decimal.nonneg_add
    (Decimal.nonneg_add (Decimal.nonneg_add hbrokerage htransaction) hlevy) hdp) hgst)
  have hsum {a b : Money} (ha : Money.zero ≤ a) (hb : Money.zero ≤ b) : Money.zero ≤ a + b :=
    Decimal.nonneg_add ha hb
  cases side with
  | buy =>
      exact hsum (hsum (hsum (hsum (hsum (hsum hbrokerage
        (paisa_nonneg (percent_nonneg hturnover le_rfl))) htransaction) hlevy)
        (paisa_nonneg (percent_nonneg hturnover hstamp))) htax) hdp
  | sell =>
      exact hsum (hsum (hsum (hsum (hsum (hsum hbrokerage
        (paisa_nonneg (percent_nonneg hturnover hstt))) htransaction) hlevy)
        (paisa_nonneg le_rfl)) htax) hdp

theorem total_forTrade_nonneg {c : ChargeBreakdown} (hprice : Money.zero ≤ price)
    (h : forTrade schedule exchange side quantity price = .ok c) : Money.zero ≤ c.total := by
  unfold forTrade at h
  split_ifs at h
  cases hrate : schedule.exchangeTransactionPercent exchange with
  | none =>
      rw [hrate] at h
      cases h
  | some rate =>
      rw [hrate] at h
      obtain rfl := Except.ok.inj h
      exact total_breakdown_nonneg (schedule.transaction_nonneg exchange rate hrate)
        (Decimal.nonneg_mul hprice (by positivity))

end Nonnegative

end IntradayCharges

end Emporos
