import Emporos.Common.Decimal
import Emporos.Core.Errors
import Emporos.Domain.Signal
import Mathlib.Algebra.BigOperators.Group.List.Basic
import Mathlib.Data.List.Sort
/-!
# Option chains, spreads and what they cost

A day's chain as end-of-day data gives it, the spreads that can be built,
the price a fill is assumed to get, and the charges and the margin of a
spread. A spread holds a long option for every short one. Amounts are
exact: the figures of a chain have far fewer digits than the context keeps.
-/

namespace Emporos

namespace Options

/-- A calendar day, by its ordinal: day 1 is a Monday. -/
abbrev Day := ℤ

/-! ## Chains -/

inductive OptionRight
  | put
  | call
  deriving DecidableEq

structure OptionQuote where
  strike : Decimal
  right : OptionRight
  /-- The last price of the day, which means nothing if nothing traded. -/
  close : Decimal
  settle : Decimal
  openInterest : ℕ
  contractsTraded : ℕ
  strike_pos : 0 < strike
  premiums_nonneg : 0 ≤ close ∧ 0 ≤ settle

namespace OptionQuote

variable (q : OptionQuote)

def tradable : Bool := 0 < q.contractsTraded ∧ 0 < q.close

/-- What a position is marked at. -/
def mark : Decimal := if q.tradable then q.close else q.settle

end OptionQuote

structure ExpiryChain where
  expiry : Day
  quotes : List ((Decimal × OptionRight) × OptionQuote)
  /-- The lot size of this expiry's contracts, where it differs. -/
  lotSize : Option ℤ

def ExpiryChain.quote (c : ExpiryChain) (strike : Decimal) (right : OptionRight) :
    Option OptionQuote := c.quotes.lookup (strike, right)

/-- Everything known at one day's close. -/
structure ChainSnapshot where
  day : Day
  underlyingClose : Decimal
  lotSize : ℤ
  strikeStep : Decimal
  tickSize : Decimal
  expiries : List (Day × ExpiryChain)
  /-- The final settlement levels of what expires on this day. -/
  settlements : List (Day × Decimal)
  underlyingClose_pos : 0 < underlyingClose
  strikeStep_pos : 0 < strikeStep
  tickSize_pos : 0 < tickSize
  one_le_lotSize : 1 ≤ lotSize

namespace ChainSnapshot

variable (s : ChainSnapshot)

def chain (expiry : Day) : Option ExpiryChain := s.expiries.lookup expiry

def settlement (expiry : Day) : Option Decimal := s.settlements.lookup expiry

def expiryDates : List Day := (s.expiries.map Prod.fst).insertionSort (· ≤ ·)

def lotFor (expiry : Day) : ℤ :=
  match s.chain expiry with
  | none => s.lotSize
  | some c => c.lotSize.getD s.lotSize

def daysTo (expiry : Day) : ℤ := expiry - s.day

end ChainSnapshot

/-- Where chains come from: the days, oldest first, and the chain at a
day's close. -/
structure ChainSource where
  days : List Day
  snapshot : Day → Option ChainSnapshot
  sorted : days.Pairwise (· < ·)
  day_of_snapshot : ∀ {day s}, snapshot day = some s → s.day = day

/-! ## Spreads -/

structure Leg where
  strike : Decimal
  right : OptionRight
  /-- A short leg is sold, a long one bought. -/
  side : OrderSide
  deriving DecidableEq

structure LegFill where
  leg : Leg
  price : Decimal
  units : ℤ

def LegFill.turnover (f : LegFill) : Decimal := f.price * f.units

/-- A short option, and a long one farther out of the money. -/
structure Vertical where
  right : OptionRight
  shortStrike : Decimal
  longStrike : Decimal
  further_out : match right with
    | .put => longStrike < shortStrike
    | .call => shortStrike < longStrike

namespace Vertical

/-- The constructor of the source. -/
def make (right : OptionRight) (shortStrike longStrike : Decimal) : Except PyError Vertical :=
  match right with
  | .put =>
      if h : longStrike < shortStrike then .ok ⟨.put, shortStrike, longStrike, h⟩
      else .error (.valueError "the long leg must be farther out of the money than the short leg")
  | .call =>
      if h : shortStrike < longStrike then .ok ⟨.call, shortStrike, longStrike, h⟩
      else .error (.valueError "the long leg must be farther out of the money than the short leg")

variable (v : Vertical)

def width : Decimal := |v.shortStrike - v.longStrike|

def legs : List Leg := [⟨v.shortStrike, v.right, .sell⟩, ⟨v.longStrike, v.right, .buy⟩]

/-- How far the short leg is in the money. -/
def depth (underlying : Decimal) : Decimal :=
  match v.right with
  | .put => v.shortStrike - underlying
  | .call => underlying - v.shortStrike

/-- For each unit, what closing costs at expiry. -/
def settlementDebit (underlying : Decimal) : Decimal := max 0 (min v.width (v.depth underlying))

end Vertical

/-- The put's short strike lies below the call's. -/
def Vertical.Below (a b : Vertical) : Prop :=
  a.right = .put → b.right = .call → a.shortStrike < b.shortStrike

instance (a b : Vertical) : Decidable (a.Below b) := by
  unfold Vertical.Below
  infer_instance

/-- One vertical, or a put and a call vertical. -/
structure SpreadPlan where
  expiry : Day
  verticals : List Vertical
  length_pos : 1 ≤ verticals.length
  length_le : verticals.length ≤ 2
  rights : (verticals.map (·.right)).Nodup
  condor : ∀ a ∈ verticals, ∀ b ∈ verticals, a.Below b

namespace SpreadPlan

/-- The constructor of the source. -/
def make (expiry : Day) (verticals : List Vertical) : Except PyError SpreadPlan :=
  if hlength : 1 ≤ verticals.length ∧ verticals.length ≤ 2 then
    if hrights : (verticals.map (·.right)).Nodup then
      if hcondor : ∀ a ∈ verticals, ∀ b ∈ verticals, a.Below b then
        .ok ⟨expiry, verticals, hlength.1, hlength.2, hrights, hcondor⟩
      else .error (.valueError "an iron condor's put short must lie below its call short")
    else .error (.valueError "two verticals of the same right are not a defined structure here")
  else .error (.valueError "a plan is one vertical (credit spread) or two (iron condor)")

variable (p : SpreadPlan)

def legs : List Leg := p.verticals.flatMap Vertical.legs

/-- The wider wing: only one can finish in the money. -/
def maxWidth : Decimal := (p.verticals.map Vertical.width).foldl max 0

def settlementDebit (underlying : Decimal) : Decimal :=
  (p.verticals.map (·.settlementDebit underlying)).sum

end SpreadPlan

/-! ## Fills -/

/-- What a fill is assumed to cost beyond the close. -/
structure SlippageScenario where
  name : String
  ticks : ℕ
  premiumFraction : Decimal
  feeMultiplier : Decimal
  premiumFraction_nonneg : 0 ≤ premiumFraction
  one_le_feeMultiplier : 1 ≤ feeMultiplier

/-- A buy pays above the mark and a sell receives below it, on the tick
grid. -/
def SlippageScenario.fillPrice (c : SlippageScenario) (side : OrderSide) (mark tick : Decimal) :
    Decimal :=
  let slip := c.ticks * tick + c.premiumFraction * mark
  match side with
  | .buy => ⌈(mark + slip) / tick⌉ * tick
  | .sell => max 0 (⌊(mark - slip) / tick⌋ * tick)

def benchmark : SlippageScenario := ⟨"benchmark", 1, 5 / 1000, 1, by norm_num, by norm_num⟩

def adverse : SlippageScenario := ⟨"adverse", 2, 15 / 1000, 3 / 2, by norm_num, by norm_num⟩

def frictionless : SlippageScenario := ⟨"frictionless", 0, 0, 1, by norm_num, by norm_num⟩

/-! ## Charges -/

structure FoFeeSchedule where
  brokerageFlatPerOrder : Decimal
  sttSellPercent : Decimal
  sttExercisePercent : Decimal
  exchangeTransactionPercent : Decimal
  sebiPerCrore : Decimal
  stampDutyBuyPercent : Decimal
  ipftPercent : Decimal
  gstPercent : Decimal

structure FoCharges where
  brokerage : Decimal := 0
  stt : Decimal := 0
  exchange : Decimal := 0
  sebi : Decimal := 0
  stamp : Decimal := 0
  ipft : Decimal := 0
  gst : Decimal := 0

namespace FoCharges

def total (c : FoCharges) : Decimal :=
  c.brokerage + c.stt + c.exchange + c.sebi + c.stamp + c.ipft + c.gst

def scaled (c : FoCharges) (factor : Decimal) : FoCharges :=
  ⟨c.brokerage * factor, c.stt * factor, c.exchange * factor, c.sebi * factor, c.stamp * factor,
    c.ipft * factor, c.gst * factor⟩

def plus (c d : FoCharges) : FoCharges :=
  ⟨c.brokerage + d.brokerage, c.stt + d.stt, c.exchange + d.exchange, c.sebi + d.sebi,
    c.stamp + d.stamp, c.ipft + d.ipft, c.gst + d.gst⟩

end FoCharges

namespace FoCostModel

variable (s : FoFeeSchedule) (feeMultiplier : Decimal)

/-- The charges on one executed order. -/
def order (fill : LegFill) : FoCharges :=
  let turnover := fill.turnover
  let brokerage := s.brokerageFlatPerOrder
  let exchange := turnover * s.exchangeTransactionPercent / 100
  let sebi := turnover * s.sebiPerCrore / 10000000
  let ipft := turnover * s.ipftPercent / 100
  let selling := fill.leg.side = .sell
  let stt := if selling then turnover * s.sttSellPercent / 100 else 0
  let stamp := if selling then 0 else turnover * s.stampDutyBuyPercent / 100
  let gst := (brokerage + exchange + sebi + ipft) * s.gstPercent / 100
  FoCharges.scaled ⟨brokerage, stt, exchange, sebi, stamp, ipft, gst⟩ feeMultiplier

def orders (fills : List LegFill) : FoCharges :=
  fills.foldl (fun total fill => total.plus (order s feeMultiplier fill)) {}

/-- The tax on long legs that settle in the money. -/
def expiryStt (longIntrinsicUnits : Decimal) : FoCharges :=
  FoCharges.scaled { stt := longIntrinsicUnits * s.sttExercisePercent / 100 } feeMultiplier

end FoCostModel

/-! ## Margin -/

/-- The most the position can lose at expiry, before costs. -/
def maxLoss (plan : SpreadPlan) (creditPerUnit : Decimal) (units : ℤ) : Decimal :=
  (plan.maxWidth - creditPerUnit) * units

abbrev MarginEstimator := SpreadPlan → Decimal → ℤ → Decimal

/-- `SpanLikeMargin`: that loss with a buffer. -/
def spanLikeMargin (buffer : {b : Decimal // 0 ≤ b}) : MarginEstimator :=
  fun plan creditPerUnit units => maxLoss plan creditPerUnit units * (1 + buffer)

/-! ## Exits -/

inductive ExitReason
  | stopLoss
  | profitTarget
  | time
  | expiry
  deriving DecidableEq

structure OpenView where
  creditPerUnit : Decimal
  closeDebitPerUnit : Decimal
  daysToExpiry : ℤ

def OpenView.pnlPerUnit (v : OpenView) : Decimal := v.creditPerUnit - v.closeDebitPerUnit

structure ExitRule where
  reason : ExitReason
  fires : OpenView → Bool

/-- The loss has reached a multiple of the credit. -/
def stopLoss (multiple : {m : Decimal // 0 < m}) : ExitRule :=
  ⟨.stopLoss, fun v => multiple * v.creditPerUnit ≤ -v.pnlPerUnit⟩

/-- A fraction of the credit has been kept. -/
def profitTarget (fraction : {f : Decimal // 0 < f ∧ f ≤ 1}) : ExitRule :=
  ⟨.profitTarget, fun v => fraction * v.creditPerUnit ≤ v.pnlPerUnit⟩

def minDaysToExpiry (days : {n : ℕ // 1 ≤ n}) : ExitRule :=
  ⟨.time, fun v => v.daysToExpiry ≤ days.val⟩

abbrev ExitPolicy := List ExitRule

/-- The first rule that fires. -/
def ExitPolicy.decide (policy : ExitPolicy) (view : OpenView) : Option ExitReason :=
  (policy.find? fun rule => rule.fires view).map ExitRule.reason

def standardPolicy (target : {f : Decimal // 0 < f ∧ f ≤ 1}) (stop : Option {m : Decimal // 0 < m})
    (dte : {n : ℕ // 1 ≤ n}) : ExitPolicy :=
  (stop.map stopLoss).toList ++ [profitTarget target, minDaysToExpiry dte]

end Options

end Emporos
