import Emporos.Marketdata.Session
import Emporos.Common.Decimal
/-!
# The event trader's risk rules

A proposal is sized from its stop, and then every rule reads it against a
snapshot of the book. It is approved only if none refuses. A refusal is given
by the name of its rule; the sentence it carries is read by nobody.
-/

namespace Emporos

namespace EventTrader

open Timestamp

inductive Side
  | long
  | short
  deriving DecidableEq

/-- Cash squared off on the day, cash delivery, or a bought option. -/
inductive Product
  | intraday
  | swing
  | option
  deriving DecidableEq

structure RiskLimits where
  cashRiskPerTrade : Decimal
  optionPremiumPerTrade : Decimal
  dailyLoss : Decimal
  totalLoss : Decimal
  openRisk : Decimal
  intradayPositionValue : Decimal
  swingPositionValue : Decimal
  intradayStopPct : Decimal
  swingStopPct : Decimal
  maxIntradayPositions : ℕ
  maxSwingPositions : ℕ
  noIntradayEntryAfter : Duration
  sessionOpen : Duration

/-- `RiskLimits()`. -/
def RiskLimits.standard : RiskLimits where
  cashRiskPerTrade := 2000
  optionPremiumPerTrade := 5000
  dailyLoss := 5000
  totalLoss := 25000
  openRisk := 25000
  intradayPositionValue := 50000
  swingPositionValue := 25000
  intradayStopPct := 5
  swingStopPct := 12
  maxIntradayPositions := 3
  maxSwingPositions := 4
  noIntradayEntryAfter := (14 * 60 + 45) * minute
  sessionOpen := (9 * 60 + 15) * minute

/-- What is wanted, before any size. -/
structure EntryProposal where
  name : String
  product : Product
  side : Side
  entryPrice : Decimal
  stopPrice : Option Decimal
  at_ : Timestamp
  lotSize : ℕ
  entryPrice_pos : 0 < entryPrice
  lotSize_pos : 1 ≤ lotSize

structure OpenPosition where
  name : String
  product : Product
  side : Side
  quantity : ℕ
  entryPrice : Decimal
  stopPrice : Option Decimal
  risk : Decimal
  markedPnl : Decimal

/-- Everything the rules may read. -/
structure RiskSnapshot where
  now : Timestamp
  startingCapital : Decimal
  realizedTotal : Decimal
  realizedToday : Decimal
  openPositions : List OpenPosition
  postureScale : Decimal

structure Sized where
  quantity : ℕ
  positionValue : Decimal
  risk : Decimal
  quantity_pos : 1 ≤ quantity

inductive RiskDecision
  | approved (sized : Sized)
  | refused (rules : List String)

variable [DecimalContext]

/-- Amounts added one after the other. -/
def total (amounts : List Decimal) : Decimal := amounts.foldl Decimal.add 0

namespace RiskSnapshot

variable (s : RiskSnapshot)

def openRisk : Decimal := total (s.openPositions.map (·.risk))

def openPnl : Decimal := total (s.openPositions.map (·.markedPnl))

def holds (name : String) : Bool := s.openPositions.any fun p => p.name = name

def count (products : List Product) : ℕ :=
  (s.openPositions.filter fun p => p.product ∈ products).length

end RiskSnapshot

/-- A rule, and whether it refuses. -/
structure RiskRule where
  name : String
  refuses : EntryProposal → Sized → RiskSnapshot → Bool

section Rules

variable (limits : RiskLimits)

/-- `TotalLossKill.tripped`. -/
def killTripped (s : RiskSnapshot) : Bool :=
  (s.realizedTotal.add s.openPnl) ≤ limits.totalLoss.neg

def totalLossKill : RiskRule := ⟨"total_loss_kill", fun _ _ s => killTripped limits s⟩

/-- A position that has run past its stop is counted at the stop. -/
def dailyLossHalt : RiskRule where
  name := "daily_loss_halt"
  refuses _ _ s :=
    let marked := total (s.openPositions.map fun p => max p.markedPnl p.risk.neg)
    s.realizedToday.add marked ≤ limits.dailyLoss.neg

def openRiskCap : RiskRule where
  name := "open_risk_cap"
  refuses _ sized s := limits.openRisk < s.openRisk.add sized.risk

def stopPct : Product → Decimal
  | .intraday => limits.intradayStopPct
  | _ => limits.swingStopPct

def stopWidth : RiskRule where
  name := "stop_width"
  refuses p _ _ :=
    match p.product, p.stopPrice with
    | .option, _ => false
    | _, none => false
    | product, some stop =>
        stopPct limits product < (((p.entryPrice.sub stop).abs).div p.entryPrice).mul 100

def stopSide : RiskRule where
  name := "stop_side"
  refuses p _ _ :=
    match p.product, p.stopPrice, p.side with
    | .option, _, _ => false
    | _, none, _ => true
    | _, some stop, .long => p.entryPrice ≤ stop
    | _, some stop, .short => stop ≤ p.entryPrice

def entryWindow : RiskRule where
  name := "entry_window"
  refuses p _ _ := p.product = .intraday ∧
    (limits.noIntradayEntryAfter ≤ localTime p.at_ ∨ localTime p.at_ < limits.sessionOpen ∨
      ¬ SessionWindow.weekdays (sessionDate p.at_))

def onePositionPerName : RiskRule := ⟨"one_position_per_name", fun p _ s => s.holds p.name⟩

/-- What a product is counted with, and how many it may be. -/
def counted : Product → List Product
  | .intraday => [.intraday]
  | _ => [.swing, .option]

def maxOf : Product → ℕ
  | .intraday => limits.maxIntradayPositions
  | _ => limits.maxSwingPositions

def maxPositions : RiskRule where
  name := "max_positions"
  refuses p _ s := maxOf limits p.product ≤ s.count (counted p.product)

def positionValue : Product → Decimal
  | .intraday => limits.intradayPositionValue
  | _ => limits.swingPositionValue

def positionValueCap : RiskRule where
  name := "position_value_cap"
  refuses p sized _ := p.product ≠ .option ∧ positionValue limits p.product < sized.positionValue

def noNakedOptionSelling : RiskRule where
  name := "no_naked_option_selling"
  refuses p _ _ := p.product = .option ∧ p.side ≠ .long

def swingNeedsDelivery : RiskRule where
  name := "swing_long_only"
  refuses p _ _ := p.product = .swing ∧ p.side = .short

def postureHold : RiskRule where
  name := "posture_hold"
  refuses _ _ s := s.postureScale ≤ 0

/-- `standard_rules`: what ends the track first, then the day, then the idea,
then the book. -/
def standardRules : List RiskRule :=
  [totalLossKill limits, dailyLossHalt limits, postureHold, noNakedOptionSelling, swingNeedsDelivery,
    stopSide, stopWidth limits, entryWindow limits, onePositionPerName, maxPositions limits,
    positionValueCap limits, openRiskCap limits]

/-- `floor_units`. -/
def floorUnits (amount unit : Decimal) : ℤ := ⌊amount.div unit⌋

/-- A quantity of at least one, with what it is worth and risks. -/
def sizedOf (quantity : ℤ) (value risk : ℕ → Decimal) : Option Sized :=
  if h : 1 ≤ quantity.toNat then some ⟨quantity.toNat, value quantity.toNat, risk quantity.toNat, h⟩
  else none

/-- `_size_option`: whole lots whose premium fits the budget. -/
def sizeOption (p : EntryProposal) (scale : Decimal) : Option Sized :=
  let perLot := p.entryPrice.mul p.lotSize
  let lots := floorUnits (limits.optionPremiumPerTrade.mul scale) perLot
  if lots < 1 then none
  else
    let cost (units : ℕ) := p.entryPrice.mul units
    sizedOf (lots * p.lotSize) cost cost

/-- `size`: the quantity, or the rule that refuses one. -/
def size (p : EntryProposal) (s : RiskSnapshot) : Sized ⊕ String :=
  let scale := min s.postureScale 1
  if scale ≤ 0 then .inr "posture_hold"
  else if p.product = .option then ((sizeOption limits p scale).map .inl).getD (.inr "sizing")
  else
    match p.stopPrice with
    | none => .inr "sizing"
    | some stop =>
        if stop = p.entryPrice then .inr "sizing"
        else
          let distance := (p.entryPrice.sub stop).abs
          let quantity := min (floorUnits (limits.cashRiskPerTrade.mul scale) distance)
            (floorUnits (positionValue limits p.product) p.entryPrice)
          ((sizedOf quantity (fun n => p.entryPrice.mul n) fun n => distance.mul n).map .inl).getD
            (.inr "sizing")

/-- `review`: every refusal, or the size. -/
def review (p : EntryProposal) (s : RiskSnapshot) : RiskDecision :=
  match size limits p s with
  | .inr rule => .refused [rule]
  | .inl sized =>
      let refusals := (standardRules limits).filter fun rule => rule.refuses p sized s
      if refusals = [] then .approved sized else .refused (refusals.map (·.name))

end Rules

end EventTrader

end Emporos
