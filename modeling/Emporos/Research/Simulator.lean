import Emporos.Research.Costs
import Emporos.Research.Series
import Mathlib.Data.Finset.Basic
/-!
# The swing portfolio simulation

One pass over the calendar, in exact arithmetic. On each session the orders
decided at the previous close are filled, sells first; the book is marked;
and except on the last session the strategy is asked what it wants from the
next one. On the last session everything still held is sold.

A state carries, next to what the source's has, the fills so far: what was
bought and sold, and the cash before each.
-/

namespace Emporos

namespace Swing

inductive FillPrice
  | open
  | close
  deriving DecidableEq

structure SwingConfig where
  capital : Decimal
  maxPositions : ℕ
  maxSizeMultiple : Decimal
  cashYield : Decimal
  startDay : Option Day
  fill : FillPrice
  cashYield_nonneg : 0 ≤ cashYield
  capital_pos : 0 < capital
  maxPositions_pos : 1 ≤ maxPositions
  maxSizeMultiple_ge : 1 ≤ maxSizeMultiple

structure Intent where
  instrumentId : String
  sizeMultiple : Decimal
  sizeMultiple_pos : 0 < sizeMultiple

/-- What a strategy sees of a position. -/
structure Holding where
  instrumentId : String
  entryIndex : ℕ
  entryDay : Day
  sessionsHeld : ℕ
  entryPrice : Decimal
  entryValue : Decimal
  entryEquity : Decimal

structure DecisionContext where
  day : Day
  index : ℕ
  view : AsOfView
  holdings : List Holding
  equity : Decimal
  tradable : Finset String

/-- A strategy is asked in its own state, which it may change. -/
abbrev SwingStrategy (σ : Type) := σ → DecisionContext → Except PyError (List Intent × σ)

abbrev Membership := String → Day → Bool

structure Trade where
  instrumentId : String
  entryDay : Day
  exitDay : Day
  entryPrice : Decimal
  exitPrice : Decimal
  quantity : ℕ
  fees : Decimal
  netPnl : Decimal

structure Position where
  instrumentId : String
  quantity : ℕ
  entryIndex : ℕ
  entryDay : Day
  entryPrice : Decimal
  entryMultiplier : Decimal
  entryEquity : Decimal
  entryFees : Decimal
  cost : Decimal
  deriving DecidableEq

/-- What a sale brings, and what it costs. -/
structure Proceeds where
  gross : Decimal
  fees : Decimal

/-- A purchase or a sale of a position: the cash before it, and the
positions held after it. -/
structure Fill where
  position : Position
  sale : Option Proceeds
  before : Decimal
  held : ℕ

/-- The cash after a fill. -/
def Fill.after (f : Fill) : Decimal :=
  match f.sale with
  | none => f.before - f.position.cost
  | some sale => f.before + (sale.gross - sale.fees)

structure State where
  cash : Decimal
  positions : List Position
  trades : List Trade
  fees : Decimal
  skipped : ℕ
  fills : List Fill

namespace State

def initial (capital : Decimal) : State := ⟨capital, [], [], 0, 0, []⟩

/-- `state.positions.get(name)`. -/
def position (s : State) (name : String) : Option Position :=
  Table.lookup Position.instrumentId name s.positions

/-- A buy that did not fit, or whose name had no bar. -/
def skip (s : State) : State := { s with skipped := s.skipped + 1 }

/-- The book after a position is bought. -/
def bought (s : State) (p : Position) : State :=
  { s with
    cash := s.cash - p.cost
    fees := s.fees + p.entryFees
    positions := s.positions ++ [p]
    fills := s.fills ++ [⟨p, none, s.cash, s.positions.length + 1⟩] }

/-- The book without a position. -/
def without (s : State) (p : Position) : List Position :=
  s.positions.filter fun q => q.instrumentId ≠ p.instrumentId

/-- The book after a position is sold. -/
def sold (s : State) (p : Position) (day : Day) (sellPrice gross fees : Decimal) : State :=
  { s with
    cash := s.cash + (gross - fees)
    fees := s.fees + fees
    positions := s.without p
    trades := s.trades ++ [⟨p.instrumentId, p.entryDay, day, p.entryPrice, sellPrice, p.quantity,
      p.entryFees + fees, gross - fees - p.cost⟩]
    fills := s.fills ++ [⟨p, some ⟨gross, fees⟩, s.cash, (s.without p).length⟩] }

end State

section Fills

variable (data : SwingDataset) (config : SwingConfig) (costs : SwingCostModel)

/-- `_value`: what a position is worth on a day, at the open or the close. A
name with no bar on the day is valued at its last close. -/
def value (p : Position) (day : Day) (atOpen : Bool) : Except PyError Decimal := do
  let series ← data.find p.instrumentId
  match series.lastOnOrBefore day with
  | none => .error (.other "AssertionError")
  | some bar =>
      let price := if atOpen ∧ bar.day = day then bar.analysis.openPrice.amount
        else bar.analysis.close.amount
      return p.quantity / p.entryMultiplier * price

/-- What the book is worth. -/
def State.equity (s : State) (day : Day) (atOpen : Bool) : Except PyError Decimal := do
  let values ← s.positions.mapM fun p => value data p day atOpen
  return s.cash + values.sum

/-- `_close`: the whole position is sold at a raw price of its session. -/
def close (s : State) (p : Position) (day : Day) (rawPrice multiplier : Decimal) :
    Except PyError State := do
  let shares := p.quantity * multiplier / p.entryMultiplier
  let sellPrice := costs.sellPrice rawPrice
  let whole := max 1 (Decimal.roundHalfEven shares)
  let fees ← costs.fees .sell whole.toNat sellPrice
  return s.sold p day sellPrice (shares * sellPrice) fees

def fillPrice (raw : Candle) : Decimal :=
  match config.fill with
  | .open => raw.openPrice.amount
  | .close => raw.close.amount

/-- One exit. A name that is not held is dropped, and one with no bar waits. -/
def fillExit (day : Day) (s : State) (name : String) : Except PyError State :=
  match s.position name with
  | none => .ok s
  | some p => do
      match ← data.barOn name day with
      | none => return s
      | some bar => close costs s p day (fillPrice config bar.raw) bar.multiplier

def fillExits (day : Day) (s : State) (exits : List String) : Except PyError State :=
  (exits.insertionSort (· ≤ ·)).foldlM (fillExit data config costs day) s

/-- The largest quantity that fits what is allocated, fees included. -/
def affordable (price allocation : Decimal) : ℕ → Except PyError (Option (ℕ × Decimal))
  | 0 => .ok none
  | quantity + 1 => do
      let fees ← costs.fees .buy (quantity + 1) price
      if (quantity + 1) * price + fees ≤ allocation then return some (quantity + 1, fees)
      else affordable price allocation quantity

/-- `_buy`. -/
def buy (s : State) (intent : Intent) (i : ℕ) (day : Day) (rawFill multiplier : Decimal) :
    Except PyError State := do
  let multiple := min intent.sizeMultiple config.maxSizeMultiple
  let equityNow ← s.equity data day (config.fill = .open)
  let allocation := min (equityNow * multiple / config.maxPositions) s.cash
  let price := costs.buyPrice rawFill
  let quantity := if 0 < price then ⌊allocation / price⌋.toNat else 0
  match ← affordable costs price allocation quantity with
  | none => return s.skip
  | some (quantity, fees) =>
      return s.bought ⟨intent.instrumentId, quantity, i, day, price, multiplier, equityNow, fees,
        quantity * price + fees⟩

def fillEntries (i : ℕ) (day : Day) (s : State) : List Intent → Except PyError State
  | [] => .ok s
  | intent :: intents =>
      if (s.position intent.instrumentId).isSome then fillEntries i day s intents
      else if config.maxPositions ≤ s.positions.length then .ok s
      else do
        match ← data.barOn intent.instrumentId day with
        | none => fillEntries i day s.skip intents
        | some bar =>
            let s' ← buy data config costs s intent i day (fillPrice config bar.raw) bar.multiplier
            fillEntries i day s' intents

/-- What is still held is sold at its last close. -/
def liquidateOne (day : Day) (s : State) (name : String) : Except PyError State :=
  match s.position name with
  | none => .error (.other "KeyError")
  | some p => do
      let series ← data.find name
      match series.lastOnOrBefore day with
      | none => .error (.other "AssertionError")
      | some bar => close costs s p day bar.raw.close.amount bar.multiplier

def liquidate (day : Day) (s : State) : Except PyError State :=
  ((s.positions.map (·.instrumentId)).insertionSort (· ≤ ·)).foldlM (liquidateOne data costs day) s

end Fills

section Run

variable (data : SwingDataset) (config : SwingConfig) (costs : SwingCostModel)
  (membership : Membership)

/-- The names with a bar on a day that are members. -/
def tradable (day : Day) : Finset String :=
  ((data.series.filter fun s => (s.barOn day).isSome ∧ membership s.instrumentId day).map
    (·.instrumentId)).toFinset

def holding (i : ℕ) (p : Position) : Holding :=
  ⟨p.instrumentId, p.entryIndex, p.entryDay, i - p.entryIndex, p.entryPrice * p.entryMultiplier,
    p.quantity * p.entryPrice, p.entryEquity⟩

/-- What was decided at a close, for the next session. -/
structure Orders (σ : Type) where
  exits : List String
  entries : List Intent
  strategy : σ

variable {σ : Type} (strategy : SwingStrategy σ)

/-- `_decide`. -/
def decide (s : State) (i : ℕ) (day : Day) (equity : Decimal) (state : σ) :
    Except PyError (Orders σ) := do
  let tradable := tradable data membership day
  let context : DecisionContext :=
    ⟨day, i, data.asOf day, s.positions.map (holding i), equity, tradable⟩
  let (desired, state) ← strategy state context
  let intents := desired.take config.maxPositions
  match intents.find? fun intent => intent.instrumentId ∉ data.instrumentIds with
  | some intent => .error (.valueError
      s!"the strategy wants {intent.instrumentId}, which is not in the data")
  | none =>
      let held := s.positions.map (·.instrumentId)
      let wanted := intents.map (·.instrumentId)
      return ⟨held.filter (· ∉ wanted),
        intents.filter fun intent => intent.instrumentId ∉ held ∧ intent.instrumentId ∈ tradable,
        state⟩

/-- A session of a run: the book after its fills, the book at its close and
what that was worth. They differ on the last session only. -/
structure Session where
  day : Day
  filled : State
  closed : State
  equity : Decimal

/-- The cash, carried into a session behind the first. -/
def State.carried (growth : Decimal) (first i : ℕ) (s : State) : State :=
  if first < i then { s with cash := s.cash * growth } else s

/-- The sessions of a run from one on. -/
def sessionsFrom (growth : Decimal) (first : ℕ) : ℕ → List Day → State → Orders σ →
    Except PyError (List Session)
  | _, [], _, _ => .ok []
  | i, day :: days, s, orders => do
      let exited ← fillExits data config costs day (s.carried growth first i) orders.exits
      let filled ← fillEntries data config costs i day exited
        (orders.entries.take config.maxPositions)
      if days = [] then
        let closed ← liquidate data costs day filled
        let equity ← closed.equity data day false
        return [⟨day, filled, closed, equity⟩]
      else
        let equity ← filled.equity data day false
        let orders ← decide data config membership strategy filled i day equity orders.strategy
        let sessions ← sessionsFrom growth first (i + 1) days filled orders
        return ⟨day, filled, filled, equity⟩ :: sessions

/-- What a simulation produced, with its sessions. -/
structure SwingRun where
  days : List Day
  equity : List Decimal
  investedDays : ℕ
  trades : List Trade
  capital : Decimal
  fees : Decimal
  skippedEntries : ℕ
  investedFlags : List Bool
  sessions : List Session

/-- `_first_index`. -/
def firstIndex (calendar : List Day) : Except PyError ℕ :=
  match config.startDay with
  | none => .ok 0
  | some start =>
      match calendar.findIdx? (start ≤ ·) with
      | none => .error (.valueError s!"the data has no session on or after {start}")
      | some index => .ok index

/-- The book at the end of some sessions. -/
def lastState (sessions : List Session) : State :=
  (sessions.getLast?.map (·.closed)).getD (.initial config.capital)

/-- `SwingSimulator.run`. `root` is the power `1 / 252`, which Decimal
arithmetic computes and the rationals do not have. -/
def run (root : Decimal → Decimal) (initial : σ) : Except PyError SwingRun :=
  if data.calendar = [] then .error (.valueError "there are no sessions to simulate")
  else do
    let first ← firstIndex config data.calendar
    let days := data.calendar.drop first
    let sessions ← sessionsFrom data config costs membership strategy (root (1 + config.cashYield))
      first first days (.initial config.capital) ⟨[], [], initial⟩
    let flags := sessions.map fun s => !s.closed.positions.isEmpty
    let last := lastState config sessions
    return ⟨days, sessions.map (·.equity), flags.count true, last.trades, config.capital, last.fees,
      last.skipped, flags, sessions⟩

end Run

end Swing

end Emporos
