import Emporos.Options.Entry
/-!
# The end-of-day spread backtester

Once a day, at the close: every open spread is managed, settled on its
expiry day or closed when the exit policy says so, and then at most one is
opened. A leg that did not trade blocks an entry and defers an exit.
-/

namespace Emporos

namespace Options

structure BacktestSettings where
  capital : Decimal
  lots : ℕ
  slippage : SlippageScenario
  minContracts : ℕ
  capital_pos : 0 < capital
  one_le : 1 ≤ lots ∧ 1 ≤ minContracts

structure SpreadTrade where
  entryDay : Day
  exitDay : Day
  plan : SpreadPlan
  lots : ℕ
  units : ℤ
  creditPerUnit : Decimal
  closeDebitPerUnit : Decimal
  reason : ExitReason
  grossPnl : Decimal
  /-- Entry and exit together. -/
  charges : Decimal
  margin : Decimal
  maxLoss : Decimal

def SpreadTrade.netPnl (t : SpreadTrade) : Decimal := t.grossPnl - t.charges

structure DayPnl where
  day : Day
  equity : Decimal
  /-- The day's change in equity, marked to the close. -/
  pnl : Decimal
  openPositions : ℕ

/-- `_Open`. -/
structure OpenSpread where
  plan : SpreadPlan
  lots : ℕ
  units : ℤ
  entryDay : Day
  creditPerUnit : Decimal
  entryCharges : FoCharges
  margin : Decimal
  worstCase : Decimal
  lastMarkDebit : Decimal

/-- What the position is worth at its last mark. -/
def OpenSpread.unrealised (held : OpenSpread) : Decimal :=
  (held.creditPerUnit - held.lastMarkDebit) * held.units

/-- What stops a run. -/
inductive RunError
  /-- `MissingSettlement`. -/
  | missingSettlement (expiry day : Day)
  /-- `MissingExpirySnapshot`. -/
  | missingExpirySnapshot (expiry day : Day)
  /-- What the planner raised. -/
  | raised (error : PyError)

/-- `SpreadBacktester`. -/
structure SpreadBacktester where
  chains : ChainSource
  entry : EntryPlanner
  exits : ExitPolicy
  margin : MarginEstimator
  fees : FoFeeSchedule
  settings : BacktestSettings
  depth : DepthPolicy

/-- What the loop keeps. `cash` is what has been realised after costs, less
the entry costs of what is open; `skipped` are the reasons why something
did not happen. -/
structure Books where
  trades : List SpreadTrade
  days : List DayPnl
  skipped : List String
  cash : Decimal
  equity : Decimal
  held : List OpenSpread

structure BacktestResult where
  trades : List SpreadTrade
  days : List DayPnl
  skipped : List String

namespace BacktestResult

def netPnl (r : BacktestResult) : Decimal := (r.trades.map (·.netPnl)).sum

def dailyPnl (r : BacktestResult) : List Decimal := r.days.map (·.pnl)

end BacktestResult

namespace SpreadBacktester

variable (b : SpreadBacktester)

/-! ## Quotes and fills -/

/-- The quote of every leg. -/
def quotes (plan : SpreadPlan) : Option ExpiryChain → Option (List (Leg × OptionQuote))
  | none => none
  | some chain => plan.legs.mapM fun leg => (chain.quote leg.strike leg.right).map fun q => (leg, q)

def fill (leg : Leg) (side : OrderSide) (quote : OptionQuote) (tick : Decimal) (units : ℤ) :
    LegFill :=
  ⟨⟨leg.strike, leg.right, side⟩, b.settings.slippage.fillPrice side quote.close tick, units⟩

def opposite : OrderSide → OrderSide
  | .buy => .sell
  | .sell => .buy

/-- For each unit, what closing costs at the marks. -/
def closeDebit (quotes : List (Leg × OptionQuote)) : Decimal :=
  (quotes.map fun q => if q.1.side = .sell then q.2.mark else -q.2.mark).sum

def orders (fills : List LegFill) : FoCharges :=
  FoCostModel.orders b.fees b.settings.slippage.feeMultiplier fills

/-! ## The open positions -/

/-- `_close`. -/
def close (held : OpenSpread) (day : Day) (exitDebit : Decimal) (exitCharges : FoCharges)
    (reason : ExitReason) (cash : Decimal) : SpreadTrade × Decimal :=
  let gross := (held.creditPerUnit - exitDebit) * held.units
  (⟨held.entryDay, day, held.plan, held.lots, held.units, held.creditPerUnit, exitDebit, reason,
    gross, held.entryCharges.total + exitCharges.total, held.margin, held.worstCase⟩,
    cash + gross - exitCharges.total)

/-- What a long leg is worth at expiry. -/
def longIntrinsic (spot : Decimal) (v : Vertical) : Decimal :=
  max 0 (match v.right with
    | .put => v.longStrike - spot
    | .call => spot - v.longStrike)

/-- `_settle`. -/
def settle (held : OpenSpread) (s : ChainSnapshot) (cash : Decimal) :
    Except RunError (SpreadTrade × Decimal) :=
  match s.settlement held.plan.expiry with
  | none => .error (.missingSettlement held.plan.expiry s.day)
  | some spot =>
      let intrinsic := (held.plan.verticals.map fun v => longIntrinsic spot v * held.units).sum
      let charges := FoCostModel.expiryStt b.fees b.settings.slippage.feeMultiplier intrinsic
      .ok (close held s.day (held.plan.settlementDebit spot) charges .expiry cash)

/-- What managing one spread leads to: a trade, or the spread still open. -/
structure Managed where
  trade : Option SpreadTrade
  held : OpenSpread
  cash : Decimal
  skipped : List String

/-- `_manage`. -/
def manage (held : OpenSpread) (s : ChainSnapshot) (cash : Decimal) (skipped : List String) :
    Except RunError Managed :=
  if s.day = held.plan.expiry then do
    let (trade, cash) ← b.settle held s cash
    return ⟨some trade, held, cash, skipped⟩
  else
    match quotes held.plan (s.chain held.plan.expiry) with
    | none => .ok ⟨none, held, cash, skipped ++ ["unmarked"]⟩
    | some quotes =>
        let debit := closeDebit quotes
        let held := { held with lastMarkDebit := debit }
        match b.exits.decide ⟨held.creditPerUnit, debit, s.daysTo held.plan.expiry⟩ with
        | none => .ok ⟨none, held, cash, skipped⟩
        | some reason =>
            if quotes.all fun q => q.2.tradable then
              let fills := quotes.map fun q =>
                b.fill q.1 (opposite q.1.side) q.2 s.tickSize held.units
              let exitDebit := (fills.map fun f =>
                if f.leg.side = .buy then f.price else -f.price).sum
              let (trade, cash) := close held s.day exitDebit (b.orders fills) reason cash
              .ok ⟨some trade, held, cash, skipped⟩
            else .ok ⟨none, held, cash, skipped ++ ["exit_deferred_untraded_leg"]⟩

/-- Every open spread in turn. -/
def manageAll (s : ChainSnapshot) : List OpenSpread → Books → Except RunError Books
  | [], books => .ok books
  | held :: rest, books => do
      let m ← b.manage held s books.cash books.skipped
      manageAll s rest (match m.trade with
        | none => { books with
            held := books.held ++ [m.held]
            cash := m.cash
            skipped := m.skipped }
        | some trade => { books with
            trades := books.trades ++ [trade]
            cash := m.cash
            skipped := m.skipped })

/-! ## A new position -/

/-- `_enter`. -/
def enter (s : ChainSnapshot) (books : Books) : Except RunError Books :=
  match b.entry s with
  | .error e => .error (.raised e)
  | .ok none => .ok { books with skipped := books.skipped ++ ["no_plan"] }
  | .ok (some plan) =>
      match quotes plan (s.chain plan.expiry) with
      | none => .ok { books with skipped := books.skipped ++ ["not_tradable"] }
      | some quotes =>
          if quotes.any fun q =>
              q.2.contractsTraded < b.settings.minContracts ∨ q.2.tradable = false then
            .ok { books with skipped := books.skipped ++ ["not_tradable"] }
          else
            let units := b.settings.lots * s.lotFor plan.expiry
            let fills := quotes.map fun q => b.fill q.1 q.1.side q.2 s.tickSize units
            let credit := (fills.map fun f =>
              if f.leg.side = .sell then f.price else -f.price).sum
            if credit ≤ 0 then .ok { books with skipped := books.skipped ++ ["no_credit"] }
            else if plan.maxWidth ≤ credit then
              .ok { books with skipped := books.skipped ++ ["credit_beyond_width"] }
            else
              let margin := b.margin plan credit units
              if b.settings.capital + books.cash < margin + (books.held.map (·.margin)).sum then
                .ok { books with skipped := books.skipped ++ ["margin"] }
              else
                let charges := b.orders fills
                .ok { books with
                  held := books.held ++ [⟨plan, b.settings.lots, units, s.day, credit, charges,
                    margin, maxLoss plan credit units, credit⟩]
                  cash := books.cash - charges.total }

/-- An entry, if one more may be open. -/
def enterIfRoom (s : ChainSnapshot) (books : Books) : Except RunError Books :=
  if (books.held.length : ℤ) < b.depth s then b.enter s books
  else
    match b.entry s with
    | .error e => .error (.raised e)
    | .ok none => .ok books
    | .ok (some _) => .ok { books with skipped := books.skipped ++ ["ladder_full"] }

/-! ## The run -/

/-- A position marked at the day's quotes, if every leg has one. -/
def marked (s : ChainSnapshot) (held : OpenSpread) : OpenSpread :=
  match quotes held.plan (s.chain held.plan.expiry) with
  | none => held
  | some quotes => { held with lastMarkDebit := closeDebit quotes }

/-- `_capital_now`, with the marks it takes. -/
def capitalNow (s : ChainSnapshot) (books : Books) : Books :=
  let held := books.held.map (marked s)
  let equity := held.foldl (fun equity p => equity + p.unrealised)
    (b.settings.capital + books.cash)
  { books with
    held := held
    days := books.days ++ [⟨s.day, equity, equity - books.equity, held.length⟩]
    equity := equity }

/-- One day of the loop. -/
def step (books : Books) (day : Day) : Except RunError Books :=
  match b.chains.snapshot day with
  | none => .ok { books with skipped := books.skipped ++ ["no_chain"] }
  | some s =>
      match books.held.find? fun p => p.plan.expiry < day with
      | some p => .error (.missingExpirySnapshot p.plan.expiry day)
      | none => do
          let books ← b.manageAll s books.held { books with held := [] }
          let books ← b.enterIfRoom s books
          return b.capitalNow s books

def start : Books := ⟨[], [], [], 0, b.settings.capital, []⟩

/-- The days of the window. -/
def window (first last : Day) : List Day :=
  b.chains.days.filter fun day => first ≤ day ∧ day ≤ last

def loop (first last : Day) : Except RunError Books :=
  (b.window first last).foldlM b.step b.start

/-- `run`. -/
def run (first last : Day) : Except RunError BacktestResult := do
  let books ← b.loop first last
  return ⟨books.trades, books.days, books.skipped⟩

end SpreadBacktester

end Options

end Emporos
