import Emporos.EventTrader.Fills
/-!
# The event-driven replay

Events go one after the other through a decider, the risk rules, the fills
and the costs. A trade's whole path is simulated when its order is placed, so
the book knows of each trade when it is entered and when it leaves; what the
rules see at a moment is read off these times.
-/

namespace Emporos

namespace EventTrader

open Timestamp

inductive Instrument
  | cashIntraday
  | cashSwing
  | call
  | put
  deriving DecidableEq

inductive Scenario
  | benchmark
  | adverse

structure MarketEvent where
  eventId : String
  instrumentId : String
  symbol : String
  publishedAt : Timestamp
  usableFrom : Timestamp
  kind : String
  category : String
  subject : String
  text : String

/-- What the models want. -/
structure TradePlan where
  instrument : Instrument
  side : Side
  stopPct : Decimal
  targetPct : Decimal
  holdDays : ℤ

inductive Verdict
  | trade
  | notMaterial
  | belowThreshold
  | noHorizon
  | panelDisagrees
  | judgeNo
  | arbiterVeto
  | stageError
  deriving DecidableEq

def Verdict.value : Verdict → String
  | trade => "trade"
  | notMaterial => "not_material"
  | belowThreshold => "below_threshold"
  | noHorizon => "no_horizon"
  | panelDisagrees => "panel_disagrees"
  | judgeNo => "judge_no"
  | arbiterVeto => "arbiter_veto"
  | stageError => "stage_error"

@[ext] structure PipelineDecision where
  verdict : Verdict
  plan : Option TradePlan

/-- What a cost model needs of a round trip. -/
structure TradeLeg where
  name : String
  instrument : Instrument
  product : Product
  side : Side
  quantity : ℕ
  entryTs : Timestamp
  entryPrice : Decimal
  exitTs : Timestamp
  exitPrice : Decimal

/-- One trade, from its entry to its exit. -/
structure TradeRecord where
  eventId : String
  name : String
  symbol : String
  instrument : Instrument
  product : Product
  side : Side
  quantity : ℕ
  entryTs : Timestamp
  entryPrice : Decimal
  exitTs : Timestamp
  exitPrice : Decimal
  exitReason : ExitReason
  stopPrice : Option Decimal
  risk : Decimal
  grossPnl : Decimal
  costBenchmark : Decimal
  costAdverse : Decimal
  tokenCostInr : Decimal

/-- What a run counts; a counter is the list of what it counted. -/
structure RunStats where
  events : ℕ
  verdicts : List String
  skipped : List String
  refused : List String
  noEntry : List String
  killedAt : Option Timestamp
  tokenCostByDay : List (ℤ × Decimal)

def RunStats.initial : RunStats := ⟨0, [], [], [], [], none, []⟩

variable [DecimalContext]

def TradeRecord.netBenchmark (t : TradeRecord) : Decimal := t.grossPnl.sub t.costBenchmark

/-- What a move of the price is to a side. -/
def pnlOf (side : Side) (entryPrice price : Decimal) (quantity : ℕ) : Decimal :=
  let move := (price.sub entryPrice).mul quantity
  match side with
  | .long => move
  | .short => move.neg

namespace Book

variable (market : MarketData) (trades : List TradeRecord) (at_ : Timestamp)

/-- `_mark`: the last completed close, and an option at its premium. -/
def mark (trade : TradeRecord) : Decimal :=
  match trade.product, market.lastClose trade.name at_ with
  | .option, _ => trade.entryPrice
  | _, none => trade.entryPrice
  | _, some price => if price = 0 then trade.entryPrice else price

/-- `_open`. -/
def openPosition (trade : TradeRecord) : OpenPosition :=
  ⟨trade.name, trade.product, trade.side, trade.quantity, trade.entryPrice, trade.stopPrice, trade.risk,
    pnlOf trade.side trade.entryPrice (mark market at_ trade) trade.quantity⟩

/-- `snapshot`: what is realised at a moment, and what is open. -/
def snapshot (capital : Decimal) (postureScale : Decimal) : RiskSnapshot :=
  let realised := trades.filter fun t => t.exitTs ≤ at_
  let today := realised.filter fun t => sessionDate t.exitTs = sessionDate at_
  let opened := trades.filter fun t => ¬ t.exitTs ≤ at_ ∧ t.entryTs ≤ at_
  ⟨at_, capital, total (realised.map (·.netBenchmark)), total (today.map (·.netBenchmark)),
    opened.map (openPosition market at_), postureScale⟩

/-- A trade behind the kill: if it is open then, it is closed at its last
mark. -/
def closed (trade : TradeRecord) : TradeRecord :=
  if trade.entryTs ≤ at_ ∧ at_ < trade.exitTs then
    let price := mark market at_ trade
    { trade with
      exitTs := at_
      exitPrice := price
      exitReason := .kill
      grossPnl := pnlOf trade.side trade.entryPrice price trade.quantity }
  else trade

/-- `close_all`. -/
def closeAll : List TradeRecord := trades.map (closed market at_)

end Book

/-- Places an option, or says why not. -/
abbrev OptionPlacer :=
  MarketEvent → TradePlan → Timestamp → List TradeRecord → Decimal → TradeRecord ⊕ String

/-- The parts of a replay. A decider has a state of its own, with the cost of
its calls so far; it sees an event, the time, and the context as of then. -/
structure ReplayEngine (σ : Type) where
  decide : σ → MarketEvent → Timestamp → PipelineDecision × σ
  tokens : σ → Decimal
  market : MarketData
  limits : RiskLimits
  cost : TradeLeg → Scenario → Decimal
  execution : ScanExecution
  posture : ℤ → Decimal
  options : Option OptionPlacer
  startingCapital : Decimal

structure ReplayState (σ : Type) where
  book : List TradeRecord
  stats : RunStats
  decider : σ

structure RunResult where
  trades : List TradeRecord
  stats : RunStats
  tokenCostInr : Decimal

def latency : Duration := 2 * minute

def MarketEvent.decisionAt (event : MarketEvent) : Timestamp := event.usableFrom + latency

namespace ReplayEngine

variable {σ : Type} (engine : ReplayEngine σ)

def snapshot (s : ReplayState σ) (at_ : Timestamp) (scale : Decimal) : RiskSnapshot :=
  Book.snapshot engine.market s.book at_ engine.startingCapital scale

def productOf : Instrument → Product
  | .cashIntraday => .intraday
  | _ => .swing

/-- What an order proposes, with its target; or why there is none. -/
def order (event : MarketEvent) (plan : TradePlan) (decisionAt : Timestamp) :
    Except PyError ((EntryProposal × Decimal) ⊕ String) :=
  match entryTime decisionAt engine.market with
  | none => .ok (.inr "no_later_session")
  | some placedAt =>
      match engine.market.lastClose event.instrumentId placedAt with
      | none => .ok (.inr "no_price")
      | some reference =>
          let stop := priceLevel reference plan.side plan.stopPct true
          let target := priceLevel reference plan.side plan.targetPct false
          if h : 0 < reference then
            .ok (.inl (⟨event.instrumentId, productOf plan.instrument, plan.side, reference, some stop,
              placedAt, 1, h, le_rfl⟩, target))
          else .error (.valueError "the entry price must be positive")

/-- The share of the risk budgets that the day of an order may use. -/
def scaleOf (p : EntryProposal) : Decimal := engine.posture (sessionDate p.at_)

/-- `_exit`. -/
def exitOf (plan : TradePlan) (p : EntryProposal) (stop target : Decimal) (f : EntryFill) :
    Except PyError ExitFill :=
  match p.product with
  | .intraday => intradayExit engine.market engine.execution plan.side stop target p.name f
  | _ => swingExit engine.market plan.side stop target p.name f plan.holdDays

/-- `_record`. -/
def record (event : MarketEvent) (plan : TradePlan) (p : EntryProposal) (sized : Sized) (f : EntryFill)
    (exit : ExitFill) (tokenCost : Decimal) : TradeRecord :=
  let leg : TradeLeg := ⟨event.instrumentId, plan.instrument, p.product, plan.side, sized.quantity,
    f.ts, f.reference, exit.ts, exit.price⟩
  ⟨event.eventId, event.instrumentId, event.symbol, plan.instrument, p.product, plan.side,
    sized.quantity, f.ts, f.reference, exit.ts, exit.price, exit.reason, p.stopPrice, sized.risk,
    pnlOf plan.side f.reference exit.price sized.quantity, engine.cost leg .benchmark,
    engine.cost leg .adverse, tokenCost⟩

def refused (s : ReplayState σ) (reasons : List String) : ReplayState σ :=
  { s with stats := { s.stats with refused := s.stats.refused ++ reasons } }

def notEntered (s : ReplayState σ) (reason : NoEntry) : ReplayState σ :=
  { s with stats := { s.stats with noEntry := s.stats.noEntry ++ [reason.value] } }

def added (s : ReplayState σ) (trade : TradeRecord) : ReplayState σ :=
  { s with book := s.book ++ [trade] }

/-- `_enter`, for an equity. -/
def enter (s : ReplayState σ) (event : MarketEvent) (plan : TradePlan) (decisionAt : Timestamp)
    (tokenCost : Decimal) : Except PyError (ReplayState σ) := do
  match ← engine.order event plan decisionAt with
  | .inr reason => return refused s [reason]
  | .inl (p, target) =>
      match review engine.limits p (engine.snapshot s p.at_ (engine.scaleOf p)) with
      | .refused rules => return refused s rules
      | .approved sized =>
          match fill engine.market engine.execution p.name plan.side p.at_ sized.quantity with
          | .inr reason => return notEntered s reason
          | .inl f => do
              let exit ← engine.exitOf plan p (p.stopPrice.getD 0) target f
              return added s (engine.record event plan p sized f exit tokenCost)

/-- `_enter_option`. -/
def enterOption (s : ReplayState σ) (event : MarketEvent) (plan : TradePlan) (decisionAt : Timestamp)
    (tokenCost : Decimal) : ReplayState σ :=
  match engine.options with
  | none => refused s ["options_unavailable"]
  | some place =>
      match place event plan decisionAt s.book (engine.posture (sessionDate decisionAt)) with
      | .inr reason => refused s [reason]
      | .inl trade => added s { trade with tokenCostInr := tokenCost }

/-- `_one`. -/
def one (s : ReplayState σ) (event : MarketEvent) : Except PyError (ReplayState σ) :=
  let skip (reason : String) : RunStats := { s.stats with skipped := s.stats.skipped ++ [reason] }
  if event.instrumentId = "" then .ok { s with stats := skip "market_wide" }
  else
    let at_ := event.decisionAt
    if killTripped engine.limits (engine.snapshot s at_ 1) then
      .ok { s with
        book := Book.closeAll engine.market s.book at_
        stats := { skip "track_stopped" with killedAt := some at_ } }
    else
      let (decision, decider) := engine.decide s.decider event at_
      let spent := (engine.tokens decider).sub (engine.tokens s.decider)
      let s : ReplayState σ := { s with
        decider
        stats := { s.stats with
          verdicts := s.stats.verdicts ++ [decision.verdict.value]
          tokenCostByDay := s.stats.tokenCostByDay ++ [(sessionDate at_, spent)] } }
      match decision.verdict, decision.plan with
      | .trade, some plan =>
          if plan.instrument = .call ∨ plan.instrument = .put then
            .ok (engine.enterOption s event plan at_ spent)
          else engine.enter s event plan at_ spent
      | _, _ => .ok s

/-- One event of a run: behind the kill it is skipped. -/
def step (s : ReplayState σ) (event : MarketEvent) : Except PyError (ReplayState σ) :=
  let s := { s with stats := { s.stats with events := s.stats.events + 1 } }
  match s.stats.killedAt with
  | some _ => .ok { s with stats := { s.stats with skipped := s.stats.skipped ++ ["track_stopped"] } }
  | none => engine.one s event

/-- `ReplayEngine.run`. -/
def run (initial : σ) (events : List MarketEvent) : Except PyError RunResult := do
  let s ← events.foldlM engine.step ⟨[], .initial, initial⟩
  return ⟨s.book, s.stats, (engine.tokens s.decider).sub (engine.tokens initial)⟩

end ReplayEngine

end EventTrader

end Emporos
