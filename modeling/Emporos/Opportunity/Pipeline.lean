import Emporos.Opportunity.Allocator
import Emporos.Opportunity.Scanner
/-!
# The opportunity pipeline

One call takes the bars that closed together, keeps the regimes current,
drives the strategies, and turns the entries that come back into sized
allocations. Exits are returned as they came. A strategy that raises is
halted; an exception anywhere behind it ends the call, and with the call
the exits go.
-/

namespace Emporos

/-- What a strategy raises: an `Exception`, or something that
`except Exception` lets through. -/
inductive StrategyFault
  | exception (error : PyError)
  | base (name : String)

/-- One strategy built against one instrument. Runs that share a strategy
have its identity in common. -/
structure StrategyRun where
  strategyName : String
  instrumentId : String
  timeframe : Timeframe
  strategy : ℕ
  riskSettings : RiskSettings

/-- The signal as the scanner takes it. -/
def StrategyRun.entry (run : StrategyRun) (signal : Signal) : StrategySignal :=
  ⟨run.strategyName, run.instrumentId, run.timeframe, some signal, run.riskSettings⟩

/-- What is plugged into the pipeline, over a state of its own: the
strategies, the regime sources, the account provider and the filter. -/
structure PipelineParts (σ : Type) where
  onMarketData : ℕ → Candle → σ → Option StrategyFault × σ
  generateSignal : ℕ → σ → Except StrategyFault (Option Signal) × σ
  regime : String → Option (Candle → σ → Option MarketRegime × σ)
  account : σ → AccountFacts
  filter : List OpportunityCandidate → σ → List OpportunityCandidate × σ

/-- Why a strategy was halted. -/
inductive HaltReason
  | raised (error : PyError)
  | tooManySignals

/-- A `strategy_halted` alert. -/
structure HaltAlert where
  strategyName : String
  instrumentId : String
  what : String
  reason : HaltReason

/-- What the pipeline is told during a call. -/
inductive Heard
  | regime (instrumentId : String) (regime : Option MarketRegime)
  | signal (run : StrategyRun) (signal : Signal)
  | fatal (name : String)

/-- The pipeline's state and that of its parts. What was heard is kept for
the record; nothing reads it. -/
structure PipelineWorld (σ : Type) where
  state : σ
  halted : List ℕ
  alerts : List HaltAlert
  heard : List Heard

/-- What one call collects before the scan. -/
structure PipelineTick where
  regimes : String → Option MarketRegime
  exits : List Signal
  entries : List StrategySignal

structure BarOutcome where
  ts : Timestamp
  exits : List Signal
  scan : ScanResult
  /-- What the filter let through. -/
  filtered : List OpportunityCandidate
  allocations : List Allocation

/-- What a pipeline is built from. -/
structure OpportunityPipeline (σ : Type) where
  runs : List StrategyRun
  registry : StrategyRegistry
  sectors : SectorClassifier
  constraints : AllocationConstraints
  parts : PipelineParts σ

namespace OpportunityPipeline

variable {σ : Type}

/-- A strategy that never stops returning signals is broken. -/
def maxSignalsPerEvent : ℕ := 100

/-- The strategy of the run is halted, for every run that shares it. -/
def halt (run : StrategyRun) (what : String) (reason : HaltReason) (w : PipelineWorld σ) :
    PipelineWorld σ :=
  { w with
    halted := run.strategy :: w.halted
    alerts := w.alerts ++ [⟨run.strategyName, run.instrumentId, what, reason⟩] }

/-- `generate_signal`, at most so many times more. -/
def pull (parts : PipelineParts σ) (run : StrategyRun) :
    ℕ → PipelineWorld σ → List Signal → Except String (List Signal) × PipelineWorld σ
  | 0, w, pulled => (.ok pulled, halt run "generate_signal" .tooManySignals w)
  | n + 1, w, pulled =>
      match parts.generateSignal run.strategy w.state with
      | (.error (.exception error), state) =>
          (.ok pulled, halt run "generate_signal" (.raised error) { w with state })
      | (.error (.base name), state) =>
          (.error name, { w with state, heard := w.heard ++ [.fatal name] })
      | (.ok none, state) => (.ok pulled, { w with state })
      | (.ok (some signal), state) =>
          pull parts run n { w with state, heard := w.heard ++ [.signal run signal] }
            (pulled ++ [signal])

/-- `_drive`: the bar, then the signals. -/
def drive (parts : PipelineParts σ) (run : StrategyRun) (candle : Candle) (w : PipelineWorld σ) :
    Except String (List Signal) × PipelineWorld σ :=
  match parts.onMarketData run.strategy candle w.state with
  | (some (.exception error), state) =>
      (.ok [], halt run "on_market_data" (.raised error) { w with state })
  | (some (.base name), state) => (.error name, { w with state, heard := w.heard ++ [.fatal name] })
  | (none, state) => pull parts run maxSignalsPerEvent { w with state } []

/-- Exits apart from entries, in the order they came. -/
def collect (run : StrategyRun) (t : PipelineTick) (signal : Signal) : PipelineTick :=
  if signal.kind = .exit then { t with exits := t.exits ++ [signal] }
  else { t with entries := t.entries ++ [run.entry signal] }

/-- The runs of one bar. -/
def driveRuns (parts : PipelineParts σ) (candle : Candle) :
    List StrategyRun → PipelineTick → PipelineWorld σ → Except String PipelineTick × PipelineWorld σ
  | [], t, w => (.ok t, w)
  | run :: rest, t, w =>
      if run.strategy ∈ w.halted then driveRuns parts candle rest t w
      else
        match drive parts run candle w with
        | (.error name, w) => (.error name, w)
        | (.ok signals, w) => driveRuns parts candle rest (signals.foldl (collect run) t) w

/-- The regime of one bar's instrument. -/
def classify (parts : PipelineParts σ) (candle : Candle) (t : PipelineTick) (w : PipelineWorld σ) :
    PipelineTick × PipelineWorld σ :=
  let told :=
    match parts.regime candle.instrumentId with
    | some update => update candle w.state
    | none => (none, w.state)
  ({ t with regimes := Function.update t.regimes candle.instrumentId told.1 },
    { w with state := told.2, heard := w.heard ++ [.regime candle.instrumentId told.1] })

/-- The bars of one call. -/
def driveBars (p : OpportunityPipeline σ) :
    List Candle → PipelineTick → PipelineWorld σ → Except String PipelineTick × PipelineWorld σ
  | [], t, w => (.ok t, w)
  | candle :: rest, t, w =>
      match driveRuns p.parts candle (p.runs.filter fun run => run.instrumentId = candle.instrumentId)
        (classify p.parts candle t w).1 (classify p.parts candle t w).2 with
      | (.error name, w) => (.error name, w)
      | (.ok t, w) => driveBars p rest t w

variable [DecimalContext]

/-- What becomes of the entries. -/
def select (p : OpportunityPipeline σ) (ts : Timestamp) (t : PipelineTick) (w : PipelineWorld σ) :
    Except StrategyFault BarOutcome × PipelineWorld σ :=
  match OpportunityScanner.scan p.registry t.entries t.regimes ts with
  | .error error => (.error (.exception error), w)
  | .ok scan =>
      let filtered := p.parts.filter scan.candidates w.state
      (.ok ⟨ts, t.exits, scan, filtered.1, PortfolioAllocator.allocate p.sectors filtered.1
        (p.parts.account filtered.2) p.constraints⟩, { w with state := filtered.2 })

/-- `on_bars`: one evaluation tick. -/
def onBars (p : OpportunityPipeline σ) (candles : List Candle) (w : PipelineWorld σ) :
    Except StrategyFault BarOutcome × PipelineWorld σ :=
  match candles with
  | [] => (.error (.exception (.valueError "on_bars needs at least one closed bar")), w)
  | first :: _ =>
      match driveBars p candles ⟨fun _ => none, [], []⟩ w with
      | (.error name, w) => (.error (.base name), w)
      | (.ok t, w) => select p first.ts t w

end OpportunityPipeline

end Emporos
