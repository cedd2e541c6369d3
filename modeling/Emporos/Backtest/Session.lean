import Emporos.Backtest.Drawdown
import Emporos.Backtest.Feed
import Emporos.Backtest.Flow
import Emporos.Strategies.History
/-!
# A backtest, bar by bar

The engine records the bars before the run, starts the strategy, and hands
it one closed bar after the other. Around a bar the session settles what is
queued, lets the exchange match, and from a time of the day on squares the
instrument off; where the day changes, and behind the last bar, it lets the
orders expire and closes what is still open at a price of its own.

The strategy, the gate, the pricing and the charges are given, and may look
at the whole run, but at the market through the clock and the closed bars
only. Settling may go on for ever, so a run has fuel for each settling. The
journal, the display of the progress and the report are left out.
-/

namespace Emporos

open Timestamp

/-! ## Turns -/

/-- What a step of a run comes to: nothing where its fuel is used up. -/
abbrev Turn (α : Type) := ExceptT PyError Option α

namespace Turn

variable {α β : Type}

/-- It returns, and what it returns. -/
def Returns (x : Turn α) (a : α) : Prop := x.run = some (.ok a)

/-- What may raise. -/
def of (x : Except PyError α) : Turn α := ExceptT.mk (some x)

theorem returns_of {x : Except PyError α} {a : α} : (of x).Returns a ↔ x = .ok a := by
  change some x = some (.ok a) ↔ _
  rw [Option.some.injEq]

@[simp] theorem returns_pure {a b : α} : (pure a : Turn α).Returns b ↔ a = b := by
  change some (Except.ok a) = some (Except.ok b) ↔ _
  rw [Option.some.injEq, Except.ok.injEq]

@[simp] theorem returns_bind {x : Turn α} {f : α → Turn β} {b : β} :
    (x >>= f).Returns b ↔ ∃ a, x.Returns a ∧ (f a).Returns b := by
  change (x.run.bind fun r => ExceptT.bindCont f r) = some (.ok b) ↔ _
  unfold Returns
  cases hx : x.run with
  | none => simp
  | some r =>
      cases r with
      | error e =>
          refine ⟨fun h => ?_, ?_⟩
          · cases h
          · rintro ⟨a, ha, -⟩
            cases ha
      | ok a =>
          refine ⟨fun h => ⟨a, rfl, h⟩, ?_⟩
          rintro ⟨_, ha, h⟩
          cases ha
          exact h

end Turn

/-! ## What is plugged in -/

/-- What a run shows of the market: its clock, and the bars that have
closed. -/
structure Sight where
  now : Timestamp
  bars : String → Timeframe → ℤ → List Candle

/-- The strategy and what stands between it and the exchange. -/
structure EnginePlugs (σ : Type) where
  runId : String
  instrumentIds : List String
  repr : PyError → String
  /-- What the strategy raised, if it did. -/
  onInitialize : Sight → FlowWorld σ → Option PyError × σ
  onMarketData : Candle → Sight → FlowWorld σ → Option PyError × σ
  onOrderUpdate : OrderUpdate → Sight → FlowWorld σ → Option PyError × σ
  onSessionEnd : Sight → FlowWorld σ → Option PyError × σ
  generateSignal : Sight → FlowWorld σ → Except PyError GeneratedSignal × σ
  review : Signal → Sight → FlowWorld σ → Except PyError (Except String Signal) × σ
  orderFor : Signal → String → Sight → FlowWorld σ → Except PyError SimOrderRequest
  rejection : SimOrderRequest → Sight → FlowWorld σ → Option String
  charges : Fill → Sight → FlowWorld σ → Except PyError Money
  model : BarFillModel
  squareOffAt : Duration
  /-- What the broker's own square-off takes off the last price. -/
  penalty : Decimal

/-- A point of the curve, with what was exposed. -/
structure CurvePoint extends EquityPoint where
  grossExposure : Money
  openPositions : ℕ

/-- A run between two bars. -/
structure ReplayWorld (σ : Type) where
  flow : FlowWorld σ
  clock : Timestamp
  history : ClosedBarHistory
  /-- The days and instruments the session has begun to close. -/
  planned : List (ℤ × String)
  /-- The moment whose point of the curve is still to be recorded. -/
  pending : Option Timestamp
  curve : List CurvePoint
  unclosedSkipped : ℕ

variable {σ : Type}

namespace ReplayWorld

def sight (w : ReplayWorld σ) : Sight := ⟨w.clock, w.history.bars w.clock⟩

/-- The clock is brought to a moment, and never back. -/
def syncTo (moment : Timestamp) (w : ReplayWorld σ) : ReplayWorld σ :=
  { w with clock := max w.clock moment }

/-- What the exchange did: its events are queued, unless it raised. -/
def queued (w : ReplayWorld σ) (outcome : BrokerOutcome) : Turn (ReplayWorld σ) :=
  match outcome.error with
  | some error => Turn.of (.error error)
  | none =>
      pure { w with flow := { w.flow with
        broker := outcome.broker, queue := w.flow.queue ++ outcome.events } }

end ReplayWorld

namespace EnginePlugs

/-- The parts of a run at a moment. -/
def parts (plugs : EnginePlugs σ) (sight : Sight) (planned : List (ℤ × String)) : FlowParts σ where
  runId := plugs.runId
  instrumentIds := plugs.instrumentIds
  repr := plugs.repr
  onOrderUpdate update w := plugs.onOrderUpdate update sight w
  generateSignal w := plugs.generateSignal sight w
  -- the session, not the strategy, owns what it has begun to close
  blocks signal w := ((sessionDate sight.now, signal.instrumentId) ∈ planned, w.outside)
  review signal w := plugs.review signal sight w
  orderFor signal tag w := plugs.orderFor signal tag sight w
  rejection request w := plugs.rejection request sight w
  charges fill w := plugs.charges fill sight w
  now _ _ := sight.now

end EnginePlugs

/-! ## The runner, at the start and at the end of a session -/

namespace StrategyRunner

variable [DecimalContext] (plugs : EnginePlugs σ)

def partsAt (w : ReplayWorld σ) : FlowParts σ := plugs.parts w.sight w.planned

/-- A handler of the strategy is run; if it raises, the strategy halts. -/
def guarded (what : String) (ran : Option PyError × σ) (w : FlowWorld σ) : FlowWorld σ :=
  let w := { w with outside := ran.2 }
  match ran.1 with
  | none => w
  | some error => halt what (plugs.repr error) w

def start (w : ReplayWorld σ) : Turn (ReplayWorld σ) :=
  if w.flow.state = .new then
    let flow := { w.flow with state := .running }
    pure { w with flow := guarded plugs "initialize" (plugs.onInitialize w.sight flow) flow }
  else Turn.of (.error (.other "RuntimeError"))

/-- A recorded bar is handed over. -/
def deliver (bar : Candle) (w : ReplayWorld σ) : Turn (ReplayWorld σ) := do
  let flow := guarded plugs "on_market_data" (plugs.onMarketData bar w.sight w.flow) w.flow
  let flow ← Turn.of (forwardSignals (partsAt plugs w) flow)
  pure { w with flow }

/-- A bar is recorded and handed over once it has closed. -/
def handle (bar : Candle) (w : ReplayWorld σ) : Turn (ReplayWorld σ) :=
  if accepting w.flow then
    let w := w.syncTo bar.closesAt
    if w.clock < bar.closesAt then pure { w with unclosedSkipped := w.unclosedSkipped + 1 }
    else deliver plugs bar { w with history := w.history.record bar }
  else pure w

def endSession (w : ReplayWorld σ) : Turn (ReplayWorld σ) :=
  if w.flow.state = .running then
    let flow := { w.flow with state := .ended }
    if flow.haltReason.isSome then pure { w with flow }
    else do
      let flow := guarded plugs "on_session_end" (plugs.onSessionEnd w.sight flow) flow
      let flow ← Turn.of (forwardSignals (partsAt plugs w) flow)
      pure { w with flow }
  else pure w

omit [DecimalContext] in
/-- The next day: events are delivered again. -/
def beginSession (w : ReplayWorld σ) : ReplayWorld σ :=
  if w.flow.state = .ended then { w with flow := { w.flow with state := .running } } else w

end StrategyRunner

/-! ## The square-off -/

namespace SessionSquareOff

/-- `strftime('%H:%M')` of a time of the day. -/
def clockText (t : Duration) : String :=
  let digits := fun n : ℤ => String.ofList (List.leftpad 2 '0' (Nat.toDigits 10 n.toNat))
  s!"{digits (t / (60 * minute))}:{digits (t / minute % 60)}"

/-- The side that closes a position. -/
def closingSide (net : ℤ) : OrderSide := if 0 < net then .sell else .buy

/-- It is due the first time on a day that a bar of the instrument closes at
the time or later while the position is open. -/
def Due (squareOffAt : Duration) (planned : List (ℤ × String)) (bar : Candle) (position : Position) :
    Prop :=
  position.netQuantity ≠ 0 ∧ squareOffAt ≤ localTime bar.closesAt ∧
    (sessionDate bar.closesAt, bar.instrumentId) ∉ planned

instance (squareOffAt : Duration) (planned : List (ℤ × String)) (bar : Candle) (position : Position) :
    Decidable (Due squareOffAt planned bar position) := inferInstanceAs (Decidable (_ ∧ _))

/-- The exit of a plan. -/
def exit (runId : String) (squareOffAt : Duration) (bar : Candle) (position : Position) :
    Except PyError Signal :=
  Signal.make runId bar.instrumentId .exit (closingSide position.netQuantity) .limit
    position.netQuantity.natAbs bar.close bar.closesAt
    s!"session square-off at {clockText squareOffAt} IST" none none

end SessionSquareOff

/-- The price of the broker's own square-off, moved against us to a whole
paisa. -/
def ForcedClosePricing.price [DecimalContext] (penalty : Decimal) (closing : OrderSide) (last : Money) :
    Except PyError Money :=
  match closing with
  | .buy => (paise (awayFromZero (100 * last.amount.mul (Decimal.add 1 penalty)))).map Money.mk
  | .sell => (paise (towardsZero (100 * last.amount.mul (Decimal.sub 1 penalty)))).map Money.mk

namespace BacktestPortfolio

variable [DecimalContext]

/-- Flat where it holds nothing. -/
def position (p : BacktestPortfolio) (instrumentId : String) : Position :=
  match p.account.position instrumentId with
  | none => .flat instrumentId
  | some s => if s.netQuantity = 0 then .flat instrumentId else ⟨instrumentId, s.netQuantity, s.averagePrice⟩

def grossExposure (p : BacktestPortfolio) : Money :=
  (p.account.positions.filter fun s => s.netQuantity ≠ 0).foldl
    (fun total s => total + (p.valuation s).times s.netQuantity.natAbs) Money.zero

/-- What `record_point` appends to the curve. -/
def point (p : BacktestPortfolio) (ts : Timestamp) : CurvePoint :=
  ⟨⟨ts, p.equity⟩, p.grossExposure, p.openPositions.length⟩

end BacktestPortfolio

/-! ## The session around a bar -/

namespace BacktestSession

variable [DecimalContext] (plugs : EnginePlugs σ)

/-- `_record_point`, of a moment that is pending. -/
def recordPoint (t : Timestamp) (w : ReplayWorld σ) : ReplayWorld σ :=
  { w with pending := none, curve := w.curve ++ [w.flow.portfolio.point t] }

def settle (fuel : ℕ) (w : ReplayWorld σ) : Turn (ReplayWorld σ) := do
  let flow ← ExceptT.mk (EventSettler.settle (StrategyRunner.partsAt plugs w) fuel w.flow)
  pure { w with flow }

/-- The resting orders of the instrument are cancelled. -/
def cancelEach : List String → ReplayWorld σ → Turn (ReplayWorld σ)
  | [], w => pure w
  | orderId :: rest, w => do
      let w ← w.queued (w.flow.broker.cancel orderId fun _ => w.clock)
      cancelEach rest w

/-- `submit_system`: the session's own exit goes the way of a signal, but
for the cutoff. -/
def submitSystem (signal : Signal) (w : ReplayWorld σ) : Turn (ReplayWorld σ) := do
  let counters := { w.flow.counters with squareOffSignals := w.flow.counters.squareOffSignals + 1 }
  let flow ← Turn.of (OrderFlow.route (StrategyRunner.partsAt plugs w) signal { w.flow with counters })
  pure { w with flow }

/-- The open orders of an instrument. -/
def restingOf (instrumentId : String) (b : SimulatedBroker) : List String :=
  b.resting.filter fun id => (b.find id).any fun o => o.request.instrumentId = instrumentId

def squareOffIfDue (fuel : ℕ) (bar : Candle) (w : ReplayWorld σ) : Turn (ReplayWorld σ) :=
  let position := w.flow.portfolio.position bar.instrumentId
  if SessionSquareOff.Due plugs.squareOffAt w.planned bar position then do
    let exit ← Turn.of (SessionSquareOff.exit plugs.runId plugs.squareOffAt bar position)
    let resting := restingOf bar.instrumentId w.flow.broker
    let w := { w with planned := w.planned ++ [(sessionDate bar.closesAt, bar.instrumentId)] }
    let w ← cancelEach resting w
    let w ← submitSystem plugs exit w
    settle plugs fuel w
  else pure w

/-- The point before this bar is recorded, unless one more bar closes with
it. -/
def pointBefore (bar : Candle) (w : ReplayWorld σ) : ReplayWorld σ :=
  match w.pending with
  | some t => if t < bar.closesAt then recordPoint t w else w
  | none => w

/-- The clock stands at the close of the bar; the strategy has not seen
it. -/
def beforeBar (fuel : ℕ) (bar : Candle) (w : ReplayWorld σ) : Turn (ReplayWorld σ) := do
  let w ← settle plugs fuel (pointBefore bar w)
  let w ← w.queued (w.flow.broker.matchBar plugs.model bar fun _ => w.clock)
  let w ← settle plugs fuel w
  let portfolio := w.flow.portfolio.mark bar.instrumentId bar.close
  squareOffIfDue plugs fuel bar
    { w with flow := { w.flow with portfolio }, pending := some bar.closesAt }

/-- Every order that rests expires. -/
def expire (w : ReplayWorld σ) : Turn (ReplayWorld σ) :=
  w.queued (w.flow.broker.expireOpenOrders fun _ => w.clock)

/-- The broker closes each of the positions that were open. -/
def squareOffEach : List Position → ReplayWorld σ → Turn (ReplayWorld σ)
  | [], w => pure w
  | position :: rest, w => do
      let side := SessionSquareOff.closingSide position.netQuantity
      let last ← Turn.of (w.flow.portfolio.lastPrice position.instrumentId)
      let price ← Turn.of (ForcedClosePricing.price plugs.penalty side last)
      let w ← w.queued (w.flow.broker.squareOff position.instrumentId side
        position.netQuantity.natAbs price plugs.runId fun _ => w.clock)
      squareOffEach rest w

/-- The exchange's end of day, while the strategy can still hear of it. -/
def sessionEnding (fuel : ℕ) (w : ReplayWorld σ) : Turn (ReplayWorld σ) := do
  let w ← settle plugs fuel w
  let w ← expire w
  let w ← settle plugs fuel w
  let w ← squareOffEach plugs w.flow.portfolio.openPositions w
  settle plugs fuel w

/-- What the strategy sent at the end cannot rest into tomorrow. -/
def sessionClosed (fuel : ℕ) (w : ReplayWorld σ) : Turn (ReplayWorld σ) := do
  let w ← settle plugs fuel w
  let w ← expire w
  let w ← settle plugs fuel w
  match w.pending with
  | some t => pure (recordPoint t w)
  | none => pure w

end BacktestSession

/-! ## The replay -/

namespace BarReplay

variable [DecimalContext] (plugs : EnginePlugs σ)

/-- `_close_session`, up to the start of the next one. -/
def closeDay (fuel : ℕ) (w : ReplayWorld σ) : Turn (ReplayWorld σ) := do
  let w ← BacktestSession.sessionEnding plugs fuel w
  let w ← StrategyRunner.endSession plugs w
  BacktestSession.sessionClosed plugs fuel w

def closeSession (fuel : ℕ) (w : ReplayWorld σ) : Turn (ReplayWorld σ) := do
  pure (StrategyRunner.beginSession (← closeDay plugs fuel w))

/-- Where the day changes, the session before is closed. -/
def changeDay (fuel : ℕ) (bar : Candle) (day : Option ℤ) (w : ReplayWorld σ) : Turn (ReplayWorld σ) :=
  if day.any (· ≠ sessionDate bar.ts) then closeSession plugs fuel w else pure w

/-- One bar, with the day of the bar before it. -/
def handleBar (fuel : ℕ) (bar : Candle) (day : Option ℤ) (w : ReplayWorld σ) :
    Turn (Option ℤ × ReplayWorld σ) := do
  let w ← changeDay plugs fuel bar day w
  let w ← BacktestSession.beforeBar plugs fuel bar (w.syncTo bar.closesAt)
  let w ← StrategyRunner.handle plugs bar w
  pure (some (sessionDate bar.ts), w)

def handleBars (fuel : ℕ) : List Candle → Option ℤ × ReplayWorld σ → Turn (Option ℤ × ReplayWorld σ)
  | [], s => pure s
  | bar :: rest, (day, w) => do
      let s ← handleBar plugs fuel bar day w
      handleBars fuel rest s

/-- `run`, over what a feed yields and what it raises. The strategy's
shutdown is left out. -/
def run (fuel : ℕ) (fed : List Candle × Option FeedError) (w : ReplayWorld σ) :
    Turn (ReplayWorld σ) := do
  let w ← StrategyRunner.start plugs w
  let (day, w) ← handleBars plugs fuel fed.1 (none, w)
  match fed.2 with
  | some _ => Turn.of (.error (.other "FeedError"))
  | none => if day.isSome then closeSession plugs fuel w else pure w

end BarReplay

/-! ## The engine -/

/-- What a run is asked for, besides what is plugged in. -/
structure BacktestSpec where
  feed : ClosedBarFeed
  startingCash : Money
  warmupBars : ℕ
  warmupLookback : Duration
  maxBars : ℕ
  cash_pos : Money.zero < startingCash
  lookback_pos : 0 < warmupLookback
  maxBars_pos : 0 < maxBars

namespace WarmupLoader

/-- The last bars of an instrument that had closed before the run. -/
def warm (spec : BacktestSpec) (reader : CandleReader) (instrumentId : String) : List Candle :=
  let before := spec.feed.window.start
  let received := reader instrumentId spec.feed.timeframe (before - spec.warmupLookback) before
  ClosedBarHistory.newest spec.warmupBars
    ((ClosedBarHistory.closedBy before received).insertionSort (·.ts ≤ ·.ts))

/-- Of all instruments, oldest first. -/
def load (spec : BacktestSpec) (reader : CandleReader) : List Candle :=
  if spec.warmupBars = 0 then []
  else (spec.feed.instrumentIds.flatMap (warm spec reader)).insertionSort fun a b =>
    a.ts < b.ts ∨ a.ts = b.ts ∧ a.instrumentId ≤ b.instrumentId

end WarmupLoader

namespace BacktestEngine

/-- `REGIME_WARMUP_LOOKBACK`. -/
def regimeWarmupLookback : Duration := 120 * day

/-- `_daily_bars`: the days of the whole window, and of some time before. -/
def dailyBars (spec : BacktestSpec) (reader : CandleReader) : List Candle :=
  spec.feed.instrumentIds.flatMap fun i =>
    reader i .d1 (spec.feed.window.start - regimeWarmupLookback) spec.feed.window.stop

/-- A run that has not started: its history holds what was read before. -/
def prepare (spec : BacktestSpec) (reader : CandleReader) (outside : σ) : ReplayWorld σ where
  flow :=
    { outside, state := .new, haltReason := none, signalsEmitted := 0, broker := .empty
      portfolio := .new spec.startingCash spec.cash_pos, queue := [], counters := {} }
  clock := spec.feed.window.start
  history := (ClosedBarHistory.new spec.maxBars).recordAll
    (WarmupLoader.load spec reader ++ dailyBars spec reader)
  planned := []
  pending := none
  curve := []
  unclosedSkipped := 0

variable [DecimalContext] (plugs : EnginePlugs σ)

/-- The state once some bars were handled, and the day of the last. -/
def reach (fuel : ℕ) (spec : BacktestSpec) (reader : CandleReader) (outside : σ) (bars : List Candle) :
    Turn (Option ℤ × ReplayWorld σ) := do
  let w ← StrategyRunner.start plugs (prepare spec reader outside)
  BarReplay.handleBars plugs fuel bars (none, w)

def run (fuel : ℕ) (spec : BacktestSpec) (reader : CandleReader) (outside : σ) : Turn (ReplayWorld σ) :=
  BarReplay.run plugs fuel (spec.feed.iterate reader false) (prepare spec reader outside)

end BacktestEngine

end Emporos
