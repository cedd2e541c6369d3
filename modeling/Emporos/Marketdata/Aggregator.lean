import Emporos.Common.Table
import Emporos.Domain.Candles
import Emporos.Marketdata.Ticks
/-!
# Minute bars

Ticks are folded into the bar of their minute, and bars are closed by the
clock: `closeDue` closes every minute before a cutoff, with a flat bar for
a minute without a tick once a price is known. A state begins with the
first tick of a day and is freed once its day is done.

The assertions of the source are exceptions here.
-/

namespace Emporos

open Timestamp

/-- The bar of the minute being built. -/
structure OpenBar where
  start : Timestamp
  openPrice : Money
  high : Money
  low : Money
  close : Money
  volume : ℕ
  isPartial : Bool
  low_le_open : low ≤ openPrice
  open_le_high : openPrice ≤ high
  low_le_close : low ≤ close
  close_le_high : close ≤ high

namespace OpenBar

/-- A bar with one price. -/
def flat (start : Timestamp) (price : Money) (isPartial : Bool) : OpenBar where
  start := start
  openPrice := price
  high := price
  low := price
  close := price
  volume := 0
  isPartial := isPartial
  low_le_open := le_rfl
  open_le_high := le_rfl
  low_le_close := le_rfl
  close_le_high := le_rfl

/-- A price that moves neither the open nor the close. -/
def widen (bar : OpenBar) (price : Money) : OpenBar where
  start := bar.start
  openPrice := bar.openPrice
  high := max bar.high price
  low := min bar.low price
  close := bar.close
  volume := bar.volume
  isPartial := bar.isPartial
  low_le_open := (min_le_left _ _).trans bar.low_le_open
  open_le_high := bar.open_le_high.trans (le_max_left _ _)
  low_le_close := (min_le_left _ _).trans bar.low_le_close
  close_le_high := bar.close_le_high.trans (le_max_left _ _)

/-- A price, and what was traded since the last one. -/
def trade (bar : OpenBar) (price : Money) (volume : ℕ) : OpenBar where
  start := bar.start
  openPrice := bar.openPrice
  high := max bar.high price
  low := min bar.low price
  close := price
  volume := bar.volume + volume
  isPartial := bar.isPartial
  low_le_open := (min_le_left _ _).trans bar.low_le_open
  open_le_high := bar.open_le_high.trans (le_max_left _ _)
  low_le_close := min_le_right _ _
  close_le_high := le_max_right _ _

end OpenBar

/-- A time without a feed. -/
structure Gap where
  start : Timestamp
  stop : Option Timestamp

namespace Gap

def overlaps (g : Gap) (minuteStart : Timestamp) : Bool :=
  decide (g.start < minuteStart + minute) && g.stop.all fun stop => decide (minuteStart < stop)

end Gap

structure AggregatorStats where
  candlesClosed : ℕ
  flatBars : ℕ
  lateTicksDropped : ℕ
  widenedByLateTick : ℕ

/-- What is kept of an instrument. `nextStart` is the earliest minute not
yet closed, and nothing once the day is done. -/
structure InstrumentState where
  instrumentId : String
  day : Int
  nextStart : Option Timestamp
  openBar : Option OpenBar
  lastClose : Option Money
  lastCumulativeVolume : Option ℕ

structure MinuteCandleAggregator where
  states : List InstrumentState
  gaps : List Gap
  stats : AggregatorStats

namespace MinuteCandleAggregator

def initial : MinuteCandleAggregator := ⟨[], [], ⟨0, 0, 0, 0⟩⟩

def maxRememberedGaps : ℕ := 200

/-- `datetime.max`. -/
def maxTime : Timestamp := 253402300799999999

/-! ## Closing -/

/-- A state being closed, the counters, and the bars closed so far. -/
structure Closing where
  state : InstrumentState
  stats : AggregatorStats
  closed : List Candle

variable (w : MinuteWindow) (gaps : List Gap)

/-- The next minute of the session. -/
def following (start : Timestamp) : Option Timestamp :=
  if w.contains (start + minute) then some (start + minute) else none

/-- The candle of a bar, closed at `start`. -/
def candle (instrumentId : String) (start : Timestamp) (bar : OpenBar) : Candle where
  instrumentId := instrumentId
  timeframe := .m1
  ts := start
  openPrice := bar.openPrice
  high := bar.high
  low := bar.low
  close := bar.close
  volume := bar.volume
  isPartial := bar.isPartial || gaps.any (·.overlaps start)
  low_le_open := bar.low_le_open
  open_le_high := bar.open_le_high
  low_le_close := bar.low_le_close
  close_le_high := bar.close_le_high

/-- `_emit`: close the minute `start`, with its bar, or flat. -/
def emit (c : Closing) (start : Timestamp) : Except PyError Closing :=
  match c.state.openBar.filter (·.start = start), c.state.lastClose with
  | some bar, _ => .ok
      { state := { c.state with openBar := none, lastClose := some bar.close }
        stats := { c.stats with candlesClosed := c.stats.candlesClosed + 1 }
        closed := c.closed ++ [candle gaps c.state.instrumentId start bar] }
  | none, some price => .ok
      { state := { c.state with lastClose := some price }
        stats := { c.stats with
          candlesClosed := c.stats.candlesClosed + 1
          flatBars := c.stats.flatBars + 1 }
        closed := c.closed ++
          [candle gaps c.state.instrumentId start (OpenBar.flat start price false)] }
  | none, none => .error (.other "AssertionError")

/-- The loop of `_close_due`, `n` minutes of it. -/
def closeMinutes (cutoff : Timestamp) : ℕ → Closing → Except PyError Closing
  | 0, c => .ok c
  | n + 1, c =>
      match c.state.nextStart with
      | none => .ok c
      | some start =>
          if start < cutoff then
            if c.state.openBar.isNone ∧ c.state.lastClose.isNone then
              closeMinutes cutoff n { c with state.nextStart := following w start }
            else
              match emit gaps c start with
              | .ok c' => closeMinutes cutoff n { c' with state.nextStart := following w start }
              | .error e => .error e
          else .ok c

/-- The minutes between the next one and the cutoff: more than the loop
can close. -/
def minutesDue (s : InstrumentState) (cutoff : Timestamp) : ℕ :=
  s.nextStart.elim 0 fun start => ((cutoff - start) / minute).toNat + 1

/-- `_close_due`: close every unclosed minute before the cutoff. -/
def closeDue (s : InstrumentState) (stats : AggregatorStats) (cutoff : Timestamp) :
    Except PyError Closing :=
  closeMinutes w gaps cutoff (minutesDue s cutoff) ⟨s, stats, []⟩

/-! ## Ticks -/

/-- `_new_bar`: partial where the volume has no baseline. -/
def newBar (s : InstrumentState) (tick : Tick) (start : Timestamp) : OpenBar :=
  OpenBar.flat start tick.ltp (s.lastCumulativeVolume.isNone && tick.volume.isSome)

/-- What was traded since the baseline. -/
def traded (baseline volume : Option ℕ) : ℕ :=
  match baseline, volume with
  | some baseline, some volume => volume - baseline
  | _, _ => 0

/-- `_fold`: an out-of-order tick may widen the bar and no more. -/
def fold (s : InstrumentState) (stats : AggregatorStats) (bar : OpenBar) (tick : Tick) :
    InstrumentState × AggregatorStats :=
  if tick.outOfOrder then
    if bar.high < tick.ltp ∨ tick.ltp < bar.low then
      ({ s with openBar := some (bar.widen tick.ltp) },
        { stats with widenedByLateTick := stats.widenedByLateTick + 1 })
    else (s, stats)
  else
    ({ s with
        openBar := some (bar.trade tick.ltp (traded s.lastCumulativeVolume tick.volume))
        lastCumulativeVolume := tick.volume.orElse fun _ => s.lastCumulativeVolume },
      stats)

/-- A state that begins with a tick. Nothing is traded before the open. -/
def begin (tick : Tick) : InstrumentState :=
  let start := floorMinute tick.exchangeTs
  { instrumentId := tick.instrumentId
    day := sessionDate start
    nextStart := some start
    openBar := none
    lastClose := none
    lastCumulativeVolume := if start = w.openAt (sessionDate start) then some 0 else none }

/-- The tick's minute is closed already. -/
def late (s : InstrumentState) (tick : Tick) : Bool :=
  s.nextStart.all fun next => floorMinute tick.exchangeTs < next

/-- A tick that is counted and dropped. -/
def drop (s : InstrumentState) (stats : AggregatorStats) : Closing :=
  ⟨s, { stats with lateTicksDropped := stats.lateTicksDropped + 1 }, []⟩

/-- A tick that opens the bar of its minute, once the minutes before it are
closed. -/
def opened (c : Closing) (tick : Tick) : Closing :=
  let folded := fold c.state c.stats (newBar c.state tick (floorMinute tick.exchangeTs)) tick
  ⟨folded.1, folded.2, c.closed⟩

/-- What is left of `on_tick` once the tick's state is known. -/
def handle (s : InstrumentState) (stats : AggregatorStats) (tick : Tick) :
    Except PyError Closing :=
  if late s tick then .ok (drop s stats)
  else match s.openBar.filter (·.start = floorMinute tick.exchangeTs) with
    | some bar => .ok ⟨(fold s stats bar tick).1, (fold s stats bar tick).2, []⟩
    | none =>
        if tick.outOfOrder then .ok (drop s stats)
        else (closeDue w gaps s stats (floorMinute tick.exchangeTs)).map fun c => opened c tick

/-- The aggregator with a state in its place. -/
def put (a : MinuteCandleAggregator) (c : Closing) : MinuteCandleAggregator :=
  { a with states := Table.upsert (·.instrumentId) c.state a.states, stats := c.stats }

/-- `on_tick`, and the bars it closes. -/
def onTick (a : MinuteCandleAggregator) (tick : Tick) :
    Except PyError (MinuteCandleAggregator × List Candle) :=
  let day := sessionDate (floorMinute tick.exchangeTs)
  match Table.lookup (·.instrumentId) tick.instrumentId a.states with
  | none => do
      let c ← handle w a.gaps (begin w tick) a.stats tick
      return (a.put c, c.closed)
  | some s =>
      if s.day < day then do
        let yesterday ← closeDue w a.gaps s a.stats maxTime
        let c ← handle w a.gaps (begin w tick) yesterday.stats tick
        return (a.put c, yesterday.closed ++ c.closed)
      else do
        let c ← handle w a.gaps s a.stats tick
        return (a.put c, c.closed)

/-! ## The clock, and the connection -/

/-- `advance`, state by state. -/
def advanceStates (cutoff : Timestamp) (today : Int) :
    List InstrumentState → AggregatorStats →
      Except PyError (List InstrumentState × AggregatorStats × List Candle)
  | [], stats => .ok ([], stats, [])
  | s :: rest, stats => do
      let c ← closeDue w gaps s stats cutoff
      let (rest, stats, closed) ← advanceStates cutoff today rest c.stats
      return (if c.state.nextStart.isNone ∧ c.state.day < today then rest else c.state :: rest,
        stats, c.closed ++ closed)

/-- `advance`: close every bar whose minute and grace have passed, and free
the states whose day is done. -/
def advance (grace : Duration) (a : MinuteCandleAggregator) (moment : Timestamp) :
    Except PyError (MinuteCandleAggregator × List Candle) := do
  let (states, stats, closed) ←
    advanceStates w a.gaps (floorMinute (moment - grace)) (sessionDate moment) a.states a.stats
  return ({ a with states := states, stats := stats }, closed)

/-- `on_connected`: the last gap, if it is open, ends. -/
def onConnected (a : MinuteCandleAggregator) (now : Timestamp) : MinuteCandleAggregator :=
  { a with gaps := match a.gaps.getLast? with
      | some gap => if gap.stop.isNone then a.gaps.dropLast ++ [{ gap with stop := some now }]
          else a.gaps
      | none => a.gaps }

/-- `on_disconnected`: a gap begins, and every volume baseline is
forgotten. -/
def onDisconnected (a : MinuteCandleAggregator) (now : Timestamp) : MinuteCandleAggregator :=
  let gaps := if a.gaps.getLast?.all fun gap => gap.stop.isSome then a.gaps ++ [⟨now, none⟩]
    else a.gaps
  { a with
    gaps := gaps.drop (gaps.length - maxRememberedGaps)
    states := a.states.map fun s => { s with lastCumulativeVolume := none } }

end MinuteCandleAggregator

end Emporos
