import Emporos.Async.Solo
import Emporos.History.Grid
/-!
# What the history jobs await

The broker's candles, the stored bars, the record of what was fetched, and
the clock. Jobs run one after the other, and a process can be killed at any
call. A write that fails, or that a kill interrupts, may have been made in
part. The broker returns bars of the instrument and timeframe that it was
asked for, any of them and in any order, or raises.
-/

namespace Emporos

namespace History

open Async

inductive Call
  | getDays (instrumentId : String) (timeframe : Timeframe) (first last : ℤ)
  | save (coverages : List DayCoverage)
  | fetch (instrumentId : String) (timeframe : Timeframe) (start stop : Timestamp)
  | upsert (candles : List Candle)
  | getRange (instrumentId : String) (timeframe : Timeframe) (start stop : Timestamp)
  | now
  deriving DecidableEq

/-- What each call returns. -/
abbrev Call.Value : Call → Type
  | .getDays .. => List DayCoverage
  | .save _ => Unit
  | .fetch .. => List Candle
  | .upsert _ => Unit
  | .getRange .. => List Candle
  | .now => Timestamp

abbrev Call.Answer (c : Call) : Type := Except PyError c.Value

abbrev calls : Interface := ⟨Call, Call.Value⟩

abbrev Program (α : Type) := Task calls PyError α

namespace Program

abbrev await (c : Call) : Program c.Value := Task.ask (I := calls) c

end Program

/-- The jobs over an instrument's days `first..last`. -/
inductive Job
  | backfill (instruments : List String) (first last : ℤ)
  | reconcile (instruments : List String) (first last : ℤ)
  deriving DecidableEq

/-- What happened: a job began, when this was recorded; or a call was made
at a moment. -/
inductive Mark
  | began (job : Job) (recorded : List DayCoverage)
  | called (moment : Timestamp) (call : Call) (answer : call.Answer)

/-- The stored bars, the coverage, and what happened, newest first. -/
structure World where
  clock : Timestamp
  bars : List Candle
  coverage : List DayCoverage
  trace : List Mark

namespace World

def start : World := ⟨0, [], [], []⟩

/-- The coverage of a day. -/
def coverageOf (recorded : List DayCoverage) (instrumentId : String) (timeframe : Timeframe)
    (d : ℤ) : Option DayCoverage :=
  Table.lookup DayCoverage.key (instrumentId, timeframe, d) recorded

/-- `history_coverage`, by instrument, timeframe and day. -/
def daysOf (recorded : List DayCoverage) (instrumentId : String) (timeframe : Timeframe)
    (first last : ℤ) : List DayCoverage :=
  recorded.filter fun c =>
    c.instrumentId = instrumentId ∧ c.timeframe = timeframe ∧ first ≤ c.day ∧ c.day ≤ last

def record (recorded coverages : List DayCoverage) : List DayCoverage :=
  coverages.foldl (fun rows c => Table.upsert DayCoverage.key c rows) recorded

def write (bars candles : List Candle) : List Candle :=
  candles.foldl (fun rows c => Table.upsert Candle.identity c rows) bars

/-- The bars with `start ≤ ts < stop`, oldest first. -/
def read (bars : List Candle) (instrumentId : String) (timeframe : Timeframe)
    (start stop : Timestamp) : List Candle :=
  (bars.filter fun c =>
    c.instrumentId = instrumentId ∧ c.timeframe = timeframe ∧ start ≤ c.ts ∧ c.ts < stop).insertionSort
      fun a b => a.ts ≤ b.ts

/-- How a call may be answered, and what is stored and recorded then. -/
inductive Serves (w : World) : (c : Call) → c.Answer → List Candle → List DayCoverage → Prop
  | getDays {i : String} {tf : Timeframe} {first last : ℤ} :
      Serves w (.getDays i tf first last) (.ok (daysOf w.coverage i tf first last)) w.bars w.coverage
  | saved {coverages : List DayCoverage} :
      Serves w (.save coverages) (.ok ()) w.bars (record w.coverage coverages)
  | savedPart {coverages part : List DayCoverage} {e : PyError} (h : part.Sublist coverages) :
      Serves w (.save coverages) (.error e) w.bars (record w.coverage part)
  | fetched {i : String} {tf : Timeframe} {start stop : Timestamp} {candles : List Candle}
      (own : ∀ c ∈ candles, c.instrumentId = i ∧ c.timeframe = tf) :
      Serves w (.fetch i tf start stop) (.ok candles) w.bars w.coverage
  | written {candles : List Candle} :
      Serves w (.upsert candles) (.ok ()) (write w.bars candles) w.coverage
  | writtenPart {candles part : List Candle} {e : PyError} (h : part.Sublist candles) :
      Serves w (.upsert candles) (.error e) (write w.bars part) w.coverage
  | getRange {i : String} {tf : Timeframe} {start stop : Timestamp} :
      Serves w (.getRange i tf start stop) (.ok (read w.bars i tf start stop)) w.bars w.coverage
  | now : Serves w .now (.ok w.clock) w.bars w.coverage
  | failed {c : Call} {e : PyError} : Serves w c (.error e) w.bars w.coverage

/-- The same, on record. -/
def Step (w : World) (c : Call) (a : c.Answer) (w' : World) : Prop :=
  Serves w c a w'.bars w'.coverage ∧ w'.clock = w.clock ∧ w'.trace = .called w.clock c a :: w.trace

/-- Time goes by. -/
def Waits (w w' : World) : Prop := ∃ t, w.clock ≤ t ∧ w' = { w with clock := t }

end World

/-- Jobs of a kind, one at a time. Nothing stored is lost in a crash. -/
def setting {α : Type} (program : Job → Program α) (kind : Job → Prop) :
    Setting calls PyError α World where
  answers := World.Step
  others := World.Waits
  starts w p w' := ∃ job, kind job ∧ p = program job ∧
    w' = { w with trace := .began job w.coverage :: w.trace }
  restart w := w

end History

end Emporos
