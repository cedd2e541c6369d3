import Emporos.Async.Task
import Emporos.Common.Table
import Emporos.Core.Calendar
import Emporos.Domain.Candles
import Mathlib.Data.List.Sort
import Mathlib.Logic.Function.Basic
/-!
# Candles in two tiers

Recent bars are documents of the hot tier, older ones rows of a Parquet
object per instrument, timeframe and month in the cold tier. A write goes
to the tier its age asks for, a read unites both, the hot copy winning,
and the rollup moves aged bars from hot to cold. Every access to a tier
is an await.
-/

namespace Emporos

open Async

/-- The unique index of the hot tier. -/
structure CandleKey where
  instrumentId : String
  timeframe : Timeframe
  ts : Timestamp
  deriving DecidableEq

/-- An object of the cold tier, named by `_key`. -/
structure Partition where
  timeframe : Timeframe
  instrumentId : String
  month : ℤ
  deriving DecidableEq

namespace Candle

def key (c : Candle) : CandleKey := ⟨c.instrumentId, c.timeframe, c.ts⟩

/-- The bar as the hot tier keeps it. -/
def stored (c : Candle) : Candle := { c with ts := c.ts.millis }

/-- The object a bar belongs in. -/
def partition (c : Candle) : Partition := ⟨c.timeframe, c.instrumentId, c.ts.monthIndex⟩

end Candle

/-- How long a timeframe stays in the hot tier, if not forever. -/
abbrev Retention := Timeframe → Option Duration

/-- What the two tiers are set up with. -/
structure CandleSettings where
  /-- The repository's placement policy; without one every write is hot. -/
  placement : Option Retention
  /-- The rollup's. -/
  retention : Retention
  /-- BSON has a value for the bar. -/
  bson : Candle → Bool
  /-- The Parquet schema has a row for the bar. -/
  parquet : Candle → Bool
  /-- The rollup has an alert sink. -/
  alerts : Bool
  /-- The order in which an unordered bulk write puts the bars. -/
  order : List Candle → List Candle
  order_perm : ∀ l, (order l).Perm l

structure CandleTiers where
  clock : Timestamp
  hot : List Candle
  /-- What decodes from each object there is. -/
  cold : Partition → Option (List Candle)

/-- Who rewrites an object. -/
inductive Archiver
  | repository
  | rollup
  deriving DecidableEq

inductive CandleCall
  | now
  | hotUpsert (candles : List Candle)
  | hotRead (instrumentId : String) (timeframe : Timeframe) (start stop : Timestamp)
  | hotDelete (instrumentId : String) (timeframe : Timeframe) (stamps : List Timestamp)
  | instrumentsBefore (timeframe : Timeframe) (cutoff : Timestamp)
  | get (object : Partition)
  /-- The rows are what is sent; the bars merged into them, and by whom,
  are kept to tell histories apart. -/
  | put (object : Partition) (rows incoming : List Candle) (who : Archiver)
  | alert (name message : String)

@[reducible] def candleInterface : Interface where
  Call := CandleCall
  Value
    | .now => Timestamp
    | .hotUpsert _ => Unit
    | .hotRead .. => List Candle
    | .hotDelete .. => ℕ
    | .instrumentsBefore .. => List String
    | .get _ => List Candle
    | .put .. => Unit
    | .alert .. => Unit

abbrev CandleTask (α : Type) : Type := Task candleInterface PyError α

namespace CandleTask

abbrev await (c : CandleCall) : CandleTask (candleInterface.Value c) := Async.Task.ask (I := candleInterface) c

abbrev lift {α : Type} (r : Except PyError α) : CandleTask α := Async.Task.lift r

abbrev raise {α : Type} (e : PyError) : CandleTask α := Async.Task.raise e

end CandleTask

open CandleTask

/-- By timestamp. -/
def Candle.earlier (a b : Candle) : Prop := a.ts ≤ b.ts

instance : DecidableRel Candle.earlier := fun _ _ => inferInstanceAs (Decidable (_ ≤ _))

/-! ## What the tiers answer -/

namespace MongoCandleStore

/-- The bars of an instrument in `[start, stop)`. The database compares
whole milliseconds. -/
def within (instrumentId : String) (timeframe : Timeframe) (start stop : Timestamp) (c : Candle) :
    Bool :=
  c.instrumentId = instrumentId ∧ c.timeframe = timeframe ∧
    start.millis ≤ c.ts ∧ c.ts < stop.millis

def upsert (hot : List Candle) (candles : List Candle) : List Candle :=
  candles.foldl (fun hot c => Table.upsert Candle.key c.stored hot) hot

def read (hot : List Candle) (instrumentId : String) (timeframe : Timeframe)
    (start stop : Timestamp) : List Candle :=
  (hot.filter (within instrumentId timeframe start stop)).insertionSort Candle.earlier

/-- The documents of the timestamps. -/
def doomed (instrumentId : String) (timeframe : Timeframe) (stamps : List Timestamp) (c : Candle) :
    Bool :=
  c.instrumentId = instrumentId ∧ c.timeframe = timeframe ∧ c.ts ∈ stamps.map Timestamp.millis

def instrumentsBefore (hot : List Candle) (timeframe : Timeframe) (cutoff : Timestamp) :
    List String :=
  ((hot.filter fun c => c.timeframe = timeframe ∧ c.ts < cutoff.millis).map
    (·.instrumentId)).eraseDups.insertionSort (· ≤ ·)

end MongoCandleStore

/-- The answer to a call, and what it leaves. The hot tier refuses a bar
that BSON has no value for before it writes any. -/
def CandleSettings.answer (d : CandleSettings) :
    (c : candleInterface.Call) → CandleTiers → Except PyError (candleInterface.Value c) × CandleTiers
  | .now, w => (.ok w.clock, w)
  | .hotUpsert candles, w =>
      if candles.all d.bson then
        (.ok (), { w with hot := MongoCandleStore.upsert w.hot (d.order candles) })
      else (.error (.other "Inexact"), w)
  | .hotRead i tf start stop, w => (.ok (MongoCandleStore.read w.hot i tf start stop), w)
  | .hotDelete i tf stamps, w =>
      (.ok (w.hot.filter (MongoCandleStore.doomed i tf stamps)).length,
        { w with hot := w.hot.filter fun c => !MongoCandleStore.doomed i tf stamps c })
  | .instrumentsBefore tf cutoff, w =>
      (.ok (MongoCandleStore.instrumentsBefore w.hot tf cutoff), w)
  | .get object, w =>
      (match w.cold object with
        | some rows => .ok rows
        | none => .error (.other "ObjectNotFoundError"), w)
  | .put object rows _ _, w => (.ok (), { w with cold := Function.update w.cold object (some rows) })
  | .alert .., w => (.ok (), w)

/-! ## The cold tier -/

namespace ParquetCandleArchive

/-- `{c.ts: c for c in candles}`: of two bars of a moment the later one
stands. -/
def byTs (candles : List Candle) : List Candle :=
  candles.foldl (fun rows c => Table.upsert (·.ts) c rows) []

/-- `{…existing…} | {…incoming…}`, in the order of time. -/
def merged (existing incoming : List Candle) : List Candle :=
  (byTs (existing ++ incoming)).insertionSort Candle.earlier

/-- `ParquetCandleCodec.encode`. What it writes decodes to the same bars. -/
def encode (d : CandleSettings) (candles : List Candle) : Except PyError (List Candle) :=
  if candles.all d.parquet then .ok candles else .error (.other "ArrowInvalid")

/-- A month without an object has no bars. -/
def orNone : Except PyError (List Candle) → CandleTask (List Candle)
  | .ok rows => pure rows
  | .error e => if e = .other "ObjectNotFoundError" then pure [] else raise e

/-- `_read_month`. -/
def readMonth (object : Partition) : CandleTask (List Candle) := do
  let found ← (await (.get object)).attempt
  orNone found

/-- The months from that of `start` to that of `stop`. -/
def months (start stop : Timestamp) : List ℤ :=
  (List.range (stop.monthIndex + 1 - start.monthIndex).toNat).map fun n : ℕ => start.monthIndex + n

def readMonths (instrumentId : String) (timeframe : Timeframe) : List ℤ → CandleTask (List Candle)
  | [] => pure []
  | month :: rest => do
      let found ← readMonth ⟨timeframe, instrumentId, month⟩
      let others ← readMonths instrumentId timeframe rest
      pure (found ++ others)

def read (instrumentId : String) (timeframe : Timeframe) (start stop : Timestamp) :
    CandleTask (List Candle) := do
  let found ← readMonths instrumentId timeframe (months start stop)
  pure ((found.filter fun c => start ≤ c.ts ∧ c.ts < stop).insertionSort Candle.earlier)

/-- The objects the bars belong in, by first appearance. -/
def partitions (candles : List Candle) : List Partition := (candles.map (·.partition)).eraseDups

/-- Merge the bars into the objects, one after the other. -/
def archiveInto (d : CandleSettings) (who : Archiver) (candles : List Candle) :
    List Partition → CandleTask Unit
  | [] => pure ()
  | object :: rest => do
      let incoming := candles.filter fun c => c.partition = object
      let existing ← readMonth object
      let rows ← lift (encode d (merged existing incoming))
      await (.put object rows incoming who)
      archiveInto d who candles rest

def archive (d : CandleSettings) (who : Archiver) (candles : List Candle) : CandleTask Unit :=
  archiveInto d who candles (partitions candles)

end ParquetCandleArchive

/-! ## The repository -/

namespace CandleRepository

open ParquetCandleArchive (merged archive)

/-- `hot_cutoff`: bars from it on belong in the hot tier. -/
def hotCutoff (retention : Retention) (timeframe : Timeframe) : CandleTask (Option Timestamp) :=
  match retention timeframe with
  | none => pure none
  | some days => do
      let now ← await .now
      pure (some (now - days))

def cutoffs (retention : Retention) :
    List Timeframe → CandleTask (List (Timeframe × Option Timestamp))
  | [] => pure []
  | timeframe :: rest => do
      let cutoff ← hotCutoff retention timeframe
      let others ← cutoffs retention rest
      pure ((timeframe, cutoff) :: others)

/-- The bar is older than the cutoff of its timeframe. -/
def isOld (cutoffs : List (Timeframe × Option Timestamp)) (c : Candle) : Bool :=
  cutoffs.any fun row => row.1 = c.timeframe ∧ row.2.any fun cutoff => c.ts < cutoff

/-- `_split`: the recent bars and the old ones. -/
def split (d : CandleSettings) (candles : List Candle) : CandleTask (List Candle × List Candle) :=
  match d.placement with
  | none => pure (candles, [])
  | some retention => do
      let cutoffs ← cutoffs retention (candles.map (·.timeframe)).eraseDups
      pure (candles.filter fun c => !isOld cutoffs c, candles.filter (isOld cutoffs))

def upsert (d : CandleSettings) (candles : List Candle) : CandleTask Unit := do
  let (recent, old) ← split d candles
  if recent ≠ [] then await (.hotUpsert recent)
  if old ≠ [] then archive d .repository old

/-- Bars in `[start, stop)`, oldest first, one per timestamp. -/
def getRange (instrumentId : String) (timeframe : Timeframe) (start stop : Timestamp) :
    CandleTask (List Candle) :=
  if stop ≤ start then pure []
  else do
    let cold ← ParquetCandleArchive.read instrumentId timeframe start stop
    let hot ← await (.hotRead instrumentId timeframe start stop)
    pure (merged cold hot)

end CandleRepository

/-! ## The rollup -/

structure RollupReport where
  archived : ℕ
  deleted : ℕ
  instruments : ℕ
  failures : List String
  deriving DecidableEq

namespace CandleRollup

open ParquetCandleArchive (archive byTs)

/-- The bars that do not read back as they were written. -/
def missing (stored written : List Candle) : List Candle :=
  written.filter fun c => Table.lookup (·.ts) c.ts (byTs stored) ≠ some c

/-- `_verify`, of bars in the order of time. -/
def verify : List Candle → CandleTask Unit
  | [] => pure ()
  | first :: rest => do
      let last := (first :: rest).getLast (List.cons_ne_nil first rest)
      let stored ← ParquetCandleArchive.read first.instrumentId first.timeframe first.ts
        (last.ts + Timestamp.second)
      if missing stored (first :: rest) ≠ [] then raise (.other "RollupVerificationError")

/-- How many bars are deleted at a time. -/
def deleteBatch : ℕ := 500

/-- The timestamps in batches. -/
def batches (stamps : List Timestamp) : List (List Timestamp) :=
  (List.range ((stamps.length + deleteBatch - 1) / deleteBatch)).map fun n =>
    (stamps.drop (deleteBatch * n)).take deleteBatch

def deleteAll (instrumentId : String) (timeframe : Timeframe) :
    List (List Timestamp) → ℕ → CandleTask ℕ
  | [], deleted => pure deleted
  | stamps :: rest, deleted => do
      let n ← await (.hotDelete instrumentId timeframe stamps)
      deleteAll instrumentId timeframe rest (deleted + n)

/-- `_roll`: archive, verify, and only then delete. -/
def roll (d : CandleSettings) (instrumentId : String) (timeframe : Timeframe) (cutoff : Timestamp)
    (report : RollupReport) : CandleTask RollupReport := do
  let old ← await (.hotRead instrumentId timeframe 0 cutoff)
  if old = [] then pure report
  else
    match ← (do archive d .rollup old; verify old : CandleTask Unit).attempt with
    | .error e =>
        pure { report with failures :=
          report.failures ++ [instrumentId ++ "/" ++ timeframe.value ++ ": " ++ e.typeName] }
    | .ok () => do
        let deleted ← deleteAll instrumentId timeframe (batches (old.map (·.ts))) 0
        pure { report with
          archived := report.archived + old.length
          deleted := report.deleted + deleted
          instruments := report.instruments + 1 }

def rollInstruments (d : CandleSettings) (only : Option (List String)) (timeframe : Timeframe)
    (cutoff : Timestamp) : List String → RollupReport → CandleTask RollupReport
  | [], report => pure report
  | instrumentId :: rest, report =>
      if only.any fun ids => instrumentId ∉ ids then
        rollInstruments d only timeframe cutoff rest report
      else do
        let report ← roll d instrumentId timeframe cutoff report
        rollInstruments d only timeframe cutoff rest report

def rollTimeframes (d : CandleSettings) (only : Option (List String)) :
    List Timeframe → RollupReport → CandleTask RollupReport
  | [], report => pure report
  | timeframe :: rest, report => do
      match ← CandleRepository.hotCutoff d.retention timeframe with
      | none => rollTimeframes d only rest report
      | some cutoff => do
          let instruments ← await (.instrumentsBefore timeframe cutoff)
          let report ← rollInstruments d only timeframe cutoff instruments report
          rollTimeframes d only rest report

/-- Roll up every timeframe, or those asked for, for every instrument with
aged bars, or those asked for. -/
def run (d : CandleSettings) (timeframes : List Timeframe) (only : Option (List String)) :
    CandleTask RollupReport := do
  let report ← rollTimeframes d only (if timeframes = [] then Timeframe.all else timeframes)
    ⟨0, 0, 0, []⟩
  if report.failures ≠ [] ∧ d.alerts then
    await (.alert "persistence.rollup_failed"
      (toString report.failures.length ++ " rollup(s) failed"))
  pure report

end CandleRollup

end Emporos
