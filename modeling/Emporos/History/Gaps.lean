import Emporos.History.Backfill
/-!
# Gaps, and filling them

A gap is a range of session minutes without a stored bar that the broker
has not confirmed absent. Only what lies in a gap is written; the higher
timeframes of the day are then rebuilt from what is stored, in a write of
their own; and what the broker still did not return is recorded as absent.
-/

namespace Emporos

namespace History

open Async Program

structure Gap where
  instrumentId : String
  day : ℤ
  range : TimeRange
  deriving DecidableEq

structure FillReport where
  gapsFound : ℕ
  gapsFilled : ℕ
  candlesWritten : ℕ
  failedDays : List (String × ℤ)
  deriving DecidableEq

namespace GapDetector

variable (grid : SessionGrid)

/-- The minutes of a day without a bar, less those confirmed absent. -/
def missing (stored : List Candle) (covered : List DayCoverage) (d : ℤ) : List Timestamp :=
  (grid.minutes d).filter fun m => m ∉ stored.map (·.ts) ∧
    ¬ (Table.lookup DayCoverage.day d covered).any (·.isAbsent m)

/-- `find`. -/
def find (instrumentId : String) (first last : ℤ) : Program (List Gap) :=
  match grid.tradingDays first last with
  | [] => pure []
  | d :: rest => do
      let stored ← await (.getRange instrumentId .m1 (grid.window.openAt d)
        (grid.window.closeAt ((d :: rest).getLast (List.cons_ne_nil _ _))))
      let covered ← await (.getDays instrumentId .m1 first last)
      pure ((d :: rest).flatMap fun d =>
        (compress (missing grid stored covered d)).map (Gap.mk instrumentId d))

end GapDetector

namespace GapFiller

variable (grid : SessionGrid)

/-- `_minutes_in`. -/
def minutesIn (span : TimeRange) : List Timestamp :=
  (grid.minutes span.start.sessionDate).filter fun m => span.contains m

/-- The minutes of the gaps that did not come. -/
def stillMissing (d : ℤ) (gaps : List Gap) (returned : List Candle) : List Timestamp :=
  gaps.flatMap fun g =>
    (grid.minutes d).filter fun m => g.range.contains m ∧ m ∉ returned.map (·.ts)

/-- The record of a day with more minutes confirmed absent. -/
def recorded (instrument : String) (d : ℤ) (existing : Option DayCoverage)
    (still : List Timestamp) (now : Timestamp) : DayCoverage :=
  let known := (existing.map (·.absent)).getD []
  ⟨instrument, .m1, d, compress ((known ++ compress still).flatMap (minutesIn grid)), now,
    (existing.map (·.complete)).getD false, (existing.map (·.empty)).getD false⟩

/-- `_record_absent`. -/
def recordAbsent (instrument : String) (d : ℤ) (gaps : List Gap) (returned : List Candle) :
    Program Unit := do
  let found ← await (.getDays instrument .m1 d d)
  let existing := Table.lookup DayCoverage.day d found
  let now ← await .now
  await (.save [recorded grid instrument d existing (stillMissing grid d gaps returned) now])

/-- `_rebuild_higher`. -/
def rebuildHigher (instrument : String) (d : ℤ) : Program (List Candle) := do
  let minutes ← await (.getRange instrument .m1 (grid.window.openAt d) (grid.window.closeAt d))
  Task.lift (derive grid.window DerivedTimeframe.all minutes)

/-- The bars of a response that lie in a gap. -/
def returned (gaps : List Gap) (fetched : List Candle) : List Candle :=
  fetched.filter fun b => gaps.any fun g => g.range.contains b.ts

/-- What a fill writes, if anything came. -/
def writeReturned (instrument : String) (d : ℤ) (returned : List Candle) : Program Unit :=
  if returned = [] then pure ()
  else do
    await (.upsert returned)
    let higher ← rebuildHigher grid instrument d
    await (.upsert higher)

/-- `_fill_day`, for the gaps of one day. -/
def fillDay (instrument : String) (d : ℤ) (gap : Gap) (gaps : List Gap) (report : FillReport) :
    Program FillReport := do
  let start := gaps.foldl (fun t g => min t g.range.start) gap.range.start
  let stop := gaps.foldl (fun t g => max t g.range.stop) gap.range.stop
  let fetched ← await (.fetch instrument .m1 start stop)
  let returned := returned (gap :: gaps) fetched
  writeReturned grid instrument d returned
  recordAbsent grid instrument d (gap :: gaps) returned
  pure { report with
    gapsFilled := report.gapsFilled + (gap :: gaps).length
    candlesWritten := report.candlesWritten + returned.length }

/-- Day after day. A day that the broker fails is reported. -/
def fillDays (instrument : String) (gaps : List Gap) : List ℤ → FillReport → Program FillReport
  | [], report => pure report
  | d :: rest, report =>
      match gaps.filter fun g => g.day = d with
      | [] => fillDays instrument gaps rest report
      | gap :: others => do
          let outcome ← (fillDay grid instrument d gap others report).attempt
          match outcome with
          | .ok report => fillDays instrument gaps rest report
          | .error e =>
              if isBrokerError e then
                fillDays instrument gaps rest
                  { report with failedDays := report.failedDays ++ [(instrument, d)] }
              else Task.raise e

/-- `fill`. -/
def fill (instrument : String) (gaps : List Gap) : Program FillReport :=
  fillDays grid instrument gaps ((gaps.map (·.day)).dedup.insertionSort (· ≤ ·))
    ⟨gaps.length, 0, 0, []⟩

end GapFiller

namespace HistoryReconciler

variable (grid : SessionGrid)

/-- The reports of the instruments; of one that comes twice, the last. -/
def reconcileAll (first last : ℤ) : List String → List (String × FillReport) →
    Program (List (String × FillReport))
  | [], reports => pure reports
  | instrument :: rest, reports => do
      let gaps ← GapDetector.find grid instrument first last
      let report ← GapFiller.fill grid instrument gaps
      reconcileAll first last rest (Table.upsert Prod.fst (instrument, report) reports)

/-- `reconcile`. -/
def reconcile (instruments : List String) (first last : ℤ) :
    Program (List (String × FillReport)) :=
  reconcileAll grid first last instruments []

end HistoryReconciler

/-! ## The jobs -/

inductive Outcome
  | backfilled (report : BackfillReport)
  | reconciled (reports : List (String × FillReport))
  deriving DecidableEq

/-- What a job runs. -/
def Job.program (o : BackfillOrchestrator) : Job → Program Outcome
  | .backfill instruments first last => do
      let report ← o.run instruments first last
      pure (.backfilled report)
  | .reconcile instruments first last => do
      let reports ← HistoryReconciler.reconcile o.grid instruments first last
      pure (.reconciled reports)

end History

end Emporos
