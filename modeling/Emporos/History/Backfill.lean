import Emporos.Common.Spans
import Emporos.History.Source
/-!
# Resumable backfill

For each instrument `run` works out which trading days still lack a
complete coverage record, takes them together in chunks of at most
`chunkDays` days, and for each chunk fetches, stores the bars and records
the coverage of its days, in this order. A chunk that the broker fails is
left for the next run; any other exception ends the run.

A request is for a contiguous span, from the first of a chunk's days to its
last. The alerts that a run raises are left out.
-/

namespace Emporos

namespace History

open Async Program

structure Chunk where
  instrument : String
  span : Span ℤ
  deriving DecidableEq

structure BackfillReport where
  chunksFetched : ℕ
  daysAlreadyCovered : ℕ
  candlesWritten : ℕ
  failedChunks : List (String × ℤ × ℤ)
  emptyDays : List (String × ℤ)
  deriving DecidableEq

def BackfillReport.initial : BackfillReport := ⟨0, 0, 0, [], []⟩

/-- What an orchestrator is built with. The broker truncates a request of
more than 30 days. -/
structure BackfillOrchestrator where
  grid : SessionGrid
  chunkDays : ℤ
  deriveHigher : Bool
  chunkDays_pos : 1 ≤ chunkDays
  chunkDays_le : chunkDays ≤ 30

/-- What `except BrokerError` catches. -/
def isBrokerError : PyError → Bool
  | .broker .. => true
  | _ => false

namespace BackfillOrchestrator

variable (o : BackfillOrchestrator)

/-- The trading days of `first..last` without a complete record. -/
def missing (covered : List DayCoverage) (first last : ℤ) : List ℤ :=
  (o.grid.tradingDays first last).filter fun d =>
    !(Table.lookup DayCoverage.day d covered).any (·.complete)

/-- `_chunks`. -/
def chunks (instrument : String) (days : List ℤ) : List Chunk :=
  (Span.group o.chunkDays days).map (Chunk.mk instrument)

/-- `_plan`. -/
def plan (instrument : String) (first last : ℤ) (report : BackfillReport) :
    Program (List Chunk × BackfillReport) := do
  let covered ← await (.getDays instrument .m1 first last)
  let days := o.grid.tradingDays first last
  let missing := o.missing covered first last
  pure (o.chunks instrument missing,
    { report with daysAlreadyCovered := report.daysAlreadyCovered + (days.length - missing.length) })

/-- `_with_higher`. -/
def withHigher (bars : List Candle) : Except PyError (List Candle) :=
  if o.deriveHigher then do
    let higher ← derive o.grid.window DerivedTimeframe.all bars
    pure (bars ++ higher)
  else pure bars

/-- The bars of a response that lie in a session of the span. -/
def kept (chunk : Chunk) (fetched : List Candle) : List Candle :=
  fetched.filter fun b => o.grid.window.contains b.ts ∧
    o.grid.window.openAt chunk.span.first ≤ b.ts ∧ b.ts < o.grid.window.closeAt chunk.span.last

/-- The coverage of one day of a chunk. -/
def coverage (instrument : String) (bars : List Candle) (now : Timestamp) (d : ℤ) : DayCoverage :=
  let expected := o.grid.minutes d
  let present := expected.filter fun m => m ∈ bars.map (·.ts)
  ⟨instrument, .m1, d, compress (expected.filter fun m => m ∉ bars.map (·.ts)), now, true,
    present.isEmpty⟩

/-- `_coverages`: of every trading day of the span. -/
def coverages (chunk : Chunk) (bars : List Candle) (now : Timestamp) : List DayCoverage :=
  (o.grid.tradingDays chunk.span.first chunk.span.last).map (o.coverage chunk.instrument bars now)

/-- What `_run_chunk` does with a response: the bars are stored before the
coverage is recorded. -/
def storeFetched (chunk : Chunk) (report : BackfillReport) (fetched : List Candle) :
    Program BackfillReport := do
  let bars := o.kept chunk fetched
  let candles ← Task.lift (o.withHigher bars)
  await (.upsert candles)
  let now ← await .now
  let coverages := o.coverages chunk bars now
  await (.save coverages)
  pure { report with
    emptyDays := report.emptyDays ++
      ((coverages.filter (·.empty)).map fun c => (chunk.instrument, c.day))
    chunksFetched := report.chunksFetched + 1
    candlesWritten := report.candlesWritten + bars.length }

/-- `_run_chunk`. -/
def runChunk (chunk : Chunk) (report : BackfillReport) : Program BackfillReport := do
  let fetched ← (await (.fetch chunk.instrument .m1 (o.grid.window.openAt chunk.span.first)
    (o.grid.window.closeAt chunk.span.last))).attempt
  match fetched with
  | .error e =>
      if isBrokerError e then
        pure { report with failedChunks :=
          report.failedChunks ++ [(chunk.instrument, chunk.span.first, chunk.span.last)] }
      else Task.raise e
  | .ok fetched => o.storeFetched chunk report fetched

def runChunks : List Chunk → BackfillReport → Program BackfillReport
  | [], report => pure report
  | chunk :: rest, report => do
      let report ← o.runChunk chunk report
      runChunks rest report

/-- The instruments of a run, one after another. -/
def runAll (first last : ℤ) : List String → BackfillReport → Program BackfillReport
  | [], report => pure report
  | instrument :: rest, report => do
      let (chunks, report) ← o.plan instrument first last report
      let report ← o.runChunks chunks report
      runAll first last rest report

def run (instruments : List String) (first last : ℤ) : Program BackfillReport :=
  o.runAll first last instruments .initial

end BackfillOrchestrator

end History

end Emporos
