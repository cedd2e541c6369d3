import Emporos.Marketdata.Timeframes
import Mathlib.Data.List.Range
/-!
# The expected shape of a trading day

The grid of a day is every minute of its session. The broker does not
return all of them, so the grid says what was asked for and not returned,
and `compress` says so in ranges.
-/

namespace Emporos

namespace History

open Timestamp

/-- Half open. -/
structure TimeRange where
  start : Timestamp
  stop : Timestamp
  start_lt_stop : start < stop
  deriving DecidableEq

def TimeRange.contains (r : TimeRange) (moment : Timestamp) : Bool :=
  r.start ≤ moment ∧ moment < r.stop

/-- What is known of how completely a day was fetched. `complete` means the
whole session was, as opposed to one filled gap. -/
structure DayCoverage where
  instrumentId : String
  timeframe : Timeframe
  day : ℤ
  absent : List TimeRange
  fetchedAt : Timestamp
  complete : Bool
  empty : Bool
  deriving DecidableEq

namespace DayCoverage

def key (c : DayCoverage) : String × Timeframe × ℤ := (c.instrumentId, c.timeframe, c.day)

def isAbsent (c : DayCoverage) (moment : Timestamp) : Bool := c.absent.any (·.contains moment)

end DayCoverage

/-- A session lies within its day. -/
structure SessionGrid where
  calendar : ℤ → Bool
  window : SessionWindow
  open_nonneg : 0 ≤ window.openTime
  close_lt : window.closeTime < Timestamp.day

namespace SessionGrid

variable (grid : SessionGrid)

/-- The trading days of `first..last`. -/
def tradingDays (first last : ℤ) : List ℤ :=
  ((List.range (last - first + 1).toNat).map fun n : ℕ => first + n).filter grid.calendar

/-- Every minute of the session of a day, none if it is not a trading day. -/
def minutes (date : ℤ) : List Timestamp :=
  if grid.calendar date then
    let opened := grid.window.openAt date
    (List.range ((grid.window.closeAt date - opened) / minute).toNat).map
      fun n : ℕ => opened + minute * n
  else []

variable {grid} {first last d : ℤ}

theorem mem_tradingDays :
    d ∈ grid.tradingDays first last ↔ grid.calendar d = true ∧ first ≤ d ∧ d ≤ last := by
  rw [tradingDays, List.mem_filter, List.mem_map]
  constructor
  · rintro ⟨⟨n, hn, rfl⟩, htrading⟩
    rw [List.mem_range] at hn
    exact ⟨htrading, by omega, by omega⟩
  · rintro ⟨htrading, hfirst, hlast⟩
    refine ⟨⟨(d - first).toNat, List.mem_range.mpr (by omega), by omega⟩, htrading⟩

/-- The days come in order. -/
theorem pairwise_tradingDays : (grid.tradingDays first last).Pairwise (· < ·) := by
  refine List.Pairwise.filter _ (List.pairwise_map.mpr ?_)
  exact List.pairwise_lt_range.imp fun h => by omega

end SessionGrid

/-! ## Ranges of minutes -/

theorem lt_add_minute (t : Timestamp) : t < t + minute := lt_add_of_pos_right t minute_pos

theorem TimeRange.lt_next (r : TimeRange) {t : Timestamp} (h : r.stop = t) : r.start < t + minute :=
  r.start_lt_stop.trans (h ▸ lt_add_minute t)

/-- One minute more; the newest range is first. -/
def joinMinute (ranges : List TimeRange) (t : Timestamp) : List TimeRange :=
  match ranges with
  | r :: rest =>
      if h : r.stop = t then ⟨r.start, t + minute, r.lt_next h⟩ :: rest
      else ⟨t, t + minute, lt_add_minute t⟩ :: r :: rest
  | [] => [⟨t, t + minute, lt_add_minute t⟩]

/-- `compress`: contiguous minutes as ranges. -/
def compress (minutes : List Timestamp) : List TimeRange :=
  ((minutes.dedup.insertionSort (· ≤ ·)).foldl joinMinute []).reverse

/-! ### What the ranges hold

Moments of one phase lie whole minutes apart. -/

/-- So far into a minute. -/
def InPhase (phase : Duration) (t : Timestamp) : Prop := t % minute = phase

instance (phase : Duration) (t : Timestamp) : Decidable (InPhase phase t) :=
  inferInstanceAs (Decidable (_ = _))

variable {phase : Duration} {t m : Timestamp} {l ranges : List TimeRange} {minutes : List Timestamp}

theorem InPhase.add_minute (h : InPhase phase t) : InPhase phase (t + minute) := by
  simp only [InPhase, minute_eq, Timestamp, Duration] at *
  omega

/-- Of one phase, a moment before another is a minute before it. -/
theorem InPhase.add_minute_le (hm : InPhase phase m) (ht : InPhase phase t) (hlt : m < t) :
    m + minute ≤ t := by
  simp only [InPhase, minute_eq, Timestamp, Duration] at *
  omega

/-- Ranges that start at minutes of a list, stop in phase and hold exactly
these minutes. -/
structure Ranged (phase : Duration) (minutes : List Timestamp) (ranges : List TimeRange) : Prop where
  starts : ∀ r ∈ ranges, r.start ∈ minutes
  stops : ∀ r ∈ ranges, InPhase phase r.stop
  holds : ∀ m, InPhase phase m → (ranges.any (·.contains m) = true ↔ m ∈ minutes)

theorem Ranged.joinMinute (h : Ranged phase minutes ranges) (ht : InPhase phase t) :
    Ranged phase (t :: minutes) (joinMinute ranges t) := by
  -- the minute alone is the range from it on
  have hminute : ∀ m, InPhase phase m → (t ≤ m ∧ m < t + minute ↔ m = t) := fun m hm => by
    simp only [InPhase, minute_eq, Timestamp, Duration] at *
    omega
  have hnew : Ranged phase (t :: minutes) (⟨t, t + minute, lt_add_minute t⟩ :: ranges) := by
    refine ⟨List.forall_mem_cons.2 ⟨List.mem_cons_self, fun r hr => ?_⟩,
      List.forall_mem_cons.2 ⟨ht.add_minute, h.stops⟩, fun m hm => ?_⟩
    · exact List.mem_cons_of_mem _ (h.starts r hr)
    · rw [List.any_cons, Bool.or_eq_true, h.holds m hm, List.mem_cons]
      exact or_congr (by simpa [TimeRange.contains] using hminute m hm) Iff.rfl
  cases ranges with
  | nil => exact hnew
  | cons r rest =>
      by_cases hstop : r.stop = t
      · rw [show History.joinMinute (r :: rest) t =
          ⟨r.start, t + minute, r.lt_next hstop⟩ :: rest from dif_pos hstop]
        obtain ⟨hstart, hstarts⟩ := List.forall_mem_cons.1 h.starts
        obtain ⟨-, hstops⟩ := List.forall_mem_cons.1 h.stops
        refine ⟨List.forall_mem_cons.2 ⟨List.mem_cons_of_mem _ hstart, fun r hr => ?_⟩,
          List.forall_mem_cons.2 ⟨ht.add_minute, hstops⟩, fun m hm => ?_⟩
        · exact List.mem_cons_of_mem _ (hstarts r hr)
        · have hholds := h.holds m hm
          have hone := hminute m hm
          have hfrom := hstop ▸ r.start_lt_stop
          rw [List.any_cons, Bool.or_eq_true] at hholds ⊢
          rw [List.mem_cons, ← hholds, ← or_assoc]
          refine or_congr ?_ Iff.rfl
          simp only [TimeRange.contains, decide_eq_true_eq, hstop]
          simp only [minute_eq, Timestamp, Duration] at *
          omega
      · rw [show History.joinMinute (r :: rest) t =
          ⟨t, t + minute, lt_add_minute t⟩ :: r :: rest from dif_neg hstop]
        exact hnew

/-- **The ranges of minutes of one phase hold these minutes and no other.** -/
theorem ranged_compress (h : ∀ t ∈ minutes, InPhase phase t) :
    Ranged phase minutes (compress minutes) := by
  have hfold : ∀ (rest seen : List Timestamp) (ranges : List TimeRange),
      (∀ t ∈ rest, InPhase phase t) → Ranged phase seen ranges →
      Ranged phase (rest.reverse ++ seen) (rest.foldl joinMinute ranges) := by
    intro rest
    induction rest with
    | nil => exact fun _ _ _ hranged => hranged
    | cons t rest ih =>
        intro seen ranges hrest hranged
        obtain ⟨ht, hrest⟩ := List.forall_mem_cons.1 hrest
        rw [List.reverse_cons, List.append_assoc]
        exact ih (t :: seen) _ hrest (hranged.joinMinute ht)
  have hmem : ∀ t, t ∈ (minutes.dedup.insertionSort (· ≤ ·)).reverse ++ [] ↔ t ∈ minutes := by
    simp
  obtain ⟨hstarts, hstops, hholds⟩ := hfold (minutes.dedup.insertionSort (· ≤ ·)) [] []
    (fun t ht => h t (by simpa using ht)) ⟨nofun, nofun, by simp⟩
  refine ⟨fun r hr => ?_, fun r hr => ?_, fun m hm => ?_⟩
  · exact (hmem _).1 (hstarts r (List.mem_reverse.1 hr))
  · exact hstops r (List.mem_reverse.1 hr)
  · rw [compress, List.any_reverse, hholds m hm, hmem]

end History

end Emporos
