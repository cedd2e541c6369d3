import Emporos.Backtest.FillModel
import Emporos.Core.Calendar
import Emporos.Core.FloatTime
import Emporos.Persistence.CandleSource
/-!
# The bar feed

An iterator over closed bars. The window is read in chunks, each of one
instrument after the other, and the bars of a chunk are served in the order
of their times and of the list of instruments.

Served or not, a chunk ends where the cursor and the span say, before it is
cut at the window's end: past the last moment there is that is an
`OverflowError`. A feed that stays within the calendar serves the same bars
in the same order whatever the span of its chunks
(`ClosedBarFeed.serves_iff`).
-/

namespace Emporos

open Timestamp

/-- `CandleReader`. -/
abbrev CandleReader := String → Timeframe → Timestamp → Timestamp → List Candle

/-- A source that has under each timeframe bars of that timeframe. -/
structure CandleStore extends CandleSource where
  of_timeframe : ∀ i tf, ∀ c ∈ bars i tf, c.timeframe = tf

/-- What an iteration raises. -/
inductive FeedError
  /-- `FeedError`. -/
  | feed (message : String)
  /-- `FeedConsumedError`. -/
  | consumed (message : String)
  /-- `OverflowError`. -/
  | overflow
  deriving DecidableEq

/-- `start <= bar.ts` and the bar closed by `stop`. -/
structure FeedWindow where
  start : Timestamp
  stop : Timestamp
  earliest_le : earliest ≤ start
  start_lt_stop : start < stop
  stop_le : stop ≤ latest

/-- `timedelta.max`. -/
def Duration.longest : Duration := 1000000000 * day - 1

structure ClosedBarFeed where
  instrumentIds : List String
  timeframe : Timeframe
  window : FeedWindow
  chunk : Duration
  nonempty : instrumentIds ≠ []
  nodup : instrumentIds.Nodup
  chunk_pos : 0 < chunk
  chunk_le : chunk ≤ Duration.longest

namespace ClosedBarFeed

variable (feed : ClosedBarFeed) (reader : CandleReader)

/-- `_rank`. -/
def rank (bar : Candle) : ℕ := feed.instrumentIds.idxOf bar.instrumentId

/-- `_check`, with the times seen so far. -/
def check (instrumentId : String) (start stop : Timestamp) (seen : List Timestamp) :
    List Candle → Except FeedError Unit
  | [] => .ok ()
  | bar :: rest =>
      if bar.instrumentId ≠ instrumentId ∨ bar.timeframe ≠ feed.timeframe then
        .error (.feed s!"asked for {instrumentId} {feed.timeframe.value} bars, got {bar.instrumentId} {bar.timeframe.value}")
      else if ¬(start ≤ bar.ts ∧ bar.ts < stop) then
        .error (.feed s!"{instrumentId} bar {isoformat bar.ts} is outside the range read")
      else if bar.ts ∈ seen then
        .error (.feed s!"{instrumentId} has two bars at {isoformat bar.ts}")
      else check instrumentId start stop (bar.ts :: seen) rest

/-- The bars that had closed by the window's end. -/
def closed : List Candle → Except FeedError (List Candle)
  | [] => .ok []
  | bar :: rest =>
      if latest < bar.closesAt then .error .overflow
      else do
        let later ← closed rest
        .ok (if bar.closesAt ≤ feed.window.stop then bar :: later else later)

/-- The closed bars of a list of instruments, one instrument at a time. -/
def received (start stop : Timestamp) : List String → Except FeedError (List Candle)
  | [] => .ok []
  | i :: rest => do
      let bars := reader i feed.timeframe start stop
      feed.check i start stop [] bars
      let bars ← feed.closed bars
      let later ← received start stop rest
      .ok (bars ++ later)

/-- By the time, and by the place in the list at one time. -/
def sortKeyLe (a b : Candle) : Prop := a.ts < b.ts ∨ a.ts = b.ts ∧ feed.rank a ≤ feed.rank b

instance (a b : Candle) : Decidable (feed.sortKeyLe a b) := inferInstanceAs (Decidable (_ ∨ _))

/-- `_closed_bars`. -/
def closedBars (start stop : Timestamp) : Except FeedError (List Candle) := do
  let bars ← feed.received reader start stop feed.instrumentIds
  .ok (bars.insertionSort feed.sortKeyLe)

theorem decreases {feed : ClosedBarFeed} {cursor : Timestamp} (h : cursor < feed.window.stop) :
    (feed.window.stop - min (cursor + feed.chunk) feed.window.stop).toNat <
      (feed.window.stop - cursor).toNat := by
  have hpos := feed.chunk_pos
  simp only [Timestamp, Duration] at *
  omega

/-- `_bars` from a cursor on: what is yielded, and what is raised behind
it. -/
def bars (cursor : Timestamp) : List Candle × Option FeedError :=
  if _ : cursor < feed.window.stop then
    if latest < cursor + feed.chunk then ([], some .overflow)
    else
      match feed.closedBars reader cursor (min (cursor + feed.chunk) feed.window.stop) with
      | .error e => ([], some e)
      | .ok chunk =>
          let later := bars (min (cursor + feed.chunk) feed.window.stop)
          (chunk ++ later.1, later.2)
  else ([], none)
termination_by (feed.window.stop - cursor).toNat
decreasing_by exact decreases ‹_›

/-- An iteration of the feed, by whether there was one before. -/
def iterate (consumed : Bool) : List Candle × Option FeedError :=
  if consumed then
    ([], some (.consumed "this feed has already been read; build a new one for a rerun"))
  else feed.bars reader feed.window.start

/-! ## What it should serve -/

/-- Before, in the order bars are served in. -/
def Before (a b : Candle) : Prop := a.ts < b.ts ∨ a.ts = b.ts ∧ feed.rank a < feed.rank b

/-- A bar of one of the instruments, from the window's start on and closed by
its end. -/
def Wanted (store : CandleStore) (bar : Candle) : Prop :=
  bar.instrumentId ∈ feed.instrumentIds ∧ bar ∈ store.bars bar.instrumentId feed.timeframe ∧
    feed.window.start ≤ bar.ts ∧ bar.closesAt ≤ feed.window.stop

/-- An iteration ends and has yielded the wanted bars, each once, in their
order. -/
def Serves (store : CandleStore) : Prop :=
  ∃ served, feed.iterate store.getRange false = (served, none) ∧ served.Pairwise feed.Before ∧
    ∀ bar, bar ∈ served ↔ feed.Wanted store bar

/-- Where the last chunk from a cursor on would end, were it not cut. -/
def lastChunkEnd (cursor : Timestamp) : Timestamp :=
  cursor + (feed.window.stop - cursor + feed.chunk - 1) / feed.chunk * feed.chunk

/-- The bars a feed reads from a cursor on close within the calendar. -/
def CloseInTime (store : CandleStore) (cursor : Timestamp) : Prop :=
  ∀ i ∈ feed.instrumentIds, ∀ bar ∈ store.bars i feed.timeframe,
    cursor ≤ bar.ts → bar.ts < feed.window.stop → bar.closesAt ≤ latest

/-- No moment the feed computes lies past the last: neither the end of a
chunk nor the close of a bar that it reads. -/
def InCalendar (store : CandleStore) : Prop :=
  feed.lastChunkEnd feed.window.start ≤ latest ∧ feed.CloseInTime store feed.window.start

/-- The same feed by chunks of another span. -/
def withChunk (chunk : Duration) (hpos : 0 < chunk) (hle : chunk ≤ Duration.longest) :
    ClosedBarFeed :=
  { feed with chunk, chunk_pos := hpos, chunk_le := hle }

variable {feed} {store : CandleStore} {i : String} {start stop cursor : Timestamp}
variable {l out served : List Candle}

/-! ## One chunk -/

/-- **The bars of a source pass the check.** -/
theorem check_eq_ok {seen : List Timestamp} (hbars : ∀ bar ∈ l, bar.instrumentId = i ∧
    bar.timeframe = feed.timeframe ∧ start ≤ bar.ts ∧ bar.ts < stop)
    (hsorted : l.Pairwise (·.ts < ·.ts)) (hseen : ∀ t ∈ seen, ∀ bar ∈ l, t < bar.ts) :
    feed.check i start stop seen l = .ok () := by
  induction l generalizing seen with
  | nil => rfl
  | cons bar rest ih =>
      obtain ⟨⟨hi, htf, hrange⟩, hrest⟩ := List.forall_mem_cons.1 hbars
      obtain ⟨hbefore, hsorted⟩ := List.pairwise_cons.1 hsorted
      have hnew : bar.ts ∉ seen := fun hmem =>
        lt_irrefl _ (hseen bar.ts hmem bar List.mem_cons_self)
      unfold check
      rw [if_neg (not_or.2 ⟨not_not.2 hi, not_not.2 htf⟩), if_neg (not_not.2 hrange), if_neg hnew]
      refine ih hrest hsorted (List.forall_mem_cons.2 ⟨hbefore, fun t ht later hlater => ?_⟩)
      exact hseen t ht later (List.mem_cons_of_mem _ hlater)

theorem check_getRange : feed.check i start stop []
    (store.getRange i feed.timeframe start stop) = .ok () := by
  refine check_eq_ok (fun bar hbar => ?_) ((store.oldest_first i feed.timeframe).filter _) nofun
  obtain ⟨hmem, hrange⟩ := CandleSource.mem_getRange.1 hbar
  exact ⟨store.of_instrument i _ bar hmem, store.of_timeframe i _ bar hmem, hrange⟩

theorem closed_eq_ok : feed.closed l = .ok out ↔
    (∀ bar ∈ l, bar.closesAt ≤ latest) ∧
      out = l.filter fun bar => bar.closesAt ≤ feed.window.stop := by
  induction l generalizing out with
  | nil => simp [closed, eq_comm]
  | cons bar rest ih =>
      unfold closed
      rw [List.forall_mem_cons]
      by_cases hoverflow : latest < bar.closesAt
      · rw [if_pos hoverflow]
        exact ⟨nofun, fun h => absurd h.1.1 hoverflow.not_ge⟩
      · rw [if_neg hoverflow, List.filter_cons]
        constructor
        · intro h
          obtain ⟨later, hlater, h⟩ := exists_of_bind h
          obtain ⟨hrest, rfl⟩ := ih.1 hlater
          refine ⟨⟨not_lt.1 hoverflow, hrest⟩, ?_⟩
          simpa using (Except.ok.inj h).symm
        · rintro ⟨⟨-, hrest⟩, rfl⟩
          rw [ih.2 ⟨hrest, rfl⟩]
          simp [Bind.bind, Except.bind]

theorem received_eq_ok {ids : List String} :
    feed.received store.getRange start stop ids = .ok out ↔
      (∀ i ∈ ids, ∀ bar ∈ store.getRange i feed.timeframe start stop, bar.closesAt ≤ latest) ∧
      out = ids.flatMap fun i => (store.getRange i feed.timeframe start stop).filter
        fun bar => bar.closesAt ≤ feed.window.stop := by
  induction ids generalizing out with
  | nil => simp [received, eq_comm]
  | cons i rest ih =>
      unfold received
      rw [List.forall_mem_cons, List.flatMap_cons]
      constructor
      · intro h
        obtain ⟨_, -, h⟩ := exists_of_bind h
        obtain ⟨bars, hbars, h⟩ := exists_of_bind h
        obtain ⟨later, hlater, h⟩ := exists_of_bind h
        obtain ⟨hclosed, rfl⟩ := closed_eq_ok.1 hbars
        obtain ⟨hrest, rfl⟩ := ih.1 hlater
        exact ⟨⟨hclosed, hrest⟩, (Except.ok.inj h).symm⟩
      · rintro ⟨⟨hclosed, hrest⟩, rfl⟩
        dsimp only
        rw [check_getRange, closed_eq_ok.2 ⟨hclosed, rfl⟩, ih.2 ⟨hrest, rfl⟩]
        rfl

/-- The wanted bars of a chunk, instrument after instrument. -/
def wantedIn (feed : ClosedBarFeed) (store : CandleStore) (start stop : Timestamp) : List Candle :=
  feed.instrumentIds.flatMap fun i => (store.getRange i feed.timeframe start stop).filter
    fun bar => bar.closesAt ≤ feed.window.stop

theorem mem_wantedIn {bar : Candle} : bar ∈ feed.wantedIn store start stop ↔
    bar.instrumentId ∈ feed.instrumentIds ∧ bar ∈ store.bars bar.instrumentId feed.timeframe ∧
      (start ≤ bar.ts ∧ bar.ts < stop) ∧ bar.closesAt ≤ feed.window.stop := by
  unfold wantedIn
  rw [List.mem_flatMap]
  constructor
  · rintro ⟨i, hi, hbar⟩
    obtain ⟨hread, hclosed⟩ := List.mem_filter.1 hbar
    obtain ⟨hmem, hrange⟩ := CandleSource.mem_getRange.1 hread
    obtain rfl := store.of_instrument i _ bar hmem
    exact ⟨hi, hmem, hrange, of_decide_eq_true hclosed⟩
  · rintro ⟨hi, hmem, hrange, hclosed⟩
    exact ⟨bar.instrumentId, hi, List.mem_filter.2
      ⟨CandleSource.mem_getRange.2 ⟨hmem, hrange⟩, decide_eq_true hclosed⟩⟩

/-- No two of them have the time and the instrument in common. -/
theorem pairwise_wantedIn : (feed.wantedIn store start stop).Pairwise
    fun a b => ¬(a.ts = b.ts ∧ feed.rank a = feed.rank b) := by
  unfold wantedIn
  rw [List.pairwise_flatMap]
  constructor
  · intro i hi
    refine (((store.oldest_first i feed.timeframe).filter _).filter _).imp ?_
    rintro a b hlt ⟨hts, -⟩
    exact hlt.ne hts
  · refine feed.nodup.imp_of_mem ?_
    rintro i j hi hj hne a ha b hb ⟨-, hrank⟩
    have hai := store.of_instrument i _ a (CandleSource.mem_getRange.1 (List.mem_filter.1 ha).1).1
    have hbj := store.of_instrument j _ b (CandleSource.mem_getRange.1 (List.mem_filter.1 hb).1).1
    -- the place of an instrument in the list tells which it is
    rw [rank, rank, hai, hbj] at hrank
    exact hne ((List.idxOf_inj hi).1 hrank)

/-- **A chunk is served in order.** -/
theorem pairwise_sorted :
    ((feed.wantedIn store start stop).insertionSort feed.sortKeyLe).Pairwise feed.Before := by
  have htotal : Std.Total feed.sortKeyLe := ⟨fun a b => by
    simp only [sortKeyLe, Timestamp]
    omega⟩
  have htrans : IsTrans Candle feed.sortKeyLe := ⟨fun a b c => by
    simp only [sortKeyLe, Timestamp]
    omega⟩
  have hdistinct := ((feed.wantedIn store start stop).perm_insertionSort feed.sortKeyLe).symm.pairwise
    pairwise_wantedIn fun h h' => h ⟨h'.1.symm, h'.2.symm⟩
  refine ((List.pairwise_insertionSort feed.sortKeyLe _).and hdistinct).imp ?_
  rintro a b ⟨hle, hne⟩
  obtain hlt | ⟨hts, hrank⟩ := hle
  · exact .inl hlt
  · exact .inr ⟨hts, hrank.lt_of_ne fun h => hne ⟨hts, h⟩⟩

theorem closedBars_eq_ok : feed.closedBars store.getRange start stop = .ok out ↔
    (∀ i ∈ feed.instrumentIds, ∀ bar ∈ store.getRange i feed.timeframe start stop,
      bar.closesAt ≤ latest) ∧
    out = (feed.wantedIn store start stop).insertionSort feed.sortKeyLe := by
  constructor
  · intro h
    obtain ⟨bars, hbars, h⟩ := exists_of_bind h
    obtain ⟨hclosed, rfl⟩ := received_eq_ok.1 hbars
    exact ⟨hclosed, (Except.ok.inj h).symm⟩
  · rintro ⟨hclosed, rfl⟩
    unfold closedBars
    rw [received_eq_ok.2 ⟨hclosed, rfl⟩]
    rfl

/-! ## Chunk after chunk -/

theorem lastChunkEnd_eq (hcursor : cursor < feed.window.stop)
    (hstop : feed.window.stop ≤ cursor + feed.chunk) :
    feed.lastChunkEnd cursor = cursor + feed.chunk := by
  have hone : (feed.window.stop - cursor + feed.chunk - 1) / feed.chunk = 1 := by
    rw [Int.ediv_eq_iff_of_pos feed.chunk_pos]
    simp only [Timestamp, Duration] at *
    omega
  rw [lastChunkEnd, hone, one_mul]

theorem lastChunkEnd_add : feed.lastChunkEnd (cursor + feed.chunk) = feed.lastChunkEnd cursor := by
  have hstep : feed.window.stop - cursor + feed.chunk - 1 =
      feed.window.stop - (cursor + feed.chunk) + feed.chunk - 1 + feed.chunk := by
    simp only [Timestamp, Duration]
    omega
  rw [lastChunkEnd, lastChunkEnd, hstep, Int.add_ediv_of_dvd_right (dvd_refl _),
    Int.ediv_self feed.chunk_pos.ne', add_mul, one_mul]
  simp only [Timestamp, Duration]
  omega

theorem le_lastChunkEnd (hcursor : cursor < feed.window.stop) :
    cursor + feed.chunk ≤ feed.lastChunkEnd cursor := by
  have hone : 1 ≤ (feed.window.stop - cursor + feed.chunk - 1) / feed.chunk := by
    rw [Int.le_ediv_iff_mul_le feed.chunk_pos]
    simp only [Timestamp, Duration] at *
    omega
  have hmul := mul_le_mul_of_nonneg_right hone feed.chunk_pos.le
  rw [one_mul] at hmul
  exact add_le_add_right hmul cursor

/-- There is no moment for the end of a chunk. -/
theorem bars_of_overflow (feed : ClosedBarFeed) (reader : CandleReader)
    (h : cursor < feed.window.stop) (hchunk : latest < cursor + feed.chunk) :
    feed.bars reader cursor = ([], some .overflow) := by
  unfold bars
  rw [dif_pos h, if_pos hchunk]

/-- The last chunk ends in the calendar where the first does and the last
from behind it. -/
theorem lastChunkEnd_le_iff (hcursor : cursor < feed.window.stop) :
    feed.lastChunkEnd cursor ≤ latest ↔ cursor + feed.chunk ≤ latest ∧
      (min (cursor + feed.chunk) feed.window.stop < feed.window.stop →
        feed.lastChunkEnd (min (cursor + feed.chunk) feed.window.stop) ≤ latest) := by
  obtain hlast | hmore := le_or_gt feed.window.stop (cursor + feed.chunk)
  · rw [min_eq_right hlast, lastChunkEnd_eq hcursor hlast]
    exact ⟨fun h => ⟨h, fun h' => absurd h' (lt_irrefl _)⟩, And.left⟩
  · rw [min_eq_left hmore.le, lastChunkEnd_add]
    exact ⟨fun h => ⟨(le_lastChunkEnd hcursor).trans h, fun _ => h⟩, fun h => h.2 hmore⟩

/-- What holds behind the window, and at a cursor where it holds a chunk
later, holds everywhere. -/
theorem chunk_induction (feed : ClosedBarFeed) {motive : Timestamp → Prop}
    (behind : ∀ cursor, ¬cursor < feed.window.stop → motive cursor)
    (step : ∀ cursor, cursor < feed.window.stop →
      motive (min (cursor + feed.chunk) feed.window.stop) → motive cursor)
    (cursor : Timestamp) : motive cursor :=
  if h : cursor < feed.window.stop then
    step cursor h (chunk_induction feed behind step (min (cursor + feed.chunk) feed.window.stop))
  else behind cursor h
termination_by (feed.window.stop - cursor).toNat
decreasing_by exact decreases h

/-- **What comes through ended within the calendar.** -/
theorem inCalendar_of_bars (cursor : Timestamp) : ∀ served,
    feed.bars store.getRange cursor = (served, none) →
      (cursor < feed.window.stop → feed.lastChunkEnd cursor ≤ latest) ∧
      feed.CloseInTime store cursor := by
  induction cursor using feed.chunk_induction with
  | behind cursor h =>
      intro served _
      refine ⟨fun h' => absurd h' h, fun i _ bar _ hfrom hto => ?_⟩
      exact absurd (hfrom.trans_lt hto) h
  | step cursor h ih =>
      intro served hserved
      unfold bars at hserved
      rw [dif_pos h] at hserved
      split at hserved
      · cases hserved
      · rename_i hchunk
        split at hserved
        · cases hserved
        · rename_i bars hbars
          obtain ⟨hlast, hlater⟩ := ih _ (Prod.ext rfl (Prod.ext_iff.1 hserved).2)
          obtain ⟨hclose, -⟩ := closedBars_eq_ok.1 hbars
          refine ⟨fun _ => (lastChunkEnd_le_iff h).2 ⟨not_lt.1 hchunk, hlast⟩,
            fun i hi bar hbar hfrom hto => ?_⟩
          -- a bar is in this chunk or in a later one
          obtain hin | hout := lt_or_ge bar.ts (min (cursor + feed.chunk) feed.window.stop)
          · exact hclose i hi bar (CandleSource.mem_getRange.2 ⟨hbar, hfrom, hin⟩)
          · exact hlater i hi bar hbar hout hto

/-- **Within the calendar, the chunks make up the window.** -/
theorem exists_bars (cursor : Timestamp) :
    (cursor < feed.window.stop → feed.lastChunkEnd cursor ≤ latest) →
    feed.CloseInTime store cursor →
    ∃ served, feed.bars store.getRange cursor = (served, none) ∧ served.Pairwise feed.Before ∧
      ∀ bar, bar ∈ served ↔ bar.instrumentId ∈ feed.instrumentIds ∧
        bar ∈ store.bars bar.instrumentId feed.timeframe ∧ cursor ≤ bar.ts ∧
        bar.closesAt ≤ feed.window.stop := by
  induction cursor using feed.chunk_induction with
  | behind cursor h =>
      intro _ _
      refine ⟨[], by rw [bars, dif_neg h], .nil, fun bar => ⟨nofun, ?_⟩⟩
      rintro ⟨-, -, hfrom, hclosed⟩
      exact absurd ((hfrom.trans_lt bar.ts_lt_closesAt).trans_le hclosed) h
  | step cursor h ih =>
      intro hlast hclose
      obtain ⟨hchunk, hlater⟩ := (lastChunkEnd_le_iff h).1 (hlast h)
      obtain ⟨later, hbars, hordered, hmem⟩ := ih hlater fun i hi bar hbar hfrom hto =>
        hclose i hi bar hbar ((le_min (le_add_of_nonneg_right feed.chunk_pos.le) h.le).trans hfrom) hto
      have hread : ∀ i ∈ feed.instrumentIds,
          ∀ bar ∈ store.getRange i feed.timeframe cursor (min (cursor + feed.chunk) feed.window.stop),
          bar.closesAt ≤ latest := fun i hi bar hbar => by
        obtain ⟨hbar, hfrom, hto⟩ := CandleSource.mem_getRange.1 hbar
        exact hclose i hi bar hbar hfrom (hto.trans_le (min_le_right _ _))
      refine ⟨(feed.wantedIn store cursor (min (cursor + feed.chunk) feed.window.stop)).insertionSort
        feed.sortKeyLe ++ later, ?_, ?_, fun bar => ?_⟩
      · rw [bars, dif_pos h, if_neg hchunk.not_gt, closedBars_eq_ok.2 ⟨hread, rfl⟩]
        dsimp only
        rw [hbars]
      · -- the bars of the chunk are before its end, those behind it are not
        refine List.pairwise_append.2 ⟨pairwise_sorted, hordered, fun a ha b hb => .inl ?_⟩
        obtain ⟨-, -, ⟨-, ha⟩, -⟩ := mem_wantedIn.1 ((List.mem_insertionSort _).1 ha)
        exact ha.trans_le ((hmem b).1 hb).2.2.1
      · rw [List.mem_append, List.mem_insertionSort, mem_wantedIn, hmem]
        constructor
        · rintro (⟨hi, hbar, ⟨hfrom, -⟩, hclosed⟩ | ⟨hi, hbar, hfrom, hclosed⟩)
          · exact ⟨hi, hbar, hfrom, hclosed⟩
          · refine ⟨hi, hbar, le_trans (le_min ?_ h.le) hfrom, hclosed⟩
            exact le_add_of_nonneg_right feed.chunk_pos.le
        · rintro ⟨hi, hbar, hfrom, hclosed⟩
          obtain hin | hout := lt_or_ge bar.ts (min (cursor + feed.chunk) feed.window.stop)
          · exact .inl ⟨hi, hbar, ⟨hfrom, hin⟩, hclosed⟩
          · exact .inr ⟨hi, hbar, hout, hclosed⟩

/-! ## The feed serves its window -/

theorem serves_iff_inCalendar : feed.Serves store ↔ feed.InCalendar store := by
  constructor
  · rintro ⟨served, hserved, -, -⟩
    obtain ⟨hlast, hclose⟩ := inCalendar_of_bars feed.window.start served hserved
    exact ⟨hlast feed.window.start_lt_stop, hclose⟩
  · rintro ⟨hlast, hclose⟩
    exact exists_bars feed.window.start (fun _ => hlast) hclose

/-- What a feed serves is settled by its order and its members. -/
theorem served_unique (feed : ClosedBarFeed) {a b : List Candle} (ha : a.Pairwise feed.Before)
    (hb : b.Pairwise feed.Before) (hmem : ∀ bar, bar ∈ a ↔ bar ∈ b) : a = b := by
  have : Std.Irrefl feed.Before := ⟨fun a => by
    simp only [Before, Timestamp]
    omega⟩
  have : Std.Antisymm feed.Before := ⟨fun a b hab hba => by
    simp only [Before, Timestamp] at *
    omega⟩
  exact ha.eq_of_mem_iff hb hmem

/-- **The feed serves the wanted bars, each once and in order, exactly if it
stays within the calendar; and what it serves does not depend on the span of
its chunks.** -/
theorem serves_iff (feed : ClosedBarFeed) (store : CandleStore) :
    (feed.Serves store ↔ feed.InCalendar store) ∧
    ∀ (chunk : Duration) (hpos : 0 < chunk) (hle : chunk ≤ Duration.longest),
      feed.Serves store → (feed.withChunk chunk hpos hle).Serves store →
      (feed.withChunk chunk hpos hle).iterate store.getRange false =
        feed.iterate store.getRange false := by
  refine ⟨serves_iff_inCalendar, fun chunk hpos hle => ?_⟩
  rintro ⟨served, hserved, hordered, hmem⟩ ⟨served', hserved', hordered', hmem'⟩
  have hsame : served' = served :=
    served_unique feed hordered' hordered fun bar => (hmem' bar).trans (hmem bar).symm
  rw [hserved, hserved', hsame]

/-! A bar of a new year's first session, and a feed of its day. -/
namespace NewYear

theorem price_le : (⟨100⟩ : Money) ≤ ⟨100⟩ := le_rfl

def bar : Candle :=
  ⟨"NSE:RELIANCE", .m5, 20454 * day + 225 * minute, ⟨100⟩, ⟨100⟩, ⟨100⟩, ⟨100⟩, 1, false, price_le,
    price_le, price_le, price_le⟩

def bars (i : String) (tf : Timeframe) : List Candle :=
  if i = bar.instrumentId ∧ tf = bar.timeframe then [bar] else []

theorem eq_bar {i : String} {tf : Timeframe} {c : Candle} (h : c ∈ bars i tf) :
    c = bar ∧ i = bar.instrumentId ∧ tf = bar.timeframe := by
  unfold bars at h
  split at h
  · rename_i hkey
    exact ⟨List.mem_singleton.1 h, hkey⟩
  · cases h

theorem oldest_first (i : String) (tf : Timeframe) : (bars i tf).Pairwise (·.ts < ·.ts) := by
  unfold bars
  split
  · exact List.pairwise_singleton _ _
  · exact .nil

theorem of_instrument (i : String) (tf : Timeframe) (c : Candle) (h : c ∈ bars i tf) :
    c.instrumentId = i := by
  obtain ⟨rfl, rfl, -⟩ := eq_bar h
  rfl

theorem of_timeframe (i : String) (tf : Timeframe) (c : Candle) (h : c ∈ bars i tf) :
    c.timeframe = tf := by
  obtain ⟨rfl, -, rfl⟩ := eq_bar h
  rfl

def oneBar : CandleStore := ⟨⟨bars, oldest_first, of_instrument⟩, of_timeframe⟩

theorem earliest_le : earliest ≤ 20454 * day := by decide

theorem start_lt_stop : 20454 * day < 20455 * day := by decide

theorem stop_le : 20455 * day ≤ latest := by decide

def window : FeedWindow := ⟨20454 * day, 20455 * day, earliest_le, start_lt_stop, stop_le⟩

theorem nonempty : ["NSE:RELIANCE"] ≠ [] := nofun

theorem nodup : ["NSE:RELIANCE"].Nodup := by decide

theorem hour_pos : 0 < 60 * minute := by decide

theorem hour_le : 60 * minute ≤ Duration.longest := by decide

theorem longest_pos : 0 < Duration.longest := by decide

theorem longest_le : Duration.longest ≤ Duration.longest := le_rfl

/-- By the hour. -/
def hourly : ClosedBarFeed :=
  ⟨["NSE:RELIANCE"], .m5, window, 60 * minute, nonempty, nodup, hour_pos, hour_le⟩

theorem half_pos : 0 < 30 * minute := by decide

theorem half_le : 30 * minute ≤ Duration.longest := by decide

theorem closeInTime (feed : ClosedBarFeed) (cursor : Timestamp) : feed.CloseInTime oneBar cursor := by
  rintro i - c hc - -
  obtain ⟨rfl, -, -⟩ := eq_bar hc
  decide

theorem hourly_serves : hourly.Serves oneBar :=
  serves_iff_inCalendar.2 ⟨by decide, closeInTime _ _⟩

theorem halfHourly_serves : (hourly.withChunk (30 * minute) half_pos half_le).Serves oneBar :=
  serves_iff_inCalendar.2 ⟨by decide, closeInTime _ _⟩

end NewYear

/-- By the hour and by the half hour the day's bars are the same. -/
theorem serves_iff_newYear :
    (NewYear.hourly.withChunk (30 * minute) NewYear.half_pos NewYear.half_le).iterate
        NewYear.oneBar.getRange false =
      NewYear.hourly.iterate NewYear.oneBar.getRange false :=
  (serves_iff NewYear.hourly NewYear.oneBar).2 (30 * minute) NewYear.half_pos NewYear.half_le
    NewYear.hourly_serves NewYear.halfHourly_serves

/-- By the longest span there is, nothing is served: the end of the first
chunk lies past the last moment. -/
theorem not_serves :
    ¬∀ (feed : ClosedBarFeed) (store : CandleStore), feed.Serves store := fun h => by
  obtain ⟨served, hserved, -, -⟩ := h
    (NewYear.hourly.withChunk Duration.longest NewYear.longest_pos NewYear.longest_le) NewYear.oneBar
  have hoverflow : latest < NewYear.window.start + Duration.longest := by decide
  have hraised := bars_of_overflow
    (NewYear.hourly.withChunk Duration.longest NewYear.longest_pos NewYear.longest_le)
    NewYear.oneBar.getRange NewYear.start_lt_stop hoverflow
  exact nomatch (Prod.ext_iff.1 (hraised.symm.trans hserved)).2

end ClosedBarFeed

end Emporos
