import Emporos.Common.Table
import Emporos.Domain.Candles
import Emporos.Marketdata.Session
import Mathlib.Data.List.Sort
/-!
# Higher timeframes from minute bars

Bars of five minutes, a quarter and an hour are folded from closed minute
bars, in buckets that begin at the session open. `derive` groups a whole
series at once; `TimeframeDeriver` keeps one open bucket an instrument and
timeframe and emits it on its last minute or on the first of a later
bucket. On minutes that lie inside their bucket the two agree on every
bucket that is over.
-/

namespace Emporos

open Timestamp

/-- The timeframes derived here. -/
inductive DerivedTimeframe
  | m5
  | m15
  | h1
  deriving DecidableEq, Repr

namespace DerivedTimeframe

def timeframe : DerivedTimeframe → Timeframe
  | m5 => .m5
  | m15 => .m15
  | h1 => .h1

def minutes : DerivedTimeframe → ℤ
  | m5 => 5
  | m15 => 15
  | h1 => 60

/-- The span of a bucket. -/
def step (tf : DerivedTimeframe) : Duration := tf.minutes * minute

/-- `DERIVED_TIMEFRAMES`. -/
def all : List DerivedTimeframe := [m5, m15, h1]

theorem mem_all (tf : DerivedTimeframe) : tf ∈ all := by cases tf <;> decide

theorem nodup_all : all.Nodup := by decide

theorem timeframe_inj {tf tf' : DerivedTimeframe} (h : tf.timeframe = tf'.timeframe) : tf = tf' := by
  cases tf <;> cases tf' <;> first | rfl | cases h

end DerivedTimeframe

/-- When the session of a day closes. -/
def SessionWindow.closeAt (w : SessionWindow) (date : Int) : Timestamp :=
  date * day + w.closeTime - indiaOffset

namespace BucketRule

variable (w : SessionWindow) (tf : DerivedTimeframe)

/-- Where the bucket of a minute starts. -/
def start (t : Timestamp) : Timestamp :=
  let opened := w.openAt (sessionDate t)
  opened + (t - opened) / tf.step * tf.step

/-- Where a bucket ends: with its span or with the session. -/
def stop (bucketStart : Timestamp) : Timestamp :=
  min (bucketStart + tf.step) (w.closeAt (sessionDate bucketStart))

def expectedMinutes (bucketStart : Timestamp) : ℤ := (stop w tf bucketStart - bucketStart) / minute

variable {w tf} {t s : Timestamp}

/-- The buckets of every day lie on one grid: a day is a whole number of
each. -/
theorem start_eq : start w tf t = w.openAt 0 + (t - w.openAt 0) / tf.step * tf.step := by
  cases tf <;>
    simp only [start, SessionWindow.openAt, DerivedTimeframe.step, DerivedTimeframe.minutes,
      sessionDate, minute, Timestamp.day, second, Timestamp, Duration] <;>
    omega

theorem start_mono (h : t ≤ s) : start w tf t ≤ start w tf s := by
  rw [start_eq, start_eq]
  have hstep : 0 ≤ tf.step := by cases tf <;> decide
  have := Int.ediv_le_ediv (c := tf.step) (by cases tf <;> decide) (Int.sub_le_sub_right h (w.openAt 0))
  exact Int.add_le_add_left (Int.mul_le_mul_of_nonneg_right this hstep) _

/-- **A minute of the session lies inside its buckets**, of a window that
opens and closes on whole minutes. -/
theorem inside_of_contains {w : MinuteWindow} (hclose : WholeMinute w.closeTime)
    (h : w.contains t) (ht : WholeMinute t) :
    t + minute ≤ stop w.toSessionWindow tf (start w.toSessionWindow tf t) := by
  obtain ⟨-, hopen, hbefore⟩ := SessionWindow.contains_iff.mp h
  have hwhole := w.open_whole
  have hpos := w.open_pos
  refine le_min ?_ ?_
  · cases tf <;>
      simp only [start, SessionWindow.openAt, DerivedTimeframe.step, DerivedTimeframe.minutes,
        sessionDate, localTime, WholeMinute, minute, Timestamp.day, indiaOffset, second, Timestamp,
        Duration] at * <;>
      omega
  · cases tf <;>
      simp only [start, SessionWindow.openAt, SessionWindow.closeAt, DerivedTimeframe.step,
        DerivedTimeframe.minutes, sessionDate, localTime, WholeMinute, minute, Timestamp.day,
        indiaOffset, second, Timestamp, Duration] at * <;>
      omega

end BucketRule

/-- The minute bars of one bucket, at least one. -/
structure Bucket where
  start : Timestamp
  bars : List Candle
  filled : bars ≠ []

namespace Bucket

def single (start : Timestamp) (bar : Candle) : Bucket := ⟨start, [bar], List.cons_ne_nil _ _⟩

/-- A bar more; one of the same minute takes its place. -/
def extend (b : Bucket) (bar : Candle) : Bucket where
  start := b.start
  bars := Table.upsert (·.ts) bar b.bars
  filled := List.ne_nil_of_mem Table.mem_upsert_self

end Bucket

/-! ## The fold of a bucket -/

namespace Candle

/-- The highest of a bar and of those after it. -/
def highest (first : Candle) (rest : List Candle) : Money :=
  rest.foldl (fun m c => max m c.high) first.high

def lowest (first : Candle) (rest : List Candle) : Money :=
  rest.foldl (fun m c => min m c.low) first.low

theorem le_highest {first : Candle} {rest : List Candle} :
    ∀ c ∈ first :: rest, c.high ≤ highest first rest := by
  have hfold : ∀ (l : List Candle) (m : Money), m ≤ l.foldl (fun m c => max m c.high) m ∧
      ∀ c ∈ l, c.high ≤ l.foldl (fun m c => max m c.high) m := by
    intro l
    induction l with
    | nil => exact fun m => ⟨le_rfl, fun c hc => (by cases hc)⟩
    | cons x l ih =>
        intro m
        obtain ⟨hm, hl⟩ := ih (max m x.high)
        refine ⟨(le_max_left _ _).trans hm, List.forall_mem_cons.mpr ⟨(le_max_right _ _).trans hm, hl⟩⟩
  exact List.forall_mem_cons.mpr ⟨(hfold rest first.high).1, (hfold rest first.high).2⟩

theorem lowest_le {first : Candle} {rest : List Candle} :
    ∀ c ∈ first :: rest, lowest first rest ≤ c.low := by
  have hfold : ∀ (l : List Candle) (m : Money), l.foldl (fun m c => min m c.low) m ≤ m ∧
      ∀ c ∈ l, l.foldl (fun m c => min m c.low) m ≤ c.low := by
    intro l
    induction l with
    | nil => exact fun m => ⟨le_rfl, fun c hc => (by cases hc)⟩
    | cons x l ih =>
        intro m
        obtain ⟨hm, hl⟩ := ih (min m x.low)
        refine ⟨hm.trans (min_le_left _ _), List.forall_mem_cons.mpr ⟨hm.trans (min_le_right _ _), hl⟩⟩
  exact List.forall_mem_cons.mpr ⟨(hfold rest first.low).1, (hfold rest first.low).2⟩

/-- The last of a bar and of those after it. -/
def latestOf (first : Candle) (rest : List Candle) : Candle :=
  (first :: rest).getLast (List.cons_ne_nil _ _)

theorem latestOf_mem {first : Candle} {rest : List Candle} : latestOf first rest ∈ first :: rest :=
  List.getLast_mem _

/-- The bar of bars in the order of their minutes. -/
def combine (tf : DerivedTimeframe) (start : Timestamp) (expected : ℤ) (first : Candle)
    (rest : List Candle) : Candle where
  instrumentId := first.instrumentId
  timeframe := tf.timeframe
  ts := start
  openPrice := first.openPrice
  high := highest first rest
  low := lowest first rest
  close := (latestOf first rest).close
  volume := ((first :: rest).map (·.volume)).sum
  isPartial := ((first :: rest).length < expected) || (first :: rest).any (·.isPartial)
  low_le_open := (lowest_le _ (List.mem_cons_self ..)).trans first.low_le_open
  open_le_high := first.open_le_high.trans (le_highest _ (List.mem_cons_self ..))
  low_le_close := (lowest_le _ latestOf_mem).trans (low_le_close _)
  close_le_high := (close_le_high _).trans (le_highest _ latestOf_mem)

end Candle

namespace Bucket

variable (w : SessionWindow) (tf : DerivedTimeframe)

/-- The bars in the order of their minutes. -/
def ordered (b : Bucket) : List Candle := b.bars.insertionSort fun x y => x.ts ≤ y.ts

theorem ordered_ne_nil (b : Bucket) : b.ordered ≠ [] := by
  intro h
  have := (List.perm_insertionSort (fun x y : Candle => x.ts ≤ y.ts) b.bars).length_eq
  rw [← ordered, h] at this
  exact b.filled (List.length_eq_zero_iff.mp this.symm)

/-- `fold_bucket`. -/
def fold (b : Bucket) : Candle :=
  Candle.combine tf b.start (BucketRule.expectedMinutes w tf b.start)
    (b.ordered.head b.ordered_ne_nil) b.ordered.tail

end Bucket

/-! ## The batch -/

/-- One bucket of the batch. -/
structure BucketGroup where
  instrumentId : String
  timeframe : DerivedTimeframe
  bucket : Bucket

/-- An instrument, a timeframe and where a bucket starts. -/
abbrev BucketKey := String × DerivedTimeframe × Timestamp

namespace BucketGroup

def key (g : BucketGroup) : BucketKey := (g.instrumentId, g.timeframe, g.bucket.start)

/-- The groups with a minute put into its bucket of a timeframe. -/
def insert (w : SessionWindow) (groups : List BucketGroup) (bar : Candle) (tf : DerivedTimeframe) :
    List BucketGroup :=
  let start := BucketRule.start w tf bar.ts
  let bucket := match Table.lookup (·.key) (bar.instrumentId, tf, start) groups with
    | none => Bucket.single start bar
    | some g => g.bucket.extend bar
  Table.upsert (·.key) ⟨bar.instrumentId, tf, bucket⟩ groups

/-- The bucket a bar leaves under its key. -/
theorem insert_eq {w : SessionWindow} {groups : List BucketGroup} {bar : Candle}
    {tf : DerivedTimeframe} {found : Option BucketGroup}
    (h : Table.lookup (·.key) (bar.instrumentId, tf, BucketRule.start w tf bar.ts) groups = found) :
    insert w groups bar tf = Table.upsert (·.key) ⟨bar.instrumentId, tf,
      found.elim (Bucket.single (BucketRule.start w tf bar.ts) bar) (·.bucket.extend bar)⟩ groups := by
  simp only [insert, h]
  cases found <;> rfl

def candle (w : SessionWindow) (g : BucketGroup) : Candle := g.bucket.fold w g.timeframe

end BucketGroup

namespace Candle

/-- By instrument, then timeframe, then time. -/
def sorts (a b : Candle) : Prop :=
  a.instrumentId < b.instrumentId ∨ (a.instrumentId = b.instrumentId ∧
    (a.timeframe.value < b.timeframe.value ∨
      (a.timeframe.value = b.timeframe.value ∧ a.ts ≤ b.ts)))

instance : DecidableRel sorts := fun _ _ => inferInstanceAs (Decidable (_ ∨ _))

end Candle

/-- Each bar in each of the timeframes, in the order both derivations take
them. -/
def inEach (tfs : List DerivedTimeframe) (minutes : List Candle) : List (Candle × DerivedTimeframe) :=
  minutes.flatMap fun bar => tfs.map fun tf => (bar, tf)

/-- `derive`: every higher bar implied by a series of minutes. -/
def derive (w : SessionWindow) (tfs : List DerivedTimeframe) (minutes : List Candle) :
    Except PyError (List Candle) :=
  if minutes.any fun bar => bar.timeframe ≠ .m1 then
    .error (.valueError "only 1m bars can be derived from")
  else
    let groups := (inEach tfs minutes).foldl (fun groups p => BucketGroup.insert w groups p.1 p.2) []
    .ok ((groups.map (·.candle w)).insertionSort Candle.sorts)

/-! ## The stream -/

/-- What the deriver holds, and what its subscribers were given. -/
structure TimeframeDeriver where
  opened : String × DerivedTimeframe → Option Bucket
  staleMinutes : ℕ
  emitted : List Candle

namespace TimeframeDeriver

def initial : TimeframeDeriver := ⟨fun _ => none, 0, []⟩

variable (w : SessionWindow)

/-- `_emit`. -/
def emit (d : TimeframeDeriver) (key : String × DerivedTimeframe) (bucket : Bucket) :
    TimeframeDeriver :=
  { d with opened := Function.update d.opened key none
           emitted := d.emitted ++ [bucket.fold w key.2] }

/-- The bucket with its newest minute is kept, unless that was its last. -/
def settle (d : TimeframeDeriver) (key : String × DerivedTimeframe) (bucket : Bucket)
    (bar : Candle) : TimeframeDeriver :=
  let held := { d with opened := Function.update d.opened key (some bucket) }
  if bar.ts + minute = BucketRule.stop w key.2 bucket.start then held.emit w key bucket else held

/-- `_add`. -/
def add (d : TimeframeDeriver) (bar : Candle) (tf : DerivedTimeframe) : TimeframeDeriver :=
  let key := (bar.instrumentId, tf)
  let start := BucketRule.start w tf bar.ts
  match d.opened key with
  | none => d.settle w key (.single start bar) bar
  | some current =>
      if start < current.start then { d with staleMinutes := d.staleMinutes + 1 }
      else if current.start < start then
        (d.emit w key current).settle w key (.single start bar) bar
      else d.settle w key (current.extend bar) bar

variable {w} {d : TimeframeDeriver} {bar : Candle} {tf : DerivedTimeframe} {current : Bucket}

theorem add_of_none (h : d.opened (bar.instrumentId, tf) = none) :
    d.add w bar tf = d.settle w (bar.instrumentId, tf) (.single (BucketRule.start w tf bar.ts) bar) bar := by
  simp only [add, h]

/-- A bar that does not come before the open bucket. -/
theorem add_of_some (h : d.opened (bar.instrumentId, tf) = some current)
    (hle : current.start ≤ BucketRule.start w tf bar.ts) :
    d.add w bar tf = if current.start < BucketRule.start w tf bar.ts then
        (d.emit w (bar.instrumentId, tf) current).settle w (bar.instrumentId, tf)
          (.single (BucketRule.start w tf bar.ts) bar) bar
      else d.settle w (bar.instrumentId, tf) (current.extend bar) bar := by
  simp only [add, h, if_neg hle.not_gt]

variable (w)

/-- `on_candle`. -/
def onCandle (tfs : List DerivedTimeframe) (d : TimeframeDeriver) (bar : Candle) :
    TimeframeDeriver :=
  if bar.timeframe ≠ .m1 then d else tfs.foldl (fun d tf => d.add w bar tf) d

def run (tfs : List DerivedTimeframe) (minutes : List Candle) : TimeframeDeriver :=
  minutes.foldl (onCandle w tfs) initial

variable {w}

/-- Minute bars are added one timeframe after the other. -/
theorem run_eq {tfs : List DerivedTimeframe} {minutes : List Candle}
    (h : ∀ bar ∈ minutes, bar.timeframe = .m1) :
    run w tfs minutes = (inEach tfs minutes).foldl (fun d p => d.add w p.1 p.2) initial := by
  rw [inEach, List.foldl_flatMap, run]
  refine List.foldl_ext _ _ _ fun d bar hbar => ?_
  rw [onCandle, if_neg (not_not.mpr (h bar hbar)), List.foldl_map]

end TimeframeDeriver

/-! ## What both have seen -/

section Seen

variable {w : SessionWindow} {seen : List (Candle × DerivedTimeframe)} {bar c : Candle}
  {tf t : DerivedTimeframe} {i : String} {k : BucketKey}

/-- The bars of an instrument that were put into a timeframe. -/
def barsFor (seen : List (Candle × DerivedTimeframe)) (i : String) (tf : DerivedTimeframe) :
    List Candle :=
  (seen.filter fun p => p.1.instrumentId = i ∧ p.2 = tf).map (·.1)

theorem barsFor_append : barsFor (seen ++ [(bar, t)]) i tf =
    barsFor seen i tf ++ if bar.instrumentId = i ∧ t = tf then [bar] else [] := by
  unfold barsFor
  rw [List.filter_append, List.map_append]
  by_cases h : bar.instrumentId = i ∧ t = tf <;> simp [h]

/-- The bars of one bucket. -/
def barsIn (w : SessionWindow) (seen : List (Candle × DerivedTimeframe)) (k : BucketKey) :
    List Candle :=
  (barsFor seen k.1 k.2.1).filter fun c => BucketRule.start w k.2.1 c.ts = k.2.2

/-- The key of the bucket a bar goes into. -/
def keyOf (w : SessionWindow) (bar : Candle) (tf : DerivedTimeframe) : BucketKey :=
  (bar.instrumentId, tf, BucketRule.start w tf bar.ts)

theorem barsIn_append : barsIn w (seen ++ [(bar, t)]) k =
    barsIn w seen k ++ if keyOf w bar t = k then [bar] else [] := by
  obtain ⟨i, tf, start⟩ := k
  simp only [barsIn, barsFor_append, List.filter_append, keyOf, Prod.mk.injEq]
  by_cases h : bar.instrumentId = i ∧ t = tf
  · obtain ⟨rfl, rfl⟩ := h
    by_cases hs : BucketRule.start w t bar.ts = start <;> simp [hs]
  · rw [if_neg h, if_neg (fun hk => h ⟨hk.1, hk.2.1⟩), List.filter_nil]

/-- Each bar of an instrument and timeframe is later than those before it,
and lies inside its bucket. -/
structure Ordered (w : SessionWindow) (seen : List (Candle × DerivedTimeframe)) : Prop where
  later : ∀ i tf, (barsFor seen i tf).Pairwise fun a b => a.ts < b.ts
  inside : ∀ p ∈ seen, p.1.ts + minute ≤ BucketRule.stop w p.2 (BucketRule.start w p.2 p.1.ts)

theorem Ordered.of_append (h : Ordered w (seen ++ [(bar, t)])) :
    Ordered w seen ∧ (∀ c ∈ barsFor seen bar.instrumentId t, c.ts < bar.ts) ∧
      bar.ts + minute ≤ BucketRule.stop w t (BucketRule.start w t bar.ts) := by
  refine ⟨⟨fun i tf => ?_, fun p hp => h.inside p (List.mem_append_left _ hp)⟩, fun c hc => ?_,
    h.inside (bar, t) (List.mem_append_right _ (List.mem_singleton_self _))⟩
  · have := h.later i tf
    rw [barsFor_append] at this
    exact (List.pairwise_append.mp this).1
  · have := h.later bar.instrumentId t
    rw [barsFor_append, if_pos ⟨rfl, rfl⟩] at this
    exact (List.pairwise_append.mp this).2.2 c hc bar (List.mem_singleton_self _)

/-- The bars of the bucket a later bar goes into are earlier than it. -/
theorem ts_lt_of_mem_barsIn (h : ∀ c ∈ barsFor seen bar.instrumentId t, c.ts < bar.ts)
    (hc : c ∈ barsIn w seen (keyOf w bar t)) : c.ts < bar.ts :=
  h c (List.mem_of_mem_filter hc)

theorem Bucket.extend_bars {b : Bucket} (h : ∀ c ∈ b.bars, c.ts < bar.ts) :
    (b.extend bar).bars = b.bars ++ [bar] := by
  have hnone : ¬ (b.bars.any fun c => c.ts = bar.ts) = true := by
    rw [List.any_eq_true]
    rintro ⟨c, hc, hts⟩
    exact absurd (of_decide_eq_true hts) (h c hc).ne
  show Table.upsert (·.ts) bar b.bars = _
  rw [Table.upsert, if_neg hnone]

theorem Bucket.ext_of_bars {b b' : Bucket} (hstart : b.start = b'.start) (hbars : b.bars = b'.bars) :
    b = b' := by
  cases b
  cases b'
  simp only [Bucket.mk.injEq]
  exact ⟨hstart, hbars⟩

/-- A key and the bars in it make a group. -/
theorem BucketGroup.eq_of_key {g g' : BucketGroup} (hkey : g.key = g'.key)
    (hbars : g.bucket.bars = g'.bucket.bars) : g = g' := by
  obtain ⟨i, tf, b⟩ := g
  obtain ⟨i', tf', b'⟩ := g'
  simp only [BucketGroup.key, Prod.mk.injEq] at hkey
  obtain ⟨rfl, rfl, hstart⟩ := hkey
  rw [Bucket.ext_of_bars hstart hbars]

/-- The bucket with a key's bars. -/
def bucketIn (w : SessionWindow) (seen : List (Candle × DerivedTimeframe)) (k : BucketKey)
    (h : barsIn w seen k ≠ []) : Bucket := ⟨k.2.2, barsIn w seen k, h⟩

/-- The groups of the batch. -/
def groupsOf (w : SessionWindow) (seen : List (Candle × DerivedTimeframe)) : List BucketGroup :=
  seen.foldl (fun groups p => BucketGroup.insert w groups p.1 p.2) []

/-- **The batch is a grouping.** It has one group for each bucket that has
bars, with those bars in their order. -/
theorem groupsOf_spec (h : Ordered w seen) : ((groupsOf w seen).map (·.key)).Nodup ∧
    ∀ g, g ∈ groupsOf w seen ↔ g.bucket.bars = barsIn w seen g.key := by
  induction seen using List.reverseRecOn with
  | nil =>
      refine ⟨List.nodup_nil, fun g => ?_⟩
      constructor
      · exact fun hg => (by cases hg)
      · exact fun hbars => absurd hbars g.bucket.filled
  | append_singleton seen p ih =>
      obtain ⟨bar, t⟩ := p
      obtain ⟨hseen, hlater, -⟩ := h.of_append
      obtain ⟨hnodup, hmem⟩ := ih hseen
      have hgroups : groupsOf w (seen ++ [(bar, t)]) = BucketGroup.insert w (groupsOf w seen) bar t := by
        rw [groupsOf, List.foldl_append]
        rfl
      -- the bucket of the new bar is the old one with the bar at its end
      obtain ⟨new, hnew, hkey, hbars⟩ : ∃ new : BucketGroup,
          groupsOf w (seen ++ [(bar, t)]) = Table.upsert (·.key) new (groupsOf w seen) ∧
          new.key = keyOf w bar t ∧
          new.bucket.bars = barsIn w seen (keyOf w bar t) ++ [bar] := by
        rw [hgroups]
        cases hl : Table.lookup (·.key) (bar.instrumentId, t, BucketRule.start w t bar.ts)
            (groupsOf w seen) with
        | none =>
            refine ⟨_, BucketGroup.insert_eq hl, rfl, ?_⟩
            have hempty : barsIn w seen (keyOf w bar t) = [] := by
              by_contra hne
              refine Table.lookup_eq_none.mp hl
                ⟨bar.instrumentId, t, bucketIn w seen (keyOf w bar t) hne⟩ ?_ rfl
              exact (hmem _).mpr rfl
            rw [hempty]
            rfl
        | some g =>
            have hgkey : g.key = keyOf w bar t := Table.key_of_lookup hl
            have hgbars := (hmem g).mp (Table.mem_of_lookup hl)
            rw [hgkey] at hgbars
            refine ⟨_, BucketGroup.insert_eq hl, ?_, ?_⟩
            · have hstart : g.bucket.start = BucketRule.start w t bar.ts :=
                congrArg (fun k : BucketKey => k.2.2) hgkey
              simp only [BucketGroup.key, keyOf, Bucket.extend, Option.elim_some, hstart]
            · show (g.bucket.extend bar).bars = _
              rw [Bucket.extend_bars fun c hc => ts_lt_of_mem_barsIn hlater (hgbars ▸ hc), hgbars]
      rw [hnew]
      refine ⟨Table.nodup_upsert hnodup, fun g => ?_⟩
      rw [Table.mem_upsert, barsIn_append, hkey]
      by_cases hg : g.key = keyOf w bar t
      · rw [if_pos hg.symm, hg]
        constructor
        · rintro (rfl | ⟨-, hne⟩)
          · exact hbars
          · exact absurd rfl hne
        · exact fun hgb => Or.inl (BucketGroup.eq_of_key (hg.trans hkey.symm) (hgb.trans hbars.symm))
      · rw [if_neg (Ne.symm hg), List.append_nil, ← hmem]
        constructor
        · rintro (rfl | ⟨hin, -⟩)
          · exact absurd hkey hg
          · exact hin
        · exact fun hin => Or.inr ⟨hin, hg⟩

/-! ## Buckets that are over -/

/-- The bucket has bars, and it is over: a later bucket of the instrument
has a bar, or its own last minute has. -/
def Over (w : SessionWindow) (seen : List (Candle × DerivedTimeframe)) (k : BucketKey) : Prop :=
  barsIn w seen k ≠ [] ∧ ∃ c ∈ barsFor seen k.1 k.2.1, k.2.2 < BucketRule.start w k.2.1 c.ts ∨
    (BucketRule.start w k.2.1 c.ts = k.2.2 ∧ c.ts + minute = BucketRule.stop w k.2.1 k.2.2)

theorem mem_barsFor_append : c ∈ barsFor (seen ++ [(bar, t)]) i tf ↔
    c ∈ barsFor seen i tf ∨ (c = bar ∧ bar.instrumentId = i ∧ t = tf) := by
  rw [barsFor_append, List.mem_append]
  by_cases h : bar.instrumentId = i ∧ t = tf <;> simp [h]

theorem instrumentId_of_mem_barsFor (hc : c ∈ barsFor seen i tf) : c.instrumentId = i := by
  obtain ⟨p, hp, rfl⟩ := List.mem_map.mp hc
  obtain ⟨-, hp⟩ := List.mem_filter.mp hp
  exact (of_decide_eq_true hp).1

theorem keyOf_of_mem_barsIn (hc : c ∈ barsIn w seen k) : keyOf w c k.2.1 = k := by
  obtain ⟨hfor, hstart⟩ := List.mem_filter.mp hc
  rw [keyOf, instrumentId_of_mem_barsFor hfor, of_decide_eq_true hstart]

theorem mem_barsIn (hc : c ∈ barsFor seen i tf) : c ∈ barsIn w seen (i, tf, BucketRule.start w tf c.ts) :=
  List.mem_filter.mpr ⟨hc, decide_eq_true rfl⟩

/-- A bucket stays over. -/
theorem Over.append (h : Over w seen k) : Over w (seen ++ [(bar, t)]) k := by
  obtain ⟨hbars, c, hc, hover⟩ := h
  refine ⟨?_, c, mem_barsFor_append.2 (Or.inl hc), hover⟩
  rw [barsIn_append]
  exact List.append_ne_nil_of_left_ne_nil hbars _

/-- A bar's own bucket was not over before it. -/
theorem not_over_keyOf (h : Ordered w (seen ++ [(bar, t)])) : ¬ Over w seen (keyOf w bar t) := by
  obtain ⟨-, hlater, hinside⟩ := h.of_append
  rintro ⟨-, c, hc, hlt | ⟨-, hclose⟩⟩
  · exact absurd (BucketRule.start_mono (hlater c hc).le) hlt.not_ge
  · have hts := hlater c hc
    have : bar.ts + minute ≤ c.ts + minute := hinside.trans_eq hclose.symm
    exact absurd (Int.le_of_add_le_add_right this) (Int.not_le.mpr hts)

/-- The bar is the last of its instrument and timeframe, so its bucket is
the latest. -/
theorem start_le_of_mem (h : Ordered w (seen ++ [(bar, t)]))
    (hc : c ∈ barsFor (seen ++ [(bar, t)]) bar.instrumentId t) :
    BucketRule.start w t c.ts ≤ BucketRule.start w t bar.ts := by
  rcases mem_barsFor_append.1 hc with hc | ⟨rfl, -⟩
  · exact BucketRule.start_mono (h.of_append.2.1 c hc).le
  · exact le_rfl

/-- What a bar makes over besides its own bucket: the earlier ones of its
instrument and timeframe. -/
theorem over_append_iff (hk : k ≠ keyOf w bar t) : Over w (seen ++ [(bar, t)]) k ↔
    Over w seen k ∨ (k.1 = bar.instrumentId ∧ k.2.1 = t ∧ k.2.2 < BucketRule.start w t bar.ts ∧
      barsIn w seen k ≠ []) := by
  have hbars : barsIn w (seen ++ [(bar, t)]) k = barsIn w seen k := by
    rw [barsIn_append, if_neg (Ne.symm hk), List.append_nil]
  constructor
  · rintro ⟨hne, c, hc, hover⟩
    rw [hbars] at hne
    rcases mem_barsFor_append.1 hc with hc | ⟨rfl, hinst, htf⟩
    · exact Or.inl ⟨hne, c, hc, hover⟩
    · rcases hover with hlt | ⟨hstart, -⟩
      · rw [← htf] at hlt
        exact Or.inr ⟨hinst.symm, htf.symm, hlt, hne⟩
      · refine absurd ?_ hk
        obtain ⟨i, tf, start⟩ := k
        dsimp only at hinst htf hstart
        rw [keyOf, hinst, htf, hstart]
  · rintro (h | ⟨hinst, htf, hlt, hne⟩)
    · exact h.append
    · refine ⟨by rwa [hbars], bar, mem_barsFor_append.2 (Or.inr ⟨rfl, hinst.symm, htf.symm⟩), ?_⟩
      rw [htf]
      exact Or.inl hlt

/-- The bar's own bucket is over with it exactly if it is its last
minute. -/
theorem over_keyOf_iff (h : Ordered w (seen ++ [(bar, t)])) :
    Over w (seen ++ [(bar, t)]) (keyOf w bar t) ↔
      bar.ts + minute = BucketRule.stop w t (BucketRule.start w t bar.ts) := by
  constructor
  · rintro ⟨-, c, hc, hlt | ⟨hstart, hclose⟩⟩
    · exact absurd (start_le_of_mem h hc) hlt.not_ge
    · rcases mem_barsFor_append.1 hc with hc | ⟨rfl, -⟩
      · -- an earlier bar is not the last minute of the bucket the bar is inside
        obtain ⟨-, hlater, hinside⟩ := h.of_append
        have : bar.ts + minute ≤ c.ts + minute := hinside.trans_eq hclose.symm
        exact absurd (Int.le_of_add_le_add_right this) (Int.not_le.mpr (hlater c hc))
      · exact hclose
  · intro hclose
    refine ⟨?_, bar, mem_barsFor_append.2 (Or.inr ⟨rfl, rfl, rfl⟩), Or.inr ⟨rfl, hclose⟩⟩
    rw [barsIn_append, if_pos rfl]
    exact List.append_ne_nil_of_right_ne_nil _ (List.cons_ne_nil _ _)

/-! ## What has been emitted -/

/-- What a subscriber tells bars apart by. -/
def Candle.identity (e : Candle) : String × Timeframe × Timestamp := (e.instrumentId, e.timeframe, e.ts)

/-- A bucket with bars of its key is a bar of that key. -/
theorem BucketGroup.key_candle {g : BucketGroup} (h : g.bucket.bars = barsIn w seen g.key) :
    (g.candle w).identity = (g.instrumentId, g.timeframe.timeframe, g.bucket.start) := by
  have hmem : g.bucket.ordered.head g.bucket.ordered_ne_nil ∈ barsIn w seen g.key := by
    rw [← h]
    exact (List.perm_insertionSort _ _).mem_iff.mp (List.head_mem _)
  have hinst : (g.bucket.ordered.head g.bucket.ordered_ne_nil).instrumentId = g.instrumentId :=
    congrArg Prod.fst (keyOf_of_mem_barsIn hmem)
  rw [Candle.identity, BucketGroup.candle, Bucket.fold, Candle.combine]
  simp only [hinst]

theorem BucketGroup.eq_of_key_candle {g g' : BucketGroup} (h : g.bucket.bars = barsIn w seen g.key)
    (h' : g'.bucket.bars = barsIn w seen g'.key) (heq : (g.candle w).identity = (g'.candle w).identity) :
    g = g' := by
  rw [BucketGroup.key_candle h, BucketGroup.key_candle h'] at heq
  simp only [Prod.mk.injEq] at heq
  obtain ⟨hinst, htf, hstart⟩ := heq
  have hkey : g.key = g'.key := by
    rw [BucketGroup.key, BucketGroup.key, hinst, DerivedTimeframe.timeframe_inj htf, hstart]
  exact BucketGroup.eq_of_key hkey (by rw [h, h', hkey])

/-- The emitted bars are those of a set of buckets, each once. -/
structure Emitted (w : SessionWindow) (seen : List (Candle × DerivedTimeframe))
    (which : BucketKey → Prop) (emitted : List Candle) : Prop where
  nodup : (emitted.map (·.identity)).Nodup
  mem : ∀ e, e ∈ emitted ↔ ∃ g : BucketGroup, g.bucket.bars = barsIn w seen g.key ∧ which g.key ∧
    e = g.candle w

variable {which which' : BucketKey → Prop} {emitted : List Candle} {g : BucketGroup}

/-- A bar of another bucket changes none of them. -/
theorem Emitted.append (h : Emitted w seen which emitted) (hk : ¬ which (keyOf w bar t)) :
    Emitted w (seen ++ [(bar, t)]) which emitted := by
  refine ⟨h.nodup, fun e => (h.mem e).trans (exists_congr fun g => ?_)⟩
  rw [barsIn_append]
  by_cases hg : keyOf w bar t = g.key
  · rw [← hg]
    constructor
    · exact fun hwhich => absurd hwhich.2.1 hk
    · exact fun hwhich => absurd hwhich.2.1 hk
  · rw [if_neg hg, List.append_nil]

/-- One bucket more. -/
theorem Emitted.emit (h : Emitted w seen which emitted) (hg : g.bucket.bars = barsIn w seen g.key)
    (hk : ¬ which g.key) :
    Emitted w seen (fun k => which k ∨ k = g.key) (emitted ++ [g.candle w]) := by
  refine ⟨?_, fun e => ?_⟩
  · rw [List.map_append, List.map_singleton, List.nodup_append]
    refine ⟨h.nodup, List.nodup_singleton _, ?_⟩
    rintro x hx y hy rfl
    rw [List.mem_singleton] at hy
    obtain ⟨e, he, hkey⟩ := List.mem_map.mp hx
    obtain ⟨g', hg', hwhich, rfl⟩ := (h.mem e).mp he
    -- a bar under that key is of that bucket
    rw [BucketGroup.eq_of_key_candle hg' hg (hkey.trans hy)] at hwhich
    exact hk hwhich
  · rw [List.mem_append, List.mem_singleton, h.mem]
    constructor
    · rintro (⟨g', hg', hwhich, rfl⟩ | rfl)
      · exact ⟨g', hg', Or.inl hwhich, rfl⟩
      · exact ⟨g, hg, Or.inr rfl, rfl⟩
    · rintro ⟨g', hg', hwhich | hkey, rfl⟩
      · exact Or.inl ⟨g', hg', hwhich, rfl⟩
      · rw [BucketGroup.eq_of_key hkey (by rw [hg', hg, hkey])]
        exact Or.inr rfl

/-- Only keys that have bars count. -/
theorem Emitted.congr (h : Emitted w seen which emitted)
    (heq : ∀ k, barsIn w seen k ≠ [] → (which k ↔ which' k)) : Emitted w seen which' emitted := by
  refine ⟨h.nodup, fun e => (h.mem e).trans (exists_congr fun g => and_congr_right fun hg => ?_)⟩
  rw [heq g.key (by rw [← hg]; exact g.bucket.filled)]

/-! ## The stream holds what is not over -/

/-- What the stream holds of an instrument and timeframe: the bars of the
latest bucket, unless that is over. -/
def Holds (w : SessionWindow) (seen : List (Candle × DerivedTimeframe)) (i : String)
    (tf : DerivedTimeframe) : Option Bucket → Prop
  | none => ∀ c ∈ barsFor seen i tf, Over w seen (keyOf w c tf)
  | some b => b.bars = barsIn w seen (i, tf, b.start) ∧ ¬ Over w seen (i, tf, b.start) ∧
      ∀ c ∈ barsFor seen i tf, BucketRule.start w tf c.ts ≤ b.start

/-- **The stream and what it has seen.** -/
structure TimeframeDeriver.Tracks (w : SessionWindow) (seen : List (Candle × DerivedTimeframe))
    (d : TimeframeDeriver) : Prop where
  emitted : Emitted w seen (Over w seen) d.emitted
  holds : ∀ i tf, Holds w seen i tf (d.opened (i, tf))

namespace TimeframeDeriver

variable {d : TimeframeDeriver} {b : Bucket}

/-- A bar of another instrument or timeframe changes nothing held. -/
theorem holds_append {o : Option Bucket} (h : Holds w seen i tf o)
    (hne : (bar.instrumentId, t) ≠ (i, tf)) : Holds w (seen ++ [(bar, t)]) i tf o := by
  have hfor : barsFor (seen ++ [(bar, t)]) i tf = barsFor seen i tf := by
    rw [barsFor_append, if_neg (fun hk => hne (Prod.ext hk.1 hk.2)), List.append_nil]
  have hover : ∀ start, Over w (seen ++ [(bar, t)]) (i, tf, start) ↔ Over w seen (i, tf, start) := by
    intro start
    unfold Over barsIn
    rw [hfor]
  cases o with
  | none =>
      intro c hc
      rw [hfor] at hc
      exact (h c hc).append
  | some b =>
      obtain ⟨hbars, hnot, hle⟩ := h
      refine ⟨?_, fun hk => hnot ((hover _).mp hk), fun c hc => hle c (hfor ▸ hc)⟩
      unfold barsIn at hbars ⊢
      rw [hfor, hbars]

/-- **Settling a bar.** Where everything over but the bar's own bucket is
emitted, and the bucket with the bar is at hand, the stream is up to
date. -/
theorem tracks_settle (h : Ordered w (seen ++ [(bar, t)]))
    (hemitted : Emitted w (seen ++ [(bar, t)])
      (fun k => Over w (seen ++ [(bar, t)]) k ∧ k ≠ keyOf w bar t) d.emitted)
    (hholds : ∀ i tf, (bar.instrumentId, t) ≠ (i, tf) →
      Holds w (seen ++ [(bar, t)]) i tf (d.opened (i, tf)))
    (hstart : b.start = BucketRule.start w t bar.ts)
    (hbars : b.bars = barsIn w (seen ++ [(bar, t)]) (keyOf w bar t)) :
    Tracks w (seen ++ [(bar, t)]) (d.settle w (bar.instrumentId, t) b bar) := by
  have hkey : (⟨bar.instrumentId, t, b⟩ : BucketGroup).key = keyOf w bar t := by
    rw [BucketGroup.key, keyOf, hstart]
  have hover := over_keyOf_iff h
  unfold settle
  rw [hstart]
  simp only
  split
  · -- the last minute: the bucket is emitted and nothing is left open
    rename_i hclose
    have hown := hover.mpr hclose
    refine ⟨?_, fun i tf => ?_⟩
    · refine (hemitted.emit (g := ⟨bar.instrumentId, t, b⟩) (by rw [hkey]; exact hbars)
        (fun hk => hk.2 hkey)).congr fun k _ => ?_
      rw [hkey]
      constructor
      · rintro (⟨hk, -⟩ | rfl)
        · exact hk
        · exact hown
      · intro hk
        by_cases hne : k = keyOf w bar t
        · exact Or.inr hne
        · exact Or.inl ⟨hk, hne⟩
    · by_cases hit : (bar.instrumentId, t) = (i, tf)
      · obtain ⟨rfl, rfl⟩ := Prod.mk.inj hit
        simp only [emit, Function.update_self]
        intro c hc
        rw [keyOf, instrumentId_of_mem_barsFor hc]
        rcases (start_le_of_mem h hc).lt_or_eq with hlt | heq
        · exact ⟨List.ne_nil_of_mem (mem_barsIn hc), bar,
            mem_barsFor_append.2 (Or.inr ⟨rfl, rfl, rfl⟩), Or.inl hlt⟩
        · rw [heq]
          exact hown
      · simp only [emit, Function.update_of_ne (Ne.symm hit)]
        exact hholds i tf hit
  · rename_i hopen
    have hown : ¬ Over w (seen ++ [(bar, t)]) (keyOf w bar t) := fun hk => hopen (hover.mp hk)
    refine ⟨hemitted.congr fun k _ => ?_, fun i tf => ?_⟩
    · exact ⟨fun hk => hk.1, fun hk => ⟨hk, fun hne => hown (hne ▸ hk)⟩⟩
    · by_cases hit : (bar.instrumentId, t) = (i, tf)
      · obtain ⟨rfl, rfl⟩ := Prod.mk.inj hit
        simp only [Function.update_self]
        rw [Holds, hstart]
        exact ⟨hbars, hown, fun c hc => start_le_of_mem h hc⟩
      · simp only [Function.update_of_ne (Ne.symm hit)]
        exact hholds i tf hit

/-- **A bar added.** -/
theorem tracks_add (h : Ordered w (seen ++ [(bar, t)])) (hd : d.Tracks w seen) :
    Tracks w (seen ++ [(bar, t)]) (d.add w bar t) := by
  obtain ⟨hseen, hlater, -⟩ := h.of_append
  have hnot := not_over_keyOf h
  have hothers : ∀ i tf, (bar.instrumentId, t) ≠ (i, tf) →
      Holds w (seen ++ [(bar, t)]) i tf (d.opened (i, tf)) :=
    fun i tf hne => holds_append (hd.holds i tf) hne
  have hemitted := hd.emitted.append hnot
  have hheld := hd.holds bar.instrumentId t
  -- the latest bucket, if it is open, has bars of its own
  have hlatest : ∀ b, d.opened (bar.instrumentId, t) = some b →
      ∃ c ∈ barsFor seen bar.instrumentId t, BucketRule.start w t c.ts = b.start := by
    intro b hb
    rw [hb] at hheld
    obtain ⟨c, hc⟩ := List.exists_mem_of_ne_nil _ b.filled
    rw [hheld.1] at hc
    obtain ⟨hfor, hstart⟩ := List.mem_filter.mp hc
    exact ⟨c, hfor, of_decide_eq_true hstart⟩
  -- buckets of the key that have bars and start before a bar are over
  have hbefore : ∀ start, (∃ c ∈ barsFor seen bar.instrumentId t, start < BucketRule.start w t c.ts) →
      barsIn w seen (bar.instrumentId, t, start) ≠ [] → Over w seen (bar.instrumentId, t, start) :=
    fun start ⟨c, hc, hlt⟩ hne => ⟨hne, c, hc, Or.inl hlt⟩
  cases hopened : d.opened (bar.instrumentId, t) with
  | none =>
      rw [hopened] at hheld
      rw [add_of_none hopened]
      have hempty : barsIn w seen (keyOf w bar t) = [] := by
        by_contra hne
        obtain ⟨c, hc⟩ := List.exists_mem_of_ne_nil _ hne
        have hkey : keyOf w c t = keyOf w bar t := keyOf_of_mem_barsIn hc
        exact hnot (hkey ▸ hheld c (List.mem_of_mem_filter hc))
      refine tracks_settle h (hemitted.congr fun k _ => ?_) hothers rfl ?_
      · constructor
        · exact fun hk => ⟨hk.append, fun hne => hnot (hne ▸ hk)⟩
        · rintro ⟨hk, hne⟩
          rcases (over_append_iff hne).mp hk with hk | ⟨hinst, htf, hlt, hbars⟩
          · exact hk
          · -- it has a bar, and nothing is open
            obtain ⟨c, hc⟩ := List.exists_mem_of_ne_nil _ hbars
            have hfor := List.mem_of_mem_filter hc
            rw [← keyOf_of_mem_barsIn hc, htf]
            rw [hinst, htf] at hfor
            exact hheld c hfor
      · rw [barsIn_append, if_pos rfl, hempty]
        rfl
  | some current =>
      obtain ⟨c, hc, hstart⟩ := hlatest current hopened
      rw [hopened] at hheld
      obtain ⟨hbars, hopen, hall⟩ := hheld
      have hle : current.start ≤ BucketRule.start w t bar.ts := by
        rw [← hstart]
        exact BucketRule.start_mono (hlater c hc).le
      rw [add_of_some hopened hle]
      split
      · -- a later bucket begins: the open one is emitted first
        rename_i hlt
        have hopenKey : (⟨bar.instrumentId, t, current⟩ : BucketGroup).key ≠ keyOf w bar t :=
          fun hk => hlt.ne (congrArg (fun k : BucketKey => k.2.2) hk)
        have hempty : barsIn w seen (keyOf w bar t) = [] := by
          by_contra hne
          obtain ⟨x, hx⟩ := List.exists_mem_of_ne_nil _ hne
          obtain ⟨hfor, hxs⟩ := List.mem_filter.mp hx
          have hxs' : BucketRule.start w t x.ts = BucketRule.start w t bar.ts := of_decide_eq_true hxs
          exact absurd (hall x hfor) (by rw [hxs']; exact hlt.not_ge)
        have hother : ¬ (Over w seen (keyOf w bar t) ∨
            keyOf w bar t = (⟨bar.instrumentId, t, current⟩ : BucketGroup).key) :=
          fun hk => hk.elim hnot fun hk => hopenKey hk.symm
        have hstep := (hd.emitted.emit (g := ⟨bar.instrumentId, t, current⟩) hbars hopen).append
          hother
        refine tracks_settle h (hstep.congr fun k _ => ?_) (fun i tf hne => ?_) rfl ?_
        · constructor
          · rintro (hk | rfl)
            · exact ⟨hk.append, fun hne => hnot (hne ▸ hk)⟩
            · refine ⟨(over_append_iff hopenKey).mpr (Or.inr ⟨rfl, rfl, hlt, ?_⟩), hopenKey⟩
              exact hbars ▸ current.filled
          · rintro ⟨hk, hne⟩
            rcases (over_append_iff hne).mp hk with hk | ⟨hinst, htf, -, hne'⟩
            · exact Or.inl hk
            · obtain ⟨i, tf, start⟩ := k
              dsimp only at hinst htf
              subst hinst htf
              obtain ⟨x, hx⟩ := List.exists_mem_of_ne_nil _ hne'
              obtain ⟨hfor, hxs⟩ := List.mem_filter.mp hx
              have hxs' : BucketRule.start w tf x.ts = start := of_decide_eq_true hxs
              -- of the earlier buckets only the open one was not over
              rcases (hxs' ▸ hall x hfor : start ≤ current.start).lt_or_eq with hbelow | rfl
              · exact Or.inl (hbefore start ⟨c, hc, by rw [hstart]; exact hbelow⟩ hne')
              · exact Or.inr rfl
        · simp only [emit, Function.update_of_ne (Ne.symm hne)]
          exact hothers i tf hne
        · rw [barsIn_append, if_pos rfl, hempty]
          rfl
      · rename_i hnlt
        have heq : current.start = BucketRule.start w t bar.ts := le_antisymm hle (not_lt.mp hnlt)
        refine tracks_settle h (hemitted.congr fun k _ => ?_) hothers heq ?_
        · constructor
          · exact fun hk => ⟨hk.append, fun hne => hnot (hne ▸ hk)⟩
          · rintro ⟨hk, hne⟩
            rcases (over_append_iff hne).mp hk with hk | ⟨hinst, htf, hlt, hne'⟩
            · exact hk
            · obtain ⟨i, tf, start⟩ := k
              dsimp only at hinst htf hlt
              subst hinst htf
              exact hbefore start ⟨c, hc, by rw [hstart, heq]; exact hlt⟩ hne'
        · rw [heq] at hbars
          rw [Bucket.extend_bars fun x hx => hlater x (List.mem_of_mem_filter (hbars ▸ hx)), hbars,
            barsIn_append, if_pos rfl]
          rfl

/-- **A run of the stream.** -/
theorem tracks_run (h : Ordered w seen) :
    Tracks w seen (seen.foldl (fun d p => d.add w p.1 p.2) initial) := by
  induction seen using List.reverseRecOn with
  | nil =>
      refine ⟨⟨List.nodup_nil, fun e => ?_⟩, fun i tf c hc => (by cases hc)⟩
      constructor
      · exact fun he => (by cases he)
      · rintro ⟨g, hg, -⟩
        exact absurd hg g.bucket.filled
  | append_singleton seen p ih =>
      rw [List.foldl_append]
      exact tracks_add h (ih h.of_append.1)

end TimeframeDeriver

end Seen

/-! ## The stream and the batch -/

variable {w : SessionWindow} {minutes : List Candle}

/-- The bars of each instrument come one after the other. -/
def Rising (minutes : List Candle) : Prop :=
  ∀ i, (minutes.filter fun c => c.instrumentId = i).Pairwise fun a b => a.ts < b.ts

/-- Every bar closes before its buckets end. -/
def Inside (w : SessionWindow) (minutes : List Candle) : Prop :=
  ∀ c ∈ minutes, ∀ tf, c.ts + minute ≤ BucketRule.stop w tf (BucketRule.start w tf c.ts)

/-- The bucket of a derived bar is over: a minute of a later one has come,
or its own last minute. -/
def Completed (w : SessionWindow) (minutes : List Candle) (e : Candle) : Prop :=
  ∃ tf ∈ DerivedTimeframe.all, tf.timeframe = e.timeframe ∧
    ∃ c ∈ minutes, c.instrumentId = e.instrumentId ∧ (e.ts < BucketRule.start w tf c.ts ∨
      (BucketRule.start w tf c.ts = e.ts ∧ c.ts + minute = BucketRule.stop w tf e.ts))

instance (e : Candle) : Decidable (Completed w minutes e) :=
  inferInstanceAs (Decidable (∃ tf ∈ _, _ ∧ ∃ c ∈ _, _))

/-- Every timeframe sees every bar. -/
theorem barsFor_inEach (i : String) (tf : DerivedTimeframe) :
    barsFor (inEach DerivedTimeframe.all minutes) i tf =
      minutes.filter fun c => c.instrumentId = i := by
  induction minutes with
  | nil => rfl
  | cons bar minutes ih =>
      rw [inEach, List.flatMap_cons, ← inEach, barsFor, List.filter_append, List.map_append, ← barsFor,
        ← barsFor, ih, List.filter_cons]
      by_cases h : bar.instrumentId = i
      · cases tf <;> simp [h, barsFor, DerivedTimeframe.all]
      · simp [h, barsFor, DerivedTimeframe.all]

theorem ordered_inEach (hrising : Rising minutes) (hinside : Inside w minutes) :
    Ordered w (inEach DerivedTimeframe.all minutes) := by
  refine ⟨fun i tf => ?_, fun p hp => ?_⟩
  · rw [barsFor_inEach]
    exact hrising i
  · obtain ⟨c, hc, hp⟩ := List.mem_flatMap.mp hp
    obtain ⟨tf, -, rfl⟩ := List.mem_map.mp hp
    exact hinside c hc tf

theorem completed_iff_over {g : BucketGroup}
    (h : g.bucket.bars = barsIn w (inEach DerivedTimeframe.all minutes) g.key) :
    Completed w minutes (g.candle w) ↔ Over w (inEach DerivedTimeframe.all minutes) g.key := by
  have hkey := BucketGroup.key_candle h
  simp only [Candle.identity, Prod.mk.injEq] at hkey
  obtain ⟨hinst, htf, hts⟩ := hkey
  have hfilled : barsIn w (inEach DerivedTimeframe.all minutes) g.key ≠ [] := h ▸ g.bucket.filled
  unfold Completed Over
  rw [and_iff_right hfilled, hinst, htf, hts]
  simp only [BucketGroup.key, barsFor_inEach, List.mem_filter, decide_eq_true_eq]
  constructor
  · rintro ⟨tf, -, heq, c, hc, hci, hover⟩
    rw [DerivedTimeframe.timeframe_inj heq] at hover
    exact ⟨c, ⟨hc, hci⟩, hover⟩
  · rintro ⟨c, ⟨hc, hci⟩, hover⟩
    exact ⟨g.timeframe, g.timeframe.mem_all, rfl, c, hc, hci, hover⟩

/-- **The stream is the batch.** Of minute bars that come one after the
other and lie inside their buckets, the stream has emitted the bars of the
batch whose buckets are over, each once. -/
theorem emitted_perm_derive (hm1 : ∀ c ∈ minutes, c.timeframe = .m1) (hrising : Rising minutes)
    (hinside : Inside w minutes) :
    ∃ batch, derive w DerivedTimeframe.all minutes = .ok batch ∧ (batch.map (·.identity)).Nodup ∧
      (TimeframeDeriver.run w DerivedTimeframe.all minutes).emitted.Perm
        (batch.filter (Completed w minutes)) := by
  have hordered := ordered_inEach hrising hinside
  obtain ⟨hnodup, hmem⟩ := groupsOf_spec hordered
  have htracks := (TimeframeDeriver.tracks_run hordered).emitted
  rw [← TimeframeDeriver.run_eq hm1] at htracks
  obtain ⟨batch, hbatch, hperm⟩ : ∃ batch, derive w DerivedTimeframe.all minutes = .ok batch ∧
      batch.Perm ((groupsOf w (inEach DerivedTimeframe.all minutes)).map (·.candle w)) := by
    have hall : ¬ (minutes.any fun bar => bar.timeframe ≠ .m1) = true := by
      simpa using hm1
    exact ⟨_, if_neg hall, List.perm_insertionSort _ _⟩
  have hkeys : (batch.map (·.identity)).Nodup := by
    rw [(hperm.map _).nodup_iff, List.map_map]
    refine hnodup.of_map.map_on fun g hg g' hg' heq => ?_
    exact BucketGroup.eq_of_key_candle ((hmem g).mp hg) ((hmem g').mp hg') heq
  refine ⟨batch, hbatch, hkeys, (List.perm_ext_iff_of_nodup htracks.nodup.of_map
    (hkeys.of_map.filter _)).mpr fun e => ?_⟩
  rw [htracks.mem, List.mem_filter, hperm.mem_iff, List.mem_map]
  constructor
  · rintro ⟨g, hg, hover, rfl⟩
    exact ⟨⟨g, (hmem g).mpr hg, rfl⟩, decide_eq_true ((completed_iff_over hg).mpr hover)⟩
  · rintro ⟨⟨g, hg, rfl⟩, hcompleted⟩
    have hbars := (hmem g).mp hg
    exact ⟨g, hbars, (completed_iff_over hbars).mp (of_decide_eq_true hcompleted), rfl⟩

/-! ## Small series -/

namespace Sample

/-- A minute bar of `I` at one price. -/
def minuteBar (ts : Timestamp) (price : Decimal) : Candle :=
  ⟨"I", .m1, ts, ⟨price⟩, ⟨price⟩, ⟨price⟩, ⟨price⟩, 1, false, le_rfl, le_rfl, le_rfl, le_rfl⟩

/-- A minute of the first Friday, counted from 15:00 in India. -/
def afternoon (n : ℤ) : Timestamp := day + 54000 * second - indiaOffset + n * minute

def window : SessionWindow := (MinuteWindow.regular SessionWindow.weekdays).toSessionWindow

theorem rising_pair {s t : Timestamp} (h : s < t) (a b : Decimal) :
    Rising [minuteBar s a, minuteBar t b] := by
  intro i
  refine List.Pairwise.filter _ (List.pairwise_cons.mpr ⟨fun c hc => ?_, List.pairwise_singleton _ _⟩)
  rw [List.mem_singleton.mp hc]
  exact h

end Sample

/-- 15:28 and 15:29: each timeframe has emitted one bar. -/
theorem emitted_perm_derive_sample :
    let minutes := [Sample.minuteBar (Sample.afternoon 28) 100, Sample.minuteBar (Sample.afternoon 29) 101]
    ((TimeframeDeriver.run Sample.window DerivedTimeframe.all minutes).emitted.map (·.timeframe)) =
        [.m5, .m15, .h1] ∧
      ∃ batch, derive Sample.window DerivedTimeframe.all minutes = .ok batch ∧
        (batch.map (·.identity)).Nodup ∧
        (TimeframeDeriver.run Sample.window DerivedTimeframe.all minutes).emitted.Perm
          (batch.filter (Completed Sample.window minutes)) := by
  intro minutes
  have hinside : Inside Sample.window minutes := by
    intro c hc tf
    simp only [minutes, List.mem_cons, List.not_mem_nil, or_false] at hc
    rcases hc with rfl | rfl
    · exact BucketRule.inside_of_contains (w := .regular SessionWindow.weekdays) (by decide)
        (by decide) (by decide)
    · exact BucketRule.inside_of_contains (w := .regular SessionWindow.weekdays) (by decide)
        (by decide) (by decide)
  exact ⟨by decide, emitted_perm_derive (by decide) (Sample.rising_pair (by decide) _ _) hinside⟩

/-- **A minute after the close.** The bar of 15:30 is of the hour from
15:15, which ended with the session: the stream has emitted that hour
without it, and the batch has it. -/
theorem emitted_differs_after_close :
    let minutes := [Sample.minuteBar (Sample.afternoon 29) 100, Sample.minuteBar (Sample.afternoon 30) 101]
    Rising minutes ∧ ∃ batch, derive Sample.window DerivedTimeframe.all minutes = .ok batch ∧
      ¬ (TimeframeDeriver.run Sample.window DerivedTimeframe.all minutes).emitted.Perm
          (batch.filter (Completed Sample.window minutes)) := by
  refine ⟨Sample.rising_pair (by decide) _ _, _, if_neg (by decide), ?_⟩
  decide

end Emporos
