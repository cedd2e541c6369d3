import Emporos.Marketdata.Timeframes
/-!
# Buckets emitted once

The state of a bucket is deleted as soon as it is emitted, so a late minute
is told to be stale by the bucket that is open then, and by nothing else.
While none is open, a minute of a bucket that was emitted opens it again.
Where every minute that finds none open belongs to a bucket after those
emitted, each bucket is emitted once, in order.
-/

namespace Emporos

open Timestamp

namespace TimeframeDeriver

section Once

variable (w : SessionWindow)

/-- The state after bars were put into timeframes. -/
def after (d : TimeframeDeriver) (added : List (Candle × DerivedTimeframe)) : TimeframeDeriver :=
  added.foldl (fun d p => d.add w p.1 p.2) d

/-- What `on_candle` adds, one after the other. -/
def added (tfs : List DerivedTimeframe) (minutes : List Candle) : List (Candle × DerivedTimeframe) :=
  inEach tfs (minutes.filter (·.timeframe = .m1))

/-- A start is later than every bucket emitted of an instrument and
timeframe. -/
def IsLater (d : TimeframeDeriver) (key : String × DerivedTimeframe) (start : Timestamp) : Prop :=
  ∀ e ∈ d.emitted, e.instrumentId = key.1 ∧ e.timeframe = key.2.timeframe → e.ts < start

instance (d : TimeframeDeriver) (key : String × DerivedTimeframe) (start : Timestamp) :
    Decidable (d.IsLater key start) := inferInstanceAs (Decidable (∀ e ∈ _, _))

/-- The bucket of the bar was emitted. -/
def HasEmitted (d : TimeframeDeriver) (bar : Candle) (tf : DerivedTimeframe) : Prop :=
  ∃ e ∈ d.emitted, e.identity = (bar.instrumentId, tf.timeframe, BucketRule.start w tf bar.ts)

/-- A bar that finds no bucket open is of one after those emitted. -/
def Timely (d : TimeframeDeriver) : List (Candle × DerivedTimeframe) → Prop
  | [] => True
  | (bar, tf) :: rest =>
      (d.opened (bar.instrumentId, tf) = none →
        d.IsLater (bar.instrumentId, tf) (BucketRule.start w tf bar.ts)) ∧
        Timely (d.add w bar tf) rest

instance Timely.decide : ∀ (d : TimeframeDeriver) (l : List (Candle × DerivedTimeframe)),
    Decidable (d.Timely w l)
  | _, [] => isTrue trivial
  | d, (bar, tf) :: rest =>
      have := Timely.decide (d.add w bar tf) rest
      inferInstanceAs (Decidable (_ ∧ _))

/-- **Each bucket once.** -/
structure EmitsOnce (tfs : List DerivedTimeframe) (minutes : List Candle) : Prop where
  once : ((run w tfs minutes).emitted.map (·.identity)).Nodup
  /-- The starts of one instrument and timeframe increase. -/
  rising : (run w tfs minutes).emitted.Pairwise fun a b =>
    a.instrumentId = b.instrumentId ∧ a.timeframe = b.timeframe → a.ts < b.ts
  /-- A minute of a bucket already emitted is counted, and nothing else. -/
  stale : ∀ before bar tf later, added tfs minutes = before ++ (bar, tf) :: later →
    (initial.after w before).HasEmitted w bar tf →
      (initial.after w before).add w bar tf =
        { initial.after w before with staleMinutes := (initial.after w before).staleMinutes + 1 }

/-- What is open is of its key and comes after all that was emitted. -/
structure Sound (d : TimeframeDeriver) : Prop where
  rising : d.emitted.Pairwise fun a b =>
    a.instrumentId = b.instrumentId ∧ a.timeframe = b.timeframe → a.ts < b.ts
  named : ∀ key b, d.opened key = some b → ∀ c ∈ b.bars, c.instrumentId = key.1
  later : ∀ key b, d.opened key = some b → d.IsLater key b.start

variable {w} {d : TimeframeDeriver} {bar : Candle} {tf : DerivedTimeframe} {b : Bucket}
  {key : String × DerivedTimeframe} {tfs : List DerivedTimeframe} {minutes : List Candle}
  {rest before : List (Candle × DerivedTimeframe)}

/-- Bars that are not of one minute are left alone. -/
theorem run_eq_after : run w tfs minutes = initial.after w (added tfs minutes) := by
  have hfilter : ∀ d : TimeframeDeriver, minutes.foldl (onCandle w tfs) d =
      (minutes.filter (·.timeframe = .m1)).foldl (onCandle w tfs) d := by
    induction minutes with
    | nil => exact fun d => rfl
    | cons bar minutes ih =>
        intro d
        rw [List.foldl_cons, List.filter_cons]
        by_cases hm1 : bar.timeframe = .m1
        · rw [if_pos (decide_eq_true hm1), List.foldl_cons, ih]
        · have hskip : onCandle w tfs d bar = d := if_pos hm1
          rw [if_neg (by simpa using hm1), hskip, ih]
  have hm1 : ∀ bar ∈ minutes.filter (·.timeframe = .m1), bar.timeframe = .m1 := fun bar hbar =>
    of_decide_eq_true (List.mem_filter.mp hbar).2
  exact (hfilter initial).trans (run_eq hm1)

theorem sound_initial : initial.Sound where
  rising := .nil
  named := fun _ _ h => (by cases h)
  later := fun _ _ h => (by cases h)

/-- The bar of a bucket has the bucket's key. -/
theorem identity_fold (h : ∀ c ∈ b.bars, c.instrumentId = key.1) :
    (b.fold w key.2).identity = (key.1, key.2.timeframe, b.start) := by
  have hmem : b.ordered.head b.ordered_ne_nil ∈ b.bars :=
    (List.perm_insertionSort _ _).mem_iff.mp (List.head_mem _)
  simp only [Candle.identity, Bucket.fold, Candle.combine, h _ hmem]

/-! ## One step -/

/-- What is open once one key was changed. -/
theorem opened_update {changed : Option Bucket} {key' : String × DerivedTimeframe} {b' : Bucket}
    (h : Function.update d.opened key changed key' = some b') :
    (key' = key ∧ changed = some b') ∨ (key' ≠ key ∧ d.opened key' = some b') := by
  by_cases hkey : key' = key
  · rw [hkey, Function.update_self] at h
    exact .inl ⟨hkey, h⟩
  · rw [Function.update_of_ne hkey] at h
    exact .inr ⟨hkey, h⟩

/-- A bucket kept open. -/
theorem Sound.hold (h : d.Sound) (hnamed : ∀ c ∈ b.bars, c.instrumentId = key.1)
    (hlater : d.IsLater key b.start) :
    ({ d with opened := Function.update d.opened key (some b) } : TimeframeDeriver).Sound where
  rising := h.rising
  named := by
    intro key' b' hb'
    rcases opened_update hb' with ⟨rfl, heq⟩ | ⟨-, hopen⟩
    · exact Option.some.inj heq ▸ hnamed
    · exact h.named key' b' hopen
  later := by
    intro key' b' hb'
    rcases opened_update hb' with ⟨rfl, heq⟩ | ⟨-, hopen⟩
    · exact Option.some.inj heq ▸ hlater
    · exact h.later key' b' hopen

/-- A start after the bucket just emitted is after all of them. -/
theorem Sound.isLater_emit (h : d.Sound) (hopen : d.opened key = some b) {start : Timestamp}
    (hlt : b.start < start) : (d.emit w key b).IsLater key start := by
  have hident := identity_fold (w := w) (h.named key b hopen)
  intro e he hkey
  rcases List.mem_append.mp he with he | he
  · exact (h.later key b hopen e he hkey).trans hlt
  · rw [List.mem_singleton.mp he]
    exact (congrArg (fun i => i.2.2) hident).trans_lt hlt

/-- **An open bucket is emitted.** -/
theorem Sound.emit (h : d.Sound) (hopen : d.opened key = some b) : (d.emit w key b).Sound := by
  have hident := identity_fold (w := w) (h.named key b hopen)
  simp only [Candle.identity, Prod.mk.injEq] at hident
  obtain ⟨hinst, htf, hts⟩ := hident
  refine ⟨List.pairwise_append.mpr ⟨h.rising, List.pairwise_singleton _ _, ?_⟩, ?_, ?_⟩
  · intro e he e' he' hkey
    rw [List.mem_singleton.mp he', hinst, htf] at hkey
    rw [List.mem_singleton.mp he', hts]
    exact h.later key b hopen e he hkey
  · intro key' b' hb'
    rcases opened_update hb' with ⟨-, heq⟩ | ⟨-, hopen⟩
    · cases heq
    · exact h.named key' b' hopen
  · intro key' b' hb'
    rcases opened_update hb' with ⟨-, heq⟩ | ⟨hkey, hopen⟩
    · cases heq
    · intro e he hof
      rcases List.mem_append.mp he with he | he
      · exact h.later key' b' hopen e he hof
      · -- the new bar is of another instrument or timeframe
        rw [List.mem_singleton.mp he, hinst, htf] at hof
        exact absurd (Prod.ext hof.1 (DerivedTimeframe.timeframe_inj hof.2)).symm hkey

/-- A bucket with its newest minute, kept or emitted. -/
theorem Sound.settle (h : d.Sound) (hnamed : ∀ c ∈ b.bars, c.instrumentId = key.1)
    (hlater : d.IsLater key b.start) : (d.settle w key b bar).Sound := by
  have hheld := h.hold hnamed hlater
  unfold TimeframeDeriver.settle
  dsimp only
  split
  · exact hheld.emit (Function.update_self ..)
  · exact hheld

/-- **One step.** A bar that finds none open must be later; every other one
is put where it belongs. -/
theorem Sound.add (h : d.Sound)
    (htimely : d.opened (bar.instrumentId, tf) = none →
      d.IsLater (bar.instrumentId, tf) (BucketRule.start w tf bar.ts)) :
    (d.add w bar tf).Sound := by
  have hsingle : ∀ c ∈ (Bucket.single (BucketRule.start w tf bar.ts) bar).bars,
      c.instrumentId = bar.instrumentId := fun c hc => List.mem_singleton.mp hc ▸ rfl
  cases hopen : d.opened (bar.instrumentId, tf) with
  | none =>
      rw [add_of_none hopen]
      exact h.settle hsingle (htimely hopen)
  | some current =>
      by_cases hstale : BucketRule.start w tf bar.ts < current.start
      · have hadd : d.add w bar tf = { d with staleMinutes := d.staleMinutes + 1 } := by
          simp only [TimeframeDeriver.add, hopen, if_pos hstale]
        rw [hadd]
        exact ⟨h.rising, h.named, h.later⟩
      · rw [add_of_some hopen (not_lt.mp hstale)]
        split
        · rename_i hlt
          exact (h.emit hopen).settle hsingle (h.isLater_emit hopen hlt)
        · have hlater : d.IsLater (bar.instrumentId, tf) (current.extend bar).start :=
            h.later _ current hopen
          refine h.settle (fun c hc => ?_) hlater
          rcases Table.mem_upsert.mp hc with rfl | ⟨hc, -⟩
          · rfl
          · exact h.named _ _ hopen c hc

/-- A minute of a bucket that was emitted, where the step is timely: a later
bucket is open, and it is stale. -/
theorem Sound.add_of_hasEmitted (h : d.Sound)
    (htimely : d.opened (bar.instrumentId, tf) = none →
      d.IsLater (bar.instrumentId, tf) (BucketRule.start w tf bar.ts))
    (hemitted : d.HasEmitted w bar tf) :
    d.add w bar tf = { d with staleMinutes := d.staleMinutes + 1 } := by
  obtain ⟨e, he, hident⟩ := hemitted
  simp only [Candle.identity, Prod.mk.injEq] at hident
  obtain ⟨hinst, htf, hts⟩ := hident
  cases hopen : d.opened (bar.instrumentId, tf) with
  | none =>
      have := htimely hopen e he ⟨hinst, htf⟩
      exact absurd hts this.ne
  | some current =>
      have hlt := h.later _ _ hopen e he ⟨hinst, htf⟩
      rw [hts] at hlt
      simp only [TimeframeDeriver.add, hopen, if_pos hlt]

/-! ## A run -/

theorem after_cons : d.after w ((bar, tf) :: rest) = (d.add w bar tf).after w rest := rfl

/-- **A run of timely bars.** -/
theorem Sound.after (h : d.Sound) (htimely : d.Timely w rest) : (d.after w rest).Sound := by
  induction rest generalizing d with
  | nil => exact h
  | cons p rest ih => exact ih (h.add htimely.1) htimely.2

theorem Timely.append (h : d.Timely w (before ++ rest)) :
    d.Timely w before ∧ (d.after w before).Timely w rest := by
  induction before generalizing d with
  | nil => exact ⟨trivial, h⟩
  | cons p before ih => exact ⟨⟨h.1, (ih h.2).1⟩, (ih h.2).2⟩

/-- **When each bucket is emitted once.** In every run in which a minute
that finds no bucket open is of one after those emitted, the buckets of an
instrument and timeframe are emitted in order, each once, and a minute of
one that was is counted as stale and changes nothing else. -/
theorem emits_once (h : initial.Timely w (added tfs minutes)) : EmitsOnce w tfs minutes := by
  have hsound := sound_initial.after h
  rw [← run_eq_after] at hsound
  refine ⟨?_, hsound.rising, fun before bar tf later hsplit hemitted => ?_⟩
  · refine List.pairwise_map.mpr (hsound.rising.imp fun hlt heq => ?_)
    simp only [Candle.identity, Prod.mk.injEq] at heq
    exact absurd heq.2.2 (hlt ⟨heq.1, heq.2.1⟩).ne
  · rw [hsplit] at h
    obtain ⟨hbefore, hnext⟩ := h.append
    exact (sound_initial.after hbefore).add_of_hasEmitted hnext.1 hemitted

end Once

/-! ## A late minute -/

/-- 15:03, 15:05 and, late, 15:04: the bucket of 15:00 was over when the
later one began, and the late minute is stale. -/
theorem emits_once_sample :
    let minutes := [Sample.minuteBar (Sample.afternoon 3) 100, Sample.minuteBar (Sample.afternoon 5) 101,
      Sample.minuteBar (Sample.afternoon 4) 102]
    (run Sample.window [.m5] minutes).staleMinutes = 1 ∧ EmitsOnce Sample.window [.m5] minutes :=
  ⟨by decide, emits_once (by decide)⟩

/-- **A bucket emitted twice.** Here 15:04 has closed the bucket of 15:00
when 15:03 arrives late, and opens it again. -/
theorem emits_twice :
    let minutes := [Sample.minuteBar (Sample.afternoon 4) 100, Sample.minuteBar (Sample.afternoon 3) 101,
      Sample.minuteBar (Sample.afternoon 5) 102]
    (run Sample.window DerivedTimeframe.all minutes).staleMinutes = 0 ∧
      ¬ EmitsOnce Sample.window DerivedTimeframe.all minutes := by
  refine ⟨by decide, fun h => ?_⟩
  have htwice : ¬ ((run Sample.window DerivedTimeframe.all
      [Sample.minuteBar (Sample.afternoon 4) 100, Sample.minuteBar (Sample.afternoon 3) 101,
        Sample.minuteBar (Sample.afternoon 5) 102]).emitted.map (·.identity)).Nodup := by
    decide
  exact htwice h.once

end TimeframeDeriver

end Emporos
