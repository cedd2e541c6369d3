import Emporos.Backtest.FillModel
/-!
# The bars a strategy may read

A history holds the bars that were recorded, each instrument and timeframe
in the order of time and no more than so many, and lets a reader see those
that have closed. It may hold bars that have not: two histories that hold
the same bars closed by a moment read the same until then. What a bar to
come still does is to push out the oldest one where the history is full.
-/

namespace Emporos

/-- `ClosedBarHistory`, but for its clock. -/
structure ClosedBarHistory where
  maxBars : ℕ
  series : String → Timeframe → List Candle

namespace ClosedBarHistory

/-- A bar takes the place its time has in a series, or that of the bar held
for its time. -/
def insertBar (bar : Candle) : List Candle → List Candle
  | [] => [bar]
  | held :: rest =>
      if held.ts < bar.ts then held :: insertBar bar rest
      else if held.ts = bar.ts then bar :: rest
      else bar :: held :: rest

/-- `del series[: max(0, len(series) - max_bars)]`. -/
def newest (limit : ℕ) (series : List Candle) : List Candle := series.drop (series.length - limit)

variable (h : ClosedBarHistory)

def record (bar : Candle) : ClosedBarHistory :=
  { h with series := fun i tf =>
      if i = bar.instrumentId ∧ tf = bar.timeframe then
        newest h.maxBars (insertBar bar (h.series i tf))
      else h.series i tf }

def recordAll (bars : List Candle) : ClosedBarHistory := bars.foldl record h

/-- The bars of a series that have closed. -/
def closedBy (now : Timestamp) (series : List Candle) : List Candle :=
  series.filter fun bar => bar.closesAt ≤ now

/-- The most recent of the closed bars, oldest first. -/
def bars (now : Timestamp) (instrumentId : String) (timeframe : Timeframe) (limit : ℤ) : List Candle :=
  if limit ≤ 0 then [] else newest limit.toNat (closedBy now (h.series instrumentId timeframe))

/-- Before any bar. -/
def new (maxBars : ℕ) : ClosedBarHistory := ⟨maxBars, fun _ _ => []⟩

/-! ## A series -/

/-- Bars of one timeframe, oldest first. -/
structure Ordered (tf : Timeframe) (series : List Candle) : Prop where
  oldest_first : series.Pairwise (·.ts < ·.ts)
  of_timeframe : ∀ bar ∈ series, bar.timeframe = tf

variable {tf : Timeframe} {series series' : List Candle} {bar : Candle} {now t : Timestamp} {n : ℕ}

theorem Ordered.tail {held : Candle} (hs : Ordered tf (held :: series)) : Ordered tf series :=
  ⟨(List.pairwise_cons.1 hs.oldest_first).2, fun b hb => hs.of_timeframe b (List.mem_cons_of_mem _ hb)⟩

theorem Ordered.sublist (hs : Ordered tf series) (hsub : series'.Sublist series) : Ordered tf series' :=
  ⟨hs.oldest_first.sublist hsub, fun b hb => hs.of_timeframe b (hsub.subset hb)⟩

theorem newest_sublist : (newest n series).Sublist series := List.drop_sublist ..

theorem newest_of_le (hle : series.length ≤ n) : newest n series = series := by
  rw [newest, Nat.sub_eq_zero_of_le hle, List.drop_zero]

theorem mem_of_mem_insertBar {b : Candle} (hb : b ∈ insertBar bar series) : b = bar ∨ b ∈ series := by
  induction series with
  | nil => exact .inl (List.mem_singleton.1 hb)
  | cons held rest ih =>
      rw [insertBar] at hb
      split_ifs at hb with hlt heq
      · obtain rfl | hb := List.mem_cons.1 hb
        · exact .inr (List.mem_cons_self ..)
        · exact (ih hb).imp_right (List.mem_cons_of_mem _)
      · exact (List.mem_cons.1 hb).imp_right (List.mem_cons_of_mem _)
      · exact List.mem_cons.1 hb

/-- A series stays one when a bar of its timeframe is put into it. -/
theorem Ordered.insertBar (hs : Ordered tf series) (hbar : bar.timeframe = tf) :
    Ordered tf (insertBar bar series) := by
  refine ⟨?_, fun b hb => ?_⟩
  · have hordered := hs.oldest_first
    clear hs
    induction series with
    | nil => exact List.pairwise_singleton _ _
    | cons held rest ih =>
        obtain ⟨hheld, hrest⟩ := List.pairwise_cons.1 hordered
        rw [ClosedBarHistory.insertBar]
        split_ifs with hlt heq
        · refine List.pairwise_cons.2 ⟨fun b hb => ?_, ih hrest⟩
          obtain rfl | hb := mem_of_mem_insertBar hb
          · exact hlt
          · exact hheld b hb
        · exact List.pairwise_cons.2 ⟨fun b hb => heq ▸ hheld b hb, hrest⟩
        · have hlt' : bar.ts < held.ts := lt_of_le_of_ne (not_lt.1 hlt) (Ne.symm heq)
          refine List.pairwise_cons.2 ⟨fun b hb => ?_, hordered⟩
          obtain rfl | hb := List.mem_cons.1 hb
          · exact hlt'
          · exact hlt'.trans (hheld b hb)
  · obtain rfl | hb := mem_of_mem_insertBar hb
    · exact hbar
    · exact hs.of_timeframe b hb

/-! ## What has closed -/

theorem closedBy_cons_of_le (hclosed : bar.closesAt ≤ t) :
    closedBy t (bar :: series) = bar :: closedBy t series :=
  List.filter_cons_of_pos (by simpa using hclosed)

theorem closedBy_cons_of_lt (hopen : t < bar.closesAt) :
    closedBy t (bar :: series) = closedBy t series :=
  List.filter_cons_of_neg (by simpa using hopen)

theorem closedBy_append : closedBy t (series ++ series') = closedBy t series ++ closedBy t series' :=
  List.filter_append ..

theorem closesAt_eq (hs : Ordered tf series) (hb : bar ∈ series) :
    bar.closesAt = bar.ts + tf.duration := by
  rw [Candle.closesAt, hs.of_timeframe bar hb]

/-- A bar that has not closed yet changes nothing of what has. -/
theorem closedBy_insertBar_of_lt (hs : Ordered tf series) (hbar : bar.timeframe = tf)
    (hopen : t < bar.closesAt) : closedBy t (insertBar bar series) = closedBy t series := by
  induction series with
  | nil => simp [insertBar, closedBy, hopen]
  | cons held rest ih =>
      rw [insertBar]
      split_ifs with hlt heq
      · obtain hheld | hheld := le_or_gt held.closesAt t
        · rw [closedBy_cons_of_le hheld, closedBy_cons_of_le hheld, ih hs.tail]
        · rw [closedBy_cons_of_lt hheld, closedBy_cons_of_lt hheld, ih hs.tail]
      · -- the bar of the same time closes with it
        have hheld : held.closesAt = bar.closesAt := by
          rw [closesAt_eq hs (List.mem_cons_self ..), Candle.closesAt, hbar, heq]
        rw [closedBy_cons_of_lt hopen, closedBy_cons_of_lt (hheld ▸ hopen)]
      · exact closedBy_cons_of_lt hopen

/-- A bar that has closed is put among those that have. -/
theorem closedBy_insertBar_of_le (hs : Ordered tf series) (hbar : bar.timeframe = tf)
    (hclosed : bar.closesAt ≤ t) :
    closedBy t (insertBar bar series) = insertBar bar (closedBy t series) := by
  induction series with
  | nil => simp [insertBar, closedBy, hclosed]
  | cons held rest ih =>
      have hheld := closesAt_eq hs (List.mem_cons_self ..)
      have hbar' : bar.closesAt = bar.ts + tf.duration := by rw [Candle.closesAt, hbar]
      rw [insertBar]
      split_ifs with hlt heq
      · have hle : held.closesAt ≤ t := by
          simp only [Timestamp] at *
          omega
        rw [closedBy_cons_of_le hle, closedBy_cons_of_le hle, insertBar, if_pos hlt, ih hs.tail]
      · have hle : held.closesAt ≤ t := by
          simp only [Timestamp] at *
          omega
        rw [closedBy_cons_of_le hclosed, closedBy_cons_of_le hle, insertBar, if_neg hlt, if_pos heq]
      · have hlt' : bar.ts < held.ts := lt_of_le_of_ne (not_lt.1 hlt) (Ne.symm heq)
        rw [closedBy_cons_of_le hclosed]
        obtain hle | hopen := le_or_gt held.closesAt t
        · rw [closedBy_cons_of_le hle, insertBar, if_neg hlt, if_neg heq]
        · -- nothing behind a bar that is open has closed
          have hnone : closedBy t rest = [] := by
            refine List.filter_eq_nil_iff.2 fun b hb => ?_
            have hb' := closesAt_eq hs (List.mem_cons_of_mem _ hb)
            have hafter := (List.pairwise_cons.1 hs.oldest_first).1 b hb
            simp only [Timestamp, decide_eq_true_eq] at *
            omega
          rw [closedBy_cons_of_lt hopen, hnone]
          rfl

/-- What has closed by an earlier moment is among what has closed. -/
theorem closedBy_closedBy (hle : now ≤ t) : closedBy now (closedBy t series) = closedBy now series := by
  rw [closedBy, closedBy, closedBy, List.filter_filter]
  refine List.filter_congr fun b _ => ?_
  simp only [Bool.and_eq_decide, decide_eq_true_eq, decide_eq_decide]
  exact ⟨And.left, fun h => ⟨h, h.trans hle⟩⟩

/-! ## What a history that is never full holds -/

/-- Every bar is one of some given bars of its instrument and timeframe. -/
structure Drawn (source : String → Timeframe → List Candle) (h : ClosedBarHistory) : Prop where
  ordered : ∀ i tf, Ordered tf (h.series i tf)
  drawn : ∀ i tf, ∀ b ∈ h.series i tf, b ∈ source i tf

variable {h} {source : String → Timeframe → List Candle} {i : String} {l : List Candle}

theorem Ordered.length_le (hs : Ordered tf series) (hsub : ∀ b ∈ series, b ∈ series') :
    series.length ≤ series'.length := by
  have hnd : series.Nodup := hs.oldest_first.imp fun hlt => by
    rintro rfl
    exact lt_irrefl _ hlt
  exact (hnd.subperm hsub).length_le

theorem drawn_insertBar (hdrawn : h.Drawn source)
    (hbar : bar ∈ source bar.instrumentId bar.timeframe) :
    Ordered bar.timeframe (insertBar bar (h.series bar.instrumentId bar.timeframe)) ∧
      ∀ b ∈ insertBar bar (h.series bar.instrumentId bar.timeframe),
        b ∈ source bar.instrumentId bar.timeframe := by
  refine ⟨(hdrawn.ordered _ _).insertBar rfl, fun b hb => ?_⟩
  obtain rfl | hb := mem_of_mem_insertBar hb
  · exact hbar
  · exact hdrawn.drawn _ _ b hb

theorem Drawn.record (hdrawn : h.Drawn source) (hbar : bar ∈ source bar.instrumentId bar.timeframe) :
    (h.record bar).Drawn source := by
  obtain ⟨hordered, hdrawn'⟩ := drawn_insertBar hdrawn hbar
  constructor
  · intro i tf
    unfold ClosedBarHistory.record
    dsimp only
    split_ifs with hkey
    · obtain ⟨rfl, rfl⟩ := hkey
      exact hordered.sublist newest_sublist
    · exact hdrawn.ordered i tf
  · intro i tf b hb
    unfold ClosedBarHistory.record at hb
    dsimp only at hb
    split_ifs at hb with hkey
    · obtain ⟨rfl, rfl⟩ := hkey
      exact hdrawn' b (newest_sublist.subset hb)
    · exact hdrawn.drawn i tf b hb

/-- A bar is put into its series, and none goes, where there is room for all
there are. -/
theorem series_record (hdrawn : h.Drawn source) (hbar : bar ∈ source bar.instrumentId bar.timeframe)
    (hroom : (source i tf).length ≤ h.maxBars) : (h.record bar).series i tf =
      if i = bar.instrumentId ∧ tf = bar.timeframe then insertBar bar (h.series i tf)
      else h.series i tf := by
  unfold record
  dsimp only
  split_ifs with hkey
  · obtain ⟨rfl, rfl⟩ := hkey
    obtain ⟨hordered, hdrawn'⟩ := drawn_insertBar hdrawn hbar
    exact newest_of_le ((hordered.length_le hdrawn').trans hroom)
  · rfl

/-- **What is recorded shows once it has closed.** -/
theorem closedBy_record (hdrawn : h.Drawn source)
    (hbar : bar ∈ source bar.instrumentId bar.timeframe)
    (hroom : (source i tf).length ≤ h.maxBars) : closedBy t ((h.record bar).series i tf) =
      if (i = bar.instrumentId ∧ tf = bar.timeframe) ∧ bar.closesAt ≤ t then
        insertBar bar (closedBy t (h.series i tf))
      else closedBy t (h.series i tf) := by
  rw [series_record hdrawn hbar hroom]
  by_cases hkey : i = bar.instrumentId ∧ tf = bar.timeframe
  · rw [if_pos hkey]
    obtain ⟨rfl, rfl⟩ := hkey
    by_cases hclosed : bar.closesAt ≤ t
    · rw [if_pos ⟨⟨rfl, rfl⟩, hclosed⟩, closedBy_insertBar_of_le (hdrawn.ordered _ _) rfl hclosed]
    · rw [if_neg fun hboth => hclosed hboth.2,
        closedBy_insertBar_of_lt (hdrawn.ordered _ _) rfl (not_le.1 hclosed)]
  · rw [if_neg hkey, if_neg fun hboth => hkey hboth.1]

/-- A bar goes where it belongs. -/
def place (i : String) (tf : Timeframe) (series : List Candle) (bar : Candle) : List Candle :=
  if i = bar.instrumentId ∧ tf = bar.timeframe then insertBar bar series else series

theorem Drawn.recordAll (hdrawn : h.Drawn source)
    (hl : ∀ b ∈ l, b ∈ source b.instrumentId b.timeframe) : (h.recordAll l).Drawn source := by
  induction l generalizing h with
  | nil => exact hdrawn
  | cons b rest ih =>
      exact ih (hdrawn.record (hl b (List.mem_cons_self ..)))
        fun b' hb' => hl b' (List.mem_cons_of_mem _ hb')

theorem recordAll_append {l' : List Candle} : h.recordAll (l ++ l') = (h.recordAll l).recordAll l' :=
  List.foldl_append ..

theorem maxBars_recordAll (h : ClosedBarHistory) (l : List Candle) :
    (h.recordAll l).maxBars = h.maxBars := by
  induction l generalizing h with
  | nil => rfl
  | cons b rest ih => exact ih (h.record b)

/-- Bars of another timeframe leave a series alone. -/
theorem series_recordAll_of_ne (hl : ∀ b ∈ l, b.timeframe ≠ tf) :
    (h.recordAll l).series i tf = h.series i tf := by
  induction l generalizing h with
  | nil => rfl
  | cons b rest ih =>
      have hb : ¬ (i = b.instrumentId ∧ tf = b.timeframe) := fun hkey =>
        hl b (List.mem_cons_self ..) hkey.2.symm
      exact (ih fun b' hb' => hl b' (List.mem_cons_of_mem _ hb')).trans (if_neg hb)

/-- **Of many bars, those that have closed.** -/
theorem closedBy_recordAll (hdrawn : h.Drawn source)
    (hl : ∀ b ∈ l, b ∈ source b.instrumentId b.timeframe)
    (hroom : (source i tf).length ≤ h.maxBars) : closedBy t ((h.recordAll l).series i tf) =
      (closedBy t l).foldl (place i tf) (closedBy t (h.series i tf)) := by
  induction l generalizing h with
  | nil => rfl
  | cons b rest ih =>
      have hb := hl b (List.mem_cons_self ..)
      change closedBy t (((h.record b).recordAll rest).series i tf) = _
      rw [ih (hdrawn.record hb) (fun b' hb' => hl b' (List.mem_cons_of_mem _ hb')) hroom,
        closedBy_record hdrawn hb hroom]
      obtain hclosed | hopen := le_or_gt b.closesAt t
      · rw [closedBy_cons_of_le hclosed, List.foldl_cons, place]
        simp only [hclosed, and_true]
      · rw [if_neg fun hboth => hopen.not_ge hboth.2, closedBy_cons_of_lt hopen]

end ClosedBarHistory

end Emporos
