import Emporos.Common.Runs
import Emporos.Core.Errors
import Emporos.Domain.Money
import Mathlib.Data.List.MinMax
import Mathlib.Data.List.Sort
/-!
# Drawdowns

Falls of an equity curve from its running peak. The analyzer goes over the
curve once, with the peak so far and the fall it is in. What a report should
say is over all points (`DrawdownReport.Correct`): the deepest fall, and the
maximal runs of points below their running peak.

Depths have 34 digits, and the report puts the deepest first by their
negations, which the caller's context rounds. It says what it should exactly
if no period among the first is so taken for as deep as a deeper one behind
it (`Separated`).
-/

namespace Emporos

structure EquityPoint where
  ts : Timestamp
  equity : Money

/-- `DecimalMath.divide`, in a context of its own. -/
def DecimalMath.divide (a b : Decimal) : Decimal := Decimal.roundTo 34 (a / b)

structure DrawdownPeriod where
  peakAt : Timestamp
  troughAt : Timestamp
  recoveredAt : Option Timestamp
  peakEquity : Decimal
  troughEquity : Decimal

structure DrawdownReport where
  maxDrawdown : Decimal
  periods : List DrawdownPeriod
  longestDays : ℤ
  count : ℕ

def topPeriods : ℕ := 5

/-- A fall that is not over. -/
structure OpenDrawdown where
  peakAt : Timestamp
  peakEquity : Decimal
  troughAt : Timestamp
  troughEquity : Decimal

variable [DecimalContext]

/-- The fraction of the peak. -/
def DrawdownPeriod.depth (p : DrawdownPeriod) : Decimal :=
  DecimalMath.divide (p.peakEquity.sub p.troughEquity) p.peakEquity

namespace DrawdownAnalyzer

/-- Where the pass stands. -/
structure State where
  peakEquity : Decimal
  peakAt : Timestamp
  current : Option OpenDrawdown
  periods : List DrawdownPeriod

def close (o : OpenDrawdown) (recoveredAt : Option Timestamp) : DrawdownPeriod :=
  ⟨o.peakAt, o.troughAt, recoveredAt, o.peakEquity, o.troughEquity⟩

def step (s : State) (point : EquityPoint) : State :=
  let equity := point.equity.amount
  if s.peakEquity ≤ equity then
    { peakEquity := equity
      peakAt := point.ts
      current := none
      periods := s.periods ++ s.current.toList.map fun o => close o (some point.ts) }
  else match s.current with
    | none => { s with current := some ⟨s.peakAt, s.peakEquity, point.ts, equity⟩ }
    | some o =>
        if equity < o.troughEquity then
          { s with current := some { o with troughAt := point.ts, troughEquity := equity } }
        else s

/-- The order of the report: by the negated depth, and by the peak's time. -/
def Before (a b : DrawdownPeriod) : Prop :=
  Decimal.neg a.depth < Decimal.neg b.depth ∨
    Decimal.neg a.depth = Decimal.neg b.depth ∧ a.peakAt ≤ b.peakAt

instance : DecidableRel Before := fun a b => by unfold Before; infer_instance

def report (periods : List DrawdownPeriod) (last : Timestamp) : DrawdownReport :=
  let deepest := periods.insertionSort Before
  { maxDrawdown := (deepest.head?.map (·.depth)).getD 0
    periods := deepest.take topPeriods
    longestDays :=
      ((periods.map fun p => (p.recoveredAt.getD last - p.peakAt) / (86400 * Timestamp.second)).max?).getD 0
    count := periods.length }

def analyze (startingCash : Decimal) (curve : List EquityPoint) : DrawdownReport :=
  match curve.head?, curve.getLast? with
  | some first, some last =>
      let s := curve.foldl step ⟨startingCash, first.ts, none, []⟩
      report (s.periods ++ s.current.toList.map fun o => close o none) last.ts
  | _, _ => ⟨0, [], 0, 0⟩

end DrawdownAnalyzer

/-! ## What a report should say -/

namespace EquityCurve

variable (cash : Decimal) (curve : List EquityPoint)

def equityAt (i : ℕ) : Decimal := (curve[i]?.map (·.equity.amount)).getD 0

def tsAt (i : ℕ) : Timestamp := (curve[i]?.map (·.ts)).getD 0

/-- The highest equity before a point, the starting cash the first. -/
def peakBefore (i : ℕ) : Decimal := ((curve.take i).map (·.equity.amount)).foldl max cash

/-- The running peak at a point. -/
def runningPeak (i : ℕ) : Decimal := peakBefore cash curve (i + 1)

/-- Strictly below the running peak. -/
def Below (i : ℕ) : Prop := equityAt curve i < runningPeak cash curve i

instance : DecidablePred (Below cash curve) := fun i => by unfold Below; infer_instance

/-- How far below the running peak a point is, as a fraction of it. -/
def drawdownAt (i : ℕ) : Decimal :=
  DecimalMath.divide ((runningPeak cash curve i).sub (equityAt curve i)) (runningPeak cash curve i)

/-- The first lowest point of a stretch. -/
def troughOf (start stop : ℕ) : ℕ :=
  ((List.range' start (stop - start)).argmin (equityAt curve)).getD start

/-- The period of a run of points: from the last point at the peak before
it, or from the first point where the peak is the starting cash, down to its
first lowest point, and up to the first point behind it. -/
def periodOf (run : ℕ × ℕ) : DrawdownPeriod where
  peakAt := tsAt curve (run.1 - 1)
  troughAt := tsAt curve (troughOf curve run.1 run.2)
  recoveredAt := if run.2 < curve.length then some (tsAt curve run.2) else none
  peakEquity := runningPeak cash curve run.1
  troughEquity := equityAt curve (troughOf curve run.1 run.2)

end EquityCurve

open EquityCurve

/-- **The definition of the report.** Its greatest fall is that of some
point, and of no point less, its periods are among those of the maximal runs
below the peak, as many as it counts, and they are the deepest in order. -/
structure DrawdownReport.Correct (r : DrawdownReport) (cash : Decimal) (curve : List EquityPoint) :
    Prop where
  max_le : ∀ i < curve.length, drawdownAt cash curve i ≤ r.maxDrawdown
  max_attained : (curve = [] ∧ r.maxDrawdown = 0) ∨
    ∃ i < curve.length, drawdownAt cash curve i = r.maxDrawdown
  periods : ∃ (runs : List (ℕ × ℕ)) (rest : List DrawdownPeriod), runs.Nodup ∧
    (∀ run, run ∈ runs ↔ IsRun (Below cash curve) curve.length run.1 run.2) ∧
    r.count = runs.length ∧
    (r.periods ++ rest).Perm (runs.map (periodOf cash curve)) ∧
    r.periods.length = min topPeriods runs.length ∧
    r.periods.Pairwise (fun a b => b.depth ≤ a.depth) ∧
    ∀ a ∈ r.periods, ∀ b ∈ rest, b.depth ≤ a.depth

/-- No period among the first is followed by a deeper one that negating
makes equal to it. -/
def DrawdownReport.Separated (cash : Decimal) (curve : List EquityPoint) : Prop :=
  ∀ before a after,
    ((RunScan.runs (Below cash curve) curve.length).map (periodOf cash curve)).insertionSort
      DrawdownAnalyzer.Before = before ++ a :: after →
    before.length < topPeriods → ∀ b ∈ after, Decimal.neg b.depth = Decimal.neg a.depth →
      b.depth ≤ a.depth

/-! ## The curve -/

namespace EquityCurve

variable {cash : Decimal} {curve : List EquityPoint} {n i : ℕ}

omit [DecimalContext] in
theorem peakBefore_succ (hn : n < curve.length) :
    peakBefore cash curve (n + 1) = max (peakBefore cash curve n) (equityAt curve n) := by
  have he : equityAt curve n = curve[n].equity.amount := by simp [equityAt, hn]
  rw [peakBefore, peakBefore, List.take_succ_eq_append_getElem hn, List.map_append,
    List.foldl_append, he]
  rfl

omit [DecimalContext] in
theorem below_iff (hn : n < curve.length) :
    Below cash curve n ↔ equityAt curve n < peakBefore cash curve n := by
  rw [Below, runningPeak, peakBefore_succ hn, lt_max_iff]
  exact or_iff_left (lt_irrefl _)

omit [DecimalContext] in
theorem le_peakBefore : cash ≤ peakBefore cash curve n := by
  unfold peakBefore
  generalize (curve.take n).map (·.equity.amount) = l
  induction l using List.reverseRecOn with
  | nil => exact le_rfl
  | append_singleton l x ih =>
      rw [List.foldl_append]
      exact ih.trans (le_max_left _ _)

omit [DecimalContext] in
/-- The running peak does not move within a run. -/
theorem runningPeak_of_run {run : ℕ × ℕ}
    (h : IsRun (Below cash curve) curve.length run.1 run.2) (hstart : run.1 ≤ i)
    (hstop : i < run.2) : runningPeak cash curve i = runningPeak cash curve run.1 := by
  induction i, hstart using Nat.le_induction with
  | base => rfl
  | succ i hi ih =>
      have hlength : i + 1 < curve.length := hstop.trans_le h.le
      have hbelow := (below_iff hlength).mp (h.holds _ (by omega) hstop)
      rw [← ih (by omega), runningPeak, peakBefore_succ hlength, max_eq_left hbelow.le]
      rfl

omit [DecimalContext] in
theorem troughOf_mem {start stop : ℕ} (h : start < stop) :
    start ≤ troughOf curve start stop ∧ troughOf curve start stop < stop ∧
      ∀ i, start ≤ i → i < stop → equityAt curve (troughOf curve start stop) ≤ equityAt curve i := by
  have hmem {k : ℕ} : k ∈ List.range' start (stop - start) ↔ start ≤ k ∧ k < stop := by
    rw [List.mem_range'_1]
    omega
  cases ht : (List.range' start (stop - start)).argmin (equityAt curve) with
  | none =>
      rw [List.argmin_eq_none, List.range'_eq_nil_iff] at ht
      omega
  | some t =>
      have hrange := hmem.mp (List.argmin_mem ht)
      rw [troughOf, ht, Option.getD_some]
      exact ⟨hrange.1, hrange.2, fun i hi hlt => List.le_of_mem_argmin (hmem.mpr ⟨hi, hlt⟩) ht⟩

omit [DecimalContext] in
theorem troughOf_self : troughOf curve n (n + 1) = n := by
  have h : n + 1 - n = 1 := by omega
  simp [troughOf, h]

omit [DecimalContext] in
/-- One more point is the trough if it is lower than the one before. -/
theorem troughOf_succ {start : ℕ} (h : start < n) :
    troughOf curve start (n + 1)
      = if equityAt curve n < equityAt curve (troughOf curve start n) then n
        else troughOf curve start n := by
  have hrange : List.range' start (n + 1 - start) = List.range' start (n - start) ++ [n] := by
    obtain ⟨k, rfl⟩ := Nat.exists_eq_add_of_lt h
    have hk : start + k + 1 + 1 - start = k + 1 + 1 := by omega
    have hk' : start + k + 1 - start = k + 1 := by omega
    rw [hk, hk', List.range'_1_concat]
    rfl
  cases ht : (List.range' start (n - start)).argmin (equityAt curve) with
  | none =>
      rw [List.argmin_eq_none, List.range'_eq_nil_iff] at ht
      omega
  | some t =>
      unfold troughOf
      rw [hrange, List.argmin_concat, ht]
      simp only [Option.getD_some]
      split_ifs <;> rfl

end EquityCurve

/-! ## The pass -/

namespace DrawdownAnalyzer

variable (cash : Decimal) (curve : List EquityPoint)

/-- The fall that started at a point, as far as the points before `n` go. -/
def openOf (n start : ℕ) : OpenDrawdown where
  peakAt := tsAt curve (start - 1)
  peakEquity := runningPeak cash curve start
  troughAt := tsAt curve (troughOf curve start n)
  troughEquity := equityAt curve (troughOf curve start n)

/-- Where the pass should stand before point `n`. -/
def stateAt (n : ℕ) : State where
  peakEquity := peakBefore cash curve n
  peakAt := tsAt curve ((RunScan.scan (Below cash curve) n).opened.getD n - 1)
  current := (RunScan.scan (Below cash curve) n).opened.map (openOf cash curve n)
  periods := (RunScan.scan (Below cash curve) n).closed.map (periodOf cash curve)

variable {cash curve} {n : ℕ}

omit [DecimalContext] in
theorem step_stateAt (hn : n < curve.length) :
    step (stateAt cash curve n) curve[n] = stateAt cash curve (n + 1) := by
  have he : equityAt curve n = curve[n].equity.amount := by simp [equityAt, hn]
  have hts : tsAt curve n = curve[n].ts := by simp [tsAt, hn]
  have hfound := RunScan.found_scan (p := Below cash curve) n
  unfold step
  by_cases hbelow : Below cash curve n
  · have hlt := (below_iff hn).mp hbelow
    have hpeak : peakBefore cash curve (n + 1) = peakBefore cash curve n := by
      rw [peakBefore_succ hn, max_eq_left hlt.le]
    have hscan := RunScan.scan_succ_of_pos (Below cash curve) hbelow
    rw [if_neg (by rw [← he]; exact not_le.mpr hlt)]
    cases hopen : (RunScan.scan (Below cash curve) n).opened with
    | none =>
        simp only [stateAt, hscan, hopen, hpeak, openOf, troughOf_self, runningPeak, he, hts,
          Option.getD_none, Option.map_some, Option.map_none, Option.getD_some]
    | some start =>
        have hstart := (hfound.opened start hopen).lt
        simp only [stateAt, hscan, hopen, hpeak, openOf, troughOf_succ hstart, he,
          Option.map_some, Option.getD_some]
        split_ifs <;> simp [he, hts]
  · have hle := not_lt.mp (mt (below_iff hn).mpr hbelow)
    have hscan := RunScan.scan_succ_of_neg (Below cash curve) hbelow
    rw [if_pos (by rw [← he]; exact hle)]
    have hpeak : peakBefore cash curve (n + 1) = equityAt curve n := by
      rw [peakBefore_succ hn, max_eq_right hle]
    have hclose (start : ℕ) : close (openOf cash curve n start) (some curve[n].ts)
        = periodOf cash curve (start, n) := by
      simp [close, openOf, periodOf, hn, hts]
    simp only [stateAt, hscan, hpeak, RunScan.runs, he, hts, Option.getD_none, Option.map_none,
      List.map_append, Nat.add_sub_cancel]
    cases (RunScan.scan (Below cash curve) n).opened <;> simp [hclose]

omit [DecimalContext] in
/-- **The pass finds the maximal runs.** -/
theorem foldl_step {first : EquityPoint} (hfirst : curve.head? = some first) (hn : n ≤ curve.length) :
    (curve.take n).foldl step ⟨cash, first.ts, none, []⟩ = stateAt cash curve n := by
  induction n with
  | zero =>
      have hts : tsAt curve 0 = first.ts := by
        rw [tsAt, ← List.head?_eq_getElem?, hfirst]
        rfl
      simp [stateAt, RunScan.scan, peakBefore, hts]
  | succ n ih =>
      rw [List.take_succ_eq_append_getElem hn, List.foldl_append, ih (by omega), List.foldl_cons,
        List.foldl_nil, step_stateAt]

/-- **The report is of the maximal runs.** -/
theorem analyze_eq {last : EquityPoint} (hlast : curve.getLast? = some last) :
    analyze cash curve
      = report ((RunScan.runs (Below cash curve) curve.length).map (periodOf cash curve)) last.ts := by
  obtain ⟨first, hfirst⟩ : ∃ first, curve.head? = some first := by
    cases curve with
    | nil => cases hlast
    | cons p rest => exact ⟨p, rfl⟩
  have hfold := @foldl_step cash curve _ _ hfirst le_rfl
  rw [List.take_length] at hfold
  have hclose (start : ℕ) : close (openOf cash curve curve.length start) none
      = periodOf cash curve (start, curve.length) := by
    simp [close, openOf, periodOf]
  unfold analyze
  rw [hfirst, hlast]
  simp only [hfold, stateAt, RunScan.runs, List.map_append]
  cases (RunScan.scan (Below cash curve) curve.length).opened <;> simp [hclose]

end DrawdownAnalyzer

/-! ## Depths -/

omit [DecimalContext] in
theorem DecimalMath.divide_le_divide {a b c : Decimal} (hc : 0 < c) (h : a ≤ b) :
    divide a c ≤ divide b c :=
  Decimal.roundTo_monotone (by decide) (div_le_div_of_nonneg_right h hc.le)

namespace EquityCurve

variable {cash : Decimal} {curve : List EquityPoint} {i : ℕ} {run : ℕ × ℕ}

theorem depth_periodOf (h : IsRun (Below cash curve) curve.length run.1 run.2) :
    (periodOf cash curve run).depth = drawdownAt cash curve (troughOf curve run.1 run.2) := by
  obtain ⟨hstart, hstop, -⟩ := @troughOf_mem curve _ _ h.lt
  rw [drawdownAt, runningPeak_of_run h hstart hstop]
  rfl

section Ordered

variable [Decimal.Ordered]

/-- No point of a run is further down than its trough. -/
theorem drawdownAt_le_depth (hcash : 0 < cash)
    (h : IsRun (Below cash curve) curve.length run.1 run.2) (hstart : run.1 ≤ i)
    (hstop : i < run.2) : drawdownAt cash curve i ≤ (periodOf cash curve run).depth := by
  obtain ⟨hlow, hhigh, hleast⟩ := @troughOf_mem curve _ _ h.lt
  have hpeak : 0 < runningPeak cash curve run.1 := hcash.trans_le le_peakBefore
  rw [depth_periodOf h, drawdownAt, drawdownAt, runningPeak_of_run h hstart hstop,
    runningPeak_of_run h hlow hhigh]
  refine DecimalMath.divide_le_divide hpeak (Decimal.Ordered.round_le ?_)
  have := hleast i hstart hstop
  linarith

theorem drawdownAt_nonneg (hcash : 0 < cash) (hi : i < curve.length) :
    0 ≤ drawdownAt cash curve i := by
  have hpeak : 0 < runningPeak cash curve i := hcash.trans_le le_peakBefore
  have hle : equityAt curve i ≤ runningPeak cash curve i := by
    rw [runningPeak, peakBefore_succ hi]
    exact le_max_right _ _
  calc (0 : Decimal) = DecimalMath.divide 0 (runningPeak cash curve i) := by
        simp [DecimalMath.divide]
    _ ≤ drawdownAt cash curve i :=
        DecimalMath.divide_le_divide hpeak (Decimal.sub_nonneg hle)

omit [Decimal.Ordered] in
/-- A point that is not below the peak is at it. -/
theorem drawdownAt_of_not_below (hi : i < curve.length) (h : ¬ Below cash curve i) :
    drawdownAt cash curve i = 0 := by
  have hle := not_lt.mp (mt (below_iff hi).mpr h)
  rw [drawdownAt, runningPeak, peakBefore_succ hi, max_eq_right hle, Decimal.sub_self]
  simp [DecimalMath.divide]

end Ordered

end EquityCurve

/-! ## The order of the report -/

namespace DrawdownAnalyzer

instance : Std.Total Before := ⟨fun a b => by
  unfold Before
  rcases lt_trichotomy (Decimal.neg a.depth) (Decimal.neg b.depth) with h | h | h
  · exact Or.inl (Or.inl h)
  · rcases Int.le_total a.peakAt b.peakAt with hle | hle
    · exact Or.inl (Or.inr ⟨h, hle⟩)
    · exact Or.inr (Or.inr ⟨h.symm, hle⟩)
  · exact Or.inr (Or.inl h)⟩

instance : IsTrans DrawdownPeriod Before := ⟨fun a b c hab hbc => by
  unfold Before at hab hbc ⊢
  rcases hab with hab | ⟨hab, hab'⟩
  · rcases hbc with hbc | ⟨hbc, -⟩
    · exact Or.inl (hab.trans hbc)
    · exact Or.inl (hbc ▸ hab)
  · rcases hbc with hbc | ⟨hbc, hbc'⟩
    · exact Or.inl (hab ▸ hbc)
    · exact Or.inr ⟨hab.trans hbc, Int.le_trans hab' hbc'⟩⟩

/-- What is put first is no less deep, unless negating makes the two equal. -/
theorem depth_le_of_before [Decimal.Ordered] {a b : DrawdownPeriod} (h : Before a b)
    (htie : Decimal.neg b.depth = Decimal.neg a.depth → b.depth ≤ a.depth) : b.depth ≤ a.depth := by
  by_contra hdeeper
  have hneg : Decimal.neg b.depth ≤ Decimal.neg a.depth :=
    Decimal.Ordered.round_le (neg_le_neg (not_le.mp hdeeper).le)
  have heq : Decimal.neg b.depth = Decimal.neg a.depth := by
    rcases h with h | ⟨h, -⟩
    · exact absurd h (not_lt.mpr hneg)
    · exact h.symm
  exact hdeeper (htie heq)

variable {cash : Decimal} {curve : List EquityPoint}

theorem correct_nil : (analyze cash []).Correct cash [] := by
  refine ⟨by simp, Or.inl ⟨rfl, rfl⟩, [], [], List.nodup_nil, fun run => ?_, rfl, List.Perm.refl _,
    rfl, List.Pairwise.nil, by simp [analyze]⟩
  constructor
  · simp
  · intro h
    have := h.lt
    have := h.le
    simp only [List.length_nil] at this
    omega

omit [DecimalContext] in
/-- The first `k` of a list relate to all behind them, by the list cut
there. -/
theorem leads_iff {α : Type} {R : α → α → Prop} {l : List α} {k : ℕ} :
    (∀ before a after, l = before ++ a :: after → before.length < k → ∀ b ∈ after, R a b) ↔
      (l.take k).Pairwise R ∧ ∀ a ∈ l.take k, ∀ b ∈ l.drop k, R a b := by
  induction l generalizing k with
  | nil => simp
  | cons x l ih =>
      cases k with
      | zero => simp
      | succ k =>
          rw [List.take_succ_cons, List.drop_succ_cons, List.pairwise_cons]
          constructor
          · intro h
            have hx := h [] x l rfl (by simp)
            obtain ⟨hpair, hcross⟩ := ih.mp fun before a after hl hlt =>
              h (x :: before) a after (by rw [hl]; rfl) (by simpa using hlt)
            refine ⟨⟨fun b hb => hx b (List.mem_of_mem_take hb), hpair⟩, fun a ha b hb => ?_⟩
            rcases List.mem_cons.mp ha with rfl | ha
            · exact hx b (List.mem_of_mem_drop hb)
            · exact hcross a ha b hb
          · rintro ⟨⟨hx, hpair⟩, hcross⟩ before a after hl hlt b hb
            cases before with
            | nil =>
                obtain ⟨rfl, rfl⟩ := List.cons.inj hl
                rw [← List.take_append_drop k l] at hb
                rcases List.mem_append.mp hb with hb | hb
                · exact hx b hb
                · exact hcross x (by simp) b hb
            | cons y before =>
                obtain ⟨-, hrest⟩ := List.cons.inj hl
                exact ih.mpr ⟨hpair, fun a ha => hcross a (List.mem_cons_of_mem _ ha)⟩ before a
                  after hrest (by simpa using hlt) b hb

/-- The first of the sorted periods, if it is the deepest, is as deep as the
curve ever falls. -/
theorem max_of_leads [Decimal.Ordered] (hcash : 0 < cash) (hcurve : 0 < curve.length)
    (last : Timestamp)
    (hleads : ∀ a after, ((RunScan.runs (Below cash curve) curve.length).map
      (periodOf cash curve)).insertionSort Before = a :: after → ∀ b ∈ after, b.depth ≤ a.depth) :
    (∀ i < curve.length, drawdownAt cash curve i ≤ (report ((RunScan.runs (Below cash curve)
      curve.length).map (periodOf cash curve)) last).maxDrawdown) ∧
    ∃ i < curve.length, drawdownAt cash curve i = (report ((RunScan.runs (Below cash curve)
      curve.length).map (periodOf cash curve)) last).maxDrawdown := by
  have hmem {q : DrawdownPeriod} : q ∈ ((RunScan.runs (Below cash curve) curve.length).map
      (periodOf cash curve)).insertionSort Before ↔
        ∃ run, IsRun (Below cash curve) curve.length run.1 run.2 ∧ periodOf cash curve run = q := by
    rw [List.mem_insertionSort, List.mem_map]
    simp only [RunScan.mem_runs]
  simp only [report]
  cases hs : ((RunScan.runs (Below cash curve) curve.length).map
      (periodOf cash curve)).insertionSort Before with
  | nil =>
      -- no run, so every point is at its peak
      have hzero : ∀ i < curve.length, drawdownAt cash curve i = 0 := by
        intro i hi
        refine drawdownAt_of_not_below hi fun hbelow => ?_
        obtain ⟨run, hrun, -⟩ := RunScan.exists_run hi hbelow
        have := hmem.mpr ⟨run, RunScan.mem_runs.mp hrun, rfl⟩
        rw [hs] at this
        cases this
      exact ⟨fun i hi => (hzero i hi).le, 0, hcurve, hzero 0 hcurve⟩
  | cons a after =>
      obtain ⟨run, hrun, ha⟩ := hmem.mp (hs ▸ List.mem_cons_self)
      obtain ⟨-, hstop, -⟩ := @troughOf_mem curve _ _ hrun.lt
      have htrough : troughOf curve run.1 run.2 < curve.length := hstop.trans_le hrun.le
      have hdepth : drawdownAt cash curve (troughOf curve run.1 run.2) = a.depth := by
        rw [← ha, depth_periodOf hrun]
      simp only [List.head?_cons, Option.map_some, Option.getD_some]
      refine ⟨fun i hi => ?_, _, htrough, hdepth⟩
      by_cases hbelow : Below cash curve i
      · obtain ⟨r, hr, hstart, hlt⟩ := RunScan.exists_run hi hbelow
        have hr := RunScan.mem_runs.mp hr
        have hin : periodOf cash curve r ∈ a :: after := hs ▸ hmem.mpr ⟨r, hr, rfl⟩
        refine (drawdownAt_le_depth hcash hr hstart hlt).trans ?_
        rcases List.mem_cons.mp hin with heq | hin
        · rw [heq]
        · exact hleads a after hs _ hin
      · rw [drawdownAt_of_not_below hi hbelow, ← hdepth]
        exact drawdownAt_nonneg hcash htrough

/-- Where the sorted periods are by depth as far as they are reported, the
report is the definition's. -/
theorem correct_of_separated [Decimal.Ordered] (hcash : 0 < cash)
    (h : DrawdownReport.Separated cash curve) : (analyze cash curve).Correct cash curve := by
  cases hlast : curve.getLast? with
  | none =>
      rw [List.getLast?_eq_none_iff] at hlast
      rw [hlast]
      exact correct_nil
  | some last =>
      rw [analyze_eq hlast]
      set runs := RunScan.runs (Below cash curve) curve.length with hruns
      have hsorted := List.pairwise_insertionSort Before (runs.map (periodOf cash curve))
      have hperm := List.perm_insertionSort Before (runs.map (periodOf cash curve))
      have hleads : ∀ before a after,
          (runs.map (periodOf cash curve)).insertionSort Before = before ++ a :: after →
          before.length < topPeriods → ∀ b ∈ after, b.depth ≤ a.depth := by
        intro before a after hsplit hlt b hb
        rw [hsplit, List.pairwise_append, List.pairwise_cons] at hsorted
        exact depth_le_of_before (hsorted.2.1.1 b hb) (h before a after hsplit hlt b hb)
      obtain ⟨hpair, hcross⟩ := leads_iff.1 hleads
      have hperiods : (report (runs.map (periodOf cash curve)) last.ts).periods
          = ((runs.map (periodOf cash curve)).insertionSort Before).take topPeriods := rfl
      have hcurve : 0 < curve.length := List.length_pos_of_mem (List.mem_of_getLast? hlast)
      have hmax := max_of_leads hcash hcurve last.ts fun a after hsplit b hb =>
        hleads [] a after hsplit (by decide) b hb
      refine ⟨hmax.1, Or.inr hmax.2, runs,
        ((runs.map (periodOf cash curve)).insertionSort Before).drop topPeriods,
        RunScan.nodup_runs, fun run => RunScan.mem_runs, by simp [report], ?_, ?_, hpair, hcross⟩
      · rw [hperiods, List.take_append_drop]
        exact hperm
      · rw [hperiods, List.length_take, hperm.length_eq, List.length_map]

/-- A report that is the definition's puts no period before a deeper one. -/
theorem separated_of_correct (h : (analyze cash curve).Correct cash curve) :
    DrawdownReport.Separated cash curve := by
  cases hlast : curve.getLast? with
  | none =>
      rw [List.getLast?_eq_none_iff] at hlast
      intro before a after hsplit
      simp [hlast, RunScan.runs, RunScan.scan] at hsplit
  | some last =>
      obtain ⟨runs, rest, hnodup, hmem, -, hperm, -, hpair, hcross⟩ := h.periods
      rw [analyze_eq hlast] at hperm hpair hcross
      -- the runs are those of the scan, so what is left is what was not reported
      have hruns : runs.Perm (RunScan.runs (Below cash curve) curve.length) := by
        rw [List.perm_ext_iff_of_nodup hnodup RunScan.nodup_runs]
        exact fun run => (hmem run).trans RunScan.mem_runs.symm
      have hsorted := List.perm_insertionSort Before
        ((RunScan.runs (Below cash curve) curve.length).map (periodOf cash curve))
      have hrest : rest.Perm
          ((((RunScan.runs (Below cash curve) curve.length).map
            (periodOf cash curve)).insertionSort Before).drop topPeriods) := by
        have hall := (hperm.trans (hruns.map _)).trans hsorted.symm
        rw [← List.take_append_drop topPeriods (List.insertionSort _ _)] at hall
        exact (List.perm_append_left_iff _).mp hall
      have hleads := leads_iff.2 ⟨hpair, fun a ha b hb => hcross a ha b (hrest.mem_iff.mpr hb)⟩
      exact fun before a after hsplit hlt b hb _ => hleads before a after hsplit hlt b hb

/-- **When a drawdown report equals its definition.** For every curve and
positive starting cash: exactly if no reported period stands before a deeper
one that negating makes equal to it. -/
theorem analyze_correct_iff [Decimal.Ordered] (hcash : 0 < cash) :
    (analyze cash curve).Correct cash curve ↔ DrawdownReport.Separated cash curve :=
  ⟨separated_of_correct, correct_of_separated hcash⟩

end DrawdownAnalyzer

end Emporos

/-! ## Two falls of a third -/

namespace Emporos

namespace DrawdownAnalyzer

/-- A fall of a third from 3, and one of a little more from just under
3·10²⁷. -/
def thirds : List EquityPoint :=
  [⟨0, ⟨2⟩⟩, ⟨1, ⟨3⟩⟩, ⟨2, ⟨3 * 10 ^ 27 - 3 / 100⟩⟩, ⟨3, ⟨2 * 10 ^ 27 - 3 / 100⟩⟩]

theorem analyze_correct_sample :
    (0 : Decimal) < 3 ∧ (@DrawdownReport.Correct Decimal.standard (@analyze Decimal.standard 3 thirds)
        3 thirds ↔
      @DrawdownReport.Separated Decimal.standard 3 thirds) :=
  ⟨by norm_num, @analyze_correct_iff Decimal.standard 3 thirds Decimal.ordered_standard
    (by norm_num)⟩

/-- The deeper of two falls that agree in 28 digits is not the greatest of
the report. -/
theorem analyze_not_correct : ¬ ∀ (cash : Decimal) (curve : List EquityPoint), 0 < cash →
    @DrawdownReport.Correct Decimal.standard (@analyze Decimal.standard cash curve) cash curve :=
  fun h => by
    have hmax := @DrawdownReport.Correct.max_le Decimal.standard _ _ _ (h 3 thirds (by norm_num)) 3
      (by decide)
    exact absurd hmax (by decide +kernel)

end DrawdownAnalyzer

end Emporos
