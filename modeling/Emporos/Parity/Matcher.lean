import Emporos.Common.Pairing
import Emporos.Domain.Signal
import Mathlib.Data.List.Sort
/-!
# Lining the two sides up

Paper's signals and the backtest's, one to one: in the order of their
times, each paper signal takes the nearest candidate nobody has taken. What
finds no partner on either side is kept as a match of its own.

The matches are a maximal pairing of what went in (`SignalMatcher.pairing`),
and with no tolerance a largest one, since candidates then are what agrees
in key and time.
-/

namespace Emporos

inductive SignalOrigin
  | paper
  | backtest
  deriving DecidableEq, Repr

/-- One signal, in the shape both sides share. -/
structure SignalPoint where
  origin : SignalOrigin
  ref : String
  sequence : ℤ
  instrumentId : String
  kind : SignalKind
  side : OrderSide
  ts : Timestamp
  price : Money
  quantity : ℤ
  system : Bool := false
  deriving DecidableEq

namespace SignalPoint

def key (p : SignalPoint) : String × OrderSide × SignalKind := (p.instrumentId, p.side, p.kind)

/-- The order both sides are gone through in. -/
def Earlier (a b : SignalPoint) : Prop := a.ts < b.ts ∨ a.ts = b.ts ∧ a.sequence ≤ b.sequence

instance : DecidableRel Earlier := fun a b => by unfold Earlier; infer_instance

end SignalPoint

structure SignalMatch where
  paper : Option SignalPoint
  backtest : Option SignalPoint
  one_side : paper.isSome ∨ backtest.isSome

namespace SignalMatch

def ofPaper (signal : SignalPoint) (partner : Option SignalPoint) : SignalMatch :=
  ⟨some signal, partner, Or.inl rfl⟩

def ofBacktest (signal : SignalPoint) : SignalMatch := ⟨none, some signal, Or.inr rfl⟩

/-- The two sides of a full pair. -/
def pair (m : SignalMatch) : Option (SignalPoint × SignalPoint) :=
  m.paper.bind fun p => m.backtest.map fun b => (p, b)

def alonePaper (m : SignalMatch) : Option SignalPoint :=
  if m.backtest.isNone then m.paper else none

def aloneBacktest (m : SignalMatch) : Option SignalPoint :=
  if m.paper.isNone then m.backtest else none

/-- The paper side of some matches, in pairs and alone. -/
theorem perm_paper (ms : List SignalMatch) :
    (ms.filterMap (·.paper)).Perm ((ms.filterMap pair).map (·.1) ++ ms.filterMap alonePaper) := by
  induction ms with
  | nil => rfl
  | cons m ms ih =>
      obtain ⟨paper, backtest, hside⟩ := m
      cases paper with
      | none => simpa [List.filterMap_cons, pair, alonePaper] using ih
      | some p =>
          cases backtest with
          | none =>
              simpa [List.filterMap_cons, pair, alonePaper] using
                (ih.cons p).trans List.perm_middle.symm
          | some b => simpa [List.filterMap_cons, pair, alonePaper] using ih

theorem perm_backtest (ms : List SignalMatch) :
    (ms.filterMap (·.backtest)).Perm
      ((ms.filterMap pair).map (·.2) ++ ms.filterMap aloneBacktest) := by
  induction ms with
  | nil => rfl
  | cons m ms ih =>
      obtain ⟨paper, backtest, hside⟩ := m
      cases backtest with
      | none => cases paper <;> simpa [List.filterMap_cons, pair, aloneBacktest] using ih
      | some b =>
          cases paper with
          | none =>
              simpa [List.filterMap_cons, pair, aloneBacktest] using
                (ih.cons b).trans List.perm_middle.symm
          | some p => simpa [List.filterMap_cons, pair, aloneBacktest] using ih

end SignalMatch

/-- How far apart two signals are, where they can be the same. -/
abbrev MatchPolicy := SignalPoint → SignalPoint → Option ℤ

structure WithinTolerance where
  tolerance : ℤ
  nonneg : 0 ≤ tolerance

def WithinTolerance.distance (w : WithinTolerance) : MatchPolicy := fun paper backtest =>
  if paper.key ≠ backtest.key then none
  else if |paper.ts - backtest.ts| ≤ w.tolerance then some |paper.ts - backtest.ts| else none

namespace SignalMatcher

variable (policy : MatchPolicy)

/-- One candidate against the best so far: nearer in time, then earlier in
its journal. -/
def consider (signal : SignalPoint) (best : Option (ℤ × ℤ × SignalPoint))
    (candidate : SignalPoint) : Option (ℤ × ℤ × SignalPoint) :=
  match policy signal candidate with
  | none => best
  | some gap =>
      match best with
      | none => some (gap, candidate.sequence, candidate)
      | some b =>
          if gap < b.1 ∨ gap = b.1 ∧ candidate.sequence < b.2.1 then
            some (gap, candidate.sequence, candidate)
          else best

def nearest (signal : SignalPoint) (candidates : List SignalPoint) : Option SignalPoint :=
  (candidates.foldl (consider policy signal) none).map (·.2.2)

/-- The paper signals in turn, each with what is still unmatched. -/
def matchLoop : List SignalPoint → List SignalPoint → List SignalMatch
  | [], unmatched => unmatched.map SignalMatch.ofBacktest
  | signal :: rest, unmatched =>
      match nearest policy signal unmatched with
      | some partner =>
          SignalMatch.ofPaper signal (some partner) :: matchLoop rest (unmatched.erase partner)
      | none => SignalMatch.ofPaper signal none :: matchLoop rest unmatched

def matchPoints (paper backtest : List SignalPoint) : List SignalMatch :=
  matchLoop policy (paper.insertionSort SignalPoint.Earlier)
    (backtest.insertionSort SignalPoint.Earlier)

/-! ## The nearest candidate -/

variable {policy} {signal partner : SignalPoint}

/-- What the best so far is of: a candidate that was seen, with its gap. -/
def Seen (policy : MatchPolicy) (signal : SignalPoint) (seen : List SignalPoint)
    (b : ℤ × ℤ × SignalPoint) : Prop := b.2.2 ∈ seen ∧ policy signal b.2.2 = some b.1

theorem consider_spec {best : Option (ℤ × ℤ × SignalPoint)} {seen : List SignalPoint}
    {candidate : SignalPoint} (hseen : ∀ b ∈ best, Seen policy signal seen b)
    (hnone : best = none → ∀ c ∈ seen, policy signal c = none) :
    (∀ b ∈ consider policy signal best candidate, Seen policy signal (seen ++ [candidate]) b) ∧
      (consider policy signal best candidate = none →
        ∀ c ∈ seen ++ [candidate], policy signal c = none) := by
  have hold : ∀ b ∈ best, Seen policy signal (seen ++ [candidate]) b := fun b hb =>
    ⟨List.mem_append_left _ (hseen b hb).1, (hseen b hb).2⟩
  unfold consider
  cases hgap : policy signal candidate with
  | none =>
      refine ⟨hold, fun h c hc => ?_⟩
      rcases List.mem_append.mp hc with hc | hc
      · exact hnone h c hc
      · rw [List.mem_singleton.mp hc, hgap]
  | some gap =>
      have hnew : Seen policy signal (seen ++ [candidate]) (gap, candidate.sequence, candidate) :=
        ⟨by simp, hgap⟩
      cases best with
      | none => exact ⟨fun b hb => by rw [← Option.some.inj hb]; exact hnew, fun h => by cases h⟩
      | some b =>
          refine ⟨?_, fun h => by dsimp only at h; split_ifs at h⟩
          dsimp only
          split_ifs
          · exact fun b hb => by rw [← Option.some.inj hb]; exact hnew
          · exact hold

theorem foldl_consider {candidates : List SignalPoint} :
    (∀ b ∈ candidates.foldl (consider policy signal) none, Seen policy signal candidates b) ∧
      (candidates.foldl (consider policy signal) none = none →
        ∀ c ∈ candidates, policy signal c = none) := by
  induction candidates using List.reverseRecOn with
  | nil => simp
  | append_singleton seen candidate ih =>
      rw [List.foldl_append, List.foldl_cons, List.foldl_nil]
      exact consider_spec ih.1 ih.2

theorem nearest_eq_some {candidates : List SignalPoint}
    (h : nearest policy signal candidates = some partner) :
    partner ∈ candidates ∧ (policy signal partner).isSome := by
  obtain ⟨b, hb, rfl⟩ := Option.map_eq_some_iff.mp h
  obtain ⟨hmem, hgap⟩ := foldl_consider.1 b hb
  exact ⟨hmem, by rw [hgap]; rfl⟩

theorem nearest_eq_none {candidates : List SignalPoint}
    (h : nearest policy signal candidates = none) : ∀ c ∈ candidates, policy signal c = none :=
  foldl_consider.2 (Option.map_eq_none_iff.mp h)

/-! ## The loop -/

/-- What a policy lets be the same signal. -/
def Compatible (policy : MatchPolicy) (paper backtest : SignalPoint) : Prop :=
  (policy paper backtest).isSome

/-- **The loop pairs off what it is given.** -/
theorem pairing_matchLoop (signals unmatched : List SignalPoint) :
    Pairing (Compatible policy) signals unmatched
      ((matchLoop policy signals unmatched).filterMap SignalMatch.pair)
      ((matchLoop policy signals unmatched).filterMap SignalMatch.alonePaper)
      ((matchLoop policy signals unmatched).filterMap SignalMatch.aloneBacktest) := by
  induction signals generalizing unmatched with
  | nil =>
      have hpairs : (unmatched.map SignalMatch.ofBacktest).filterMap SignalMatch.pair = [] := by
        simp [SignalMatch.pair, SignalMatch.ofBacktest]
      have hleft : (unmatched.map SignalMatch.ofBacktest).filterMap SignalMatch.alonePaper = [] := by
        simp [SignalMatch.alonePaper, SignalMatch.ofBacktest]
      have hright : (unmatched.map SignalMatch.ofBacktest).filterMap SignalMatch.aloneBacktest
          = unmatched := by
        rw [List.filterMap_map]
        exact List.filterMap_some
      rw [matchLoop, hpairs, hleft, hright]
      exact ⟨List.Perm.nil, List.Perm.refl _, by simp, by simp⟩
  | cons signal rest ih =>
      rw [matchLoop]
      cases hnear : nearest policy signal unmatched with
      | some partner =>
          -- the partner leaves the candidates for the rest of the loop
          obtain ⟨hmem, hfits⟩ := nearest_eq_some hnear
          have hrest := ih (unmatched.erase partner)
          refine ⟨hrest.left_perm.cons signal, ?_, ?_, hrest.maximal⟩
          · exact (List.perm_cons_erase hmem).trans (hrest.right_perm.cons partner)
          · exact List.forall_mem_cons.mpr ⟨hfits, hrest.paired⟩
      | none =>
          -- nothing that is left at the end went with this signal
          have hrest := ih unmatched
          refine ⟨(hrest.left_perm.cons signal).trans List.perm_middle.symm, hrest.right_perm,
            hrest.paired, List.forall_mem_cons.mpr ⟨fun y hy => ?_, hrest.maximal⟩⟩
          have hmem : y ∈ unmatched := hrest.right_perm.mem_iff.mpr (List.mem_append_right _ hy)
          rw [Compatible, nearest_eq_none hnear y hmem]
          simp

theorem pairing_matchPoints (paper backtest : List SignalPoint) :
    Pairing (Compatible policy) paper backtest
      ((matchPoints policy paper backtest).filterMap SignalMatch.pair)
      ((matchPoints policy paper backtest).filterMap SignalMatch.alonePaper)
      ((matchPoints policy paper backtest).filterMap SignalMatch.aloneBacktest) := by
  have h := @pairing_matchLoop policy (paper.insertionSort SignalPoint.Earlier)
    (backtest.insertionSort SignalPoint.Earlier)
  exact ⟨(List.perm_insertionSort _ _).symm.trans h.left_perm,
    (List.perm_insertionSort _ _).symm.trans h.right_perm, h.paired, h.maximal⟩

end SignalMatcher

/-! ## Within a tolerance -/

namespace WithinTolerance

variable (w : WithinTolerance)

/-- Two signals agree on instrument, side and kind, and are within the
tolerance of each other. -/
def Agree (paper backtest : SignalPoint) : Prop :=
  paper.instrumentId = backtest.instrumentId ∧ paper.side = backtest.side ∧
    paper.kind = backtest.kind ∧ |paper.ts - backtest.ts| ≤ w.tolerance

theorem compatible_iff {paper backtest : SignalPoint} :
    SignalMatcher.Compatible w.distance paper backtest ↔ w.Agree paper backtest := by
  have hkey : paper.key = backtest.key ↔ paper.instrumentId = backtest.instrumentId ∧
      paper.side = backtest.side ∧ paper.kind = backtest.kind := by
    simp [SignalPoint.key]
  unfold SignalMatcher.Compatible distance Agree
  by_cases hk : paper.key = backtest.key
  · have hparts := hkey.mp hk
    by_cases hnear : |paper.ts - backtest.ts| ≤ w.tolerance
    · simp [hk, hnear, hparts]
    · simp [hk, hnear]
  · have hparts : ¬ (paper.instrumentId = backtest.instrumentId ∧ paper.side = backtest.side ∧
        paper.kind = backtest.kind) := fun h => hk (hkey.mpr h)
    simp only [ne_eq, hk, not_false_eq_true, if_true, Option.isSome_none, Bool.false_eq_true,
      false_iff]
    exact fun ⟨hi, hs, hkind, _⟩ => hparts ⟨hi, hs, hkind⟩

/-- With no tolerance, agreeing is having the key and the time in common. -/
theorem agree_iff_of_zero (hzero : w.tolerance = 0) {paper backtest : SignalPoint} :
    w.Agree paper backtest ↔ (paper.key, paper.ts) = (backtest.key, backtest.ts) := by
  have htime : |paper.ts - backtest.ts| ≤ 0 ↔ paper.ts = backtest.ts := by
    rw [abs_nonpos_iff, sub_eq_zero]
  simp only [Agree, hzero, htime, SignalPoint.key, Prod.mk.injEq]
  tauto

end WithinTolerance

namespace SignalMatcher

/-- **Matching loses and duplicates nothing.** Either side comes out as it
went in, a full pair agrees, no two that are left agree, and with no
tolerance no one-to-one choice of agreeing signals has more pairs. -/
theorem matchPoints_spec (w : WithinTolerance) (paper backtest : List SignalPoint) :
    ((matchPoints w.distance paper backtest).filterMap (·.paper)).Perm paper ∧
    ((matchPoints w.distance paper backtest).filterMap (·.backtest)).Perm backtest ∧
    (∀ m ∈ matchPoints w.distance paper backtest, ∀ p ∈ m.paper, ∀ b ∈ m.backtest, w.Agree p b) ∧
    (∀ m ∈ matchPoints w.distance paper backtest, ∀ m' ∈ matchPoints w.distance paper backtest,
      m.backtest = none → m'.paper = none → ∀ p ∈ m.paper, ∀ b ∈ m'.backtest, ¬ w.Agree p b) ∧
    (w.tolerance = 0 → ∀ others, OneToOne w.Agree paper backtest others →
      others.length ≤ ((matchPoints w.distance paper backtest).filterMap SignalMatch.pair).length) := by
  have h := @pairing_matchPoints w.distance paper backtest
  have hagree : Compatible w.distance = w.Agree := by
    funext p b
    exact propext w.compatible_iff
  rw [hagree] at h
  refine ⟨?_, ?_, fun m hm p hp b hb => ?_, fun m hm m' hm' hnone hnone' p hp b hb => ?_,
    fun hzero others hothers => ?_⟩
  · exact (SignalMatch.perm_paper _).trans h.left_perm.symm
  · exact (SignalMatch.perm_backtest _).trans h.right_perm.symm
  · refine h.paired (p, b) (List.mem_filterMap.mpr ⟨m, hm, ?_⟩)
    simp only [SignalMatch.pair, Option.mem_def.mp hp, Option.mem_def.mp hb, Option.bind_some,
      Option.map_some]
  · refine h.maximal p (List.mem_filterMap.mpr ⟨m, hm, ?_⟩) b (List.mem_filterMap.mpr ⟨m', hm', ?_⟩)
    · simp only [SignalMatch.alonePaper, hnone, Option.isNone_none, if_true]
      exact hp
    · simp only [SignalMatch.aloneBacktest, hnone', Option.isNone_none, if_true]
      exact hb
  · exact h.length_le (f := fun p => (p.key, p.ts)) (g := fun b => (b.key, b.ts))
      (fun p b => w.agree_iff_of_zero hzero) hothers

end SignalMatcher

end Emporos
