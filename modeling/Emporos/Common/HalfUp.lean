import Mathlib.Algebra.BigOperators.Group.List.Basic
import Mathlib.Algebra.Order.Floor.Ring
import Mathlib.Tactic.Abel
import Mathlib.Tactic.Linarith
import Mathlib.Tactic.Ring
/-!
# Rounding half up, and sums

Amounts put to whole units one by one, or together. What rounding puts on an
amount is at most half a unit either way (`gain`), so the two differ by half
a unit for each amount and one for the whole; and the rounded amounts stay
within the rounded whole exactly if what they gain leaves room for what the
amounts are over it.
-/

namespace Emporos

namespace HalfUp

variable {K : Type} [Field K] [LinearOrder K] [IsStrictOrderedRing K] [FloorRing K]

/-- The nearest whole number, the higher one at a tie. -/
def halfUp (x : K) : ℤ := ⌊x + 1 / 2⌋

/-- What rounding puts on an amount. -/
def gain (x : K) : K := halfUp x - x

variable {x y t : K} {l : List K}

theorem gain_le : gain x ≤ 1 / 2 := by
  have := Int.floor_le (x + 1 / 2)
  simp only [gain, halfUp]
  linarith

theorem neg_half_lt_gain : -(1 / 2) < gain x := by
  have := Int.lt_floor_add_one (x + 1 / 2)
  simp only [gain, halfUp]
  linarith

theorem abs_gain_le : |gain x| ≤ 1 / 2 := abs_le.mpr ⟨neg_half_lt_gain.le, gain_le⟩

theorem halfUp_nonneg (h : 0 ≤ x) : 0 ≤ halfUp x :=
  Int.floor_nonneg.mpr (by linarith)

theorem halfUp_mono (h : x ≤ y) : halfUp x ≤ halfUp y := Int.floor_le_floor (by linarith)

omit [IsStrictOrderedRing K] in
theorem le_halfUp_iff {n : ℤ} : n ≤ halfUp x ↔ (n : K) ≤ x + 1 / 2 := Int.le_floor

omit [IsStrictOrderedRing K] in
/-- Rounded amounts are the amounts and their gains. -/
theorem sum_halfUp : ((l.map halfUp).sum : K) = l.sum + (l.map gain).sum := by
  induction l with
  | nil => simp
  | cons x l ih =>
      have hx : (halfUp x : K) = x + gain x := by rw [gain]; ring
      simp only [List.map_cons, List.sum_cons, Int.cast_add, ih, hx]
      ring

/-- **Rounded amounts within a rounded whole.** -/
theorem sum_halfUp_le_iff :
    (l.map halfUp).sum ≤ halfUp t ↔ l.sum - t + (l.map gain).sum ≤ 1 / 2 := by
  rw [le_halfUp_iff, sum_halfUp]
  constructor
  · intro h
    linarith
  · intro h
    linarith

omit [FloorRing K] in
/-- Amounts of at most so much each. -/
theorem abs_sum_le {α : Type} {l : List α} {f : α → K} {c : K} (h : ∀ a ∈ l, |f a| ≤ c) :
    |(l.map f).sum| ≤ l.length * c := by
  induction l with
  | nil => simp
  | cons a l ih =>
      obtain ⟨ha, hl⟩ := List.forall_mem_cons.mp h
      calc |((a :: l).map f).sum| ≤ |f a| + |(l.map f).sum| := by
            rw [List.map_cons, List.sum_cons]
            exact abs_add_le _ _
        _ ≤ c + l.length * c := add_le_add ha (ih hl)
        _ = (a :: l).length * c := by
            rw [List.length_cons, Nat.cast_succ]
            ring

omit [FloorRing K] in
/-- **Amounts that were rounded one by one**, against the rounded whole:
each rounding is worth as much as it is off. -/
theorem abs_sum_sub_le {α : Type} {l : List α} {f g : α → K} {whole rounded c : K}
    (hsum : (l.map f).sum = whole) (h : ∀ a ∈ l, |g a - f a| ≤ c) (hwhole : |rounded - whole| ≤ c) :
    |(l.map g).sum - rounded| ≤ (l.length + 1) * c := by
  have hdiff : (l.map g).sum = whole + (l.map fun a => g a - f a).sum := by
    rw [← hsum]
    clear hsum h hwhole
    induction l with
    | nil => simp
    | cons a l ih =>
        simp only [List.map_cons, List.sum_cons, ih]
        ring
  have hgains := abs_sum_le h
  rw [hdiff]
  calc |whole + (l.map fun a => g a - f a).sum - rounded|
      = |(l.map fun a => g a - f a).sum - (rounded - whole)| := by congr 1; ring
    _ ≤ |(l.map fun a => g a - f a).sum| + |rounded - whole| := abs_sub _ _
    _ ≤ l.length * c + c := add_le_add hgains hwhole
    _ = (l.length + 1) * c := by ring

end HalfUp

end Emporos
