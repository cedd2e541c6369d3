import Mathlib.Algebra.BigOperators.Group.List.Basic
import Mathlib.Algebra.Order.BigOperators.Group.List
import Mathlib.Data.List.Perm.Basic
/-!
# Reserves

Amounts set aside, each by its owner, until the owner gives it back. What
is set aside in all is the sum; an owner that gives back one of its own
amounts takes it off, and leaves those of the others.
-/

namespace Emporos

namespace Reserves

variable {M : Type} [AddCommMonoid M]

/-- What is set aside in all. -/
def total (l : List (ℕ × M)) : M := (l.map Prod.snd).sum

@[simp] theorem total_nil : total ([] : List (ℕ × M)) = 0 := rfl

@[simp] theorem total_cons (x : ℕ × M) (l : List (ℕ × M)) :
    total (x :: l) = x.2 + total l := List.sum_cons

variable [DecidableEq M] {t u : ℕ} {a : M} {l : List (ℕ × M)}

/-- An amount given back comes off. -/
theorem add_total_erase (h : (t, a) ∈ l) : a + total (l.erase (t, a)) = total l := by
  have hperm := (List.perm_cons_erase h).map Prod.snd
  rw [total, total, hperm.sum_eq]
  exact List.sum_cons.symm

theorem total_erase {M : Type} [AddCommGroup M] [DecidableEq M] {a : M} {l : List (ℕ × M)}
    (h : (t, a) ∈ l) : total (l.erase (t, a)) = total l - a :=
  eq_sub_of_add_eq' (add_total_erase h)

omit [AddCommMonoid M] in
/-- The amounts of the others stay. -/
theorem mem_erase {b : M} (hu : u ≠ t) (h : (u, b) ∈ l) : (u, b) ∈ l.erase (t, a) :=
  (List.mem_erase_of_ne fun heq => hu (congrArg Prod.fst heq)).mpr h

omit [DecidableEq M] in
/-- Of amounts that are none of them negative the whole is not. -/
theorem total_nonneg [PartialOrder M] [IsOrderedAddMonoid M] (h : ∀ x ∈ l, 0 ≤ x.2) :
    0 ≤ total l := by
  refine List.sum_nonneg fun a ha => ?_
  obtain ⟨x, hx, rfl⟩ := List.mem_map.mp ha
  exact h x hx

end Reserves

end Emporos
