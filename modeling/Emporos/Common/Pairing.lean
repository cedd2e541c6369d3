import Mathlib.Data.List.Perm.Subperm
import Mathlib.Logic.Function.Basic
import Mathlib.Tactic.Common
/-!
# One-to-one pairings

Elements of two lists paired one to one, with what is left of either. A
pairing is maximal if nothing left on one side goes with anything left on
the other, and then no pairing has more pairs if what goes together is what
has a label in common.
-/

namespace Emporos

variable {α β κ : Type}

/-- Every element of either list is in one pair or left over, the pairs go
together, and no two left over do. -/
structure Pairing (fits : α → β → Prop) (xs : List α) (ys : List β) (pairs : List (α × β))
    (left : List α) (right : List β) : Prop where
  left_perm : xs.Perm (pairs.map (·.1) ++ left)
  right_perm : ys.Perm (pairs.map (·.2) ++ right)
  paired : ∀ p ∈ pairs, fits p.1 p.2
  maximal : ∀ x ∈ left, ∀ y ∈ right, ¬ fits x y

/-- Some pairs of what is in either list, each element used once. -/
structure OneToOne (fits : α → β → Prop) (xs : List α) (ys : List β) (pairs : List (α × β)) :
    Prop where
  left_subperm : (pairs.map (·.1)).Subperm xs
  right_subperm : (pairs.map (·.2)).Subperm ys
  paired : ∀ p ∈ pairs, fits p.1 p.2

namespace Pairing

variable {fits : α → β → Prop} {xs left : List α} {ys right : List β} {pairs : List (α × β)}

theorem oneToOne (h : Pairing fits xs ys pairs left right) : OneToOne fits xs ys pairs where
  left_subperm := (List.sublist_append_left _ _).subperm.trans h.left_perm.symm.subperm
  right_subperm := (List.sublist_append_left _ _).subperm.trans h.right_perm.symm.subperm
  paired := h.paired

theorem subperm_map {l l' : List α} (f : α → κ) (h : l.Subperm l') :
    (l.map f).Subperm (l'.map f) := by
  obtain ⟨m, hperm, hsub⟩ := h
  exact ⟨m.map f, hperm.map f, hsub.map f⟩

/-- **Where labels decide, a maximal pairing is a largest one.** In each
class one of the two sides is used up. -/
theorem length_le [DecidableEq κ] {f : α → κ} {g : β → κ} (hfits : ∀ x y, fits x y ↔ f x = g y)
    (h : Pairing fits xs ys pairs left right) {others : List (α × β)}
    (ho : OneToOne fits xs ys others) : others.length ≤ pairs.length := by
  have hlabel {ps : List (α × β)} (hps : ∀ p ∈ ps, fits p.1 p.2) :
      ps.map (fun p => g p.2) = ps.map fun p => f p.1 :=
    List.map_congr_left fun p hp => ((hfits _ _).mp (hps p hp)).symm
  have hsub : (others.map fun p => f p.1).Subperm (pairs.map fun p => f p.1) := by
    rw [List.subperm_ext_iff]
    intro c _
    by_cases hc : c ∈ left.map f
    · -- something on the left is spare, so the right is used up
      have hnone : c ∉ right.map g := fun hr => by
        obtain ⟨x, hx, rfl⟩ := List.mem_map.mp hc
        obtain ⟨y, hy, heq⟩ := List.mem_map.mp hr
        exact h.maximal x hx y hy ((hfits x y).mpr heq.symm)
      calc (others.map fun p => f p.1).count c
          = ((others.map (·.2)).map g).count c := by
            rw [List.map_map, ← hlabel ho.paired]
            rfl
        _ ≤ (ys.map g).count c := (subperm_map g ho.right_subperm).count_le c
        _ = ((pairs.map (·.2) ++ right).map g).count c := (h.right_perm.map g).count_eq c
        _ = (pairs.map fun p => f p.1).count c := by
            rw [List.map_append, List.count_append, List.count_eq_zero_of_not_mem hnone,
              List.map_map, ← hlabel h.paired]
            rfl
    · calc (others.map fun p => f p.1).count c
          = ((others.map (·.1)).map f).count c := by rw [List.map_map]; rfl
        _ ≤ (xs.map f).count c := (subperm_map f ho.left_subperm).count_le c
        _ = ((pairs.map (·.1) ++ left).map f).count c := (h.left_perm.map f).count_eq c
        _ = (pairs.map fun p => f p.1).count c := by
            rw [List.map_append, List.count_append, List.count_eq_zero_of_not_mem hc,
              List.map_map]
            rfl
  simpa using hsub.length_le

end Pairing

end Emporos
