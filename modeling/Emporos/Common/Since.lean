import Mathlib.Data.List.Induction
import Mathlib.Tactic.Common
/-!
# Since

What the past of a run says: something has happened, and nothing has ended
it since. A part of a state that each event sets, ends or leaves alone is
known from the past alone (`Since.iff_foldl`).
-/

namespace Emporos

variable {ε σ : Type*}

/-- An event of `es` `happened`, as the events before it have it, and none
of those after it `ended` it. -/
def Since (happened : List ε → ε → Prop) (ended : ε → Prop) (es : List ε) : Prop :=
  ∃ before e after, es = before ++ e :: after ∧ happened before e ∧ ∀ x ∈ after, ¬ ended x

/-- It has happened at all. -/
def Once (happened : List ε → ε → Prop) (es : List ε) : Prop :=
  ∃ before e after, es = before ++ e :: after ∧ happened before e

variable {happened : List ε → ε → Prop} {ended : ε → Prop} {es : List ε} {e : ε}

theorem not_since_nil : ¬ Since happened ended [] := by
  rintro ⟨before, e, after, h, -⟩
  cases before <;> cases h

theorem since_concat :
    Since happened ended (es ++ [e]) ↔ happened es e ∨ (Since happened ended es ∧ ¬ ended e) := by
  constructor
  · rintro ⟨before, x, after, h, hx, hafter⟩
    rcases List.eq_nil_or_concat after with rfl | ⟨after, y, rfl⟩
    · obtain ⟨rfl, hlast⟩ := List.append_inj' h rfl
      obtain rfl := List.singleton_inj.mp hlast
      exact Or.inl hx
    · rw [List.concat_eq_append, ← List.cons_append, ← List.append_assoc] at h
      obtain ⟨rfl, hlast⟩ := List.append_inj' h rfl
      obtain rfl := List.singleton_inj.mp hlast
      refine Or.inr ⟨⟨before, x, after, rfl, hx, fun z hz => hafter z ?_⟩, hafter _ ?_⟩
      · rw [List.concat_eq_append]
        exact List.mem_append_left _ hz
      · rw [List.concat_eq_append]
        exact List.mem_append_right _ (List.mem_singleton.mpr rfl)
  · rintro (h | ⟨⟨before, x, after, rfl, hx, hafter⟩, hend⟩)
    · exact ⟨es, e, [], rfl, h, fun x hx => absurd hx List.not_mem_nil⟩
    · refine ⟨before, x, after ++ [e], by rw [List.append_assoc]; rfl, hx, fun z hz => ?_⟩
      rcases List.mem_append.mp hz with hz | hz
      · exact hafter z hz
      · rwa [List.mem_singleton.mp hz]

theorem once_iff_since : Once happened es ↔ Since happened (fun _ => False) es := by
  simp only [Once, Since, not_false_eq_true, implies_true, and_true]

/-- **What each event sets, ends or leaves alone holds exactly since it was
last set.** -/
theorem Since.iff_foldl {step : σ → ε → σ} {init : σ} (holds : σ → Prop) (hinit : ¬ holds init)
    (hstep : ∀ es e, holds (step (es.foldl step init) e) ↔
      happened es e ∨ (holds (es.foldl step init) ∧ ¬ ended e)) (es : List ε) :
    holds (es.foldl step init) ↔ Since happened ended es := by
  induction es using List.reverseRecOn with
  | nil => exact iff_of_false hinit not_since_nil
  | append_singleton es e ih =>
      rw [List.foldl_append, since_concat, ← ih]
      exact hstep es e

/-- What no event ends holds exactly when it was once set. -/
theorem Once.iff_foldl {step : σ → ε → σ} {init : σ} (holds : σ → Prop) (hinit : ¬ holds init)
    (hstep : ∀ es e, holds (step (es.foldl step init) e) ↔
      happened es e ∨ holds (es.foldl step init)) (es : List ε) :
    holds (es.foldl step init) ↔ Once happened es := by
  rw [once_iff_since]
  refine Since.iff_foldl holds hinit (fun es e => ?_) es
  rw [hstep es e, not_false_eq_true, and_true]

end Emporos
