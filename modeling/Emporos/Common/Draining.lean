import Mathlib.Order.Nat
import Mathlib.Tactic.Common
/-!
# Draining a queue

A loop takes one item after the other from a queue that taking an item may
refill, until the queue is empty or an exception ends it. It ends exactly
if from some item on none refills it (`ends_iff`).
-/

namespace Emporos

namespace Drain

variable {σ ε : Type} (next : σ → Option (Except ε σ))

/-- The loop: `next` is nothing where the queue is empty. -/
def drain : ℕ → σ → Option (Except ε σ)
  | fuel, s =>
      match next s with
      | none => some (.ok s)
      | some (.error e) => some (.error e)
      | some (.ok s') =>
          match fuel with
          | 0 => none
          | fuel + 1 => drain fuel s'

/-- The loop ends. -/
def Ends (s : σ) : Prop := ∃ fuel, (drain next fuel s).isSome

/-- Where the loop is after `n` items, if it comes that far. -/
def reached : ℕ → σ → Option σ
  | 0, s => some s
  | n + 1, s =>
      match next s with
      | some (.ok s') => reached n s'
      | _ => none

/-- From the `m`-th item on, none leaves the queue as long as it was. -/
def SilentFrom (size : σ → ℕ) (m : ℕ) (s : σ) : Prop :=
  ∀ n s₁ s₂, m ≤ n → reached next n s = some s₁ → next s₁ = some (.ok s₂) → size s₂ < size s₁

variable {next} {s s' : σ}

attribute [local simp] drain reached

theorem drain_of_ok {fuel : ℕ} (h : next s = some (.ok s')) :
    drain next (fuel + 1) s = drain next fuel s' := by
  rw [drain, h]

theorem drain_of_none {fuel : ℕ} (h : next s = none) : drain next fuel s = some (.ok s) := by
  simp [h]

theorem drain_of_error {fuel : ℕ} {e : ε} (h : next s = some (.error e)) :
    drain next fuel s = some (.error e) := by
  simp [h]

theorem ends_of_ok (h : next s = some (.ok s')) (hends : Ends next s') : Ends next s := by
  obtain ⟨fuel, hfuel⟩ := hends
  exact ⟨fuel + 1, by rwa [drain_of_ok h]⟩

/-- A loop that ended with its fuel comes no further. -/
theorem reached_of_drain {fuel n : ℕ} (h : (drain next fuel s).isSome) (hn : fuel < n) :
    reached next n s = none := by
  induction fuel generalizing s n with
  | zero =>
      obtain ⟨n, rfl⟩ := Nat.exists_eq_add_of_lt hn
      rw [drain] at h
      rw [reached]
      split at h
      · rename_i heq
        rw [heq]
      · rename_i heq
        rw [heq]
      · cases h
  | succ fuel ih =>
      obtain ⟨n, rfl⟩ := Nat.exists_eq_add_of_lt hn
      rw [drain] at h
      rw [reached]
      split at h
      · rename_i heq
        rw [heq]
      · rename_i heq
        rw [heq]
      · rename_i s' heq
        rw [heq]
        exact ih h (by omega)

/-- Items that refill nothing are as many as there are. -/
theorem ends_of_silent {size : σ → ℕ} (h : SilentFrom next size 0 s) : Ends next s := by
  induction hk : size s using Nat.strong_induction_on generalizing s with
  | _ k ih =>
      cases hs : next s with
      | none => exact ⟨0, by rw [drain_of_none hs]; rfl⟩
      | some r =>
          cases r with
          | error e => exact ⟨0, by rw [drain_of_error hs]; rfl⟩
          | ok s' =>
              have hlt : size s' < size s := h 0 s s' le_rfl rfl hs
              refine ends_of_ok hs (ih (size s') (by omega) ?_ rfl)
              intro n s₁ s₂ _ hreach hnext
              refine h (n + 1) s₁ s₂ (Nat.zero_le _) ?_ hnext
              rw [reached, hs]
              exact hreach

/-- **When a loop ends**: exactly if from some item on none refills the
queue. -/
theorem ends_iff {size : σ → ℕ} : Ends next s ↔ ∃ m, SilentFrom next size m s := by
  constructor
  · rintro ⟨fuel, hfuel⟩
    refine ⟨fuel + 1, fun n s₁ s₂ hn hreach => ?_⟩
    rw [reached_of_drain hfuel (by omega)] at hreach
    cases hreach
  · rintro ⟨m, hm⟩
    induction m generalizing s with
    | zero => exact ends_of_silent hm
    | succ m ih =>
        cases hs : next s with
        | none => exact ⟨0, by rw [drain_of_none hs]; rfl⟩
        | some r =>
            cases r with
            | error e => exact ⟨0, by rw [drain_of_error hs]; rfl⟩
            | ok s' =>
                refine ends_of_ok hs (ih fun n s₁ s₂ hn hreach hnext => ?_)
                refine hm (n + 1) s₁ s₂ (by omega) ?_ hnext
                rw [reached, hs]
                exact hreach

/-- A loop whose every item leaves something in the queue never ends. -/
theorem not_ends {I : σ → Prop} (hstep : ∀ s, I s → ∃ s', next s = some (.ok s') ∧ I s')
    (hs : I s) : ¬ Ends next s := by
  rintro ⟨fuel, hfuel⟩
  induction fuel generalizing s with
  | zero =>
      obtain ⟨s', hnext, -⟩ := hstep s hs
      rw [drain, hnext] at hfuel
      cases hfuel
  | succ fuel ih =>
      obtain ⟨s', hnext, hs'⟩ := hstep s hs
      rw [drain_of_ok hnext] at hfuel
      exact ih hs' hfuel

end Drain

end Emporos
