import Mathlib.Data.List.Basic
/-!
# Recorded runs

A system takes inputs, and each step leaves a record from which the next
state is read. `Recording.steps` are the records of a run. What is kept by a
step, of the records so far and the state, holds at every step of a run.
-/

namespace Emporos

namespace Recording

variable {State Input Record : Type} (record : State → Input → Record) (next : Record → State)

/-- The records of a run. -/
def steps : State → List Input → List Record
  | _, [] => []
  | s, i :: rest => record s i :: steps (next (record s i)) rest

variable {record next} {s : State} {inputs : List Input} {earlier later hist : List Record}
  {step : Record}

/-- **What every step keeps** holds before each step of a run; the steps
after it are a run of their own. -/
theorem steps_split {P : List Record → State → Prop} (h : P hist s)
    (hstep : ∀ hist s i, P hist s → P (hist ++ [record s i]) (next (record s i)))
    (hsplit : steps record next s inputs = earlier ++ step :: later) :
    ∃ s' i rest, P (hist ++ earlier) s' ∧ step = record s' i ∧
      later = steps record next (next step) rest := by
  induction earlier generalizing hist s inputs with
  | nil =>
      cases inputs with
      | nil => cases hsplit
      | cons i rest =>
          rw [steps, List.nil_append, List.cons.injEq] at hsplit
          obtain ⟨rfl, rfl⟩ := hsplit
          rw [List.append_nil]
          exact ⟨s, i, rest, h, rfl, rfl⟩
  | cons x earlier ih =>
      cases inputs with
      | nil => cases hsplit
      | cons i rest =>
          rw [steps, List.cons_append, List.cons.injEq] at hsplit
          obtain ⟨rfl, hsplit⟩ := hsplit
          have := ih (hstep hist s i h) hsplit
          rwa [List.append_assoc] at this

/-- What every step keeps holds of all the records of a run. -/
theorem steps_end {P : List Record → State → Prop} (h : P hist s)
    (hstep : ∀ hist s i, P hist s → P (hist ++ [record s i]) (next (record s i))) :
    ∃ s', P (hist ++ steps record next s inputs) s' := by
  induction inputs generalizing hist s with
  | nil =>
      rw [steps, List.append_nil]
      exact ⟨s, h⟩
  | cons i rest ih =>
      have := ih (hstep hist s i h)
      rwa [List.append_assoc] at this

/-- A run has a record of every input. -/
theorem map_steps {f : Record → Input} (h : ∀ s i, f (record s i) = i) :
    (steps record next s inputs).map f = inputs := by
  induction inputs generalizing s with
  | nil => rfl
  | cons i rest ih => rw [steps, List.map_cons, h, ih]

/-- **What a state keeps** of later records: a property of states that
every step passes on, and that says something of the step. -/
theorem forall_steps {P : State → Prop} {Q : Record → Prop} (h : P s)
    (hstep : ∀ s i, P s → Q (record s i) ∧ P (next (record s i))) :
    ∀ r ∈ steps record next s inputs, Q r := by
  induction inputs generalizing s with
  | nil => simp [steps]
  | cons i rest ih =>
      intro r hr
      obtain ⟨hq, hp⟩ := hstep s i h
      rcases List.mem_cons.mp hr with rfl | hr
      · exact hq
      · exact ih hp r hr

end Recording

end Emporos
