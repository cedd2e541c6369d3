import Emporos.Async.Pool
import Mathlib.Logic.Function.Iterate
/-!
# Schedules

A list of moves that says who runs when, played against a responder that
picks one answer for every call. A move the platform does not allow
changes nothing, so what a schedule leads to is always reachable.
-/

namespace Emporos

namespace Async

variable {I : Interface} {ε α W X : Type}

inductive Move (X : Type)
  | start (x : X)
  /-- Up to `n` calls of task `t`. -/
  | run (t n : ℕ)
  | crash

/-- The move is a single step. -/
def Move.single : Move X → Prop
  | run _ n => n = 1
  | _ => True

instance : DecidablePred (Move.single (X := X)) := fun m => by
  cases m <;> unfold Move.single <;> infer_instance

/-- One answer for every call, none where the task has to wait. -/
abbrev Responder (I : Interface) (ε W : Type) : Type :=
  ℕ → W → (c : I.Call) → Option (Except ε (I.Value c) × W)

/-- The responder keeps to the platform. -/
def Responder.Within (respond : Responder I ε W) (P : Platform I ε W) : Prop :=
  ∀ t w c a w', respond t w c = some (a, w') → P.step t w c a w'

namespace Pool

variable (respond : Responder I ε W) (restart : W → W) (program : X → Task I ε α)

/-- One call of task `t`, if it is at one and gets its answer. -/
def advance (t : ℕ) (s : Pool I ε α W) : Pool I ε α W :=
  match s.task t with
  | some (.call c k) =>
      match respond t s.world c with
      | some (a, w) => s.put t (k a) w s.next
      | none => s
  | _ => s

def move (s : Pool I ε α W) : Move X → Pool I ε α W
  | .start x => s.put s.next (program x) s.world (s.next + 1)
  | .run t n => (advance respond t)^[n] s
  | .crash => idle (restart s.world) s.next

def play (moves : List (Move X)) (s : Pool I ε α W) : Pool I ε α W :=
  moves.foldl (move respond restart program) s

/-- The pools a schedule passes through, one for each of its moves. -/
def passes : List (Move X) → Pool I ε α W → List (Pool I ε α W)
  | [], _ => []
  | m :: moves, s => move respond restart program s m ::
      passes moves (move respond restart program s m)

variable {respond program} {P : Platform I ε W} {entry : Task I ε α → Prop} {s₀ s : Pool I ε α W}

/-- To advance a task is a step, or nothing. -/
theorem advance_eq_or_step (hwithin : respond.Within P) (t : ℕ) :
    s.advance respond t = s ∨ Step P entry s (s.advance respond t) := by
  unfold Pool.advance
  split
  · rename_i c k ht
    split
    · rename_i a w hw
      exact Or.inr (.run t ht (hwithin _ _ _ _ _ hw))
    · exact Or.inl rfl
  · exact Or.inl rfl

theorem Reachable.advance (hwithin : respond.Within P) (hr : Reachable P entry s₀ s) (t : ℕ) :
    Reachable P entry s₀ (s.advance respond t) := by
  rcases advance_eq_or_step hwithin t with h | h
  · rw [h]; exact hr
  · exact hr.tail h

/-- **What a schedule leads to is reachable.** -/
theorem Reachable.play (hwithin : respond.Within P) (hentry : ∀ x, entry (program x))
    (hr : Reachable P entry s₀ s) (moves : List (Move X)) :
    Reachable P entry s₀ (s.play respond P.restart program moves) := by
  induction moves generalizing s with
  | nil => exact hr
  | cons m moves ih =>
      refine ih ?_
      cases m with
      | start x => exact hr.tail (.start _ (hentry x))
      | crash => exact hr.tail .crash
      | run t n =>
          rw [move]
          induction n generalizing s with
          | zero => exact hr
          | succ n ihn => exact ihn (hr.advance hwithin t)

/-- **A schedule of single steps through good pools** leads to where good
pools lead. -/
theorem Guarded.play {good : Pool I ε α W → Prop} (hwithin : respond.Within P)
    (hentry : ∀ x, entry (program x)) (hr : Guarded P entry good s₀ s) {moves : List (Move X)}
    (hsingle : ∀ m ∈ moves, m.single)
    (hgood : ∀ u ∈ passes respond P.restart program moves s, good u) :
    Guarded P entry good s₀ (s.play respond P.restart program moves) := by
  induction moves generalizing s with
  | nil => exact hr
  | cons m moves ih =>
      refine ih ?_ (fun x hx => hsingle x (List.mem_cons_of_mem _ hx))
        fun u hu => hgood u (List.mem_cons_of_mem _ hu)
      have hnext := hgood _ (List.mem_cons_self ..)
      have hm := hsingle m (List.mem_cons_self ..)
      cases m with
      | start x => exact hr.tail ⟨.start _ (hentry x), hnext⟩
      | crash => exact hr.tail ⟨.crash, hnext⟩
      | run t n =>
          obtain rfl : n = 1 := hm
          change Guarded P entry good s₀ (s.advance respond t)
          change good (s.advance respond t) at hnext
          rcases advance_eq_or_step hwithin t with h | h
          · rw [h]; exact hr
          · exact hr.tail ⟨h, hnext⟩

end Pool

end Async

end Emporos
