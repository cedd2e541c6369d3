import Mathlib.Logic.Basic
import Mathlib.Control.Basic
/-!
# Tasks: programs that await calls

A task is what an `async` function denotes: it awaits one call at a time
on an interface to the rest of the world, continues with the value the
call returned or the exception it raised, and in the end returns or
raises itself. Everything between two calls is pure, so a call is the
only place where another task can run. The file has the monad, `try`,
and the run of a task against a handler that answers every call at once.
-/

namespace Emporos

namespace Async

/-- What a program may await, and the value each call returns. -/
structure Interface where
  Call : Type
  Value : Call → Type

/-- A program that awaits calls of `I` and ends with a value or an
exception. -/
inductive Task (I : Interface) (ε α : Type) : Type
  | done (r : Except ε α)
  | call (c : I.Call) (k : Except ε (I.Value c) → Task I ε α)

variable {I : Interface} {ε α β γ : Type} {W : Type}

namespace Task

/-- Sequencing: an exception ends the whole. -/
def bind : Task I ε α → (α → Task I ε β) → Task I ε β
  | done (.ok a), f => f a
  | done (.error e), _ => done (.error e)
  | call c k, f => call c fun r => bind (k r) f

instance : Monad (Task I ε) where
  pure a := done (.ok a)
  bind := bind

/-- Await one call. -/
def ask (c : I.Call) : Task I ε (I.Value c) := call c done

/-- Raise an exception. -/
def raise (e : ε) : Task I ε α := done (.error e)

/-- Raise if the pure computation raised. -/
def lift (r : Except ε α) : Task I ε α := done r

/-- `try`: the outcome as a value. -/
def attempt : Task I ε α → Task I ε (Except ε α)
  | done r => done (.ok r)
  | call c k => call c fun r => attempt (k r)

@[simp] theorem pure_eq (a : α) : (pure a : Task I ε α) = done (.ok a) := rfl

@[simp] theorem raise_eq (e : ε) : (raise e : Task I ε α) = done (.error e) := rfl

@[simp] theorem done_ok_bind (a : α) (f : α → Task I ε β) : (done (.ok a) >>= f) = f a := rfl

@[simp] theorem done_error_bind (e : ε) (f : α → Task I ε β) :
    (done (.error e) >>= f) = done (.error e) := rfl

@[simp] theorem call_bind (c : I.Call) (k : Except ε (I.Value c) → Task I ε α)
    (f : α → Task I ε β) : (call c k >>= f) = call c fun r => k r >>= f := rfl

@[simp] theorem attempt_done (r : Except ε α) :
    attempt (done r : Task I ε α) = done (.ok r) := rfl

@[simp] theorem attempt_call (c : I.Call) (k : Except ε (I.Value c) → Task I ε α) :
    attempt (call c k) = call c fun r => attempt (k r) := rfl

/-- Sequencing is associative, so a function may be cut into named parts
wherever a proof needs it. -/
theorem bind_assoc (p : Task I ε α) (f : α → Task I ε β) (g : β → Task I ε γ) :
    p >>= f >>= g = p >>= fun a => f a >>= g := by
  induction p with
  | done r => cases r <;> rfl
  | call c k ih => simp only [call_bind, ih]

/-- How a task ended, if it did. -/
def ended : Task I ε α → Option (Except ε α)
  | done r => some r
  | call .. => none

theorem ended_eq_some {p : Task I ε α} {r : Except ε α} : p.ended = some r ↔ p = done r := by
  cases p with
  | done r' => simp [ended]
  | call c k => simp [ended]

/-- A task that ends when a call that meets `on` fails. -/
def Strict (on : I.Call → Prop) : Task I ε α → Prop
  | done _ => True
  | call c k =>
      (on c → ∀ e, ∃ e', k (.error e) = done (.error e')) ∧ ∀ a, Strict on (k a)

variable {on : I.Call → Prop}

@[simp] theorem strict_done (r : Except ε α) : Strict on (done r : Task I ε α) := trivial

theorem strict_ask (c : I.Call) : Strict on (ask c : Task I ε _) :=
  ⟨fun _ e => ⟨e, rfl⟩, fun _ => trivial⟩

/-- A caught call is one that does not meet `on`. -/
theorem strict_attempt_ask {c : I.Call} (hc : ¬ on c) : Strict on (attempt (ask c : Task I ε _)) :=
  ⟨fun h => absurd h hc, fun _ => trivial⟩

theorem Strict.bind {p : Task I ε α} {f : α → Task I ε β} (hp : Strict on p)
    (hf : ∀ a, Strict on (f a)) : Strict on (p >>= f) := by
  induction p with
  | done r =>
      cases r with
      | ok a => exact hf a
      | error e => trivial
  | call c k ih =>
      refine ⟨fun hc e => ?_, fun a => ih a (hp.2 a)⟩
      obtain ⟨e', he⟩ := hp.1 hc e
      exact ⟨e', by change (k (.error e) >>= f) = _; rw [he]; rfl⟩

/-- A task all of whose calls meet `on`, whatever they are answered. -/
def Only (on : I.Call → Prop) : Task I ε α → Prop
  | done _ => True
  | call c k => on c ∧ ∀ a, Only on (k a)

@[simp] theorem only_done (r : Except ε α) : Only on (done r : Task I ε α) := trivial

theorem only_ask {c : I.Call} (hc : on c) : Only on (ask c : Task I ε _) :=
  ⟨hc, fun _ => trivial⟩

theorem Only.bind {p : Task I ε α} {f : α → Task I ε β} (hp : Only on p)
    (hf : ∀ a, Only on (f a)) : Only on (p >>= f) := by
  induction p with
  | done r =>
      cases r with
      | ok a => exact hf a
      | error e => trivial
  | call c k ih => exact ⟨hp.1, fun a => ih a (hp.2 a)⟩

theorem Only.mono {on' : I.Call → Prop} {p : Task I ε α} (hp : Only on p)
    (h : ∀ c, on c → on' c) : Only on' p := by
  induction p with
  | done r => trivial
  | call c k ih => exact ⟨h c hp.1, fun a => ih a (hp.2 a)⟩

theorem Only.attempt {p : Task I ε α} (hp : Only on p) : Only on p.attempt := by
  induction p with
  | done r => trivial
  | call c k ih => exact ⟨hp.1, fun a => ih a (hp.2 a)⟩

/-! ## Running a task alone -/

/-- The run of a task against a handler that answers each call and moves
the world. -/
def exec (h : (c : I.Call) → W → Except ε (I.Value c) × W) : Task I ε α → W → Except ε α × W
  | done r, w => (r, w)
  | call c k, w => exec h (k (h c w).1) (h c w).2

variable {h : (c : I.Call) → W → Except ε (I.Value c) × W} {w : W}

@[simp] theorem exec_done (r : Except ε α) : exec h (done r) w = (r, w) := rfl

@[simp] theorem exec_call (c : I.Call) (k : Except ε (I.Value c) → Task I ε α) :
    exec h (call c k) w = exec h (k (h c w).1) (h c w).2 := rfl

@[simp] theorem exec_ask (c : I.Call) : exec h (ask c : Task I ε _) w = h c w := rfl

@[simp] theorem exec_lift (r : Except ε α) : exec h (lift r) w = (r, w) := rfl

/-- A sequence runs its first part, and goes on unless that raised. -/
theorem exec_bind (p : Task I ε α) (f : α → Task I ε β) :
    exec h (p >>= f) w = match exec h p w with
      | (.ok a, w') => exec h (f a) w'
      | (.error e, w') => (.error e, w') := by
  induction p generalizing w with
  | done r => cases r <;> rfl
  | call c k ih => rw [call_bind, exec_call, exec_call, ih]

theorem exec_attempt (p : Task I ε α) :
    exec h (attempt p) w = (.ok (exec h p w).1, (exec h p w).2) := by
  induction p generalizing w with
  | done r => rfl
  | call c k ih => rw [attempt_call, exec_call, exec_call, ih]

end Task

end Async

end Emporos
