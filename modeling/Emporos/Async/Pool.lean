import Emporos.Async.Task
import Mathlib.Logic.Function.Basic
import Mathlib.Logic.Relation
import Mathlib.Data.Nat.Notation
/-!
# Pools of tasks, and the rely–guarantee rule

A pool is a world with the tasks running over it. One step lets one task
perform the call it awaits, starts a task, or ends the process: a crash
drops every task and leaves what the world keeps. Nothing is said of
scheduling, so a fact about every reachable pool is a fact about every
interleaving at the await points and every crash point.

A `Contract` names what a call may do: the invariant of the world, what
a task may assume of the others (`rely`) and what it must respect when it
calls (`guar`). `Safe` is the obligation this puts on one task, and
`Reachable.safe` is the rule: programs that are safe keep the invariant
in every reachable pool, and every call of every run respected `guar`.
-/

namespace Emporos

namespace Async

variable {I : Interface} {ε α β : Type} {W : Type}

/-- How the world answers: which answers a call of task `t` can get, and
the world each leaves; and what is left of the world after a crash. -/
structure Platform (I : Interface) (ε W : Type) where
  step : ℕ → W → (c : I.Call) → Except ε (I.Value c) → W → Prop
  restart : W → W

/-- The same platform, for calls made where a condition is met. -/
def Platform.restrict (P : Platform I ε W) (cond : ℕ → W → I.Call → Prop) : Platform I ε W :=
  { P with step := fun t w c a w' => P.step t w c a w' ∧ cond t w c }

/-- A world and the tasks over it. Task numbers are never used twice. -/
structure Pool (I : Interface) (ε α W : Type) where
  world : W
  next : ℕ
  task : ℕ → Option (Task I ε α)

/-- A pool with no task. -/
def Pool.idle (w : W) (n : ℕ) : Pool I ε α W := ⟨w, n, fun _ => none⟩

/-- The pool after task `t` has become `p` and the world `w`. -/
def Pool.put (s : Pool I ε α W) (t : ℕ) (p : Task I ε α) (w : W) (n : ℕ) : Pool I ε α W :=
  ⟨w, n, Function.update s.task t (some p)⟩

@[simp] theorem Pool.put_world (s : Pool I ε α W) (t : ℕ) (p : Task I ε α) (w : W) (n : ℕ) :
    (s.put t p w n).world = w := rfl

@[simp] theorem Pool.put_next (s : Pool I ε α W) (t : ℕ) (p : Task I ε α) (w : W) (n : ℕ) :
    (s.put t p w n).next = n := rfl

@[simp] theorem Pool.put_self (s : Pool I ε α W) (t : ℕ) (p : Task I ε α) (w : W) (n : ℕ) :
    (s.put t p w n).task t = some p :=
  Function.update_self ..

theorem Pool.put_of_ne {s : Pool I ε α W} {t u : ℕ} {p : Task I ε α} {w : W} {n : ℕ}
    (h : u ≠ t) : (s.put t p w n).task u = s.task u :=
  Function.update_of_ne h ..

theorem Pool.task_eq_done {s : Pool I ε α W} {t : ℕ} {r : Except ε α}
    (h : (s.task t).bind Task.ended = some r) : s.task t = some (.done r) := by
  obtain ⟨p, hp, hr⟩ := Option.bind_eq_some_iff.mp h
  rw [hp, Task.ended_eq_some.mp hr]

/-- One step of a pool whose programs satisfy `entry`. -/
inductive Pool.Step (P : Platform I ε W) (entry : Task I ε α → Prop) :
    Pool I ε α W → Pool I ε α W → Prop
  | start {s : Pool I ε α W} (p : Task I ε α) (hp : entry p) :
      Step P entry s (s.put s.next p s.world (s.next + 1))
  | run {s : Pool I ε α W} (t : ℕ) {c : I.Call} {k : Except ε (I.Value c) → Task I ε α}
      {a : Except ε (I.Value c)} {w : W} (ht : s.task t = some (.call c k))
      (hw : P.step t s.world c a w) : Step P entry s (s.put t (k a) w s.next)
  | crash {s : Pool I ε α W} : Step P entry s (Pool.idle (P.restart s.world) s.next)

/-- The pools a run from `s` passes through. -/
def Pool.Reachable (P : Platform I ε W) (entry : Task I ε α → Prop) :
    Pool I ε α W → Pool I ε α W → Prop :=
  Relation.ReflTransGen (Pool.Step P entry)

/-- The same through pools that are all `good`. -/
def Pool.Guarded (P : Platform I ε W) (entry : Task I ε α → Prop) (good : Pool I ε α W → Prop) :
    Pool I ε α W → Pool I ε α W → Prop :=
  Relation.ReflTransGen fun s s' => Pool.Step P entry s s' ∧ good s'

theorem Pool.Guarded.reachable {P : Platform I ε W} {entry : Task I ε α → Prop}
    {good : Pool I ε α W → Prop} {s s' : Pool I ε α W} (h : Pool.Guarded P entry good s s') :
    Pool.Reachable P entry s s' := by
  induction h with
  | refl => exact .refl
  | tail _ hs ih => exact ih.tail hs.1

/-! ## Contracts -/

/-- What calls may do to the world, and what a task may count on. -/
structure Contract (P : Platform I ε W) where
  inv : W → Prop
  rely : ℕ → W → W → Prop
  guar : ℕ → W → I.Call → Prop
  rely_refl : ∀ t w, rely t w w
  rely_trans : ∀ {t w₁ w₂ w₃}, rely t w₁ w₂ → rely t w₂ w₃ → rely t w₁ w₃
  step_inv : ∀ {t w c a w'}, inv w → guar t w c → P.step t w c a w' → inv w'
  step_rely : ∀ {t u w c a w'}, inv w → guar t w c → P.step t w c a w' → u ≠ t → rely u w w'
  restart_inv : ∀ {w}, inv w → inv (P.restart w)

namespace Contract

variable {P : Platform I ε W} (C : Contract P) (t : ℕ)

/-- Task `t`, at this point of its program, keeps to the contract and
ends in `Q`, whatever the others do and whatever its calls return. -/
def Safe : Task I ε α → (Except ε α → W → Prop) → W → Prop
  | .done r, Q, w => Q r w
  | .call c k, Q, w => ∀ w', C.inv w' → C.rely t w w' →
      C.guar t w' c ∧ ∀ a w'', P.step t w' c a w'' → C.inv w'' → Safe (k a) Q w''

variable {C t} {Q Q' : Except ε α → W → Prop} {w w' : W}

@[simp] theorem safe_done (r : Except ε α) : C.Safe t (.done r) Q w ↔ Q r w := Iff.rfl

/-- **The call rule.** -/
theorem safe_ask {c : I.Call} {Q : Except ε (I.Value c) → W → Prop} :
    C.Safe t (Task.ask c) Q w ↔ ∀ w', C.inv w' → C.rely t w w' →
      C.guar t w' c ∧ ∀ a w'', P.step t w' c a w'' → C.inv w'' → Q a w'' := Iff.rfl

/-- **The sequencing rule.** -/
theorem safe_bind (p : Task I ε α) (f : α → Task I ε β) {Q : Except ε β → W → Prop} :
    C.Safe t (p >>= f) Q w ↔ C.Safe t p (fun r w' => match r with
      | .ok a => C.Safe t (f a) Q w'
      | .error e => Q (.error e) w') w := by
  induction p generalizing w with
  | done r => cases r <;> exact Iff.rfl
  | call c k ih => simp only [Task.call_bind, Safe, ih]

/-- **The rule of `try`.** -/
theorem safe_attempt (p : Task I ε α) {Q : Except ε (Except ε α) → W → Prop} :
    C.Safe t p.attempt Q w ↔ C.Safe t p (fun r => Q (.ok r)) w := by
  induction p generalizing w with
  | done r => exact Iff.rfl
  | call c k ih => simp only [Task.attempt_call, Safe, ih]

/-- **The rule of consequence.** -/
theorem Safe.mono {p : Task I ε α} (h : C.Safe t p Q w) (hQ : ∀ r w, Q r w → Q' r w) :
    C.Safe t p Q' w := by
  induction p generalizing w with
  | done r => exact hQ r w h
  | call c k ih =>
      intro w' hinv hrely
      obtain ⟨hguar, hk⟩ := h w' hinv hrely
      exact ⟨hguar, fun a w'' hstep hinv' => ih a (hk a w'' hstep hinv')⟩

/-- A task that is safe stays safe while the others move, if what it
promises at its end survives their moves. -/
theorem Safe.rely {p : Task I ε α} (h : C.Safe t p Q w) (hr : C.rely t w w')
    (hQ : ∀ r, Q r w → Q r w') : C.Safe t p Q w' := by
  cases p with
  | done r => exact hQ r h
  | call c k => exact fun w'' hinv hr' => h w'' hinv (C.rely_trans hr hr')

/-- **The frame rule.** What the calls of a task keep, and the others, it
still has at its end. -/
theorem Safe.frame {p : Task I ε α} {on : I.Call → Prop} {F : W → Prop} (h : C.Safe t p Q w)
    (hF : F w) (honly : p.Only on) (hrely : ∀ {w w'}, C.rely t w w' → F w → F w')
    (hcall : ∀ {w c a w'}, C.inv w → C.guar t w c → P.step t w c a w' → on c → F w → F w') :
    C.Safe t p (fun r w' => Q r w' ∧ F w') w := by
  induction p generalizing w with
  | done r => exact ⟨h, hF⟩
  | call c k ih =>
      intro w' hinv hr
      obtain ⟨hguar, hk⟩ := h w' hinv hr
      exact ⟨hguar, fun a w'' hstep hinv' => ih a (hk a w'' hstep hinv')
        (hcall hinv hguar hstep honly.1 (hrely hr hF)) (honly.2 a)⟩

/-- A task is safe whose calls are free to make. -/
theorem Safe.of_only {p : Task I ε α} {on : I.Call → Prop} (honly : p.Only on)
    (hguar : ∀ {w c}, C.inv w → on c → C.guar t w c) : C.Safe t p (fun _ _ => True) w := by
  induction p generalizing w with
  | done r => trivial
  | call c k ih =>
      exact fun w' hinv _ => ⟨hguar hinv honly.1, fun a _ _ _ => ih a (honly.2 a)⟩

end Contract

/-- What a pool owes its contract: the invariant, and the safety of every
task it holds, up to what a task promises at its end. -/
structure Pool.Sound {P : Platform I ε W} (C : Contract P) (post : ℕ → Except ε α → W → Prop)
    (s : Pool I ε α W) : Prop where
  inv : C.inv s.world
  safe : ∀ t p, s.task t = some p → C.Safe t p (post t) s.world

namespace Pool

variable {P : Platform I ε W} {C : Contract P} {entry : Task I ε α → Prop}
variable {post : ℕ → Except ε α → W → Prop} {s s' : Pool I ε α W}

theorem Sound.idle {w : W} {n : ℕ} (h : C.inv w) : (idle w n : Pool I ε α W).Sound C post :=
  ⟨h, fun _ _ ht => by simp [Pool.idle] at ht⟩

/-- The task that runs respects the contract. -/
theorem Sound.guar (h : s.Sound C post) {t : ℕ} {c : I.Call}
    {k : Except ε (I.Value c) → Task I ε α} (ht : s.task t = some (.call c k)) :
    C.guar t s.world c :=
  (h.safe t _ ht s.world h.inv (C.rely_refl t _)).1

/-- A task that is done has kept its promise. -/
theorem Sound.kept (h : s.Sound C post) {t : ℕ} {r : Except ε α}
    (ht : s.task t = some (.done r)) : post t r s.world :=
  h.safe t _ ht

/-- **One step keeps the pool sound**, if the others cannot break what a
task promised at its end. -/
theorem Sound.step (hpost : ∀ {t r w w'}, C.rely t w w' → post t r w → post t r w')
    (hentry : ∀ p, entry p → ∀ t w, C.inv w → C.Safe t p (post t) w)
    (h : s.Sound C post) (hs : Step P entry s s') : s'.Sound C post := by
  cases hs with
  | start p hp =>
      refine ⟨h.inv, fun t q hq => ?_⟩
      by_cases ht : t = s.next
      · subst ht
        rw [put_self, Option.some.injEq] at hq
        exact hq ▸ hentry p hp _ _ h.inv
      · rw [put_of_ne ht] at hq
        exact h.safe t q hq
  | @run t c k a w ht hw =>
      have hguar := h.guar ht
      have hinv := C.step_inv h.inv hguar hw
      refine ⟨hinv, fun u q hq => ?_⟩
      by_cases hu : u = t
      · subst hu
        rw [put_self, Option.some.injEq] at hq
        exact hq ▸ (h.safe u _ ht s.world h.inv (C.rely_refl u _)).2 a w hw hinv
      · rw [put_of_ne hu] at hq
        exact (h.safe u q hq).rely (C.step_rely h.inv hguar hw hu)
          fun _ => hpost (C.step_rely h.inv hguar hw hu)
  | crash => exact Sound.idle (C.restart_inv h.inv)

/-- **The rely–guarantee rule.** Safe programs keep the pool sound along
every run. -/
theorem Reachable.sound (hpost : ∀ {t r w w'}, C.rely t w w' → post t r w → post t r w')
    (hentry : ∀ p, entry p → ∀ t w, C.inv w → C.Safe t p (post t) w)
    (h : s.Sound C post) (hr : Reachable P entry s s') : s'.Sound C post := by
  induction hr with
  | refl => exact h
  | tail _ hs ih => exact ih.step hpost hentry hs

/-- No promise at the end. -/
abbrev nothing : ℕ → Except ε α → W → Prop := fun _ _ _ => True

/-- **A property of worlds, along runs.** What every permitted call of a
reachable pool and a crash preserve holds in every reachable pool. -/
theorem Reachable.invariant {J : W → Prop}
    (hentry : ∀ p, entry p → ∀ t w, C.inv w → C.Safe t p (nothing t) w)
    (hcall : ∀ {u : Pool I ε α W} {t c a w'}, Reachable P entry s u → J u.world → C.inv u.world →
      C.guar t u.world c → P.step t u.world c a w' → J w')
    (hcrash : ∀ {w}, J w → J (P.restart w))
    (h : s.Sound C nothing) (hJ : J s.world) (hr : Reachable P entry s s') : J s'.world := by
  induction hr with
  | refl => exact hJ
  | tail hr' hs ih =>
      have hsound := Reachable.sound (fun _ _ => trivial) hentry h hr'
      cases hs with
      | start p hp => exact ih
      | run t ht hw => exact hcall hr' ih hsound.inv (hsound.guar ht) hw
      | crash => exact hcrash ih

/-! ## A task running alone -/

/-- Every call of the run of `p` against `h` is one the platform lets task
`t` make. -/
def Permitted (P : Platform I ε W) (h : (c : I.Call) → W → Except ε (I.Value c) × W) (t : ℕ) :
    Task I ε α → W → Prop
  | .done _, _ => True
  | .call c k, w => P.step t w c (h c w).1 (h c w).2 ∧ Permitted P h t (k (h c w).1) (h c w).2

/-- **A run alone is one of the interleavings**: started in a pool, a task
whose calls are all permitted takes the world where `exec` takes it. -/
theorem Reachable.exec {h : (c : I.Call) → W → Except ε (I.Value c) × W} {p : Task I ε α}
    {s₀ : Pool I ε α W} (hr : Reachable P entry s₀ s) (hp : entry p)
    (hall : Permitted P h s.next p s.world) :
    ∃ s' : Pool I ε α W, Reachable P entry s₀ s' ∧ s'.world = (p.exec h s.world).2 ∧
      s'.next = s.next + 1 ∧ s'.task s.next = some (.done (p.exec h s.world).1) := by
  suffices H : ∀ (p : Task I ε α) (u : Pool I ε α W) (t : ℕ), Reachable P entry s₀ u →
      u.task t = some p → Permitted P h t p u.world →
      ∃ s' : Pool I ε α W, Reachable P entry s₀ s' ∧ s'.world = (p.exec h u.world).2 ∧
        s'.next = u.next ∧ s'.task t = some (.done (p.exec h u.world).1) by
    exact H p (s.put s.next p s.world (s.next + 1)) s.next (hr.tail (.start p hp))
      (put_self ..) hall
  intro p
  induction p with
  | done r => exact fun u t hu ht _ => ⟨u, hu, rfl, rfl, ht⟩
  | call c k ih =>
      intro u t hu ht hall
      exact ih _ (u.put t (k (h c u.world).1) (h c u.world).2 u.next) t
        (hu.tail (.run t ht hall.1)) (put_self ..) hall.2

end Pool

end Async

end Emporos
