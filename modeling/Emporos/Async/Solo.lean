import Emporos.Async.Task
import Mathlib.Data.Nat.Notation
import Mathlib.Logic.Relation
/-!
# One process at a time

A process runs one job at a time over a world that others may change
between its calls. Any step may be a crash: it drops the job and leaves
what the world keeps. `Keeps` is what a program owes: at every call, in
whatever the others have made of the world, the invariant stays and the
world moves as `guar` says; and `Reach.sound` is the rule.
-/

namespace Emporos

namespace Async

variable {I : Interface} {ε α β W : Type}

/-- The surroundings of a process: how calls are answered, what others may
do meanwhile, which jobs start, and what a restart leaves of the world. -/
structure Setting (I : Interface) (ε α W : Type) where
  answers : W → (c : I.Call) → Except ε (I.Value c) → W → Prop
  others : W → W → Prop
  starts : W → Task I ε α → W → Prop
  restart : W → W

/-- The same surroundings, for answers that meet a condition. -/
def Setting.restrict (S : Setting I ε α W)
    (cond : W → (c : I.Call) → Except ε (I.Value c) → W → Prop) : Setting I ε α W :=
  { S with answers := fun w c a w' => S.answers w c a w' ∧ cond w c a w' }

/-- A world, and the job of the process, if it has one. -/
structure Solo (I : Interface) (ε α W : Type) where
  world : W
  job : Option (Task I ε α)

namespace Solo

variable {S : Setting I ε α W}

/-- What happens in one step. -/
inductive Event (I : Interface) (ε : Type)
  | start
  | call (c : I.Call) (a : Except ε (I.Value c))
  | finish
  | others
  | crash

inductive Step (S : Setting I ε α W) : Solo I ε α W → Event I ε → Solo I ε α W → Prop
  | start {w w' : W} {p : Task I ε α} (h : S.starts w p w') :
      Step S ⟨w, none⟩ .start ⟨w', some p⟩
  | call {w w' : W} {c : I.Call} {k : Except ε (I.Value c) → Task I ε α}
      {a : Except ε (I.Value c)} (h : S.answers w c a w') :
      Step S ⟨w, some (.call c k)⟩ (.call c a) ⟨w', some (k a)⟩
  | finish {w : W} {r : Except ε α} : Step S ⟨w, some (.done r)⟩ .finish ⟨w, none⟩
  | others {w w' : W} {job : Option (Task I ε α)} (h : S.others w w') :
      Step S ⟨w, job⟩ .others ⟨w', job⟩
  | crash {w : W} {job : Option (Task I ε α)} : Step S ⟨w, job⟩ .crash ⟨S.restart w, none⟩

/-- A step whose answer meets a condition that every answer meets. -/
theorem Step.restrict {cond : W → (c : I.Call) → Except ε (I.Value c) → W → Prop}
    (hcond : ∀ w c a w', S.answers w c a w' → cond w c a w') {s s' : Solo I ε α W} {e : Event I ε}
    (h : Step S s e s') : Step (S.restrict cond) s e s' := by
  cases h with
  | start h => exact .start h
  | call h => exact .call ⟨h, hcond _ _ _ _ h⟩
  | finish => exact .finish
  | others h => exact .others h
  | crash => exact .crash

/-- The states a run passes through. -/
def Reach (S : Setting I ε α W) : Solo I ε α W → Solo I ε α W → Prop :=
  Relation.ReflTransGen fun s s' => ∃ e, Step S s e s'

theorem Reach.restrict {cond : W → (c : I.Call) → Except ε (I.Value c) → W → Prop}
    (hcond : ∀ w c a w', S.answers w c a w' → cond w c a w') {s s' : Solo I ε α W}
    (h : Reach S s s') : Reach (S.restrict cond) s s' :=
  Relation.ReflTransGen.mono (fun _ _ ⟨e, he⟩ => ⟨e, he.restrict hcond⟩) _ _ h

/-- A run whose answers meet a condition is a run. -/
theorem Reach.of_restrict {cond : W → (c : I.Call) → Except ε (I.Value c) → W → Prop}
    {s s' : Solo I ε α W} (h : Reach (S.restrict cond) s s') : Reach S s s' := by
  refine Relation.ReflTransGen.mono (fun _ _ ⟨e, he⟩ => ⟨e, ?_⟩) _ _ h
  cases he with
  | start h => exact .start h
  | call h => exact .call h.1
  | finish => exact .finish
  | others h => exact .others h
  | crash => exact .crash

/-- Up to `n` calls of the job, answered by `reply` while `go` allows. -/
def advance (reply : W → (c : I.Call) → Except ε (I.Value c) × W) (go : W → Bool) :
    ℕ → Solo I ε α W → Solo I ε α W
  | 0, s => s
  | n + 1, ⟨w, some (.call c k)⟩ =>
      if go w then advance reply go n ⟨(reply w c).2, some (k (reply w c).1)⟩
      else ⟨w, some (.call c k)⟩
  | _ + 1, ⟨w, some (.done r)⟩ => ⟨w, some (.done r)⟩
  | _ + 1, ⟨w, none⟩ => ⟨w, none⟩

theorem reach_advance {reply : W → (c : I.Call) → Except ε (I.Value c) × W} {go : W → Bool}
    (hreply : ∀ w c, S.answers w c (reply w c).1 (reply w c).2) (n : ℕ) (s : Solo I ε α W) :
    Reach (S.restrict fun w _ _ _ => go w) s (advance reply go n s) := by
  fun_induction advance reply go n s with
  | case1 => exact .refl
  | case2 n w c k hgo ih => exact .head ⟨_, .call ⟨hreply w c, hgo⟩⟩ ih
  | case3 => exact .refl
  | case4 => exact .refl
  | case5 => exact .refl

/-- The same, without a crash. -/
def Calm (S : Setting I ε α W) : Solo I ε α W → Solo I ε α W → Prop :=
  Relation.ReflTransGen fun s s' => ∃ e, e ≠ .crash ∧ Step S s e s'

theorem Calm.restrict {cond : W → (c : I.Call) → Except ε (I.Value c) → W → Prop}
    (hcond : ∀ w c a w', S.answers w c a w' → cond w c a w') {s s' : Solo I ε α W}
    (h : Calm S s s') : Calm (S.restrict cond) s s' :=
  Relation.ReflTransGen.mono (fun _ _ ⟨e, hne, he⟩ => ⟨e, hne, he.restrict hcond⟩) _ _ h

theorem Calm.reach {s s' : Solo I ε α W} (h : Calm S s s') : Reach S s s' :=
  Relation.ReflTransGen.mono (fun _ _ ⟨e, _, he⟩ => ⟨e, he⟩) _ _ h

end Solo

/-! ## What a program owes -/

/-- An invariant, and a relation between the worlds before and after every
step, which what others do keeps too. -/
structure Rules (S : Setting I ε α W) where
  inv : W → Prop
  guar : W → W → Prop
  guar_refl : ∀ w, guar w w
  guar_trans : ∀ {w₁ w₂ w₃}, guar w₁ w₂ → guar w₂ w₃ → guar w₁ w₃
  others_keep : ∀ {w w'}, inv w → S.others w w' → inv w' ∧ guar w w'

namespace Rules

variable {S : Setting I ε α W} (R : Rules S)

/-- Whatever happens, the program keeps the rules, and it ends in `Q`. -/
def Keeps {β : Type} : Task I ε β → (Except ε β → W → Prop) → W → Prop
  | .done r, Q, w => Q r w
  | .call c k, Q, w => ∀ w', R.inv w' → Relation.ReflTransGen S.others w w' →
      ∀ a w'', S.answers w' c a w'' → R.inv w'' ∧ R.guar w' w'' ∧ Keeps (k a) Q w''

/-- What others do in a row. -/
theorem others_star {w w' : W} (hinv : R.inv w) (h : Relation.ReflTransGen S.others w w') :
    R.inv w' ∧ R.guar w w' := by
  induction h with
  | refl => exact ⟨hinv, R.guar_refl w⟩
  | tail _ hstep ih =>
      obtain ⟨hinv', hguar⟩ := R.others_keep ih.1 hstep
      exact ⟨hinv', R.guar_trans ih.2 hguar⟩

variable {R} {w w' : W} {Q Q' : Except ε β → W → Prop}

@[simp] theorem keeps_done (r : Except ε β) : R.Keeps (.done r) Q w ↔ Q r w := Iff.rfl

/-- **The call rule.** -/
theorem keeps_ask {c : I.Call} {Q : Except ε (I.Value c) → W → Prop} :
    R.Keeps (Task.ask c) Q w ↔ ∀ w', R.inv w' → Relation.ReflTransGen S.others w w' →
      ∀ a w'', S.answers w' c a w'' → R.inv w'' ∧ R.guar w' w'' ∧ Q a w'' := Iff.rfl

/-- **The sequencing rule.** -/
theorem keeps_bind {γ : Type} (p : Task I ε β) (f : β → Task I ε γ)
    {Q : Except ε γ → W → Prop} :
    R.Keeps (p >>= f) Q w ↔ R.Keeps p (fun r w' => match r with
      | .ok a => R.Keeps (f a) Q w'
      | .error e => Q (.error e) w') w := by
  induction p generalizing w with
  | done r => cases r <;> exact Iff.rfl
  | call c k ih => simp only [Task.call_bind, Keeps, ih]

/-- **The rule of `try`.** -/
theorem keeps_attempt (p : Task I ε β) {Q : Except ε (Except ε β) → W → Prop} :
    R.Keeps p.attempt Q w ↔ R.Keeps p (fun r => Q (.ok r)) w := by
  induction p generalizing w with
  | done r => exact Iff.rfl
  | call c k ih => simp only [Task.attempt_call, Keeps, ih]

/-- **The rule of consequence.** -/
theorem Keeps.mono {p : Task I ε β} (h : R.Keeps p Q w) (hQ : ∀ r w, Q r w → Q' r w) :
    R.Keeps p Q' w := by
  induction p generalizing w with
  | done r => exact hQ r w h
  | call c k ih =>
      intro w' hinv hothers a w'' hanswer
      obtain ⟨hinv', hguar, hk⟩ := h w' hinv hothers a w'' hanswer
      exact ⟨hinv', hguar, ih a hk⟩

/-- A program that starts in the invariant ends in it. -/
theorem Keeps.and_inv {p : Task I ε β} (h : R.Keeps p Q w) (hinv : R.inv w) :
    R.Keeps p (fun r w => Q r w ∧ R.inv w) w := by
  induction p generalizing w with
  | done r => exact ⟨h, hinv⟩
  | call c k ih =>
      intro w' hinv' hothers a w'' hanswer
      obtain ⟨hinv'', hguar, hk⟩ := h w' hinv' hothers a w'' hanswer
      exact ⟨hinv'', hguar, ih a hk hinv''⟩

/-- A program's part in moving the world. -/
theorem Keeps.and_guar {p : Task I ε β} (h : R.Keeps p Q w) (hinv : R.inv w) :
    R.Keeps p (fun r w' => Q r w' ∧ R.guar w w') w := by
  induction p generalizing w with
  | done r => exact ⟨h, R.guar_refl w⟩
  | call c k ih =>
      intro w' hinv' hothers a w'' hanswer
      obtain ⟨hinv'', hguar, hk⟩ := h w' hinv' hothers a w'' hanswer
      have hbefore := R.guar_trans (R.others_star hinv hothers).2 hguar
      exact ⟨hinv'', hguar, (ih a hk hinv'').mono fun r w₃ hw₃ =>
        ⟨hw₃.1, R.guar_trans hbefore hw₃.2⟩⟩

/-- What others do does not stop a program from keeping the rules. -/
theorem Keeps.others {p : Task I ε β} (h : R.Keeps p Q w) (ho : S.others w w')
    (hQ : ∀ r, Q r w → Q r w') : R.Keeps p Q w' := by
  cases p with
  | done r => exact hQ r h
  | call c k => exact fun w'' hinv hothers => h w'' hinv (.head ho hothers)

end Rules

/-! ## A job from its start to its end -/

/-- A program runs to its end, while others move the world between its
calls. -/
inductive Completes (S : Setting I ε α W) : Task I ε β → W → Except ε β → W → Prop
  | done {w : W} {r : Except ε β} : Completes S (.done r) w r w
  | call {w w₁ w₂ w₃ : W} {c : I.Call} {k : Except ε (I.Value c) → Task I ε β}
      {a : Except ε (I.Value c)} {r : Except ε β} (hothers : Relation.ReflTransGen S.others w w₁)
      (ha : S.answers w₁ c a w₂) (hk : Completes S (k a) w₂ r w₃) :
      Completes S (.call c k) w r w₃

namespace Completes

variable {S : Setting I ε α W} {R : Rules S} {p : Task I ε β} {w w' : W} {r : Except ε β}

/-- **A program that keeps the rules ends as it should.** -/
theorem sound {Q : Except ε β → W → Prop} (h : Completes S p w r w') (hinv : R.inv w)
    (hkeeps : R.Keeps p Q w) : Q r w' ∧ R.inv w' ∧ R.guar w w' := by
  induction h with
  | done => exact ⟨hkeeps, hinv, R.guar_refl _⟩
  | call hothers ha _ ih =>
      obtain ⟨hinv₁, hguar₁⟩ := R.others_star hinv hothers
      obtain ⟨hinv₂, hguar₂, hk⟩ := hkeeps _ hinv₁ hothers _ _ ha
      obtain ⟨hend, hinv₃, hguar₃⟩ := ih hinv₂ hk
      exact ⟨hend, hinv₃, R.guar_trans hguar₁ (R.guar_trans hguar₂ hguar₃)⟩

/-- The run against a handler is a run. -/
theorem of_exec {reply : (c : I.Call) → W → Except ε (I.Value c) × W}
    (hreply : ∀ w c, S.answers w c (reply c w).1 (reply c w).2) (p : Task I ε β) (w : W) :
    Completes S p w (p.exec reply w).1 (p.exec reply w).2 := by
  induction p generalizing w with
  | done r => exact .done
  | call c k ih => exact .call .refl (hreply w c) (ih _ _)

end Completes

/-! ## Runs -/

namespace Solo

variable {S : Setting I ε α W} {R : Rules S} {Q : Except ε α → W → Prop} {s s' : Solo I ε α W}

/-- The invariant holds, and the job keeps the rules. -/
structure Sound (R : Rules S) (Q : Except ε α → W → Prop) (s : Solo I ε α W) : Prop where
  inv : R.inv s.world
  job : ∀ p, s.job = some p → R.Keeps p Q s.world

/-- **One step keeps the rules**, if the job that starts, if this is a start,
does, what a job ends in is stable, and a crash, if this is one, leaves what
it should. -/
theorem Sound.step (hstart : ∀ {p w'}, s.job = none → S.starts s.world p w' →
      R.inv w' ∧ R.guar s.world w' ∧ R.Keeps p Q w')
    (hQ : ∀ {r w w'}, S.others w w' → Q r w → Q r w') (h : s.Sound R Q) {e : Event I ε}
    (hcrash : e = .crash → R.inv (S.restart s.world) ∧ R.guar s.world (S.restart s.world))
    (hs : Step S s e s') : s'.Sound R Q ∧ R.guar s.world s'.world := by
  cases hs with
  | start hp =>
      obtain ⟨hinv, hguar, hkeeps⟩ := hstart rfl hp
      refine ⟨⟨hinv, fun q hq => ?_⟩, hguar⟩
      obtain rfl := Option.some.inj hq
      exact hkeeps
  | call ha =>
      obtain ⟨hinv, hguar, hkeeps⟩ := h.job _ rfl _ h.inv .refl _ _ ha
      refine ⟨⟨hinv, fun q hq => ?_⟩, hguar⟩
      obtain rfl := Option.some.inj hq
      exact hkeeps
  | finish => exact ⟨⟨h.inv, fun q hq => by cases hq⟩, R.guar_refl _⟩
  | others ho =>
      obtain ⟨hinv, hguar⟩ := R.others_keep h.inv ho
      exact ⟨⟨hinv, fun q hq => (h.job q hq).others ho fun _ => hQ ho⟩, hguar⟩
  | crash =>
      obtain ⟨hinv, hguar⟩ := hcrash rfl
      exact ⟨⟨hinv, fun q hq => by cases hq⟩, hguar⟩

/-- **Along every run the rules are kept.** -/
theorem Reach.sound (hstart : ∀ {w p w'}, R.inv w → S.starts w p w' →
      R.inv w' ∧ R.guar w w' ∧ R.Keeps p Q w')
    (hQ : ∀ {r w w'}, S.others w w' → Q r w → Q r w')
    (hcrash : ∀ {w}, R.inv w → R.inv (S.restart w) ∧ R.guar w (S.restart w))
    (h : s.Sound R Q) (hr : Reach S s s') : s'.Sound R Q ∧ R.guar s.world s'.world := by
  induction hr with
  | refl => exact ⟨h, R.guar_refl _⟩
  | tail _ hs ih =>
      obtain ⟨e, hs⟩ := hs
      obtain ⟨hsound, hguar⟩ := ih.1.step (fun _ => hstart ih.1.inv) hQ (fun _ => hcrash ih.1.inv) hs
      exact ⟨hsound, R.guar_trans ih.2 hguar⟩

/-- The same without a crash. -/
theorem Calm.sound (hstart : ∀ {w p w'}, R.inv w → S.starts w p w' →
      R.inv w' ∧ R.guar w w' ∧ R.Keeps p Q w')
    (hQ : ∀ {r w w'}, S.others w w' → Q r w → Q r w') (h : s.Sound R Q) (hr : Calm S s s') :
    s'.Sound R Q ∧ R.guar s.world s'.world := by
  induction hr with
  | refl => exact ⟨h, R.guar_refl _⟩
  | tail _ hs ih =>
      obtain ⟨e, hcalm, hs⟩ := hs
      obtain ⟨hsound, hguar⟩ := ih.1.step (fun _ => hstart ih.1.inv) hQ (fun h => absurd h hcalm) hs
      exact ⟨hsound, R.guar_trans ih.2 hguar⟩

end Solo

end Async

end Emporos
