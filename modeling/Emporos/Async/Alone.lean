import Emporos.Async.Pool
/-!
# Runs alone

What a task that runs alone against a handler ends in, by one rule for
each way a program is built; and the turns of a loop, each item with the
world it comes up in.
-/

namespace Emporos

namespace Async

variable {I : Interface} {ε α β A B W : Type} {h : (c : I.Call) → W → Except ε (I.Value c) × W}

namespace Task

/-- The run of `p` from `w` ends in `Q`. -/
def Ends (h : (c : I.Call) → W → Except ε (I.Value c) × W) (p : Task I ε α)
    (Q : Except ε α → W → Prop) (w : W) : Prop :=
  Q (p.exec h w).1 (p.exec h w).2

variable {Q Q' : Except ε α → W → Prop} {w : W}

@[simp] theorem ends_done (r : Except ε α) : Ends h (done r) Q w ↔ Q r w := Iff.rfl

theorem ends_lift (r : Except ε α) : Ends h (lift r) Q w ↔ Q r w := Iff.rfl

/-- **The call rule.** -/
theorem ends_ask {c : I.Call} {Q : Except ε (I.Value c) → W → Prop} :
    Ends h (ask c) Q w ↔ Q (h c w).1 (h c w).2 := Iff.rfl

/-- **The sequencing rule.** -/
theorem ends_bind (p : Task I ε α) (f : α → Task I ε β) {Q : Except ε β → W → Prop} :
    Ends h (p >>= f) Q w ↔ Ends h p (fun r w' => match r with
      | .ok a => Ends h (f a) Q w'
      | .error e => Q (.error e) w') w := by
  unfold Ends
  rw [exec_bind]
  rcases p.exec h w with ⟨r | a, w'⟩
  · exact Iff.rfl
  · exact Iff.rfl

/-- **The rule of `try`.** -/
theorem ends_attempt (p : Task I ε α) {Q : Except ε (Except ε α) → W → Prop} :
    Ends h p.attempt Q w ↔ Ends h p (fun r => Q (.ok r)) w := by
  unfold Ends
  rw [exec_attempt]

/-- **The rule of consequence.** -/
theorem Ends.mono {p : Task I ε α} (hp : Ends h p Q w) (hQ : ∀ r w, Q r w → Q' r w) :
    Ends h p Q' w := hQ _ _ hp

/-- The run of `p` from `w` returns. -/
def Returns (h : (c : I.Call) → W → Except ε (I.Value c) × W) (p : Task I ε α) (w : W) : Prop :=
  ∃ a, (p.exec h w).1 = .ok a

@[simp] theorem returns_ok (a : α) : Returns h (done (.ok a) : Task I ε α) w := ⟨a, rfl⟩

/-- A sequence returns if both parts do. -/
theorem returns_bind (p : Task I ε α) (f : α → Task I ε β) :
    Returns h (p >>= f) w ↔ ∃ a, (p.exec h w).1 = .ok a ∧ Returns h (f a) (p.exec h w).2 := by
  unfold Returns
  rw [exec_bind]
  rcases p.exec h w with ⟨e | a, w'⟩
  · constructor
    · rintro ⟨_, hr⟩
      cases hr
    · rintro ⟨_, hr, -⟩
      cases hr
  · constructor
    · exact fun hr => ⟨a, rfl, hr⟩
    · rintro ⟨a', ha, hr⟩
      obtain rfl := Except.ok.inj ha
      exact hr

/-! ## Loops -/

/-- The items of a loop, each with the world its turn comes up in. -/
def turns (h : (c : I.Call) → W → Except ε (I.Value c) × W) (f : A → Task I ε B) :
    List A → W → List (A × W)
  | [], _ => []
  | a :: l, w => (a, w) :: turns h f l ((f a).exec h w).2

variable {f : A → Task I ε B}

@[simp] theorem turns_nil : turns h f [] w = [] := rfl

@[simp] theorem turns_cons (a : A) (l : List A) :
    turns h f (a :: l) w = (a, w) :: turns h f l ((f a).exec h w).2 := rfl

/-- Every item has a turn. -/
theorem map_turns (l : List A) : (turns h f l w).map Prod.fst = l := by
  induction l generalizing w with
  | nil => rfl
  | cons a l ih => rw [turns_cons, List.map_cons, ih]

/-- What holds before a loop, of the world and what is left to do, and is
kept by each turn, holds at each turn. -/
theorem turns_invariant {J : List A → W → Prop}
    (hstep : ∀ a l w, J (a :: l) w → J l ((f a).exec h w).2) {l : List A} (hw : J l w)
    {p : A × W} (hp : p ∈ turns h f l w) : ∃ rest, J (p.1 :: rest) p.2 := by
  induction l generalizing w with
  | nil => cases hp
  | cons a l ih =>
      rcases List.mem_cons.mp hp with rfl | hp
      · exact ⟨l, hw⟩
      · exact ih (hstep a l w hw) hp

end Task

end Async

end Emporos
