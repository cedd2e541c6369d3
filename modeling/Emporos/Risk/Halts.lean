import Emporos.Risk.KillSwitch
/-!
# An operator's halt stands

A history is a list of calls with the writes that landed. After an
engagement by anyone but a tripwire, and until a release, the switch
should read halted and let no exit through, whichever places can be read.
`Holds` says so of one moment. It is a property of the two places alone
(`holds_iff`), and each call keeps it exactly when it meets `Respects`
(`holds_apply`): above all, no tripwire's write lands while the halt
stands.
-/

namespace Emporos

/-- The switch, and whether an operator's halt is standing. -/
structure Halt where
  switch : KillSwitch
  standing : Bool

namespace Halt

variable (isoformat : Timestamp → String)

/-- After a call: an engagement outside the setters that let exits through
starts a halt, and a release ends it. -/
def apply (h : Halt) (step : SwitchStep) : Halt where
  switch := KillSwitchControl.apply isoformat h.switch step
  standing := match step.call with
    | .engage reason setBy _ =>
        h.standing || (Text.isMeaningful reason && decide (setBy ∉ exitPermittingSetters))
    | .release _ _ => false

/-- The history from a switch without an operator's halt. -/
def run (k : KillSwitch) (steps : List SwitchStep) : Halt :=
  steps.foldl (apply isoformat) ⟨k, false⟩

/-- While the halt stands, every reading that succeeds is halted and lets
no exit through. -/
def Holds (h : Halt) : Prop :=
  h.standing → ∀ fileError mongoError, (h.switch.reading fileError mongoError).known →
    (h.switch.reading fileError mongoError).halted ∧
      (h.switch.reading fileError mongoError).exitsPermitted = false

/-- A place that is halted, if it is, by a setter that does not let exits
through. -/
def Firm (r : SourceReading) : Prop := r.halted → r.exitsPermitted = false

/-- A condition on a call that makes or meets a standing halt: what it
writes names no setter that lets exits through, a place it leaves does not
either, and one place is halted after it. -/
def Respects (h : Halt) (step : SwitchStep) : Prop :=
  match step.call with
  | .release _ _ => True
  | .engage reason setBy time =>
      Text.isMeaningful reason → (h.standing ∨ setBy ∉ exitPermittingSetters) →
        (step.fileLands ∨ step.mongoLands ∨ (FileSentinelKillSwitch.read h.switch.file).halted ∨
          (MongoKillSwitch.read h.switch.mongo).halted) ∧
        (if step.fileLands then
            (FileSentinelKillSwitch.read (some (FileSentinelKillSwitch.content isoformat reason
              setBy time))).exitsPermitted = false
          else Firm (FileSentinelKillSwitch.read h.switch.file)) ∧
        (if step.mongoLands then setBy ∉ exitPermittingSetters
          else Firm (MongoKillSwitch.read h.switch.mongo))

/-! ## One moment -/

variable {k : KillSwitch} {fileError mongoError : Option PyError}

/-- A place answers, and answers that it is halted. -/
def Says (error : Option PyError) (r : SourceReading) : Bool := error.isNone && r.halted

/-- **A reading by its places.** It is known if one says it is halted or
both answer, halted unless both answer that they are not, and lets exits
through if one says it is halted and every one that says so does. -/
theorem reading_eq : (k.reading fileError mongoError).known
      = (Says fileError (FileSentinelKillSwitch.read k.file) ||
        Says mongoError (MongoKillSwitch.read k.mongo) || (fileError.isNone && mongoError.isNone)) ∧
    (k.reading fileError mongoError).halted
      = (Says fileError (FileSentinelKillSwitch.read k.file) ||
        Says mongoError (MongoKillSwitch.read k.mongo) || fileError.isSome || mongoError.isSome) ∧
    (k.reading fileError mongoError).exitsPermitted
      = ((Says fileError (FileSentinelKillSwitch.read k.file) ||
          Says mongoError (MongoKillSwitch.read k.mongo)) &&
        (!Says fileError (FileSentinelKillSwitch.read k.file) ||
          (FileSentinelKillSwitch.read k.file).exitsPermitted) &&
        (!Says mongoError (MongoKillSwitch.read k.mongo) ||
          (MongoKillSwitch.read k.mongo).exitsPermitted)) := by
  unfold KillSwitch.reading KillSwitchMonitor.combine KillSwitch.results KillSwitchMonitor.halted
    KillSwitchMonitor.failed
  cases fileError <;> cases mongoError <;>
    cases hf : (FileSentinelKillSwitch.read k.file).halted <;>
    cases hm : (MongoKillSwitch.read k.mongo).halted <;> simp [Says, hf, hm]

/-- **When a standing halt holds**: one place is halted, and no place that
is lets exits through. -/
theorem holds_iff {h : Halt} : h.Holds ↔ (h.standing →
    ((FileSentinelKillSwitch.read h.switch.file).halted ∨
      (MongoKillSwitch.read h.switch.mongo).halted) ∧
    Firm (FileSentinelKillSwitch.read h.switch.file) ∧
    Firm (MongoKillSwitch.read h.switch.mongo)) := by
  unfold Holds Firm
  refine forall_congr' fun _ => ⟨fun hread => ?_, fun ⟨hone, hfile, hmongo⟩ e e' hknown => ?_⟩
  · -- the full reading, and the readings with one place out of reach
    have hfull := hread none none
    have hfile := hread none (some (.other "unreadable"))
    have hmongo := hread (some (.other "unreadable")) none
    simp only [reading_eq, Says] at hfull hfile hmongo
    cases hf : (FileSentinelKillSwitch.read h.switch.file).halted <;>
      cases hm : (MongoKillSwitch.read h.switch.mongo).halted <;> simp_all
  · simp only [reading_eq, Says] at hknown ⊢
    cases e <;> cases e' <;>
      cases hf : (FileSentinelKillSwitch.read h.switch.file).halted <;>
      cases hm : (MongoKillSwitch.read h.switch.mongo).halted <;> simp_all

/-! ## One call -/

omit k fileError mongoError in
/-- **A call keeps a halt exactly when it respects it.** -/
theorem holds_apply {h : Halt} {step : SwitchStep} (hh : h.Holds) :
    (h.apply isoformat step).Holds ↔ h.Respects isoformat step := by
  obtain ⟨call, fileLands, mongoLands⟩ := step
  cases call with
  | release setBy time => simp [Holds, apply, Respects]
  | engage reason setBy time =>
      rw [holds_iff] at hh ⊢
      unfold Respects apply KillSwitchControl.apply
      by_cases hreason : Text.isMeaningful reason
      · have hwritten : (MongoKillSwitch.read (some (MongoKillSwitch.record true reason setBy
            time))).exitsPermitted = decide (setBy ∈ exitPermittingSetters) := rfl
        have hhalted : ∀ content, (FileSentinelKillSwitch.read (some content)).halted = true :=
          fun _ => rfl
        have hhalted' : (MongoKillSwitch.read (some (MongoKillSwitch.record true reason setBy
            time))).halted = true := rfl
        cases fileLands <;> cases mongoLands <;>
          simp [hreason, Firm, hwritten, hhalted, hhalted']
      · simpa [hreason] using hh

omit k fileError mongoError in
variable {isoformat} in
/-- A standing halt that holds is kept by an engagement, where setters and
times are words, exactly when it is no tripwire's or nothing of it lands. -/
theorem respects_engage_iff {h : Halt} {reason setBy : String} {time : Timestamp}
    {fileLands mongoLands : Bool} (hh : h.Holds) (hstanding : h.standing)
    (hset : FileSentinelKillSwitch.IsWord setBy.toList)
    (htime : FileSentinelKillSwitch.IsWord (isoformat time).toList)
    (hreason : Text.isMeaningful reason) :
    h.Respects isoformat ⟨.engage reason setBy time, fileLands, mongoLands⟩ ↔
      (fileLands ∨ mongoLands → setBy ∉ exitPermittingSetters) := by
  obtain ⟨hone, hfile, hmongo⟩ := holds_iff.1 hh hstanding
  unfold Respects
  cases fileLands <;> cases mongoLands <;>
    simp [hreason, hstanding, hone, hfile, hmongo,
      FileSentinelKillSwitch.exitsPermitted_content hset htime]

/-! ## Histories -/

omit k fileError mongoError in
theorem run_append (k : KillSwitch) (steps : List SwitchStep) (step : SwitchStep) :
    run isoformat k (steps ++ [step]) = (run isoformat k steps).apply isoformat step := by
  simp [run]

omit k fileError mongoError in
/-- **An operator's halt stands, in a history whose every call respects
it, and in no other.** Over every sequence of calls by any setters, with
each write landing or not: at every moment the standing halt holds,
whichever places can be read, if and only if every call respected the halt
it met. -/
theorem operator_halt_holds_iff (isoformat : Timestamp → String) (k : KillSwitch)
    (steps : List SwitchStep) :
    (∀ before after, steps = before ++ after → (run isoformat k before).Holds) ↔
      ∀ before step after, steps = before ++ step :: after →
        (run isoformat k before).Respects isoformat step := by
  constructor
  · intro hholds before step after hsteps
    have hbefore := hholds before (step :: after) hsteps
    have hafter := hholds (before ++ [step]) after (by simp [hsteps])
    rw [run_append] at hafter
    exact (holds_apply isoformat hbefore).mp hafter
  · intro hrespects before
    induction before using List.reverseRecOn with
    | nil => exact fun _ _ h => absurd h (by simp [run])
    | append_singleton before step ih =>
        intro after hsteps
        rw [List.append_assoc] at hsteps
        rw [run_append, holds_apply isoformat (ih _ hsteps)]
        exact hrespects before step after hsteps

omit isoformat k fileError mongoError in
/-- An operator halts, a tripwire trips, and exits may pass. -/
theorem operator_halt_overwritten :
    ¬ ∀ (isoformat : Timestamp → String) (k : KillSwitch) (steps : List SwitchStep),
      (run isoformat k steps).Holds := by
  intro h
  have hread := h (fun _ => "1970-01-01T00:00:00+00:00") ⟨none, none⟩
    [⟨.engage "something is wrong" "operator" 0, true, true⟩,
     ⟨.engage "tripwire order_feed: no order updates" tripwireSetter 0, true, true⟩]
    (by decide) none none (by decide)
  exact absurd hread.2 (by decide)

end Halt

end Emporos
