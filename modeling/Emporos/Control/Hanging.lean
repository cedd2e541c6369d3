import Emporos.Control.Attempts
/-!
# Commands a failed call leaves

A call of the store or the log that fails ends the poll it is in
(`strict_poll`). Later polls look at pending commands only, so a command it
leaves accepted or executing stays so until the process restarts
(`kept_of_calm`). If none is left so, none is whenever no poll is running
(`clear_of_reach`).
-/

namespace Emporos

open Async

namespace ControlWorld

/-- No command is accepted or executing. -/
def Clear (w : ControlWorld) : Prop := ∀ c ∈ w.commands, c.status ∉ interrupted

variable {w w' : ControlWorld}

theorem Clear.others (h : Clear w) (ho : Others w w') : Clear w' := by
  intro c hc
  rcases ho.extends.added c hc with hc | hs
  · exact h c hc
  · rw [hs]
    decide

theorem Clear.extends (h : Clear w) (he : Extends w w') : Clear w' := by
  intro c hc
  rcases he.added c hc with hc | hs
  · exact h c hc
  · rw [hs]
    decide

theorem recovered_of_answers {c : controlInterface.Call}
    {a : Except PyError (controlInterface.Value c)} (h : Answers w c a w') :
    w'.recovered = w.recovered := by
  cases h with
  | unheard hc e => cases c <;> rfl
  | now | newId | alert | found | moved | logged | handled | lost => rfl

theorem recovered_of_others (h : Others w w') : w'.recovered = w.recovered := by
  cases h <;> rfl

end ControlWorld

namespace CommandProcessor

open ControlWorld CommandRepository

variable {d : Deployment}

/-! ## A failed call ends the poll -/

/-- A call of the store or the log. -/
def Stored (c : controlInterface.Call) : Prop := ControlCall.store c

theorem strict_log (id : String) (status : CommandStatus) (message : String)
    (data : List (String × String)) : (log id status message data).Strict Stored :=
  (Task.strict_ask _).bind fun _ => (Task.strict_ask _).bind fun _ => Task.strict_ask _

theorem strict_finish (id : String) (allowed : List CommandStatus) (o : CommandOutcome) :
    (finish id allowed o).Strict Stored :=
  (Task.strict_ask _).bind fun _ => (Task.strict_ask _).bind fun _ => strict_log _ _ _ _

theorem strict_outcome (kind : CommandType) (running : CommandRecord) :
    (outcome d kind running).Strict Stored := by
  refine (Task.strict_attempt_ask (by simp [Stored, ControlCall.store])).bind fun r => ?_
  cases r with
  | ok o => exact Task.strict_done _
  | error e => exact (Task.strict_ask _).bind fun _ => Task.strict_done _

theorem strict_carryOut (id : String) (running : CommandRecord) :
    (carryOut d id running).Strict Stored := by
  refine (strict_log _ _ _ _).bind fun _ => ?_
  split
  · exact strict_finish _ _ _
  · split
    · exact (strict_outcome _ _).bind fun _ => strict_finish _ _ _
    · exact strict_finish _ _ _

theorem strict_execute (id : String) (allowed : List CommandStatus) :
    (execute d id allowed).Strict Stored := by
  refine (Task.strict_ask _).bind fun _ => (Task.strict_ask _).bind fun running => ?_
  split
  · exact Task.strict_done _
  · exact strict_carryOut _ _

theorem strict_resume (commands : List CommandRecord) : (resume d commands).Strict Stored := by
  induction commands with
  | nil => exact Task.strict_done _
  | cons command rest ih =>
      unfold resume
      split
      · exact (strict_finish _ _ _).bind fun _ => ih
      · exact (strict_log _ _ _ _).bind fun _ => (strict_execute _ _).bind fun _ =>
          ih.bind fun _ => Task.strict_done _

theorem strict_process (command : CommandRecord) : (process d command).Strict Stored := by
  refine (Task.strict_ask _).bind fun now => ?_
  split
  · refine (Task.strict_ask _).bind fun expired => ?_
    split
    · exact (strict_log _ _ _ _).bind fun _ => Task.strict_done _
    · exact Task.strict_done _
  · refine (Task.strict_ask _).bind fun claimed => ?_
    split
    · exact (strict_log _ _ _ _).bind fun _ => (strict_execute _ _).bind fun _ =>
        Task.strict_done _
    · exact Task.strict_done _

theorem strict_processAll (commands : List CommandRecord) :
    (processAll d commands).Strict Stored := by
  induction commands with
  | nil => exact Task.strict_done _
  | cons command rest ih =>
      exact (strict_process _).bind fun _ => ih.bind fun _ => Task.strict_done _

theorem strict_runOnce : (runOnce d).Strict Stored :=
  (Task.strict_ask _).bind fun _ => strict_processAll _

theorem strict_poll (recovered : Bool) : (poll d recovered).Strict Stored := by
  unfold poll
  split
  · exact strict_runOnce
  · exact ((Task.strict_ask _).bind fun _ => strict_resume _).bind fun _ => strict_runOnce

/-- A poll that fails at a call of the store or the log has ended. -/
theorem ended_of_failed {S : Setting controlInterface PyError ℕ ControlWorld}
    {s s' : Solo controlInterface PyError ℕ ControlWorld} {c : controlInterface.Call} {e : PyError}
    (hs : ∀ p, s.job = some p → p.Strict Stored) (hc : Stored c)
    (h : Solo.Step S s (.call c (.error e)) s') : ∃ e', s'.job = some (.done (.error e')) := by
  cases h with
  | call ha =>
      obtain ⟨e', he⟩ := (hs _ rfl).1 hc e
      exact ⟨e', congrArg some he⟩

/-- Whatever happens, a job is strict, and its process has tried to
recover. -/
theorem strict_of_reach {clock : Timestamp} {s : Solo controlInterface PyError ℕ ControlWorld}
    (h : Solo.Reach (setting d) (fresh clock) s) :
    ∀ p, s.job = some p → p.Strict Stored ∧ s.world.recovered := by
  induction h with
  | refl => exact fun p hp => by cases hp
  | tail _ hstep ih =>
      obtain ⟨e, hstep⟩ := hstep
      intro p hp
      cases hstep with
      | start hstart =>
          obtain ⟨rfl, rfl⟩ := hstart
          obtain rfl := Option.some.inj hp
          exact ⟨strict_poll _, rfl⟩
      | call ha =>
          obtain rfl := Option.some.inj hp
          obtain ⟨hstrict, hrec⟩ := ih _ rfl
          exact ⟨hstrict.2 _, (recovered_of_answers ha).trans hrec⟩
      | finish => cases hp
      | others ho =>
          obtain ⟨hstrict, hrec⟩ := ih p hp
          exact ⟨hstrict, (recovered_of_others ho).trans hrec⟩
      | crash => cases hp

/-! ## Where no failed call leaves a command accepted or executing -/

/-- A call that fails leaves no command accepted or executing. -/
def Harmless (_ : ControlWorld) (c : controlInterface.Call)
    (a : Except PyError (controlInterface.Value c)) (w' : ControlWorld) : Prop :=
  ∀ e, a = .error e → Stored c → Clear w'

def harmless : Context where
  cond := Harmless
  extra _ := True
  touches _ := True
  failed := Clear
  extra_others _ _ _ := trivial
  extra_update _ _ _ := trivial
  extra_insert _ := trivial
  extra_handle _ _ _ _ _ _ := trivial
  touches_pending _ _ _ _ := trivial
  failed_of hc hcond := hcond _ rfl hc

/-- **A poll ends with no command accepted or executing**, if there was none
or it recovers first. -/
theorem keeps_poll_clear {recovered : Bool} {w : ControlWorld} (h : recovered → Clear w) :
    (rules d harmless).Keeps (poll d recovered) (fun _ => Clear) w := by
  have hrun : ∀ w', Clear w' → (rules d harmless).Keeps (runOnce d) (fun _ => Clear) w' :=
    fun w' hw' => keeps_runOnce.mono fun r w'' hr => by
      cases r with
      | error e => exact hr
      | ok _ =>
          obtain ⟨w₁, hext, hcleared⟩ := hr
          exact fun c hc hs => hw'.extends hext c (hcleared c hc hs).1 hs
  unfold poll
  cases hrec : recovered with
  | true => exact hrun w (h hrec)
  | false =>
      refine (Rules.keeps_bind _ _).mpr ((keeps_recover fun _ => trivial).mono fun r w₁ h₁ => ?_)
      cases r with
      | error e => exact h₁
      | ok _ => exact hrun w₁ h₁

/-- A process that has tried to recover and runs no poll: it has ended its
last one. -/
def Ended (s : Solo controlInterface PyError ℕ ControlWorld) : Prop :=
  s.world.recovered ∧ ∀ p, s.job = some p → ∃ r, p = .done r

/-- **Along every run**, no command is accepted or executing when no poll
runs. -/
theorem clear_of_reach {clock : Timestamp} {s : Solo controlInterface PyError ℕ ControlWorld}
    (h : Solo.Reach ((setting d).restrict Harmless) (fresh clock) s) :
    s.Sound (rules d harmless) (fun _ => Clear) ∧
      (s.job = none → s.world.recovered → Clear s.world) := by
  have hsame : ∀ {w : ControlWorld} (b : Bool), (rules d harmless).inv w →
      (rules d harmless).inv { w with recovered := b } ∧ Onward w { w with recovered := b } :=
    fun b hw => ⟨⟨hw.1.recovered b, trivial⟩, fun c hc => ⟨c, hc, rfl, .refl _⟩⟩
  induction h with
  | refl => exact ⟨⟨⟨sane_empty clock, trivial⟩, fun _ h => by cases h⟩, fun _ h => by cases h⟩
  | @tail s s' _ hstep ih =>
      obtain ⟨e, hstep⟩ := hstep
      obtain ⟨hsound, hidle⟩ := ih
      refine ⟨(hsound.step (fun hjob hp => ?_) (fun ho hr => hr.others ho)
        (fun _ => hsame false hsound.inv) hstep).1, fun hjob hrec => ?_⟩
      · obtain ⟨rfl, rfl⟩ := hp
        obtain ⟨hinv, honward⟩ := hsame true hsound.inv
        exact ⟨hinv, honward, keeps_poll_clear fun hrec => hidle hjob hrec⟩
      · cases hstep with
        | start => cases hjob
        | call => cases hjob
        | finish => exact hsound.job _ rfl
        | others ho =>
            have : Clear _ := hidle hjob ((recovered_of_others ho).symm.trans hrec)
            exact this.others ho
        | crash => cases hrec

/-! ## A command that is left stays -/

/-- A command that is accepted or executing, in a process that has tried to
recover. -/
def frozen (c : CommandRecord) (hs : c.status ∈ interrupted) : Context where
  cond _ _ _ _ := True
  extra w := c ∈ w.commands ∧ w.recovered
  touches id := id ≠ c.id
  failed _ := True
  extra_others _ h ho := ⟨ho.extends.kept c h.1, (recovered_of_others ho).trans h.2⟩
  extra_update _ h hid := ⟨mem_transition_of_ne h.1 hid.symm, h.2⟩
  extra_insert h := h
  extra_handle _ h _ _ _ _ := h
  touches_pending hw h hd hp hid := by
    obtain rfl := Table.eq_of_key hw.keys hd h.1 hid
    rw [hp] at hs
    exact absurd hs (by decide)
  failed_of _ _ := trivial

/-- **Without a restart, no poll touches it.** -/
theorem kept_of_calm {s s' : Solo controlInterface PyError ℕ ControlWorld} {c : CommandRecord}
    (hsane : Sane s.world) (hended : Ended s) (hc : c ∈ s.world.commands)
    (hs : c.status ∈ interrupted) (h : Solo.Calm (setting d) s s') : c ∈ s'.world.commands := by
  have hsound : s.Sound (rules d (frozen c hs)) fun _ _ => True := by
    refine ⟨⟨hsane, hc, hended.1⟩, fun p hp => ?_⟩
    obtain ⟨r, rfl⟩ := hended.2 p hp
    trivial
  have hcalm : Solo.Calm ((setting d).restrict (frozen c hs).cond) s s' :=
    h.restrict fun _ _ _ _ _ => trivial
  refine (hcalm.sound (fun hinv hp => ?_) (fun _ h => h) hsound).1.inv.2.1
  obtain ⟨rfl, rfl⟩ := hp
  refine ⟨⟨hinv.1.recovered true, hinv.2.1, rfl⟩, fun c hc => ⟨c, hc, rfl, .refl _⟩, ?_⟩
  refine (keeps_poll fun hrec => ?_).mono fun _ _ _ => trivial
  rw [hinv.2.2] at hrec
  cases hrec

/-! ## Main results -/

/-- Every command that is accepted or executing can still come to its end
without a restart. -/
def PickedUp (d : Deployment) (s : Solo controlInterface PyError ℕ ControlWorld) : Prop :=
  ∀ c ∈ s.world.commands, c.status ∈ interrupted →
    ∃ s', Solo.Calm (setting d) s s' ∧
      ∃ c' ∈ s'.world.commands, c'.id = c.id ∧ c'.status.terminal

/-- **What a failed call leaves is never picked up.** -/
theorem clear_of_pickedUp {clock : Timestamp}
    {s s' : Solo controlInterface PyError ℕ ControlWorld} {c : controlInterface.Call} {e : PyError}
    (hs : Solo.Reach (setting d) (fresh clock) s) (hc : Stored c)
    (hstep : Solo.Step (setting d) s (.call c (.error e)) s') (hpicked : PickedUp d s') :
    Clear s'.world := by
  intro x hx hxs
  have hreach : Solo.Reach (setting d) (fresh clock) s' := hs.tail ⟨_, hstep⟩
  have hended : Ended s' := by
    obtain ⟨e', he⟩ := ended_of_failed (fun p hp => (strict_of_reach hs p hp).1) hc hstep
    refine ⟨(strict_of_reach hreach _ he).2, fun p hp => ⟨.error e', ?_⟩⟩
    rw [he] at hp
    exact (Option.some.inj hp).symm
  obtain ⟨s'', hcalm, x', hx', hid, hterm⟩ := hpicked x hx hxs
  have hkept := kept_of_calm (rules_plain_of_reach hreach).inv.1 hended hx hxs hcalm
  have hsane := (rules_plain_of_reach (hreach.trans hcalm.reach)).inv.1
  obtain rfl := Table.eq_of_key hsane.keys hx' hkept hid
  rw [(CommandStatus.of_interrupted hxs).1] at hterm
  cases hterm

/-- **When commands are picked up.** After a call that fails, in any run, the
commands that are accepted or executing can come to their end without a
restart exactly if there are none; and in runs where no failed call leaves
one, there is none whenever no poll is running. -/
theorem pickedUp_iff (d : Deployment) (clock : Timestamp) :
    (∀ (s s' : Solo controlInterface PyError ℕ ControlWorld) (c : controlInterface.Call)
      (e : PyError), Solo.Reach (setting d) (fresh clock) s → Stored c →
      Solo.Step (setting d) s (.call c (.error e)) s' →
      (PickedUp d s' ↔ Clear s'.world)) ∧
    ∀ s : Solo controlInterface PyError ℕ ControlWorld,
      Solo.Reach ((setting d).restrict Harmless) (fresh clock) s → Ended s → Clear s.world := by
  constructor
  · intro s s' c e hs hc hstep
    exact ⟨clear_of_pickedUp hs hc hstep, fun hclear x hx hxs => absurd hxs (hclear x hx)⟩
  · intro s hs ⟨hrec, hdone⟩
    obtain ⟨hsound, hidle⟩ := clear_of_reach hs
    cases hjob : s.job with
    | none => exact hidle hjob hrec
    | some p =>
        obtain ⟨r, rfl⟩ := hdone p hjob
        exact hsound.job _ hjob

/-- A program whose next call is one of the store or the log. -/
def storing : Control ℕ → Bool
  | .call c _ => ControlCall.store c
  | .done _ => false

/-- **The log fails once the command is claimed.** -/
theorem left_by_failed_log : ¬ ∀ (d : Deployment) (clock : Timestamp)
    (s s' : Solo controlInterface PyError ℕ ControlWorld) (c : controlInterface.Call)
    (e : PyError), Solo.Reach (setting d) (fresh clock) s → Stored c →
    Solo.Step (setting d) s (.call c (.error e)) s' → PickedUp d s' := by
  intro h
  -- six calls are answered, and the seventh writes ACCEPTED to the log
  have hreach : Solo.Reach (setting bare) (fresh 5) (polled (fun _ => true) 6) :=
    (reach_asked rfl).trans (reach_polled (fun _ => true) 6).of_restrict
  have hnext : (polled (fun _ => true) 6).job.any storing := by decide +kernel
  have hleft : ∃ c ∈ (polled (fun _ => true) 6).world.commands, c.status ∈ interrupted := by
    decide +kernel
  obtain ⟨p, hp, hstoring⟩ := (Option.any_eq_true _ _).mp hnext
  cases p with
  | done r => cases hstoring
  | call c k =>
      have hstep : Solo.Step (setting bare) (polled (fun _ => true) 6)
          (.call c (.error (.other "ConnectionError")))
          ⟨(polled (fun _ => true) 6).world, some (k (.error (.other "ConnectionError")))⟩ := by
        generalize polled (fun _ => true) 6 = s at hp
        obtain ⟨w, job⟩ := s
        obtain rfl : job = some (.call c k) := hp
        exact .call (.lost hstoring _)
      have hpicked := h bare 5 _ _ c _ hreach hstoring hstep
      obtain ⟨x, hx, hxs⟩ := hleft
      exact clear_of_pickedUp hreach hstoring hstep hpicked x hx hxs

end CommandProcessor

end Emporos
