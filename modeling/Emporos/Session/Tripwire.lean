import Emporos.Risk.Halts
/-!
# The anomaly tripwire

The tripwire polls its detectors, and the first anomaly halts trading
through the kill switch. Two latches tell it that it has halted already:
`tripped`, and whether it has since seen the switch set. A poll of a
tripped tripwire asks no detector. It only reads the switch, and one that
is clear after it has been seen set re-arms the tripwire for the next poll.

Other parties write the switch between two polls, and inside one.
-/

namespace Emporos

structure Anomaly where
  detector : String
  reason : String
  deriving DecidableEq

/-- How a write of one place ends: heard of, landed but timed out, or not
landed. -/
inductive WriteOutcome
  | done
  | unheard
  | lost
  deriving DecidableEq

namespace WriteOutcome

def lands : WriteOutcome → Bool
  | done | unheard => true
  | lost => false

end WriteOutcome

/-- `KillSwitchHalt.halt`, after its engagement: it raises if no place
answered. -/
def KillSwitchHalt.halt (fileWrite mongoWrite : WriteOutcome) : Except PyError Unit :=
  if fileWrite = .done ∨ mongoWrite = .done then .ok () else .error (.other "RuntimeError")

/-- The latches. -/
structure AnomalyTripwire where
  tripped : Bool
  seenHalted : Bool

/-- What a poll leaves: the latches, the alert it raised, the reason of
the halt it attempted, and how it ended. -/
structure TripwireOutcome where
  tripwire : AnomalyTripwire
  alert : Option (String × String)
  halt : Option String
  result : Except PyError (Option Anomaly)

namespace AnomalyTripwire

/-- A tripwire before its first poll. -/
def initial : AnomalyTripwire := ⟨false, false⟩

variable (repr : PyError → String)

/-- The first anomaly, by the detectors' answers in their order. A
detector that cannot answer is one. -/
def anomaly : List (String × Except PyError (Option Anomaly)) → Option Anomaly
  | [] => none
  | (_, .ok none) :: checks => anomaly checks
  | (_, .ok (some a)) :: _ => some a
  | (name, .error e) :: _ => some ⟨name, "the detector failed: " ++ repr e⟩

/-- What an attempt to halt says. -/
def reason (a : Anomaly) : String := "tripwire " ++ a.detector ++ ": " ++ a.reason

/-- `_trip`: the latches are set before the halt is attempted. -/
def trip (a : Anomaly) (halt : Except PyError Unit) : TripwireOutcome :=
  { tripwire := ⟨true, false⟩
    alert := some ("tripwire_halt", reason a)
    halt := some (reason a)
    result := halt.map fun _ => some a }

/-- `_maybe_rearm`. -/
def maybeRearm (t : AnomalyTripwire) (halted : Bool) : AnomalyTripwire :=
  if halted then { t with seenHalted := true }
  else if t.seenHalted then { t with tripped := false }
  else t

/-- One poll: the detectors' answers, what a reading of the switch says,
and how a halt would end. -/
def runOnce (t : AnomalyTripwire) (checks : List (String × Except PyError (Option Anomaly)))
    (halted : Bool) (halt : Except PyError Unit) : TripwireOutcome :=
  if t.tripped then ⟨t.maybeRearm halted, none, none, .ok none⟩
  else match anomaly repr checks with
    | some a => trip a halt
    | none => ⟨t, none, none, .ok none⟩

variable {repr}

/-- An anomaly is found exactly when a detector reports one or cannot
answer. -/
theorem anomaly_isSome_iff {checks : List (String × Except PyError (Option Anomaly))} :
    (anomaly repr checks).isSome ↔ ∃ check ∈ checks, check.2 ≠ .ok none := by
  induction checks with
  | nil => simp [anomaly]
  | cons check checks ih =>
      obtain ⟨name, answer⟩ := check
      rcases answer with e | _ | a
      · simp [anomaly]
      · simp [anomaly, ih]
      · simp [anomaly]

/-- **A poll attempts a halt exactly when it is not tripped and finds an
anomaly.** -/
theorem halt_isSome_iff {t : AnomalyTripwire}
    {checks : List (String × Except PyError (Option Anomaly))} {halted : Bool}
    {halt : Except PyError Unit} :
    (t.runOnce repr checks halted halt).halt.isSome ↔
      t.tripped = false ∧ (anomaly repr checks).isSome := by
  unfold runOnce
  by_cases ht : t.tripped
  · simp [ht]
  · cases ha : anomaly repr checks <;> simp [ht, trip]

theorem isMeaningful_reason (a : Anomaly) : Text.isMeaningful (reason a) := by
  simp [Text.isMeaningful, reason, Text.isSpace]

/-- A poll that reports an anomaly has halted trading for it. -/
theorem halt_of_result {t : AnomalyTripwire}
    {checks : List (String × Except PyError (Option Anomaly))} {halted : Bool}
    {halt : Except PyError Unit} {a : Anomaly}
    (h : (t.runOnce repr checks halted halt).result = .ok (some a)) :
    (t.runOnce repr checks halted halt).halt = some (reason a) ∧ halt = .ok () := by
  unfold runOnce at h ⊢
  by_cases ht : t.tripped
  · simp [ht] at h
  · cases ha : anomaly repr checks with
    | none => simp [ht, ha] at h
    | some b =>
        cases halt with
        | error e => simp [ht, ha, trip, Except.map] at h
        | ok =>
            obtain rfl : b = a := by simpa [ht, ha, trip, Except.map] using h
            simp [ht, trip]

end AnomalyTripwire

/-! ## Histories -/

/-- A poll, with what it meets: what each detector answers if it is asked,
how the switch answers, and which writes of other parties fall inside the
poll: the file is read or written after the first `fileAt` of them, the
document after the first `mongoAt`. -/
structure TripwirePoll where
  checks : List (String × Except PyError (Option Anomaly))
  time : Timestamp
  fileError : Option PyError
  mongoError : Option PyError
  fileWrite : WriteOutcome
  mongoWrite : WriteOutcome
  during : List SwitchStep
  fileAt : ℕ
  mongoAt : ℕ

/-- A poll, or a write of the switch by another party. -/
inductive TripwireEvent
  | other (step : SwitchStep)
  | poll (p : TripwirePoll)

/-- What a poll read of the switch, and whether it attempted a halt. -/
structure PollRecord where
  halted : Bool
  attempted : Bool

/-- The switch, the tripwire, and the polls so far. -/
structure Watch where
  switch : KillSwitch
  tripwire : AnomalyTripwire
  log : List PollRecord

namespace TripwirePoll

variable (isoformat : Timestamp → String)

/-- The two places, each after its part of what other parties write during
the poll, `own` between that part and the rest. -/
def across (p : TripwirePoll) (k : KillSwitch) (own : List SwitchStep)
    (rest : Bool) : KillSwitch :=
  let place (n : ℕ) : KillSwitch :=
    (p.during.take n ++ own ++ if rest then p.during.drop n else []).foldl
      (KillSwitchControl.apply isoformat) k
  { file := (place p.fileAt).file, mongo := (place p.mongoAt).mongo }

/-- What the switch reads at the poll. -/
def halted (p : TripwirePoll) (k : KillSwitch) : Bool :=
  ((p.across isoformat k [] false).reading p.fileError p.mongoError).halted

/-- The tripwire's engagement of the switch. -/
def engagement (p : TripwirePoll) (reason : String) : SwitchStep :=
  ⟨.engage reason tripwireSetter p.time, p.fileWrite.lands, p.mongoWrite.lands⟩

end TripwirePoll

namespace Watch

variable (isoformat : Timestamp → String) (repr : PyError → String)

/-- What a poll of the tripwire does here. -/
def outcome (w : Watch) (p : TripwirePoll) : TripwireOutcome :=
  w.tripwire.runOnce repr p.checks (p.halted isoformat w.switch)
    (KillSwitchHalt.halt p.fileWrite p.mongoWrite)

def apply (w : Watch) : TripwireEvent → Watch
  | .other step => { w with switch := KillSwitchControl.apply isoformat w.switch step }
  | .poll p =>
      let o := w.outcome isoformat repr p
      { switch := p.across isoformat w.switch (o.halt.toList.map p.engagement) true
        tripwire := o.tripwire
        log := w.log ++ [⟨p.halted isoformat w.switch, o.halt.isSome⟩] }

/-- The history from a fresh tripwire. -/
def run (k : KillSwitch) (events : List TripwireEvent) : Watch :=
  events.foldl (apply isoformat repr) ⟨k, .initial, []⟩

/-- The poll finds an anomaly, and the switch reads clear at it. -/
def Alarmed (w : Watch) (p : TripwirePoll) : Prop :=
  (AnomalyTripwire.anomaly repr p.checks).isSome ∧ p.halted isoformat w.switch = false

/-- A poll read the switch set, and a later one read it clear. -/
def Resumed (polls : List PollRecord) : Prop :=
  ∃ waiting seen between clear rest, polls = waiting ++ seen :: between ++ clear :: rest ∧
    seen.halted ∧ clear.halted = false

/-- After every attempt to halt, a poll read the switch set and a later
one read it clear. -/
def Rearmed (log : List PollRecord) : Prop :=
  ∀ before attempt after, log = before ++ attempt :: after → attempt.attempted → Resumed after

/-! ## The latches follow the polls -/

theorem Resumed.append {polls : List PollRecord} (h : Resumed polls) (more : List PollRecord) :
    Resumed (polls ++ more) := by
  obtain ⟨waiting, seen, between, clear, rest, rfl, hseen, hclear⟩ := h
  exact ⟨waiting, seen, between, clear, rest ++ more, by simp, hseen, hclear⟩

/-- One more poll resumes if it reads clear after one that read the switch
set. -/
theorem resumed_snoc {polls : List PollRecord} {poll : PollRecord} :
    Resumed (polls ++ [poll]) ↔
      Resumed polls ∨ (poll.halted = false ∧ ∃ seen ∈ polls, seen.halted) := by
  constructor
  · rintro ⟨waiting, seen, between, clear, rest, hpolls, hseen, hclear⟩
    rcases List.eq_nil_or_concat' rest with rfl | ⟨rest', last, rfl⟩
    · rw [List.append_inj_left' hpolls rfl]
      obtain rfl : poll = clear := by simpa using (List.append_inj_right' hpolls rfl)
      exact Or.inr ⟨hclear, seen, by simp, hseen⟩
    · have hpolls' : polls ++ [poll] =
          (waiting ++ seen :: between ++ clear :: rest') ++ [last] := by simpa using hpolls
      exact Or.inl ⟨waiting, seen, between, clear, rest', List.append_inj_left' hpolls' rfl,
        hseen, hclear⟩
  · rintro (h | ⟨hclear, seen, hmem, hseen⟩)
    · exact h.append _
    · obtain ⟨waiting, between, rfl⟩ := List.append_of_mem hmem
      exact ⟨waiting, seen, between, poll, [], by simp, hseen, hclear⟩

/-- What the latches know of the polls: a tripwire that is not tripped is
re-armed, and a tripped one waits since its last attempt. -/
structure Latched (log : List PollRecord) (t : AnomalyTripwire) : Prop where
  armed : t.tripped = false → Rearmed log
  waiting : t.tripped → ∃ before attempt after, log = before ++ attempt :: after ∧
    Rearmed before ∧ attempt.attempted ∧ (∀ r ∈ after, r.attempted = false) ∧ ¬ Resumed after ∧
    (t.seenHalted ↔ ∃ r ∈ after, r.halted)

/-- A tripwire is re-armed exactly when it is not tripped. -/
theorem Latched.tripped_iff {log : List PollRecord} {t : AnomalyTripwire} (h : Latched log t) :
    t.tripped = false ↔ Rearmed log := by
  refine ⟨h.armed, fun hlog => ?_⟩
  by_contra htripped
  obtain ⟨before, attempt, after, hsplit, -, hattempt, -, hnot, -⟩ := h.waiting (by simpa using htripped)
  exact hnot (hlog before attempt after hsplit hattempt)

/-- A log with one more poll that attempts nothing. -/
theorem Rearmed.snoc {log : List PollRecord} {poll : PollRecord} (h : Rearmed log)
    (hpoll : poll.attempted = false) : Rearmed (log ++ [poll]) := by
  intro before attempt after hsplit hattempt
  rcases List.eq_nil_or_concat' after with rfl | ⟨after', last, rfl⟩
  · obtain rfl : poll = attempt := by simpa using List.append_inj_right' hsplit rfl
    simp [hpoll] at hattempt
  · have hsplit' : log ++ [poll] = (before ++ attempt :: after') ++ [last] := by
      simpa using hsplit
    exact (h before attempt after' (List.append_inj_left' hsplit' rfl) hattempt).append _

/-- Once the last attempt is resumed, all are. -/
theorem rearmed_of_resumed {before after : List PollRecord} {attempt : PollRecord}
    (hbefore : Rearmed before) (hafter : ∀ r ∈ after, r.attempted = false)
    (hresumed : Resumed after) : Rearmed (before ++ attempt :: after) := by
  intro b a c hsplit ha
  rcases List.append_eq_append_iff.mp hsplit with ⟨d, rfl, hd⟩ | ⟨d, rfl, hd⟩
  · -- at or after the last attempt
    rcases d with _ | ⟨first, d⟩
    · obtain ⟨rfl, rfl⟩ : attempt = a ∧ after = c := by simpa using hd
      exact hresumed
    · obtain ⟨rfl, rfl⟩ : attempt = first ∧ after = d ++ a :: c := by simpa using hd
      simp [hafter a (by simp)] at ha
  · -- at or before it
    rcases d with _ | ⟨first, d⟩
    · obtain ⟨rfl, rfl⟩ : a = attempt ∧ c = after := by simpa using hd
      exact hresumed
    · obtain ⟨rfl, rfl⟩ : a = first ∧ c = d ++ attempt :: after := by simpa using hd
      exact (hbefore b a d rfl ha).append _

/-- **A poll keeps the latches in step with the log.** -/
theorem Latched.outcome {w : Watch} {p : TripwirePoll} (h : Latched w.log w.tripwire) :
    Latched (w.log ++ [⟨p.halted isoformat w.switch, (w.outcome isoformat repr p).halt.isSome⟩])
      (w.outcome isoformat repr p).tripwire := by
  unfold Watch.outcome AnomalyTripwire.runOnce
  by_cases htripped : w.tripwire.tripped
  · simp only [htripped, if_true, Option.isSome_none]
    obtain ⟨before, attempt, after, hlog, hbefore, hattempt, hafter, hnot, hseen⟩ :=
      h.waiting htripped
    have hmore : ∀ r ∈ after ++ [⟨p.halted isoformat w.switch, false⟩], r.attempted = false := by
      intro r hr
      rcases List.mem_append.mp hr with hr | hr
      · exact hafter r hr
      · simp [List.mem_singleton.mp hr]
    have hsplit : w.log ++ [⟨p.halted isoformat w.switch, false⟩]
        = before ++ attempt :: (after ++ [⟨p.halted isoformat w.switch, false⟩]) := by
      simp [hlog]
    unfold AnomalyTripwire.maybeRearm
    by_cases hread : p.halted isoformat w.switch
    · -- the switch is seen set
      rw [if_pos hread]
      refine ⟨fun hfalse => by simp [htripped] at hfalse, fun _ =>
        ⟨before, attempt, _, hsplit, hbefore, hattempt, hmore, ?_, by simp [hread]⟩⟩
      rw [resumed_snoc]
      simpa [hread] using hnot
    · rw [if_neg hread]
      by_cases hset : w.tripwire.seenHalted
      · -- the switch is clear again: the tripwire re-arms
        rw [if_pos hset]
        refine ⟨fun _ => ?_, fun htrue => by simp at htrue⟩
        rw [hsplit]
        refine rearmed_of_resumed hbefore hmore (resumed_snoc.2 (Or.inr ⟨?_, hseen.mp hset⟩))
        simpa using hread
      · rw [if_neg hset]
        refine ⟨fun hfalse => by simp [htripped] at hfalse, fun _ =>
          ⟨before, attempt, _, hsplit, hbefore, hattempt, hmore, ?_, ?_⟩⟩
        · rw [resumed_snoc]
          rintro (hresumed | ⟨-, hsome⟩)
          · exact hnot hresumed
          · exact hset (hseen.mpr hsome)
        · simpa [hread] using hseen
  · simp only [htripped]
    have hlog := h.armed (by simpa using htripped)
    cases ha : AnomalyTripwire.anomaly repr p.checks with
    | none =>
        refine ⟨fun _ => hlog.snoc rfl, fun htrue => absurd htrue htripped⟩
    | some a =>
        refine ⟨fun hfalse => by simp [AnomalyTripwire.trip] at hfalse, fun _ =>
          ⟨w.log, _, [], rfl, hlog, rfl, by simp, ?_, by simp [AnomalyTripwire.trip]⟩⟩
        rintro ⟨waiting, seen, between, clear, rest, hnil, -⟩
        simp at hnil

/-- **The latches follow every history.** -/
theorem latched_run (k : KillSwitch) (events : List TripwireEvent) :
    Latched (run isoformat repr k events).log (run isoformat repr k events).tripwire := by
  induction events using List.reverseRecOn with
  | nil =>
      refine ⟨fun _ before attempt after hsplit => ?_, fun htripped => ?_⟩
      · simp [run] at hsplit
      · simp [run, AnomalyTripwire.initial] at htripped
  | append_singleton events event ih =>
      have hstep : run isoformat repr k (events ++ [event])
          = (run isoformat repr k events).apply isoformat repr event := by simp [run]
      rw [hstep]
      cases event with
      | other step => exact ih
      | poll p => exact ih.outcome isoformat repr

/-! ## Main results -/

/-- **A halt that was heard of is read.** Where the attempt does not raise
and nobody else writes during it, the switch reads set right after it,
whichever places can be read. -/
theorem halted_of_heard {w : Watch} {p : TripwirePoll} {a : Anomaly}
    (hheard : (w.outcome isoformat repr p).result = .ok (some a)) (hquiet : p.during = [])
    (fileError mongoError : Option PyError) :
    ((w.apply isoformat repr (.poll p)).switch.reading fileError mongoError).halted := by
  obtain ⟨hhalt, hwrites⟩ := AnomalyTripwire.halt_of_result hheard
  have hplaces : p.fileWrite = .done ∨ p.mongoWrite = .done := by
    by_contra hnone
    simp [KillSwitchHalt.halt, hnone] at hwrites
  have hswitch : (w.apply isoformat repr (.poll p)).switch
      = KillSwitchControl.apply isoformat w.switch (p.engagement (AnomalyTripwire.reason a)) := by
    simp only [apply, outcome, hhalt]
    simp [TripwirePoll.across, hquiet]
  rw [hswitch, Halt.reading_eq.2.1]
  simp only [KillSwitchControl.apply, TripwirePoll.engagement,
    AnomalyTripwire.isMeaningful_reason, if_true]
  rcases hplaces with hfile | hmongo
  · cases fileError <;> simp [hfile, WriteOutcome.lands, Halt.Says, FileSentinelKillSwitch.read]
  · cases mongoError <;>
      simp [hmongo, WriteOutcome.lands, Halt.Says, MongoKillSwitch.read, MongoKillSwitch.record]

/-- **The tripwire is never blind where it is re-armed, and only there.**
Over every history of polls, of halts and resumes by others, between two
polls and inside one, with each write and each reading failing or not: at
every poll that finds an anomaly while the switch reads clear the tripwire
attempts to halt, if and only if before every such poll each earlier
attempt was followed by a poll that read the switch set and a later one
that read it clear. -/
theorem tripwire_attempts_iff (isoformat : Timestamp → String) (repr : PyError → String)
    (k : KillSwitch) (events : List TripwireEvent) :
    (∀ before p after, events = before ++ .poll p :: after →
      (run isoformat repr k before).Alarmed isoformat repr p →
        ((run isoformat repr k before).outcome isoformat repr p).halt.isSome) ↔
      ∀ before p after, events = before ++ .poll p :: after →
        (run isoformat repr k before).Alarmed isoformat repr p →
          Rearmed (run isoformat repr k before).log := by
  refine forall_congr' fun before => forall_congr' fun p => forall_congr' fun _ =>
    forall_congr' fun _ => forall_congr' fun halarmed => ?_
  have hlatched := latched_run isoformat repr k before
  rw [outcome, AnomalyTripwire.halt_isSome_iff, hlatched.tripped_iff]
  exact and_iff_left halarmed.1

/-- The halt reaches no place, and the next poll finds the anomaly again
and does nothing. -/
theorem tripwire_blind_after_lost_halt :
    ¬ ∀ (isoformat : Timestamp → String) (repr : PyError → String) (k : KillSwitch)
      (events : List TripwireEvent) (before : List TripwireEvent) (p : TripwirePoll)
      (after : List TripwireEvent), events = before ++ .poll p :: after →
        (run isoformat repr k before).Alarmed isoformat repr p →
          ((run isoformat repr k before).outcome isoformat repr p).halt.isSome := by
  intro h
  let p : TripwirePoll :=
    { checks := [("order_update_gap", .ok (some ⟨"order_update_gap", "no order updates"⟩))]
      time := 0
      fileError := none
      mongoError := none
      fileWrite := .lost
      mongoWrite := .lost
      during := []
      fileAt := 0
      mongoAt := 0 }
  have hattempt := h (fun _ => "") (fun _ => "") ⟨none, none⟩ [.poll p, .poll p] [.poll p] p [] rfl
    (by unfold Alarmed; decide)
  exact absurd hattempt (by decide)

end Watch

end Emporos
