import Emporos.Async.Pool
import Emporos.Graduation.Stages
import Mathlib.Data.List.MinMax
/-!
# The graduation service

`promote`, `demote` and `retire` as tasks that await the ledger and the
requirements. Each reads the newest event once and, in the end, appends one
event numbered after it; in between others may append. The ledger refuses a
number that a strategy already has an event of.

What a requirement answers, or raises, is open, and so is when a call to
the ledger fails from outside: an append that fails so may have been
written.
-/

namespace Emporos

namespace Graduation

open Async

inductive GraduationError
  /-- `PromotionRefused`. -/
  | refused (reasons : List String)
  /-- `InvalidTransition`. -/
  | invalidTransition (message : String)
  /-- `GraduationConflictError`: another transition took the number first. -/
  | conflict (strategy : String) (seq : ℕ)
  | valueError (message : String)
  /-- Any other exception, by the name of its class. -/
  | other (name : String)
  deriving DecidableEq

/-- What the service awaits, for requirements of a type. -/
inductive Call (R : Type)
  | latest (strategy : String)
  | assess (requirement : R) (request : PromotionRequest)
  | now
  | append (event : GraduationEvent)
  deriving DecidableEq

variable {R : Type}

/-- What each call returns. -/
abbrev Call.Value : Call R → Type
  | .latest _ => Option GraduationEvent
  | .assess .. => Assessment
  | .now => Timestamp
  | .append _ => Unit

abbrev Call.Answer (c : Call R) : Type := Except GraduationError c.Value

/-- The interface of the service. -/
abbrev calls (R : Type) : Interface := ⟨Call R, Call.Value⟩

abbrev Program (R α : Type) := Task (calls R) GraduationError α

/-- What a service is built with: its policy, and how a requirement and an
exception read in a text. -/
structure Settings (R : Type) where
  policy : StagePolicy R
  name : R → String
  repr : GraduationError → String

structure RequirementReport where
  name : String
  assessment : Assessment

namespace GraduationService

open Task

variable (cfg : Settings R)

/-- `_require_next_stage`. -/
def requireNextStage (stage target : GraduationStage) : Except GraduationError Unit :=
  if stage = .retired then .error (.refused ["a retired strategy cannot be promoted"])
  else
    match GraduationGate.advanceDeployment (toDeployment stage) (toDeployment target) with
    | .ok () => .ok ()
    | .error message => .error (.refused [message])

/-- What a requirement that raised comes to. -/
def assessmentOf (requirement : R) : Except GraduationError Assessment → Assessment
  | .ok assessment => assessment
  | .error e => .refused (cfg.name requirement ++ " could not be checked: " ++ cfg.repr e)

/-- `_assess`, one requirement after another. -/
def assess (request : PromotionRequest) : List R → Program R (List RequirementReport)
  | [] => pure []
  | requirement :: rest => do
      let outcome ← (ask (I := calls R) (.assess requirement request)).attempt
      let reports ← assess request rest
      pure (⟨cfg.name requirement, assessmentOf cfg requirement outcome⟩ :: reports)

/-- `1 if latest is None else latest.seq + 1`. -/
def nextSeq : Option GraduationEvent → ℕ
  | none => 1
  | some latest => latest.seq + 1

/-- `_append`. -/
def append (latest : Option GraduationEvent) (strategy behaviourHash : String)
    (origin target : GraduationStage) (kind : TransitionKind) (evidence : List EvidenceRef)
    (actor reason : String) : Program R GraduationEvent := do
  let moment ← ask (I := calls R) .now
  let event ← lift ((GraduationEvent.make strategy behaviourHash (nextSeq latest) origin target
    kind evidence actor reason moment).mapError .valueError)
  ask (I := calls R) (.append event)
  pure event

def promote (strategy behaviourHash : String) (target : GraduationStage) (actor : String)
    (experimentId : Option String) (jevEnabled : Bool) : Program R GraduationEvent := do
  let latest ← ask (I := calls R) (.latest strategy)
  let stage := effectiveStage latest behaviourHash
  lift (requireNextStage stage target)
  if cfg.policy.promotable target = false then
    raise (.refused [target.value ++ " is not promotable"])
  else do
    let request : PromotionRequest :=
      ⟨strategy, behaviourHash, stage, target, actor, experimentId, jevEnabled⟩
    let reports ← assess cfg request (cfg.policy.requirementsFor target)
    -- two requirements can refuse for one cause, which is said once
    let reasons := (reports.filterMap fun r => r.assessment.refusal).eraseDups
    if reasons ≠ [] then raise (.refused reasons)
    else do
      let evidence := reports.filterMap fun r => r.assessment.evidence
      if evidence = [] then
        raise (.refused ["no requirement cited any evidence for this promotion"])
      else
        append latest strategy behaviourHash stage target .promote evidence actor
          ("promoted to " ++ target.value)

def demote (strategy behaviourHash : String) (target : GraduationStage) (actor reason : String) :
    Program R GraduationEvent := do
  let latest ← ask (I := calls R) (.latest strategy)
  let stage := effectiveStage latest behaviourHash
  if stage = .retired ∨ target = .retired then
    raise (.invalidTransition "use retire, not demote, to take a strategy off the road")
  else if stage.rank ≤ target.rank then
    raise (.invalidTransition (strategy ++ " is at " ++ stage.value ++
      ": it cannot be demoted to " ++ target.value))
  else append latest strategy behaviourHash stage target .demote [] actor reason

def retire (strategy behaviourHash actor reason : String) : Program R GraduationEvent := do
  let latest ← ask (I := calls R) (.latest strategy)
  let stage := effectiveStage latest behaviourHash
  if stage = .retired then
    raise (.invalidTransition (strategy ++ " is already retired"))
  else append latest strategy behaviourHash stage .retired .retire [] actor reason

end GraduationService

/-- One call of the service by anyone. -/
inductive Op
  | promote (strategy behaviourHash : String) (target : GraduationStage) (actor : String)
      (experimentId : Option String) (jevEnabled : Bool)
  | demote (strategy behaviourHash : String) (target : GraduationStage) (actor reason : String)
  | retire (strategy behaviourHash actor reason : String)

def Op.program (cfg : Settings R) : Op → Program R GraduationEvent
  | promote strategy behaviourHash target actor experimentId jevEnabled =>
      GraduationService.promote cfg strategy behaviourHash target actor experimentId jevEnabled
  | demote strategy behaviourHash target actor reason =>
      GraduationService.demote strategy behaviourHash target actor reason
  | retire strategy behaviourHash actor reason =>
      GraduationService.retire strategy behaviourHash actor reason

/-! ## The ledger -/

/-- A call of a task with its answer. -/
structure Entry (R : Type) where
  task : ℕ
  call : Call R
  answer : call.Answer

/-- The events of all strategies and the calls made, newest first. -/
structure World (R : Type) where
  ledger : List GraduationEvent
  trace : List (Entry R)

namespace World

def start : World R := ⟨[], []⟩

/-- The events of a strategy, newest first. -/
def history (ledger : List GraduationEvent) (strategy : String) : List GraduationEvent :=
  ledger.filter fun e => e.strategy = strategy

/-- The event of a strategy with the highest number. -/
def latestOf (ledger : List GraduationEvent) (strategy : String) : Option GraduationEvent :=
  (history ledger strategy).argmax (·.seq)

/-- The ledger has an event of that strategy and number. -/
def Taken (ledger : List GraduationEvent) (event : GraduationEvent) : Prop :=
  ∃ e ∈ ledger, e.strategy = event.strategy ∧ e.seq = event.seq

/-- How the ledger may answer, and what it holds then. -/
inductive Serves (ledger : List GraduationEvent) :
    (c : Call R) → c.Answer → List GraduationEvent → Prop
  | latest {strategy : String} : Serves ledger (.latest strategy) (.ok (latestOf ledger strategy)) ledger
  | assess {requirement : R} {request : PromotionRequest}
      {answer : (Call.assess requirement request).Answer} :
      Serves ledger (.assess requirement request) answer ledger
  | now {moment : Timestamp} : Serves ledger .now (.ok moment) ledger
  | appended {event : GraduationEvent} {answer : (Call.append (R := R) event).Answer}
      (free : ¬ Taken ledger event) : Serves ledger (.append event) answer (event :: ledger)
  | conflict {event : GraduationEvent} (taken : Taken ledger event) :
      Serves ledger (.append event) (.error (.conflict event.strategy event.seq)) ledger
  | failed {c : Call R} {name : String} : Serves ledger c (.error (.other name)) ledger

end World

/-- The ledger as a platform. Nothing is lost when the process ends. -/
def platform (R : Type) : Platform (calls R) GraduationError (World R) where
  step t w c a w' := World.Serves w.ledger c a w'.ledger ∧ w'.trace = ⟨t, c, a⟩ :: w.trace
  restart w := w

/-- The pools that any calls of the service reach, interleaved at their
awaits, from an empty ledger. -/
def Run (cfg : Settings R) (s : Pool (calls R) GraduationError GraduationEvent (World R)) : Prop :=
  Pool.Reachable (platform R) (fun p => ∃ op : Op, p = op.program cfg) (Pool.idle World.start 0) s

end Graduation

end Emporos
