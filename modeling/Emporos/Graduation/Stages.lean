import Emporos.Core.Errors
import Emporos.Core.Text
/-!
# Stages and transitions

Where a strategy's configuration stands on the road to real money. The
stage is read off the newest of the strategy's events, and is bound to one
configuration by its behaviour hash: for any other it reads as research
again. Retirement belongs to the strategy, and no edit undoes it.

An event is well formed by construction: what the constructor of the source
refuses cannot be built. `GraduationGate` is the order of the stages,
`StagePolicy` the requirements of each.
-/

namespace Emporos

namespace Graduation

inductive GraduationStage
  | research
  | paper
  | liveConservative
  | production
  | retired
  deriving DecidableEq, Repr

namespace GraduationStage

def value : GraduationStage → String
  | research => "research"
  | paper => "paper"
  | liveConservative => "live_conservative"
  | production => "production"
  | retired => "retired"

/-- The position on the road; a retired strategy is off it. -/
def rank : GraduationStage → ℤ
  | research => 0
  | paper => 1
  | liveConservative => 2
  | production => 3
  | retired => -1

end GraduationStage

inductive TransitionKind
  | promote
  | demote
  | retire
  deriving DecidableEq, Repr

inductive EvidenceKind
  | experiment
  | verdict
  | reconciliationReport
  | brokerVerification
  | acknowledgement
  | jevExperiment
  deriving DecidableEq, Repr

/-- A pointer to what a transition rests on. -/
structure EvidenceRef where
  kind : EvidenceKind
  ref : String
  detail : String
  points : Text.isMeaningful ref = true
  deriving DecidableEq

/-! ## Events -/

/-- Which moves each kind of transition allows. -/
def Shape (kind : TransitionKind) (origin target : GraduationStage)
    (evidence : List EvidenceRef) : Prop :=
  match kind with
  | .promote => origin ≠ .retired ∧ target ≠ .retired ∧ target.rank = origin.rank + 1 ∧
      evidence ≠ []
  | .demote => origin ≠ .retired ∧ target ≠ .retired ∧ target.rank < origin.rank
  | .retire => target = .retired ∧ origin ≠ .retired

instance (kind : TransitionKind) (origin target : GraduationStage) (evidence : List EvidenceRef) :
    Decidable (Shape kind origin target evidence) := by
  unfold Shape
  cases kind <;> infer_instance

structure GraduationEvent where
  strategy : String
  behaviourHash : String
  /-- 1, 2, 3 and so on for each strategy. -/
  seq : ℕ
  fromStage : GraduationStage
  toStage : GraduationStage
  kind : TransitionKind
  evidence : List EvidenceRef
  actor : String
  reason : String
  moment : Timestamp
  named : ∀ text ∈ [strategy, behaviourHash, actor, reason], Text.isMeaningful text = true
  numbered : 1 ≤ seq
  shape : Shape kind fromStage toStage evidence
  deriving DecidableEq

/-- Why a move of another shape is refused. -/
def shapeError (kind : TransitionKind) (origin target : GraduationStage) : String :=
  match kind with
  | .promote =>
      if origin = .retired ∨ target = .retired then "a retired strategy cannot be promoted"
      else if target.rank ≠ origin.rank + 1 then
        "cannot promote from " ++ origin.value ++ " to " ++ target.value
      else "a promotion must cite its evidence"
  | .demote =>
      if origin = .retired ∨ target = .retired then "a demotion cannot start or end at retired"
      else "cannot demote from " ++ origin.value ++ " to " ++ target.value
  | .retire => "a retirement moves a strategy that is not retired to retired"

/-- The first field that is blank. -/
def blankField (fields : List (String × String)) : String :=
  ((fields.find? fun f => !Text.isMeaningful f.2).map (·.1)).getD ""

/-- The constructor of the source. -/
def GraduationEvent.make (strategy behaviourHash : String) (seq : ℕ)
    (fromStage toStage : GraduationStage) (kind : TransitionKind) (evidence : List EvidenceRef)
    (actor reason : String) (moment : Timestamp) : Except String GraduationEvent :=
  if hnamed : ∀ text ∈ [strategy, behaviourHash, actor, reason], Text.isMeaningful text = true then
    if hnumbered : 1 ≤ seq then
      if hshape : Shape kind fromStage toStage evidence then
        .ok ⟨strategy, behaviourHash, seq, fromStage, toStage, kind, evidence, actor, reason,
          moment, hnamed, hnumbered, hshape⟩
      else .error (shapeError kind fromStage toStage)
    else .error "a graduation event's sequence number starts at 1"
  else .error ("a graduation event needs a " ++ blankField [("strategy", strategy),
    ("behaviour_hash", behaviourHash), ("actor", actor), ("reason", reason)])

/-- An event that was built is of what it was built from. -/
theorem GraduationEvent.fields_of_make {strategy behaviourHash : String} {seq : ℕ}
    {origin target : GraduationStage} {kind : TransitionKind} {evidence : List EvidenceRef}
    {actor reason : String} {moment : Timestamp} {event : GraduationEvent}
    (h : make strategy behaviourHash seq origin target kind evidence actor reason moment =
      .ok event) :
    event.strategy = strategy ∧ event.behaviourHash = behaviourHash ∧ event.seq = seq ∧
      event.fromStage = origin ∧ event.toStage = target ∧ event.kind = kind ∧
      event.evidence = evidence := by
  unfold make at h
  split at h
  case isFalse => cases h
  case isTrue =>
    split at h
    case isFalse => cases h
    case isTrue =>
      split at h
      case isFalse => cases h
      case isTrue =>
        cases h
        exact ⟨rfl, rfl, rfl, rfl, rfl, rfl, rfl⟩

/-- The stage that applies to a configuration, given the newest event of
its strategy. -/
def effectiveStage (last : Option GraduationEvent) (behaviourHash : String) : GraduationStage :=
  match last with
  | none => .research
  | some e =>
      if e.toStage = .retired then .retired
      else if e.behaviourHash ≠ behaviourHash then .research
      else e.toStage

@[simp] theorem effectiveStage_none (behaviourHash : String) :
    effectiveStage none behaviourHash = .research := rfl

variable {e : GraduationEvent} {behaviourHash : String}

/-- A retirement holds of every configuration. -/
theorem effectiveStage_of_retired (h : e.toStage = .retired) :
    effectiveStage (some e) behaviourHash = .retired :=
  if_pos h

/-- A stage other than research and retired is that of the newest event,
which is of this very configuration. -/
theorem of_effectiveStage {stage : GraduationStage} {last : Option GraduationEvent}
    (h : effectiveStage last behaviourHash = stage) (hresearch : stage ≠ .research)
    (hretired : stage ≠ .retired) :
    ∃ e, last = some e ∧ e.behaviourHash = behaviourHash ∧ e.toStage = stage := by
  rcases last with _ | e
  · exact absurd h.symm hresearch
  · rw [effectiveStage] at h
    split at h
    case isTrue => exact absurd h.symm hretired
    case isFalse =>
      split at h
      case isTrue => exact absurd h.symm hresearch
      case isFalse hhash => exact ⟨e, rfl, not_not.mp hhash, h⟩

/-- A promotion goes one stage up. -/
theorem GraduationEvent.rank_of_promote (h : e.kind = .promote) :
    e.toStage.rank = e.fromStage.rank + 1 := by
  have hshape := e.shape
  rw [h] at hshape
  exact hshape.2.2.1

theorem GraduationEvent.evidence_of_promote (h : e.kind = .promote) : e.evidence ≠ [] := by
  have hshape := e.shape
  rw [h] at hshape
  exact hshape.2.2.2

/-- No transition starts at retired. -/
theorem GraduationEvent.from_ne_retired (e : GraduationEvent) : e.fromStage ≠ .retired := by
  have hshape := e.shape
  rcases hkind : e.kind with _ | _ | _
  · rw [hkind] at hshape; exact hshape.1
  · rw [hkind] at hshape; exact hshape.1
  · rw [hkind] at hshape; exact hshape.2

/-- Only a retirement ends at retired. -/
theorem GraduationEvent.retire_iff (e : GraduationEvent) :
    e.kind = .retire ↔ e.toStage = .retired := by
  have hshape := e.shape
  rcases hkind : e.kind with _ | _ | _
  · rw [hkind] at hshape
    simp [hshape.2.1]
  · rw [hkind] at hshape
    simp [hshape.2.1]
  · rw [hkind] at hshape
    simp [hshape.1]

/-! ## The order of the stages -/

inductive DeploymentStatus
  | candidate
  | paper
  | liveConservative
  | production
  | retired
  deriving DecidableEq, Repr

def DeploymentStatus.value : DeploymentStatus → String
  | candidate => "candidate"
  | paper => "paper"
  | liveConservative => "live_conservative"
  | production => "production"
  | retired => "retired"

/-- `StageMapping.to_deployment`. -/
def toDeployment : GraduationStage → DeploymentStatus
  | .research => .candidate
  | .paper => .paper
  | .liveConservative => .liveConservative
  | .production => .production
  | .retired => .retired

namespace GraduationGate

def deploymentOrder : List DeploymentStatus := [.candidate, .paper, .liveConservative, .production]

/-- `_require_next` for deployments: the target is the very next one. -/
def requireNext (current target : DeploymentStatus) : Except String Unit :=
  if current ∉ deploymentOrder ∨ target ∉ deploymentOrder then
    .error (target.value ++ " is not a deployment stage")
  else if deploymentOrder.idxOf target ≠ deploymentOrder.idxOf current + 1 then
    .error ("cannot go from " ++ current.value ++ " to " ++ target.value ++
      ": deployment graduation moves one stage at a time")
  else .ok ()

/-- `advance_deployment` for a validated strategy. -/
def advanceDeployment (current target : DeploymentStatus) : Except String Unit :=
  if current = .retired then .error "a retired strategy cannot be promoted"
  else requireNext current target

end GraduationGate

/-! ## What a promotion demands -/

structure PromotionRequest where
  strategy : String
  behaviourHash : String
  current : GraduationStage
  target : GraduationStage
  actor : String
  experimentId : Option String
  jevEnabled : Bool
  deriving DecidableEq

/-- A requirement's answer: refused with a reason, or met. -/
structure Assessment where
  refusal : Option String
  evidence : Option EvidenceRef
  deriving DecidableEq

def Assessment.refused (reason : String) : Assessment := ⟨some reason, none⟩

/-- Which requirements each stage demands, never none. -/
structure StagePolicy (R : Type) where
  requirements : GraduationStage → Option (List R)
  nonempty : ∀ stage rules, requirements stage = some rules → rules ≠ []

namespace StagePolicy

variable {R : Type} (policy : StagePolicy R)

/-- A stage with no entry cannot be promoted to. -/
def promotable (target : GraduationStage) : Bool := (policy.requirements target).isSome

def requirementsFor (target : GraduationStage) : List R := (policy.requirements target).getD []

end StagePolicy

end Graduation

end Emporos
