import Emporos.Core.Errors
/-!
# The order state machine

Which state may follow which, and what fills allow. Repricing is
cancel-then-replace, so there is no modify; a terminal order can still
record a late fill, its state unchanged.
-/

namespace Emporos

inductive OrderState
  | pendingNew
  | open
  | partiallyFilled
  | pendingCancel
  | unknown
  | filled
  | cancelled
  | rejected
  deriving DecidableEq, Repr

namespace OrderState

def value : OrderState → String
  | pendingNew => "PENDING_NEW"
  | «open» => "OPEN"
  | partiallyFilled => "PARTIALLY_FILLED"
  | pendingCancel => "PENDING_CANCEL"
  | unknown => "UNKNOWN"
  | filled => "FILLED"
  | cancelled => "CANCELLED"
  | rejected => "REJECTED"

def terminal : OrderState → Bool
  | filled | cancelled | rejected => true
  | _ => false

/-- What may follow each state, itself aside. -/
def follows : OrderState → List OrderState
  | pendingNew => [«open», unknown, rejected, partiallyFilled, filled, cancelled]
  | unknown => [«open», partiallyFilled, filled, cancelled, rejected]
  | «open» => [partiallyFilled, filled, pendingCancel, cancelled, rejected, unknown]
  | partiallyFilled => [filled, pendingCancel, cancelled, unknown]
  | pendingCancel => [cancelled, filled, partiallyFilled, «open», unknown]
  | filled | cancelled | rejected => []

/-- A state may be followed by itself: a further fill, or another absence
check. -/
def allowedFrom (s : OrderState) : List OrderState := s :: s.follows

theorem eq_of_allowedFrom_terminal {s s' : OrderState} (h : s.terminal)
    (hs : s' ∈ s.allowedFrom) : s' = s := by
  cases s <;> simp_all [allowedFrom, follows, terminal]

end OrderState

namespace OrderStateMachine

open OrderState

/-- Reject impossible transitions and impossible cumulative fill
quantities. -/
def validate (previous target : OrderState) (previousFilled filled quantity : ℕ) :
    Except PyError Unit :=
  if ¬ (previousFilled ≤ filled ∧ filled ≤ quantity) then
    .error (.valueError "cumulative fills must increase within the order quantity")
  else if target ∉ previous.allowedFrom then
    .error (.valueError (previous.value ++ " cannot become " ++ target.value))
  else if target = .filled ∧ filled ≠ quantity then
    .error (.valueError "FILLED requires the entire quantity")
  else if target = .partiallyFilled ∧ ¬ (0 < filled ∧ filled < quantity) then
    .error (.valueError "PARTIALLY_FILLED requires an incomplete positive fill")
  else if (target = .open ∨ target = .pendingNew) ∧ filled ≠ 0 then
    .error (.valueError "an order with fills cannot be OPEN or PENDING_NEW")
  else if target = .rejected ∧ filled ≠ 0 then
    .error (.valueError "an order with fills was not rejected")
  else .ok ()

/-- What a state says about the quantity filled. -/
def Fits (s : OrderState) (filled quantity : ℕ) : Prop :=
  filled ≤ quantity ∧ (s = .filled → filled = quantity) ∧
    (s = .partiallyFilled → 0 < filled ∧ filled < quantity) ∧
    (s = .open ∨ s = .pendingNew ∨ s = .rejected → filled = 0)

instance (s : OrderState) (filled quantity : ℕ) : Decidable (Fits s filled quantity) :=
  inferInstanceAs (Decidable (_ ∧ _))

/-- **The machine accepts** the change to a state that may follow, at a
quantity that has not shrunk and fits the state. -/
theorem validate_eq_ok {previous target : OrderState} {previousFilled filled quantity : ℕ} :
    validate previous target previousFilled filled quantity = .ok () ↔
      previousFilled ≤ filled ∧ target ∈ previous.allowedFrom ∧ Fits target filled quantity := by
  unfold validate Fits
  constructor
  · intro h
    split_ifs at h with h₁ h₂ h₃ h₄ h₅ h₆
    refine ⟨by omega, h₂, by omega, fun ht => ?_, fun ht => ?_, ?_⟩
    · exact not_not.mp fun hne => h₃ ⟨ht, hne⟩
    · exact not_not.mp fun hne => h₄ ⟨ht, hne⟩
    · rintro (ht | ht | ht)
      · exact not_not.mp fun hne => h₅ ⟨Or.inl ht, hne⟩
      · exact not_not.mp fun hne => h₅ ⟨Or.inr ht, hne⟩
      · exact not_not.mp fun hne => h₆ ⟨ht, hne⟩
  · rintro ⟨hle, hmem, hq, hf, hp, hz⟩
    rw [if_neg (not_not.mpr ⟨hle, hq⟩), if_neg (not_not.mpr hmem), if_neg, if_neg, if_neg, if_neg]
    · exact fun h => h.2 (hz (Or.inr (Or.inr h.1)))
    · rintro ⟨h | h, hne⟩
      · exact hne (hz (Or.inl h))
      · exact hne (hz (Or.inr (Or.inl h)))
    · exact fun h => h.2 (hp h.1)
    · exact fun h => h.2 (hf h.1)

/-- Whatever the machine refuses, it refuses with a plain `ValueError`. -/
theorem validate_error {previous target : OrderState} {previousFilled filled quantity : ℕ}
    {e : PyError} (h : validate previous target previousFilled filled quantity = .error e) :
    ∃ message, e = .valueError message := by
  unfold validate at h
  split_ifs at h <;> exact ⟨_, (Except.error.inj h).symm⟩

end OrderStateMachine

end Emporos
