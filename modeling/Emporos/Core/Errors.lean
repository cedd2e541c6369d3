import Mathlib.Data.Nat.Notation
import Mathlib.Data.Int.Notation
import Mathlib.Data.List.Forall2
import Mathlib.Data.Rat.Defs
import Mathlib.Tactic.Common
/-!
# Exceptions, and time

The exceptions the modelled code raises or branches on. What an
`except` clause can tell apart is a constructor, or an argument of one;
everything else an outside call may raise is `other`.
-/

namespace Emporos

/-- How safe it is to treat a failed action as not having happened. -/
inductive ErrorClassification
  | retryable
  | definitive
  | ambiguous
  deriving DecidableEq, Repr

inductive PyError
  /-- A plain `ValueError`. -/
  | valueError (message : String)
  /-- `InstrumentFrozenError`, a `ValueError`. -/
  | instrumentFrozen (message : String)
  /-- `ApprovalExpiredError`, a `ValueError`. -/
  | approvalExpired (message : String)
  /-- `InvalidReplacementError`, a `ValueError`. -/
  | invalidReplacement (message : String)
  /-- `InvalidOrderPriceError`, a `ValueError`, with what its text names. -/
  | invalidOrderPrice (price : ℚ) (instrumentId : String) (tick : ℚ)
  /-- `ConcurrentModificationError`, a `ValueError`. -/
  | concurrentModification (message : String)
  /-- `DuplicateRecordError`, with the fields of the unique index that
  refused the record. -/
  | duplicateRecord (keyFields : List String)
  /-- A `BrokerError` of class `name`. -/
  | broker (name : String) (classification : ErrorClassification) (message : String)
  /-- Any other exception, by the name of its class. -/
  | other (name : String)
  deriving DecidableEq

namespace PyError

/-- What `except ValueError` catches. -/
def isValueError : PyError → Bool
  | valueError _ | instrumentFrozen _ | approvalExpired _ | invalidReplacement _
  | invalidOrderPrice .. | concurrentModification _ => true
  | duplicateRecord _ | broker .. | other _ => false

/-- `type(error).__name__`. -/
def typeName : PyError → String
  | valueError _ => "ValueError"
  | instrumentFrozen _ => "InstrumentFrozenError"
  | approvalExpired _ => "ApprovalExpiredError"
  | invalidReplacement _ => "InvalidReplacementError"
  | invalidOrderPrice .. => "InvalidOrderPriceError"
  | concurrentModification _ => "ConcurrentModificationError"
  | duplicateRecord _ => "DuplicateRecordError"
  | broker name _ _ => name
  | other name => name

end PyError

/-! An exception ends the block it is raised in. -/

@[simp] theorem ok_bind {α β : Type} (v : α) (f : α → Except PyError β) :
    (Except.ok v >>= f) = f v := rfl

@[simp] theorem error_bind {α β : Type} (e : PyError) (f : α → Except PyError β) :
    (Except.error e >>= f) = .error e := rfl

/-- What a block that came through has passed. -/
theorem exists_of_bind {ε α β : Type} {x : Except ε α} {f : α → Except ε β} {b : β}
    (h : (x >>= f) = .ok b) : ∃ v, x = .ok v ∧ f v = .ok b := by
  cases x with
  | error e => cases h
  | ok v => exact ⟨v, rfl, h⟩

/-- What a block came through with, before its result was mapped. -/
theorem exists_of_map {α β : Type} {f : α → β} {x : Except PyError α} {b : β}
    (h : x.map f = .ok b) : ∃ a, x = .ok a ∧ f a = b := by
  cases x with
  | error e => cases h
  | ok a => exact ⟨a, rfl, Except.ok.inj h⟩

/-- A list comes through element by element. -/
theorem mapM_eq_ok {α β : Type} {f : α → Except PyError β} {l : List α} {out : List β} :
    l.mapM f = .ok out ↔ List.Forall₂ (fun a b => f a = .ok b) l out := by
  induction l generalizing out with
  | nil =>
      rw [List.mapM_nil, List.forall₂_nil_left_iff]
      exact ⟨fun h => (by cases h; rfl), fun h => (by rw [h]; rfl)⟩
  | cons a l ih =>
      rw [List.mapM_cons, List.forall₂_cons_left_iff]
      constructor
      · intro h
        obtain ⟨b, hb, h⟩ := exists_of_bind h
        obtain ⟨rest, hrest, h⟩ := exists_of_bind h
        cases h
        exact ⟨b, rest, hb, ih.mp hrest, rfl⟩
      · rintro ⟨b, rest, hb, hrest, rfl⟩
        rw [hb, ok_bind, ih.mpr hrest]
        rfl

/-- A list comes through where each of its elements does. -/
theorem exists_mapM {α β : Type} {f : α → Except PyError β} {l : List α} :
    (∃ out, l.mapM f = .ok out) ↔ ∀ a ∈ l, ∃ b, f a = .ok b := by
  simp only [mapM_eq_ok]
  induction l with
  | nil => simp
  | cons a l ih =>
      rw [List.forall_mem_cons, ← ih]
      constructor
      · rintro ⟨out, h⟩
        obtain ⟨b, rest, hb, hrest, -⟩ := List.forall₂_cons_left_iff.mp h
        exact ⟨⟨b, hb⟩, rest, hrest⟩
      · rintro ⟨⟨b, hb⟩, rest, hrest⟩
        exact ⟨b :: rest, .cons hb hrest⟩

/-- A moment, in microseconds since the epoch, UTC. -/
abbrev Timestamp := Int

/-- A `timedelta`, in microseconds. -/
abbrev Duration := Int

namespace Timestamp

/-- One second. -/
def second : Duration := 1000000

theorem second_pos : 0 < second := by decide

/-- What BSON keeps of a moment: whole milliseconds. -/
def millis (t : Timestamp) : Timestamp := t - t % 1000

@[simp] theorem millis_millis (t : Timestamp) : millis (millis t) = millis t := by
  simp only [millis, Timestamp]
  omega

/-- The trading date of a moment, as the number of the day in India
(UTC+5:30, no daylight saving). -/
def sessionDate (t : Timestamp) : Int := (t + 19800 * second) / (86400 * second)

end Timestamp

end Emporos
