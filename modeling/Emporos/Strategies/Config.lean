import Emporos.Common.Decimal
import Mathlib.Data.Nat.Notation
/-!
# Strategy settings

The sections of a strategy's configuration, as the models of the source
accept them: a number is a decimal that was written out, and the bounds of
each field hold.
-/

namespace Emporos

/-- `ExactDecimal`: a number with finitely many digits. -/
structure ExactDecimal where
  value : Decimal
  exact : ∃ (digits : ℤ) (exponent : ℤ), value = digits * 10 ^ exponent

namespace ExactDecimal

theorem ext_value {a b : ExactDecimal} (h : a.value = b.value) : a = b := by
  cases a
  cases b
  cases h
  rfl

instance : DecidableEq ExactDecimal := fun a b =>
  decidable_of_iff (a.value = b.value) ⟨ext_value, congrArg value⟩

theorem exact_natCast (n : ℕ) : ∃ (digits : ℤ) (exponent : ℤ), (n : ℚ) = digits * 10 ^ exponent :=
  ⟨n, 0, by simp⟩

/-- A whole number. -/
def ofNat (n : ℕ) : ExactDecimal := ⟨n, exact_natCast n⟩

end ExactDecimal

/-- How the execution engine works a strategy's orders. -/
structure ExecutionSettings where
  limitBufferBps : ExactDecimal
  repriceAfterSeconds : ℕ
  maxReprices : ℕ
  buffer_nonneg : 0 ≤ limitBufferBps.value
  seconds_pos : 0 < repriceAfterSeconds

end Emporos
