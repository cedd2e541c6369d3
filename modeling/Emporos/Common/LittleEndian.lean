import Mathlib.Algebra.Order.Ring.Int
import Mathlib.Data.Int.Notation
import Mathlib.Data.List.Basic
import Mathlib.Data.Nat.Notation
import Mathlib.Tactic.Common
/-!
# Little-endian integers

A string of bytes as a number, the least byte first, and back. Of a signed
number the upper half stands for the negative ones.
-/

namespace Emporos

namespace LittleEndian

def value (bytes : List UInt8) : ℕ := bytes.foldr (fun b n => b.toNat + 256 * n) 0

/-- The least bytes of a number. -/
def bytes : ℕ → ℕ → List UInt8
  | 0, _ => []
  | width + 1, n => UInt8.ofNat n :: bytes width (n / 256)

/-- Two's complement of eight bytes. -/
def signed (n : ℕ) : ℤ := if n < 2 ^ 63 then n else n - 2 ^ 64

def unsigned (i : ℤ) : ℕ := (i % 2 ^ 64).toNat

@[simp] theorem length_bytes (width n : ℕ) : (bytes width n).length = width := by
  induction width generalizing n with
  | zero => rfl
  | succ width ih => rw [bytes, List.length_cons, ih]

@[simp] theorem value_cons (b : UInt8) (l : List UInt8) :
    value (b :: l) = b.toNat + 256 * value l := rfl

theorem value_lt (l : List UInt8) : value l < 256 ^ l.length := by
  induction l with
  | nil => decide
  | cons b l ih =>
      have := b.toNat_lt
      rw [value_cons, List.length_cons, Nat.pow_succ]
      omega

/-- **Bytes come back.** -/
theorem bytes_value (l : List UInt8) : bytes l.length (value l) = l := by
  induction l with
  | nil => rfl
  | cons b l ih =>
      have hlt := b.toNat_lt
      have hdiv : (b.toNat + 256 * value l) / 256 = value l := by omega
      have hhead : UInt8.ofNat (b.toNat + 256 * value l) = b := by
        apply UInt8.toNat_inj.mp
        rw [UInt8.toNat_ofNat']
        omega
      rw [List.length_cons, value_cons, bytes, hdiv, ih, hhead]

theorem unsigned_signed {n : ℕ} (h : n < 2 ^ 64) : unsigned (signed n) = n := by
  unfold unsigned signed
  split_ifs <;> omega

end LittleEndian

end Emporos
