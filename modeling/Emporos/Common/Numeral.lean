import Emporos.Common.Binary64
/-!
# Decimals by their digits

A decimal as it is written: a sign, digits and an exponent. Two numerals may
have one value; zero has a sign. The numeral of a binary number is the one
of the fewest digits that is read back as it.
-/

namespace Emporos

/-- A finite decimal, by its digits. -/
structure Numeral where
  negative : Bool
  digits : ℕ
  exponent : ℤ
  deriving DecidableEq

namespace Numeral

def magnitude (n : Numeral) : ℚ := n.digits * 10 ^ n.exponent

def value (n : Numeral) : ℚ := if n.negative then -n.magnitude else n.magnitude

end Numeral

namespace Binary64

open Decimal

/-- The binary number nearest to a decimal. -/
def ofNumeral (n : Numeral) : Binary64 := ⟨n.negative, min (nearestBits n.magnitude) infinity⟩

section Shortest

variable (bits : ℕ)

/-- Some digits, the last of them at a place, are read as the pattern. -/
def Reads (digits : ℕ) (place : ℤ) : Prop := nearestBits (digits * 10 ^ place) = bits

instance (digits : ℕ) (place : ℤ) : Decidable (Reads bits digits place) :=
  inferInstanceAs (Decidable (_ = _))

/-- The digits of a count that come closest to what a pattern stands for, of
those that are read as it. There are no more than two to try. -/
def reading (count : ℕ) : Option (ℕ × ℤ) :=
  let place := Int.log 10 (magnitude bits) + 1 - count
  let below := ⌊magnitude bits / 10 ^ place⌋.toNat
  let closest := (roundHalfEven (magnitude bits / 10 ^ place)).toNat
  let other := if closest = below then below + 1 else below
  if Reads bits closest place then some (closest, place)
  else if Reads bits other place then some (other, place)
  else none

/-- What a pattern stands for, to its last digit. -/
def expansion : ℕ × ℤ :=
  let k : ℤ := (shift bits : ℤ) - 1074
  if 0 ≤ k then (significand bits * 2 ^ k.toNat, 0)
  else (significand bits * 5 ^ (-k).toNat, k)

/-- The fewest digits that are read as a pattern, and the place of the last
of them. Seventeen are always enough. -/
def shortest : ℕ × ℤ :=
  (((List.range 17).map (· + 1)).findSome? (reading bits)).getD (expansion bits)

/-- Digits as a power of ten with a zero less for each that they end in. -/
def trimmed (count : ℕ) (d : ℕ × ℤ) : ℕ × ℤ :=
  match count with
  | 0 => d
  | count + 1 => if d.1 % 10 = 0 ∧ d.1 ≠ 0 then trimmed count (d.1 / 10, d.2 + 1) else d

end Shortest

/-- `Decimal(repr(x))`: fixed notation has a digit behind the point, and is
used for magnitudes between `10 ** -4` and `10 ** 16`. -/
def toNumeral (x : Binary64) : Numeral :=
  if x.bits = 0 then ⟨x.negative, 0, -1⟩
  else
    let (digits, place) := trimmed 17 (shortest x.bits)
    let point := (Nat.log 10 digits : ℤ) + 1 + place
    if -4 < point ∧ point ≤ 16 ∧ -1 < place then
      ⟨x.negative, digits * 10 ^ (place + 1).toNat, -1⟩
    else ⟨x.negative, digits, place⟩

/-! ## A number comes back -/

variable {bits : ℕ}

theorem expansion_eq : ((expansion bits).1 : ℚ) * 10 ^ (expansion bits).2 = magnitude bits := by
  unfold expansion
  dsimp only
  split_ifs with hk
  · rw [magnitude, place, zpow_zero, mul_one]
    push_cast
    rw [← zpow_natCast, Int.toNat_of_nonneg hk]
  · obtain ⟨n, hn⟩ := Int.eq_ofNat_of_zero_le (show 0 ≤ -((shift bits : ℤ) - 1074) by omega)
    have hk' : (shift bits : ℤ) - 1074 = -(n : ℤ) := by omega
    rw [magnitude, place, hk', neg_neg, Int.toNat_natCast, zpow_neg, zpow_neg, zpow_natCast,
      zpow_natCast]
    push_cast
    rw [show (10 : ℚ) = 5 * 2 by norm_num, mul_pow]
    field_simp

theorem reads_of_reading {count : ℕ} {d : ℕ × ℤ} (h : reading bits count = some d) :
    Reads bits d.1 d.2 := by
  unfold reading at h
  dsimp only at h
  split_ifs at h with hclosest hother hother
  all_goals
    obtain rfl := Option.some.inj h
    assumption

theorem reads_shortest : Reads bits (shortest bits).1 (shortest bits).2 := by
  unfold shortest
  cases hfound : ((List.range 17).map (· + 1)).findSome? (reading bits) with
  | none =>
      show nearestBits _ = bits
      rw [Option.getD_none, expansion_eq, nearestBits_magnitude]
  | some d =>
      obtain ⟨count, -, hd⟩ := List.exists_of_findSome?_eq_some hfound
      exact reads_of_reading hd

theorem trimmed_eq (count : ℕ) (d : ℕ × ℤ) :
    ((trimmed count d).1 : ℚ) * 10 ^ (trimmed count d).2 = d.1 * 10 ^ d.2 := by
  induction count generalizing d with
  | zero => rfl
  | succ count ih =>
      rw [trimmed]
      split_ifs with hzero
      · obtain ⟨m, hm⟩ := Nat.dvd_of_mod_eq_zero hzero.1
        rw [ih, hm, Nat.mul_div_cancel_left m (by norm_num), zpow_add_one₀ (by norm_num)]
        push_cast
        ring
      · rfl

/-- **A finite number is read back as it was written**, and so is the sign of
zero. -/
theorem ofNumeral_toNumeral {x : Binary64} (h : x.isFinite = true) : ofNumeral x.toNumeral = x := by
  have hread : nearestBits x.toNumeral.magnitude = x.bits := by
    unfold toNumeral
    split_ifs with hzero
    · simp [Numeral.magnitude, nearestBits, hzero]
    · have hreads := @reads_shortest x.bits
      rw [Reads, ← trimmed_eq 17] at hreads
      dsimp only
      split_ifs with hfixed
      · have hsame : ((trimmed 17 (shortest x.bits)).1 * 10 ^ ((trimmed 17 (shortest x.bits)).2 + 1).toNat
            : ℕ) * (10 : ℚ) ^ (-1 : ℤ) = (trimmed 17 (shortest x.bits)).1 *
              10 ^ (trimmed 17 (shortest x.bits)).2 := by
          push_cast
          rw [← zpow_natCast, Int.toNat_of_nonneg (by omega), zpow_add_one₀ (by norm_num), zpow_neg_one]
          field_simp
        rwa [Numeral.magnitude, hsame]
      · exact hreads
  have hsign : x.toNumeral.negative = x.negative := by
    unfold toNumeral
    split_ifs
    · rfl
    · dsimp only
      split_ifs <;> rfl
  have hlt : x.bits < infinity := of_decide_eq_true h
  rw [ofNumeral, hread, hsign, min_eq_left hlt.le]

end Binary64

end Emporos
