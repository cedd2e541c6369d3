import Emporos.Common.Decimal
/-!
# Binary floating point of 64 bits

A bit pattern is a sign and 63 bits more, the exponent above the fraction.
The patterns of one sign are ordered as their magnitudes are, so rounding is
a function into patterns: the nearest multiple of the last place, and a carry
out of the fraction goes into the exponent by itself. What a pattern stands
for rounds to it (`nearestBits_magnitude`), and rounding moves a number by
half of its last place at most (`abs_magnitude_sub_le`).
-/

namespace Emporos

structure Binary64 where
  negative : Bool
  /-- The exponent and the fraction. -/
  bits : ℕ

namespace Binary64

open Decimal

/-- The first pattern whose exponent is all ones. -/
def infinity : ℕ := 2047 * 2 ^ 52

def isFinite (x : Binary64) : Bool := x.bits < infinity

/-- Of 64 bits. -/
def ofWord (n : ℕ) : Binary64 := ⟨2 ^ 63 ≤ n, n % 2 ^ 63⟩

def word (x : Binary64) : ℕ := (if x.negative then 2 ^ 63 else 0) + x.bits

theorem word_ofWord {n : ℕ} (h : n < 2 ^ 64) : (ofWord n).word = n := by
  unfold word ofWord
  simp only [decide_eq_true_eq]
  split_ifs <;> omega

/-! ## What a pattern stands for -/

/-- The power of two that the last place is above the least one. The two
lowest exponents have the same. -/
def shift (bits : ℕ) : ℕ := bits / 2 ^ 52 - 1

/-- The fraction, with the leading bit where there is one. -/
def significand (bits : ℕ) : ℕ := bits - shift bits * 2 ^ 52

def place (shift : ℕ) : ℚ := 2 ^ ((shift : ℤ) - 1074)

def magnitude (bits : ℕ) : ℚ := significand bits * place (shift bits)

/-- Half of the patterns of a shift have no leading bit; only at the least
shift are they patterns of their own. -/
theorem significand_bounds (bits : ℕ) :
    bits = shift bits * 2 ^ 52 + significand bits ∧ significand bits < 2 ^ 53 ∧
      (shift bits = 0 ∨ 2 ^ 52 ≤ significand bits) := by
  unfold significand shift
  omega

theorem place_pos (k : ℕ) : 0 < place k := zpow_pos (by norm_num) _

theorem place_succ (k : ℕ) : place (k + 1) = 2 * place k := by
  rw [place, place, Nat.cast_succ, show (k : ℤ) + 1 - 1074 = (k - 1074) + 1 by ring,
    zpow_add_one₀ (by norm_num), mul_comm]

theorem magnitude_nonneg (bits : ℕ) : 0 ≤ magnitude bits :=
  mul_nonneg (Nat.cast_nonneg _) (place_pos _).le

/-- A significand at a shift is a pattern, also where it carries. -/
theorem magnitude_mk {k m : ℕ} (hm : m ≤ 2 ^ 53) (h : k = 0 ∨ 2 ^ 52 ≤ m) :
    magnitude (k * 2 ^ 52 + m) = m * place k := by
  rcases hm.lt_or_eq with hlt | rfl
  · have hshift : shift (k * 2 ^ 52 + m) = k := by
      unfold shift
      omega
    have hsignificand : significand (k * 2 ^ 52 + m) = m := by
      unfold significand
      rw [hshift]
      omega
    rw [magnitude, hshift, hsignificand]
  · have hshift : shift (k * 2 ^ 52 + 2 ^ 53) = k + 1 := by
      unfold shift
      omega
    have hsignificand : significand (k * 2 ^ 52 + 2 ^ 53) = 2 ^ 52 := by
      unfold significand
      rw [hshift]
      omega
    rw [magnitude, hshift, hsignificand, place_succ]
    push_cast
    ring

/-! ## Rounding -/

/-- The shift of the last place kept of a number. -/
def shiftOf (q : ℚ) : ℕ := (Int.log 2 q - 52 + 1074).toNat

/-- The pattern nearest to a magnitude, a tie going to the even one. -/
def nearestBits (q : ℚ) : ℕ :=
  if q = 0 then 0
  else shiftOf q * 2 ^ 52 + (roundHalfEven (q / place (shiftOf q))).toNat

/-- A number put to the nearest one that a pattern stands for. -/
def nearest (q : ℚ) : ℚ :=
  if q < 0 then -magnitude (nearestBits (-q)) else magnitude (nearestBits q)

section Bounds

variable {q : ℚ}

theorem two_pow_shiftOf_le (hq : 0 < q) (h : shiftOf q ≠ 0) :
    (2 : ℚ) ^ 52 * place (shiftOf q) ≤ q := by
  have hlog : (52 : ℤ) + ((shiftOf q : ℤ) - 1074) = Int.log 2 q := by
    unfold shiftOf at *
    omega
  rw [place, ← zpow_natCast, ← zpow_add₀ (by norm_num), Nat.cast_ofNat, hlog]
  exact_mod_cast Int.zpow_log_le_self (b := 2) (by norm_num) hq

theorem lt_two_pow_shiftOf (q : ℚ) : q < (2 : ℚ) ^ 53 * place (shiftOf q) := by
  have hlog : Int.log 2 q + 1 ≤ (53 : ℤ) + ((shiftOf q : ℤ) - 1074) := by
    unfold shiftOf
    omega
  rw [place, ← zpow_natCast, ← zpow_add₀ (by norm_num), Nat.cast_ofNat]
  calc q < (2 : ℕ) ^ (Int.log 2 q + 1) := Int.lt_zpow_succ_log_self (by norm_num) q
    _ ≤ (2 : ℚ) ^ ((53 : ℤ) + ((shiftOf q : ℤ) - 1074)) := by
      rw [Nat.cast_ofNat]
      exact zpow_le_zpow_right₀ (by norm_num) hlog

/-- The significand of a number at its shift, rounded. -/
theorem rounded_bounds (hq : 0 < q) :
    roundHalfEven (q / place (shiftOf q)) = (roundHalfEven (q / place (shiftOf q))).toNat ∧
      (roundHalfEven (q / place (shiftOf q))).toNat ≤ 2 ^ 53 ∧
      (shiftOf q = 0 ∨ 2 ^ 52 ≤ (roundHalfEven (q / place (shiftOf q))).toNat) := by
  have hpos := place_pos (shiftOf q)
  have hnonneg : 0 ≤ roundHalfEven (q / place (shiftOf q)) := by
    have h : ((0 : ℤ) : ℚ) ≤ q / place (shiftOf q) := by
      rw [Int.cast_zero]
      positivity
    have := roundHalfEven_monotone h
    rwa [roundHalfEven_intCast] at this
  have hle : roundHalfEven (q / place (shiftOf q)) ≤ 2 ^ 53 := by
    have h : q / place (shiftOf q) ≤ ((2 ^ 53 : ℤ) : ℚ) := by
      rw [div_le_iff₀ hpos]
      exact_mod_cast (lt_two_pow_shiftOf q).le
    simpa only [roundHalfEven_intCast] using roundHalfEven_monotone h
  have hge : shiftOf q = 0 ∨ 2 ^ 52 ≤ roundHalfEven (q / place (shiftOf q)) := by
    refine or_iff_not_imp_left.mpr fun hshift => ?_
    have h : ((2 ^ 52 : ℤ) : ℚ) ≤ q / place (shiftOf q) := by
      rw [le_div_iff₀ hpos]
      exact_mod_cast two_pow_shiftOf_le hq hshift
    simpa only [roundHalfEven_intCast] using roundHalfEven_monotone h
  refine ⟨(Int.toNat_of_nonneg hnonneg).symm, ?_, hge.imp_right fun h => ?_⟩ <;> omega

/-- What the nearest pattern stands for. -/
theorem magnitude_nearestBits (hq : 0 < q) :
    magnitude (nearestBits q) = roundHalfEven (q / place (shiftOf q)) * place (shiftOf q) := by
  obtain ⟨hcast, hle, hge⟩ := rounded_bounds hq
  rw [nearestBits, if_neg hq.ne', magnitude_mk hle hge, hcast]
  rfl

end Bounds

/-! ## What a pattern stands for rounds to it -/

theorem shiftOf_magnitude {bits : ℕ} (h : 0 < significand bits) :
    shiftOf (magnitude bits) = shift bits := by
  obtain ⟨-, hlt, hge⟩ := significand_bounds bits
  have hpos : 0 < magnitude bits := mul_pos (Nat.cast_pos.mpr h) (place_pos _)
  have hupper : magnitude bits < ((2 : ℕ) : ℚ) ^ ((53 : ℤ) + ((shift bits : ℤ) - 1074)) := by
    rw [Nat.cast_ofNat, zpow_add₀ (by norm_num), magnitude]
    refine mul_lt_mul_of_pos_right ?_ (place_pos _)
    exact_mod_cast hlt
  have hlog := (Int.lt_zpow_iff_log_lt (by norm_num) hpos).mp hupper
  rcases hge with hzero | hge
  · rw [hzero] at hlog ⊢
    unfold shiftOf
    omega
  · have hlower : ((2 : ℕ) : ℚ) ^ ((52 : ℤ) + ((shift bits : ℤ) - 1074)) ≤ magnitude bits := by
      rw [Nat.cast_ofNat, zpow_add₀ (by norm_num), magnitude]
      refine mul_le_mul_of_nonneg_right ?_ (place_pos _).le
      exact_mod_cast hge
    have hlog' := (Int.zpow_le_iff_le_log (by norm_num) hpos).mp hlower
    unfold shiftOf
    omega

/-- **What a pattern stands for rounds to it.** -/
theorem nearestBits_magnitude (bits : ℕ) : nearestBits (magnitude bits) = bits := by
  obtain ⟨hbits, -, -⟩ := significand_bounds bits
  rcases Nat.eq_zero_or_pos (significand bits) with hzero | hpos
  · have hshift : shift bits = 0 := by
      have := (significand_bounds bits).2.2
      omega
    have hmagnitude : magnitude bits = 0 := by rw [magnitude, hzero, Nat.cast_zero, zero_mul]
    rw [hmagnitude, nearestBits, if_pos rfl]
    omega
  · have hne : magnitude bits ≠ 0 := (mul_pos (Nat.cast_pos.mpr hpos) (place_pos _)).ne'
    have hquotient : magnitude bits / place (shift bits) = ((significand bits : ℤ) : ℚ) := by
      rw [magnitude, mul_div_assoc, div_self (place_pos _).ne', mul_one, Int.cast_natCast]
    rw [nearestBits, if_neg hne, shiftOf_magnitude hpos, hquotient, roundHalfEven_intCast,
      Int.toNat_natCast]
    exact hbits.symm

/-! ## How far rounding moves a number -/

theorem abs_roundHalfEven_sub_le (q : ℚ) : |(roundHalfEven q : ℚ) - q| ≤ 1 / 2 := by
  have hle := Int.floor_le q
  have hlt := Int.lt_floor_add_one q
  unfold roundHalfEven
  split_ifs <;> push_cast <;> rw [abs_le] <;> constructor <;> linarith

/-- An integer less than a half away is the nearest. -/
theorem roundHalfEven_eq_of_lt {q : ℚ} {n : ℤ} (h : |q - n| < 1 / 2) : roundHalfEven q = n := by
  have hle := abs_roundHalfEven_sub_le q
  rw [abs_le] at hle
  rw [abs_lt] at h
  have hlower : ((n - 1 : ℤ) : ℚ) < (roundHalfEven q : ℤ) := by push_cast; linarith
  have hupper : ((roundHalfEven q : ℤ) : ℚ) < ((n + 1 : ℤ) : ℚ) := by push_cast; linarith
  have := Int.cast_lt.mp hlower
  have := Int.cast_lt.mp hupper
  omega

section Errors

variable {q : ℚ}

/-- Half of the last place. -/
theorem abs_magnitude_sub_le (hq : 0 < q) :
    |magnitude (nearestBits q) - q| ≤ place (shiftOf q) / 2 := by
  have hpos := place_pos (shiftOf q)
  have hle := abs_roundHalfEven_sub_le (q / place (shiftOf q))
  have hfactor : magnitude (nearestBits q) - q
      = (roundHalfEven (q / place (shiftOf q)) - q / place (shiftOf q)) * place (shiftOf q) := by
    rw [magnitude_nearestBits hq, sub_mul, div_mul_cancel₀ _ hpos.ne']
  rw [hfactor, abs_mul, abs_of_pos hpos]
  calc _ ≤ 1 / 2 * place (shiftOf q) := mul_le_mul_of_nonneg_right hle hpos.le
    _ = place (shiftOf q) / 2 := by ring

/-- The last place of a number below a power of two. -/
theorem place_shiftOf_le {n : ℤ} (hq : 0 < q) (h : q < 2 ^ n) (hn : -1021 ≤ n) :
    place (shiftOf q) ≤ 2 ^ (n - 53) := by
  have hlog := (Int.lt_zpow_iff_log_lt (b := 2) (x := n) (by norm_num) hq).mp (by exact_mod_cast h)
  rw [place]
  refine zpow_le_zpow_right₀ (by norm_num) ?_
  unfold shiftOf
  omega

theorem nearest_nonneg (hq : 0 ≤ q) : 0 ≤ nearest q := by
  rw [nearest, if_neg (not_lt.mpr hq)]
  exact magnitude_nonneg _

theorem nearest_nonpos (hq : q ≤ 0) : nearest q ≤ 0 := by
  rcases hq.lt_or_eq with hq | rfl
  · rw [nearest, if_pos hq]
    exact neg_nonpos.mpr (magnitude_nonneg _)
  · simp [nearest, nearestBits, magnitude, significand]

/-- **The error of rounding** a number below a power of two. -/
theorem abs_nearest_sub_le {n : ℤ} (hq : 0 ≤ q) (h : q < 2 ^ n) (hn : -1021 ≤ n) :
    |nearest q - q| ≤ 2 ^ (n - 54) := by
  rcases hq.eq_or_lt with rfl | hpos
  · rw [le_antisymm (nearest_nonpos le_rfl) (nearest_nonneg le_rfl), sub_zero, abs_zero]
    exact (zpow_pos (by norm_num) _).le
  · rw [nearest, if_neg (not_lt.mpr hq)]
    refine (abs_magnitude_sub_le hpos).trans ?_
    have hplace := place_shiftOf_le hpos h hn
    rw [show n - 53 = (n - 54) + 1 by ring, zpow_add_one₀ (by norm_num)] at hplace
    linarith

/-- Rounding never halves a number that is not tiny. -/
theorem half_le_nearest (hq : 1 ≤ q) : q / 2 ≤ nearest q := by
  have hpos : 0 < q := by linarith
  rw [nearest, if_neg (not_lt.mpr hpos.le)]
  have hshift : shiftOf q ≠ 0 := by
    have hlog : 0 ≤ Int.log 2 q := (Int.zpow_le_iff_le_log (b := 2) (by norm_num) hpos).mp (by simpa)
    unfold shiftOf
    omega
  have hle := two_pow_shiftOf_le hpos hshift
  have herror := (abs_le.mp (abs_magnitude_sub_le hpos)).1
  have := place_pos (shiftOf q)
  linarith

end Errors

end Binary64

end Emporos
