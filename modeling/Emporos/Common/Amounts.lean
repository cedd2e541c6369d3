import Mathlib.Algebra.Order.Archimedean.Basic
import Mathlib.Data.Nat.Cast.Order.Field
import Emporos.Common.Decimal
/-!
# Amounts on a tick

A context of finitely many digits still computes exactly with amounts
that are whole multiples of a tick and not too large: sums, differences
and multiples lose nothing, and no quotient of two of them is rounded up
to the next integer. `Ticks` says this of a context, and
`ticks_standard` proves it of the context of 28 digits.
-/

namespace Emporos
namespace Decimal

/-- The integer part, toward zero. -/
def roundDown (x : ℚ) : ℤ := if 0 ≤ x then ⌊x⌋ else ⌈x⌉

/-- The context is exact on the multiples of `tick` up to `bound` ticks, and
on the sum of any two of them. -/
structure Ticks [DecimalContext] (tick : ℚ) (bound : ℕ) : Prop where
  pos : 0 < tick
  kept {k : ℤ} (hk : |k| ≤ 2 * bound) : Kept (k * tick)
  floor_div {a b : ℕ} (ha : a ≤ bound) (hb : 0 < b) (hb' : b ≤ bound) :
    ⌊div (a * tick) (b * tick)⌋ = (a / b : ℕ)
  /-- It has arbitrarily large numbers, and multiples of an amount. -/
  scale {k : ℕ} (hk : 0 < k) (hk' : k ≤ bound) (m : ℚ) :
    ∃ n : ℕ, 0 < n ∧ m ≤ n ∧ Kept (n * (k * tick)) ∧ Kept (n : ℚ)

/-- A multiple of the tick of at most `bound` ticks. -/
def Amount (tick : ℚ) (bound : ℕ) (x : ℚ) : Prop := ∃ k : ℤ, |k| ≤ bound ∧ x = k * tick

namespace Amount

variable {tick : ℚ} {bound : ℕ} {a b c : ℚ}

section Exact

variable (hpos : 0 < tick)
include hpos

/-- An amount that is not negative is a natural number of ticks. -/
theorem exists_nat (ha : Amount tick bound a) (h0 : 0 ≤ a) :
    ∃ k : ℕ, k ≤ bound ∧ a = k * tick := by
  obtain ⟨k, hk, rfl⟩ := ha
  have hk0 : 0 ≤ k := by
    have := nonneg_of_mul_nonneg_left h0 hpos
    exact_mod_cast this
  obtain ⟨n, rfl⟩ := Int.eq_ofNat_of_zero_le hk0
  refine ⟨n, ?_, by push_cast; rfl⟩
  rw [abs_of_nonneg hk0] at hk
  exact_mod_cast hk

omit hpos in
theorem of_nat {k : ℕ} (hk : k ≤ bound) : Amount tick bound (k * tick) :=
  ⟨k, by rw [abs_of_nonneg (by positivity)]; exact_mod_cast hk, by push_cast; rfl⟩

/-- A positive amount is at least a tick. -/
theorem tick_le (ha : Amount tick bound a) (h : 0 < a) : tick ≤ a := by
  obtain ⟨k, -, rfl⟩ := exists_nat hpos ha h.le
  have hk : 0 < k := by
    rcases Nat.eq_zero_or_pos k with rfl | hk
    · simp at h
    · exact hk
  have hk' : (1 : ℚ) ≤ k := by exact_mod_cast hk
  nlinarith

theorem sub (ha : Amount tick bound a) (hb : Amount tick bound b) (ha0 : 0 ≤ a) (hb0 : 0 ≤ b) :
    Amount tick bound (a - b) := by
  obtain ⟨m, hm, rfl⟩ := exists_nat hpos ha ha0
  obtain ⟨n, hn, rfl⟩ := exists_nat hpos hb hb0
  refine ⟨m - n, ?_, by push_cast; ring⟩
  rw [abs_le]
  constructor <;> omega

/-- What an amount covers is an amount. -/
theorem add (ha : Amount tick bound a) (hb : Amount tick bound b) (ha0 : 0 ≤ a) (hb0 : 0 ≤ b)
    (hc : Amount tick bound c) (hle : a + b ≤ c) : Amount tick bound (a + b) := by
  obtain ⟨m, hm, rfl⟩ := exists_nat hpos ha ha0
  obtain ⟨n, hn, rfl⟩ := exists_nat hpos hb hb0
  obtain ⟨k, hk, rfl⟩ := exists_nat hpos hc (by linarith)
  have hsum : m + n ≤ k := by
    have : ((m + n : ℕ) : ℚ) * tick ≤ k * tick := by push_cast; linarith
    exact_mod_cast le_of_mul_le_mul_right this hpos
  rw [← add_mul, ← Nat.cast_add]
  exact of_nat (by omega)

theorem times (ha : Amount tick bound a) (ha0 : 0 ≤ a) (hb : Amount tick bound b) {n : ℕ}
    (hle : a * n ≤ b) : Amount tick bound (a * n) := by
  obtain ⟨m, -, rfl⟩ := exists_nat hpos ha ha0
  obtain ⟨k, hk, rfl⟩ := exists_nat hpos hb (le_trans (by positivity) hle)
  have hprod : m * n ≤ k := by
    have : ((m * n : ℕ) : ℚ) * tick ≤ k * tick := by push_cast; linarith
    exact_mod_cast le_of_mul_le_mul_right this hpos
  have heq : (m : ℚ) * tick * n = (m * n : ℕ) * tick := by push_cast; ring
  rw [heq]
  exact of_nat (by omega)

end Exact

theorem zero : Amount tick bound 0 := ⟨0, by simp, by simp⟩

theorem neg (ha : Amount tick bound a) : Amount tick bound (-a) := by
  obtain ⟨k, hk, rfl⟩ := ha
  exact ⟨-k, by rwa [abs_neg], by push_cast; ring⟩

theorem double (ha : Amount tick bound a) : Amount tick (2 * bound) a := by
  obtain ⟨k, hk, rfl⟩ := ha
  exact ⟨k, by push_cast; omega, rfl⟩

theorem add_double (ha : Amount tick bound a) (hb : Amount tick bound b) :
    Amount tick (2 * bound) (a + b) := by
  obtain ⟨m, hm, rfl⟩ := ha
  obtain ⟨n, hn, rfl⟩ := hb
  refine ⟨m + n, ?_, by push_cast; ring⟩
  have := abs_add_le m n
  push_cast
  omega

theorem abs (ha : Amount tick bound a) : Amount tick bound |a| := by
  rcases abs_choice a with h | h
  · rwa [h]
  · rw [h]
    exact ha.neg

theorem min (ha : Amount tick bound a) (hb : Amount tick bound b) : Amount tick bound (min a b) := by
  rcases min_choice a b with h | h
  · rwa [h]
  · rwa [h]

end Amount

namespace Ticks

variable [DecimalContext] {tick : ℚ} {bound : ℕ} {a b : ℚ}

theorem kept_sum (ht : Ticks tick bound) (ha : Amount tick (2 * bound) a) : Kept a := by
  obtain ⟨k, hk, rfl⟩ := ha
  exact ht.kept (by exact_mod_cast hk)

theorem kept_of (ht : Ticks tick bound) (ha : Amount tick bound a) : Kept a :=
  ht.kept_sum ha.double

theorem add_eq (ht : Ticks tick bound) (ha : Amount tick bound a) (hb : Amount tick bound b) :
    Decimal.add a b = a + b :=
  ht.kept_sum (ha.add_double hb)

theorem sub_eq (ht : Ticks tick bound) (ha : Amount tick bound a) (hb : Amount tick bound b) :
    Decimal.sub a b = a - b := by
  rw [Decimal.sub, sub_eq_add_neg]
  exact ht.add_eq ha hb.neg

theorem mul_eq (ht : Ticks tick bound) (ha : Amount tick bound a) (ha0 : 0 ≤ a)
    (hb : Amount tick bound b) {n : ℕ} (hle : a * n ≤ b) : Decimal.mul a n = a * n :=
  ht.kept_of (ha.times ht.pos ha0 hb hle)

/-- A sum of no more than two amounts' worth is exact. -/
theorem foldl_add_eq (ht : Ticks tick bound) {c : ℚ} (hc : Amount tick (2 * bound) c) :
    ∀ {l : List ℚ} {a : ℚ}, Amount tick (2 * bound) a → 0 ≤ a →
      (∀ x ∈ l, Amount tick bound x ∧ 0 ≤ x) → a + l.sum ≤ c → l.foldl Decimal.add a = a + l.sum
  | [], a, _, _, _, _ => by simp
  | x :: l, a, ha, ha0, hl, hle => by
      obtain ⟨⟨hx, hx0⟩, hrest⟩ := List.forall_mem_cons.mp hl
      have hsum : 0 ≤ l.sum := List.sum_nonneg fun y hy => (hrest y hy).2
      rw [List.sum_cons] at hle ⊢
      have hax : Amount tick (2 * bound) (a + x) :=
        ha.add ht.pos hx.double ha0 hx0 hc (by linarith)
      have hstep : Decimal.add a x = a + x := ht.kept_sum hax
      rw [List.foldl_cons, hstep, foldl_add_eq ht hc hax (by linarith) hrest (by linarith)]
      ring

/-- **A quotient counts what fits.** The integer part of the computed
quotient is the number of times the one amount goes into the other. -/
theorem le_roundDown_div (ht : Ticks tick bound) (ha : Amount tick bound a)
    (hb : Amount tick bound b) (ha0 : 0 ≤ a) (hb0 : 0 < b) {n : ℕ} :
    (n : ℤ) ≤ roundDown (Decimal.div a b) ↔ b * n ≤ a := by
  obtain ⟨k, hk, rfl⟩ := ha.exists_nat ht.pos ha0
  obtain ⟨m, hm, rfl⟩ := hb.exists_nat ht.pos hb0.le
  have hm0 : 0 < m := by
    rcases Nat.eq_zero_or_pos m with rfl | hm0
    · simp at hb0
    · exact hm0
  have hfloor := ht.floor_div hk hm0 hm
  have hnonneg : 0 ≤ Decimal.div (k * tick) (m * tick) := by
    rw [← Int.floor_nonneg, hfloor]
    positivity
  rw [roundDown, if_pos hnonneg, hfloor, Nat.cast_le, Nat.le_div_iff_mul_le hm0]
  have hcast : (m : ℚ) * tick * n ≤ k * tick ↔ ((n * m : ℕ) : ℚ) * tick ≤ k * tick := by
    push_cast
    rw [show (n : ℚ) * m * tick = m * tick * n by ring]
  rw [hcast, mul_le_mul_iff_left₀ ht.pos]
  exact_mod_cast Iff.rfl

end Ticks

/-! ## The default context -/

theorem roundHalfEven_error (q : ℚ) : |roundHalfEven q - q| ≤ 1 / 2 := by
  have hle := Int.floor_le q
  have hlt := Int.lt_floor_add_one q
  unfold roundHalfEven
  rw [abs_le]
  split_ifs <;> push_cast <;> constructor <;> linarith

theorem lastPlace_scale {x : ℚ} (hx : x ≠ 0) (p : ℤ) :
    lastPlace (x * 10 ^ p) = lastPlace x + p := by
  have hpow : (0 : ℚ) < 10 ^ p := zpow_pos (by norm_num) _
  have hlog : Int.log 10 |x * 10 ^ p| = Int.log 10 |x| + p := by
    rw [abs_mul, abs_of_pos hpow]
    have habs : 0 < |x| := abs_pos.mpr hx
    have hlow : (10 : ℚ) ^ Int.log 10 |x| ≤ |x| := Int.zpow_log_le_self (by norm_num) habs
    have hhigh : |x| < (10 : ℚ) ^ (Int.log 10 |x| + 1) :=
      Int.lt_zpow_succ_log_self (by norm_num) |x|
    have hprod : 0 < |x| * 10 ^ p := mul_pos habs hpow
    refine le_antisymm ?_ ?_
    · refine Int.lt_add_one_iff.mp ((Int.lt_zpow_iff_log_lt (by norm_num) hprod).mp ?_)
      have hsplit : ((10 : ℕ) : ℚ) ^ (Int.log 10 |x| + p + 1) = 10 ^ (Int.log 10 |x| + 1) * 10 ^ p := by
        rw [← zpow_add₀ (by norm_num)]
        congr 1
        ring
      rw [hsplit]
      exact mul_lt_mul_of_pos_right hhigh hpow
    · refine (Int.zpow_le_iff_le_log (by norm_num) hprod).mp ?_
      have hsplit : ((10 : ℕ) : ℚ) ^ (Int.log 10 |x| + p) = 10 ^ Int.log 10 |x| * 10 ^ p := by
        rw [← zpow_add₀ (by norm_num)]
        rfl
      rw [hsplit]
      exact mul_le_mul_of_nonneg_right hlow hpow.le
  rw [lastPlace, lastPlace, hlog]
  ring

/-- Shifting the point changes no digit. -/
theorem roundSignificant_scale (x : ℚ) (p : ℤ) :
    roundSignificant (x * 10 ^ p) = roundSignificant x * 10 ^ p := by
  rcases eq_or_ne x 0 with rfl | hx
  · simp [roundSignificant, roundHalfEven]
  · have hpow : (10 : ℚ) ^ p ≠ 0 := zpow_ne_zero _ (by norm_num)
    rw [roundSignificant, roundSignificant, lastPlace_scale hx, zpow_add₀ (by norm_num),
      mul_div_mul_right _ _ hpow, mul_assoc]

/-- An integral quotient is not reached from below: the error of the 28th
digit is less than the distance to it. -/
theorem floor_roundSignificant_div {a b : ℕ} (ha : a ≤ 10 ^ 27) (hb : 0 < b) :
    ⌊roundSignificant (a / b)⌋ = (a / b : ℕ) := by
  have hbq : (0 : ℚ) < b := by exact_mod_cast hb
  have hfloor : ((a / b : ℕ) : ℚ) ≤ a / b := Nat.cast_div_le
  have hsmall : a / b < 10 ^ precision := by
    refine (Nat.div_le_self a b).trans_lt (ha.trans_lt ?_)
    norm_num [precision]
  rw [Int.floor_eq_iff]
  constructor
  · have hint : roundSignificant ((a / b : ℕ) : ℤ) = ((a / b : ℕ) : ℤ) :=
      roundSignificant_intCast (by rw [abs_of_nonneg (by positivity)]; exact_mod_cast hsmall)
    calc ((a / b : ℕ) : ℤ) = roundSignificant ((a / b : ℕ) : ℤ) := hint.symm
      _ ≤ roundSignificant (a / b) := roundSignificant_monotone (by push_cast; exact hfloor)
  · rcases Nat.eq_zero_or_pos a with rfl | ha0
    · simp [roundSignificant, roundHalfEven]
    have haq : (0 : ℚ) < a := by exact_mod_cast ha0
    have hq : (0 : ℚ) < a / b := div_pos haq hbq
    -- the next integer is at least one part in `b` away
    have hgap : (a : ℚ) / b + 1 / b ≤ ((a / b : ℕ) : ℤ) + 1 := by
      have hlt : a + 1 ≤ (a / b + 1) * b := by
        have := Nat.lt_div_mul_add hb (a := a)
        rw [Nat.add_mul]
        omega
      rw [← add_div, div_le_iff₀ hbq]
      exact_mod_cast hlt
    have hpos : (0 : ℚ) < 10 ^ lastPlace (a / b) := zpow_pos (by norm_num) _
    have herror : roundSignificant (a / b) ≤ a / b + 1 / 2 * 10 ^ lastPlace (a / b : ℚ) := by
      have hround := (abs_le.mp (roundHalfEven_error ((a / b : ℚ) / 10 ^ lastPlace (a / b : ℚ)))).2
      calc roundSignificant (a / b)
          ≤ ((a / b : ℚ) / 10 ^ lastPlace (a / b : ℚ) + 1 / 2) * 10 ^ lastPlace (a / b : ℚ) :=
            mul_le_mul_of_nonneg_right (by linarith) hpos.le
        _ = a / b + 1 / 2 * 10 ^ lastPlace (a / b : ℚ) := by
            rw [add_mul, div_mul_cancel₀ _ hpos.ne']
    have hplace : (10 : ℚ) ^ lastPlace (a / b : ℚ) ≤ 1 / b := by
      have hlow : ((10 : ℕ) : ℚ) ^ Int.log 10 |(a / b : ℚ)| ≤ |(a / b : ℚ)| :=
        Int.zpow_log_le_self (by norm_num) (abs_pos.mpr hq.ne')
      rw [abs_of_pos hq] at hlow
      have hsplit : (10 : ℚ) ^ lastPlace (a / b : ℚ) * 10 ^ (27 : ℕ) = 10 ^ Int.log 10 (a / b : ℚ) := by
        rw [← zpow_natCast, ← zpow_add₀ (by norm_num), lastPlace, abs_of_pos hq, precision]
        congr 1
        push_cast
        ring
      have hbound : (a : ℚ) ≤ 10 ^ (27 : ℕ) := by exact_mod_cast ha
      have hchain : (10 : ℚ) ^ lastPlace (a / b : ℚ) * 10 ^ (27 : ℕ) ≤ 1 / b * 10 ^ (27 : ℕ) := by
        rw [hsplit]
        calc (10 : ℚ) ^ Int.log 10 (a / b : ℚ) ≤ a / b := hlow
          _ = 1 / b * a := by ring
          _ ≤ 1 / b * 10 ^ (27 : ℕ) := mul_le_mul_of_nonneg_left hbound (by positivity)
      exact le_of_mul_le_mul_right hchain (by norm_num)
    have hhalf : (0 : ℚ) < 1 / b := by positivity
    linarith

/-- **The context of 28 digits on a decimal tick.** It is exact up to
`10 ^ 27` ticks, whatever power of ten the tick is. -/
theorem ticks_standard (p : ℤ) : @Ticks standard (10 ^ p) (10 ^ 27) := by
  have hint : ∀ {k : ℤ}, |k| ≤ 2 * ((10 ^ 27 : ℕ) : ℤ) →
      roundSignificant (k * 10 ^ p) = k * 10 ^ p := by
    intro k hk
    rw [roundSignificant_scale, roundSignificant_intCast]
    refine hk.trans_lt ?_
    norm_num [precision]
  refine @Ticks.mk standard _ _ (zpow_pos (by norm_num) _) hint ?_ ?_
  · intro a b ha hb _
    have hpow : (10 : ℚ) ^ p ≠ 0 := zpow_ne_zero _ (by norm_num)
    change ⌊roundSignificant (a * 10 ^ p / (b * 10 ^ p))⌋ = _
    rw [mul_div_mul_right _ _ hpow]
    exact floor_roundSignificant_div ha hb
  · intro k _ hk m
    obtain ⟨j, hj⟩ := pow_unbounded_of_one_lt m (by norm_num : (1 : ℚ) < 10)
    have hten : ((10 ^ j : ℕ) : ℚ) = 10 ^ (j : ℤ) := by push_cast; rw [zpow_natCast]
    refine ⟨10 ^ j, by positivity, by push_cast; exact hj.le, ?_, ?_⟩
    · change roundSignificant _ = _
      have hk' := hint (k := k) (by
        rw [abs_of_nonneg (by positivity)]
        have : (k : ℤ) ≤ ((10 ^ 27 : ℕ) : ℤ) := by exact_mod_cast hk
        omega)
      rw [hten, mul_comm, roundSignificant_scale]
      push_cast at hk'
      rw [hk']
    · change roundSignificant _ = _
      have hone : roundSignificant 1 = 1 := by
        have := roundSignificant_intCast (n := 1) (by norm_num [precision])
        simpa using this
      rw [hten, ← one_mul ((10 : ℚ) ^ (j : ℤ)), roundSignificant_scale, hone]

end Decimal
end Emporos
