import Mathlib.Data.Int.Log
import Mathlib.Data.Rat.Floor
import Mathlib.Tactic.Ring
import Mathlib.Tactic.FieldSimp
import Mathlib.Tactic.Positivity
/-!
# Decimal arithmetic in a context

Decimal floating point by value: a number is a rational, and an
operation returns the exact result put through the context's rounding.
Comparison is exact. The class leaves the rounding open, so a development
is one for every context; `standard` is the context of 28 significant
digits with ties to even. Overflow of the exponent range is not modelled.
-/

namespace Emporos

/-- A decimal number, by its value. -/
abbrev Decimal := ℚ

/-- A decimal context: how the exact result of an operation is rounded. -/
class DecimalContext where
  round : ℚ → ℚ
  round_zero : round 0 = 0

namespace Decimal

section Operations

variable [DecimalContext]

def add (a b : Decimal) : Decimal := DecimalContext.round (a + b)

def sub (a b : Decimal) : Decimal := DecimalContext.round (a - b)

def mul (a b : Decimal) : Decimal := DecimalContext.round (a * b)

def div (a b : Decimal) : Decimal := DecimalContext.round (a / b)

def neg (a : Decimal) : Decimal := DecimalContext.round (-a)

/-- `abs(a)`, which the context rounds like any other operation. -/
def abs (a : Decimal) : Decimal := DecimalContext.round |a|

@[simp] theorem add_zero_zero : add 0 0 = 0 := by simp [add, DecimalContext.round_zero]

@[simp] theorem sub_self (a : Decimal) : sub a a = 0 := by
  simp [sub, DecimalContext.round_zero]

@[simp] theorem mul_zero (a : Decimal) : mul a 0 = 0 := by
  simp [mul, DecimalContext.round_zero]

/-! ## Exact results -/

/-- The context has the digits for `x`. -/
def Kept (x : ℚ) : Prop := DecimalContext.round x = x

instance (x : ℚ) : Decidable (Kept x) := inferInstanceAs (Decidable (_ = _))

/-- The context has the digits for every partial sum from `a`. -/
def KeptSums : ℚ → List ℚ → Prop
  | _, [] => True
  | a, x :: xs => Kept (a + x) ∧ KeptSums (a + x) xs

instance : ∀ (a : ℚ) (l : List ℚ), Decidable (KeptSums a l)
  | _, [] => inferInstanceAs (Decidable True)
  | a, x :: xs =>
      have : Decidable (KeptSums (a + x) xs) := instDecidableKeptSums (a + x) xs
      inferInstanceAs (Decidable (Kept (a + x) ∧ KeptSums (a + x) xs))

theorem foldl_add_of_kept {a : ℚ} {l : List ℚ} (h : KeptSums a l) : l.foldl add a = a + l.sum := by
  induction l generalizing a with
  | nil => simp
  | cons x l ih =>
      have hx : add a x = a + x := h.1
      rw [List.foldl_cons, hx, ih h.2, List.sum_cons, add_assoc]

end Operations

/-! ## Ties to even -/

/-- The nearest integer, a tie going to the even one. -/
def roundHalfEven (q : ℚ) : ℤ :=
  if q - ⌊q⌋ < 1 / 2 then ⌊q⌋
  else if 1 / 2 < q - ⌊q⌋ then ⌊q⌋ + 1
  else if ⌊q⌋ % 2 = 0 then ⌊q⌋ else ⌊q⌋ + 1

@[simp] theorem roundHalfEven_intCast (n : ℤ) : roundHalfEven n = n := by
  simp [roundHalfEven]

/-- The exponent of the last digit kept of `x`, of `p` significant ones. -/
def lastPlaceOf (p : ℕ) (x : ℚ) : ℤ := Int.log 10 |x| - (p - 1)

/-- `x` to `p` significant digits. -/
def roundTo (p : ℕ) (x : ℚ) : ℚ :=
  roundHalfEven (x / 10 ^ lastPlaceOf p x) * 10 ^ lastPlaceOf p x

/-- The number of digits `standard` keeps. -/
def precision : ℕ := 28

/-- The exponent of the last digit kept of `x`. -/
def lastPlace (x : ℚ) : ℤ := Int.log 10 |x| - (precision - 1)

/-- `x` to 28 significant digits. -/
def roundSignificant (x : ℚ) : ℚ := roundHalfEven (x / 10 ^ lastPlace x) * 10 ^ lastPlace x

theorem roundSignificant_eq (x : ℚ) : roundSignificant x = roundTo precision x := rfl

/-- **What fits is exact.** A multiple of the last place kept is its own
rounding. -/
theorem roundSignificant_of_multiple {x : ℚ} {n : ℤ} (h : x = n * 10 ^ lastPlace x) :
    roundSignificant x = x := by
  have hpos : (10 : ℚ) ^ lastPlace x ≠ 0 := zpow_ne_zero _ (by norm_num)
  have hq : x / 10 ^ lastPlace x = n := by rw [div_eq_iff hpos]; exact h
  rw [roundSignificant, hq, roundHalfEven_intCast, ← h]

/-- An integer of at most 28 digits is its own rounding. -/
theorem roundSignificant_intCast {n : ℤ} (hn : |n| < 10 ^ precision) :
    roundSignificant n = n := by
  have hle : lastPlace (n : ℚ) ≤ 0 := by
    rcases eq_or_ne n 0 with rfl | hne
    · simp [lastPlace, precision]
    · have hpos : (0 : ℚ) < |(n : ℚ)| := by positivity
      have hlt : |(n : ℚ)| < (10 : ℕ) ^ (precision : ℤ) := by
        rw [zpow_natCast, ← Int.cast_abs]
        exact_mod_cast hn
      have := (Int.lt_zpow_iff_log_lt (by norm_num) hpos).mp hlt
      simp only [lastPlace, precision] at *
      omega
  obtain ⟨k, hk⟩ := Int.eq_ofNat_of_zero_le (neg_nonneg.mpr hle)
  refine roundSignificant_of_multiple (n := n * 10 ^ k) ?_
  have hl : lastPlace (n : ℚ) = -(k : ℤ) := by omega
  rw [hl, zpow_neg, zpow_natCast]
  push_cast
  field_simp

/-! ## Rounding keeps the order -/

theorem floor_le_roundHalfEven (q : ℚ) : ⌊q⌋ ≤ roundHalfEven q := by
  unfold roundHalfEven
  split_ifs <;> omega

theorem roundHalfEven_le (q : ℚ) : roundHalfEven q ≤ ⌊q⌋ + 1 := by
  unfold roundHalfEven
  split_ifs <;> omega

theorem roundHalfEven_monotone {x y : ℚ} (h : x ≤ y) : roundHalfEven x ≤ roundHalfEven y := by
  rcases (Int.floor_le_floor h).lt_or_eq with hlt | heq
  · have := roundHalfEven_le x
    have := floor_le_roundHalfEven y
    omega
  · -- within one unit the larger of the two is rounded up first
    have hfrac : x - ⌊x⌋ ≤ y - ⌊y⌋ := by rw [heq]; linarith
    unfold roundHalfEven
    rw [heq] at hfrac ⊢
    split_ifs <;> first | omega | linarith

theorem roundHalfEven_neg (q : ℚ) : roundHalfEven (-q) = -roundHalfEven q := by
  have hle := Int.floor_le q
  have hlt := Int.lt_floor_add_one q
  rcases hle.lt_or_eq with h | h
  · have hfloor : ⌊-q⌋ = -⌊q⌋ - 1 := by
      rw [Int.floor_eq_iff]
      push_cast
      constructor <;> linarith
    unfold roundHalfEven
    rw [hfloor]
    push_cast
    split_ifs <;> first | omega | linarith
  · rw [← h, ← Int.cast_neg, roundHalfEven_intCast, roundHalfEven_intCast]

section Digits

variable {p : ℕ} {x y : ℚ}

theorem roundTo_neg (x : ℚ) : roundTo p (-x) = -roundTo p x := by
  have hplace : lastPlaceOf p (-x) = lastPlaceOf p x := by rw [lastPlaceOf, lastPlaceOf, abs_neg]
  rw [roundTo, roundTo, hplace, neg_div, roundHalfEven_neg]
  push_cast
  ring

@[simp] theorem roundTo_zero : roundTo p 0 = 0 := by simp [roundTo, roundHalfEven]

/-- A positive number keeps its magnitude. -/
theorem roundTo_bounds (hp : 0 < p) (hx : 0 < x) :
    10 ^ Int.log 10 |x| ≤ roundTo p x ∧ roundTo p x ≤ 10 ^ (Int.log 10 |x| + 1) := by
  have habs : 0 < |x| := abs_pos.mpr hx.ne'
  have hlow : (10 : ℚ) ^ Int.log 10 |x| ≤ |x| := Int.zpow_log_le_self (by norm_num) habs
  have hhigh : |x| < (10 : ℚ) ^ (Int.log 10 |x| + 1) :=
    Int.lt_zpow_succ_log_self (by norm_num) |x|
  have hpos : (0 : ℚ) < 10 ^ lastPlaceOf p x := zpow_pos (by norm_num) _
  -- the bounds in units of the last place kept
  obtain ⟨d, rfl⟩ : ∃ d, p = d + 1 := ⟨p - 1, by omega⟩
  have hten : ((10 ^ d : ℤ) : ℚ) * 10 ^ lastPlaceOf (d + 1) x = 10 ^ Int.log 10 |x| := by
    rw [Int.cast_pow, Int.cast_ofNat, ← zpow_natCast, ← zpow_add₀ (by norm_num), lastPlaceOf]
    congr 1
    push_cast
    ring
  have hten' : ((10 ^ (d + 1) : ℤ) : ℚ) * 10 ^ lastPlaceOf (d + 1) x
      = 10 ^ (Int.log 10 |x| + 1) := by
    rw [Int.cast_pow, Int.cast_ofNat, ← zpow_natCast, ← zpow_add₀ (by norm_num), lastPlaceOf]
    congr 1
    push_cast
    ring
  rw [abs_of_pos hx] at hlow hhigh hten hten' ⊢
  constructor
  · rw [← hten, roundTo]
    refine mul_le_mul_of_nonneg_right ?_ hpos.le
    have : ((10 ^ d : ℤ) : ℚ) ≤ x / 10 ^ lastPlaceOf (d + 1) x := by rwa [le_div_iff₀ hpos, hten]
    have := roundHalfEven_monotone this
    rw [roundHalfEven_intCast] at this
    exact_mod_cast this
  · rw [← hten', roundTo]
    refine mul_le_mul_of_nonneg_right ?_ hpos.le
    have : x / 10 ^ lastPlaceOf (d + 1) x ≤ ((10 ^ (d + 1) : ℤ) : ℚ) := by
      rw [div_le_iff₀ hpos, hten']; exact hhigh.le
    have := roundHalfEven_monotone this
    rw [roundHalfEven_intCast] at this
    exact_mod_cast this

theorem roundTo_pos (hp : 0 < p) (hx : 0 < x) : 0 < roundTo p x :=
  (zpow_pos (by norm_num) _).trans_le (roundTo_bounds hp hx).1

theorem roundTo_le_of_pos (hp : 0 < p) (hx : 0 < x) (h : x ≤ y) : roundTo p x ≤ roundTo p y := by
  have hy : 0 < y := hx.trans_le h
  have hlog : Int.log 10 |x| ≤ Int.log 10 |y| :=
    Int.log_mono_right (abs_pos.mpr hx.ne') (by rw [abs_of_pos hx, abs_of_pos hy]; exact h)
  rcases hlog.lt_or_eq with hlt | heq
  · have hup := (roundTo_bounds hp hx).2
    have hdown := (roundTo_bounds hp hy).1
    have : (10 : ℚ) ^ (Int.log 10 |x| + 1) ≤ 10 ^ Int.log 10 |y| :=
      zpow_le_zpow_right₀ (by norm_num) hlt
    linarith
  · -- of the same magnitude they are rounded at the same place
    have hplace : lastPlaceOf p x = lastPlaceOf p y := by rw [lastPlaceOf, lastPlaceOf, heq]
    have hpos : (0 : ℚ) < 10 ^ lastPlaceOf p y := zpow_pos (by norm_num) _
    rw [roundTo, roundTo, hplace]
    refine mul_le_mul_of_nonneg_right ?_ hpos.le
    exact_mod_cast roundHalfEven_monotone (div_le_div_of_nonneg_right h hpos.le)

/-- **Rounding keeps the order.** -/
theorem roundTo_monotone (hp : 0 < p) : Monotone (roundTo p) := by
  have hnonneg : ∀ {x : ℚ}, 0 ≤ x → 0 ≤ roundTo p x := fun {x} h => by
    rcases h.eq_or_lt with rfl | h
    · simp
    · exact (roundTo_pos hp h).le
  intro x y h
  rcases lt_or_ge 0 x with hx | hx
  · exact roundTo_le_of_pos hp hx h
  · have hneg := roundTo_neg (p := p) x
    have hx' := hnonneg (neg_nonneg.mpr hx)
    rcases lt_or_ge y 0 with hy | hy
    · -- both negative: the same in the mirror
      have := roundTo_le_of_pos hp (neg_pos.mpr hy) (neg_le_neg h)
      rw [roundTo_neg, roundTo_neg] at this
      linarith
    · have := hnonneg hy
      linarith

end Digits

/-- A number keeps its magnitude. -/
theorem roundSignificant_bounds {x : ℚ} (_hx : x ≠ 0) :
    (0 < x → 10 ^ Int.log 10 |x| ≤ roundSignificant x ∧
      roundSignificant x ≤ 10 ^ (Int.log 10 |x| + 1)) ∧
    (x < 0 → -10 ^ (Int.log 10 |x| + 1) ≤ roundSignificant x ∧
      roundSignificant x ≤ -10 ^ Int.log 10 |x|) := by
  refine ⟨fun h => roundTo_bounds (by decide) h, fun h => ?_⟩
  obtain ⟨hlow, hhigh⟩ := roundTo_bounds (p := precision) (by decide) (neg_pos.mpr h)
  rw [roundTo_neg, abs_neg] at hlow hhigh
  rw [roundSignificant_eq]
  constructor <;> linarith

theorem roundSignificant_monotone : Monotone roundSignificant := roundTo_monotone (by decide)

/-! ## Rounding is symmetric, and rounds once -/

theorem roundSignificant_neg (x : ℚ) : roundSignificant (-x) = -roundSignificant x := roundTo_neg x

/-- A positive number rounds to one that the digits are enough for. -/
theorem roundSignificant_round_of_pos {x : ℚ} (hx : 0 < x) :
    roundSignificant (roundSignificant x) = roundSignificant x := by
  obtain ⟨hlow, hhigh⟩ := (roundSignificant_bounds hx.ne').1 hx
  have hpos : 0 < roundSignificant x := (zpow_pos (by norm_num) _).trans_le hlow
  rcases hhigh.lt_or_eq with h | h
  · -- it has the magnitude of `x`, so it is a multiple of its own last place
    have hlog : Int.log 10 |roundSignificant x| = Int.log 10 |x| := by
      rw [abs_of_pos hpos]
      refine le_antisymm ?_ ?_
      · exact Int.lt_add_one_iff.mp ((Int.lt_zpow_iff_log_lt (by norm_num) hpos).mp h)
      · exact (Int.zpow_le_iff_le_log (by norm_num) hpos).mp hlow
    have hplace : lastPlace (roundSignificant x) = lastPlace x := by rw [lastPlace, lastPlace, hlog]
    exact roundSignificant_of_multiple (n := roundHalfEven (x / 10 ^ lastPlace x))
      (by rw [hplace, roundSignificant])
  · -- it went up to the next power of ten
    have hlog : Int.log 10 |roundSignificant x| = Int.log 10 |x| + 1 := by
      rw [abs_of_pos hpos, h]
      exact Int.log_zpow (by norm_num) _
    refine roundSignificant_of_multiple (n := 10 ^ 27) ?_
    rw [lastPlace, hlog, h, Int.cast_pow, Int.cast_ofNat, ← zpow_natCast, ← zpow_add₀ (by norm_num)]
    congr 1
    simp only [precision]
    push_cast
    ring

theorem roundSignificant_round (x : ℚ) :
    roundSignificant (roundSignificant x) = roundSignificant x := by
  rcases lt_trichotomy x 0 with h | rfl | h
  · have := roundSignificant_round_of_pos (neg_pos.mpr h)
    rwa [roundSignificant_neg, roundSignificant_neg, neg_inj] at this
  · have hzero : roundSignificant 0 = 0 := by simp [roundSignificant, lastPlace, roundHalfEven]
    rw [hzero, hzero]
  · exact roundSignificant_round_of_pos h

/-- The default context: 28 significant digits, ties to even. -/
@[reducible] def standard : DecimalContext where
  round := roundSignificant
  round_zero := by
    have := roundSignificant_intCast (n := 0) (by simp [precision])
    simpa using this

/-- A context that rounds once and alike on both sides of zero. -/
class Lawful [DecimalContext] : Prop where
  round_round (x : ℚ) : DecimalContext.round (DecimalContext.round x) = DecimalContext.round x
  round_neg (x : ℚ) : DecimalContext.round (-x) = -DecimalContext.round x

theorem lawful_standard : @Lawful standard :=
  @Lawful.mk standard roundSignificant_round roundSignificant_neg

/-- Multiplying by a sign before or after rounding is the same. -/
theorem mul_sign [DecimalContext] [Lawful] (a b : ℚ) {sign : ℚ} (h : sign = 1 ∨ sign = -1) :
    mul (mul a b) sign = mul a (b * sign) := by
  unfold mul
  rcases h with rfl | rfl
  · rw [mul_one, mul_one, Lawful.round_round]
  · rw [mul_neg_one, mul_neg_one, mul_neg, Lawful.round_neg, Lawful.round_neg, Lawful.round_round]

/-! ## Rounding keeps the sign -/

/-- A context that rounds nothing positive down to zero. -/
class Positive [DecimalContext] : Prop where
  round_pos {x : ℚ} (h : 0 < x) : 0 < DecimalContext.round x

theorem positive_standard : @Positive standard := @Positive.mk standard fun {x} h =>
  (zpow_pos (by norm_num : (0 : ℚ) < 10) (Int.log 10 |x|)).trans_le ((roundSignificant_bounds h.ne').1 h).1

theorem Positive.round_nonneg [DecimalContext] [Positive] {x : ℚ} (h : 0 ≤ x) :
    0 ≤ DecimalContext.round x := by
  rcases h.eq_or_lt with rfl | hpos
  · exact (DecimalContext.round_zero).ge
  · exact (Positive.round_pos hpos).le

theorem nonneg_of_round_nonneg [DecimalContext] [Lawful] [Positive] {x : ℚ}
    (h : 0 ≤ DecimalContext.round x) : 0 ≤ x := by
  by_contra hneg
  have hpos := Positive.round_pos (neg_pos.mpr (not_le.mp hneg))
  rw [Lawful.round_neg] at hpos
  linarith

/-! ## Rational arithmetic -/

/-- A context that rounds nothing. -/
class Exact [DecimalContext] : Prop where
  round_eq (x : ℚ) : DecimalContext.round x = x

/-- Rational arithmetic. -/
@[reducible] def rational : DecimalContext where
  round := id
  round_zero := rfl

theorem exact_rational : @Exact rational := @Exact.mk rational fun _ => rfl

section Exact

variable [DecimalContext] [Exact] (a b : Decimal)

theorem add_eq : add a b = a + b := Exact.round_eq _

theorem sub_eq : sub a b = a - b := Exact.round_eq _

theorem mul_eq : mul a b = a * b := Exact.round_eq _

theorem div_eq : div a b = a / b := Exact.round_eq _

theorem foldl_add (l : List ℚ) : l.foldl add a = a + l.sum := by
  induction l generalizing a with
  | nil => simp
  | cons x l ih => rw [List.foldl_cons, ih, add_eq, List.sum_cons, add_assoc]

end Exact

/-! ## Amounts that are not negative -/

/-- A context that makes no amount negative. -/
class Nonnegative [DecimalContext] : Prop where
  round_nonneg {x : ℚ} (h : 0 ≤ x) : 0 ≤ DecimalContext.round x

theorem nonnegative_standard : @Nonnegative standard :=
  @Nonnegative.mk standard fun h => standard.round_zero ▸ roundSignificant_monotone h

section Nonnegative

variable [DecimalContext] [Nonnegative] {a b : Decimal}

theorem nonneg_add (ha : 0 ≤ a) (hb : 0 ≤ b) : 0 ≤ add a b :=
  Nonnegative.round_nonneg (add_nonneg ha hb)

theorem nonneg_mul (ha : 0 ≤ a) (hb : 0 ≤ b) : 0 ≤ mul a b :=
  Nonnegative.round_nonneg (mul_nonneg ha hb)

theorem nonneg_div (ha : 0 ≤ a) (hb : 0 ≤ b) : 0 ≤ div a b :=
  Nonnegative.round_nonneg (div_nonneg ha hb)

end Nonnegative

/-! ## Amounts in order -/

/-- A context that keeps the order of what it rounds. -/
class Ordered [DecimalContext] : Prop where
  round_le {x y : ℚ} (h : x ≤ y) : DecimalContext.round x ≤ DecimalContext.round y

theorem ordered_standard : @Ordered standard := @Ordered.mk standard fun h =>
  roundSignificant_monotone h

section Ordered

variable [DecimalContext] [Ordered] {a b c : Decimal}

theorem mul_le_mul_right (h : a ≤ b) (hc : 0 ≤ c) : mul a c ≤ mul b c :=
  Ordered.round_le (mul_le_mul_of_nonneg_right h hc)

theorem div_le_div_right (h : a ≤ b) (hc : 0 ≤ c) : div a c ≤ div b c :=
  Ordered.round_le (div_le_div_of_nonneg_right h hc)

theorem sub_le_sub_right (h : a ≤ b) (c : Decimal) : sub a c ≤ sub b c :=
  Ordered.round_le (by linarith)

theorem sub_nonneg (h : b ≤ a) : 0 ≤ sub a b := by
  have := sub_le_sub_right h b
  rwa [sub_self] at this

theorem sub_nonpos (h : a ≤ b) : sub a b ≤ 0 := by
  have := sub_le_sub_right h b
  rwa [sub_self] at this

theorem abs_le_abs (h : |a| ≤ |b|) : abs a ≤ abs b := Ordered.round_le h

end Ordered

end Decimal

end Emporos
