import Emporos.Common.Binary64
import Emporos.Core.Errors
/-!
# Moments from floating point

`datetime.fromtimestamp` of a float, in UTC. The seconds are split at the
point, the fraction is put to microseconds in floating point and rounded, a
tie going to the even one. Milliseconds that were divided by 1000 come back
exactly up to the year 2242.
-/

namespace Emporos

namespace Timestamp

open Binary64 Decimal

/-- `datetime.min` and `datetime.max`. -/
def earliest : Timestamp := -62135596800 * second

def latest : Timestamp := 253402300800 * second - 1

/-- Towards zero. -/
def truncate (t : ℚ) : ℤ := if 0 ≤ t then ⌊t⌋ else ⌈t⌉

/-- A fraction that rounds to a whole second is carried. -/
def microsOf (t : ℚ) : Timestamp :=
  truncate t * second + roundHalfEven (nearest ((t - truncate t) * 1000000))

/-- `datetime.fromtimestamp(t, tz=UTC)`; the text of the exception names the
year. -/
def fromTimestamp (t : ℚ) : Except PyError Timestamp :=
  let moment := microsOf t
  if earliest ≤ moment ∧ moment ≤ latest then .ok moment
  else .error (.valueError "year is out of range")

/-- `epoch_ms / 1000`, a float. -/
def secondsOf (ms : ℤ) : ℚ := nearest (ms / 1000)

/-- **Milliseconds come back** while their seconds are below `2 ^ 33`. -/
theorem microsOf_secondsOf {ms : ℤ} (h0 : 0 ≤ ms) (h : ms < 2 ^ 33 * 1000) :
    microsOf (secondsOf ms) = 1000 * ms := by
  have hq : (0 : ℚ) ≤ ms / 1000 := by
    have : (0 : ℚ) ≤ ms := by exact_mod_cast h0
    positivity
  have hlt : (ms : ℚ) / 1000 < 2 ^ (33 : ℤ) := by
    rw [div_lt_iff₀ (by norm_num)]
    exact_mod_cast h
  have herror : |secondsOf ms - ms / 1000| ≤ 2 ^ ((33 : ℤ) - 54) :=
    abs_nearest_sub_le hq hlt (by norm_num)
  have hnonneg : 0 ≤ secondsOf ms := nearest_nonneg hq
  have hfloor := Int.floor_le (secondsOf ms)
  have hfloor' := Int.lt_floor_add_one (secondsOf ms)
  -- the fraction in microseconds, and what putting it to a float adds
  have hfraction : |nearest ((secondsOf ms - ⌊secondsOf ms⌋) * 1000000)
      - (secondsOf ms - ⌊secondsOf ms⌋) * 1000000| ≤ 2 ^ ((20 : ℤ) - 54) :=
    abs_nearest_sub_le (by linarith)
      (by rw [show (2 : ℚ) ^ (20 : ℤ) = 1048576 by norm_num]; linarith) (by norm_num)
  have hrounded : roundHalfEven (nearest ((secondsOf ms - ⌊secondsOf ms⌋) * 1000000))
      = 1000 * ms - ⌊secondsOf ms⌋ * 1000000 := by
    refine roundHalfEven_eq_of_lt ?_
    have h21 : (2 : ℚ) ^ ((33 : ℤ) - 54) = 1 / 2097152 := by norm_num
    have h34 : (2 : ℚ) ^ ((20 : ℤ) - 54) = 1 / 17179869184 := by norm_num
    rw [h21, abs_le] at herror
    rw [h34, abs_le] at hfraction
    push_cast
    rw [abs_lt]
    constructor <;> linarith [herror.1, herror.2, hfraction.1, hfraction.2]
  rw [microsOf, truncate, if_pos hnonneg, hrounded]
  simp only [second, Timestamp, Duration]
  omega

/-- Beyond that they are far in the future. -/
theorem le_microsOf_secondsOf {ms : ℤ} (h : 2 ^ 33 * 1000 ≤ ms) :
    2 ^ 32 * second ≤ microsOf (secondsOf ms) := by
  have hq : (2 : ℚ) ^ 33 ≤ ms / 1000 := by
    rw [le_div_iff₀ (by norm_num)]
    exact_mod_cast h
  have hhalf : (ms : ℚ) / 1000 / 2 ≤ secondsOf ms := half_le_nearest (by linarith)
  have hbig : (2 : ℚ) ^ 32 ≤ secondsOf ms := by linarith
  have hfloor : 2 ^ 32 ≤ ⌊secondsOf ms⌋ := Int.le_floor.mpr (by exact_mod_cast hbig)
  have hfraction : 0 ≤ roundHalfEven (nearest ((secondsOf ms - ⌊secondsOf ms⌋) * 1000000)) := by
    have hpos : ((0 : ℤ) : ℚ) ≤ nearest ((secondsOf ms - ⌊secondsOf ms⌋) * 1000000) := by
      rw [Int.cast_zero]
      exact nearest_nonneg (by linarith [Int.floor_le (secondsOf ms)])
    have := roundHalfEven_monotone hpos
    rwa [roundHalfEven_intCast] at this
  rw [microsOf, truncate, if_pos (by linarith)]
  simp only [second, Timestamp, Duration] at *
  omega

/-- Before the epoch they are no later than it. -/
theorem microsOf_secondsOf_nonpos {ms : ℤ} (h : ms < 0) : microsOf (secondsOf ms) ≤ 0 := by
  have hq : (ms : ℚ) / 1000 ≤ 0 := by
    have : (ms : ℚ) ≤ 0 := by exact_mod_cast h.le
    exact div_nonpos_of_nonpos_of_nonneg this (by norm_num)
  have hseconds : secondsOf ms ≤ 0 := nearest_nonpos hq
  have hwhole : truncate (secondsOf ms) ≤ 0 ∧ secondsOf ms - truncate (secondsOf ms) ≤ 0 := by
    unfold truncate
    split_ifs with hpos
    · have : secondsOf ms = 0 := le_antisymm hseconds hpos
      simp [this]
    · exact ⟨Int.ceil_le.mpr (by simpa using hseconds), by
        have := Int.le_ceil (secondsOf ms)
        linarith⟩
  have hfraction : roundHalfEven
      (nearest ((secondsOf ms - truncate (secondsOf ms)) * 1000000)) ≤ 0 := by
    have hneg : nearest ((secondsOf ms - truncate (secondsOf ms)) * 1000000) ≤ ((0 : ℤ) : ℚ) := by
      rw [Int.cast_zero]
      exact nearest_nonpos (by linarith [hwhole.2])
    have := roundHalfEven_monotone hneg
    rwa [roundHalfEven_intCast] at this
  have := hwhole.1
  unfold microsOf
  simp only [second, Timestamp, Duration] at *
  omega

end Timestamp

end Emporos
