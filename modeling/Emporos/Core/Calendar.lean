import Emporos.Core.Errors
import Mathlib.Order.Monotone.Basic
import Mathlib.Tactic.Ring
/-!
# Calendar months

The month of a moment in the proleptic Gregorian calendar. A year is
counted from March, so that the leap day is the last of its year: a cycle
of four years ends with it, a century of 25 cycles leaves it out, and
every fourth century does not. Months are numbered from the year zero, so
that a later moment never has an earlier month.
-/

namespace Emporos

namespace Calendar

/-- The months before a day of a cycle of four years. -/
def monthsInCycle (day : ℤ) : ℤ :=
  let year := min (day / 365) 3
  12 * year + (5 * (day - 365 * year) + 2) / 153

/-- The months before a day of a century. -/
def monthsInCentury (day : ℤ) : ℤ := 48 * (day / 1461) + monthsInCycle (day % 1461)

/-- The months before a day of four centuries. -/
def monthsInEra (day : ℤ) : ℤ :=
  let century := min (day / 36524) 3
  1200 * century + monthsInCentury (day - 36524 * century)

/-- The months before a day, counted from 1 March of the year zero. -/
def months (day : ℤ) : ℤ := 4800 * (day / 146097) + monthsInEra (day % 146097)

variable {a b : ℤ}

theorem monthsInCycle_bounds (h0 : 0 ≤ a) (h : a ≤ 1460) :
    0 ≤ monthsInCycle a ∧ monthsInCycle a ≤ 47 := by
  simp only [monthsInCycle]
  omega

theorem monthsInCycle_mono (h0 : 0 ≤ a) (hab : a ≤ b) (h : b ≤ 1460) :
    monthsInCycle a ≤ monthsInCycle b := by
  simp only [monthsInCycle]
  omega

theorem monthsInCentury_bounds (h0 : 0 ≤ a) (h : a ≤ 36524) :
    0 ≤ monthsInCentury a ∧ monthsInCentury a ≤ 1199 := by
  have := monthsInCycle_bounds (Int.emod_nonneg a (by omega)) (by omega : a % 1461 ≤ 1460)
  unfold monthsInCentury
  omega

theorem monthsInCentury_mono (hab : a ≤ b) : monthsInCentury a ≤ monthsInCentury b := by
  have ha := monthsInCycle_bounds (Int.emod_nonneg a (by omega)) (by omega : a % 1461 ≤ 1460)
  have hb := monthsInCycle_bounds (Int.emod_nonneg b (by omega)) (by omega : b % 1461 ≤ 1460)
  unfold monthsInCentury
  by_cases hsame : a / 1461 = b / 1461
  · have := monthsInCycle_mono (Int.emod_nonneg a (by omega)) (by omega : a % 1461 ≤ b % 1461)
      (by omega)
    omega
  · omega

theorem monthsInEra_bounds (h0 : 0 ≤ a) (h : a ≤ 146096) :
    0 ≤ monthsInEra a ∧ monthsInEra a ≤ 4799 := by
  have := monthsInCentury_bounds (by omega : 0 ≤ a - 36524 * min (a / 36524) 3) (by omega)
  simp only [monthsInEra]
  omega

theorem monthsInEra_mono (h0 : 0 ≤ a) (hab : a ≤ b) (h : b ≤ 146096) :
    monthsInEra a ≤ monthsInEra b := by
  have ha := monthsInCentury_bounds (by omega : 0 ≤ a - 36524 * min (a / 36524) 3) (by omega)
  have hb := monthsInCentury_bounds (by omega : 0 ≤ b - 36524 * min (b / 36524) 3) (by omega)
  simp only [monthsInEra]
  by_cases hsame : min (a / 36524) 3 = min (b / 36524) 3
  · have := monthsInCentury_mono (by omega :
      a - 36524 * min (a / 36524) 3 ≤ b - 36524 * min (b / 36524) 3)
    omega
  · omega

/-- **A later day never has an earlier month.** -/
theorem months_mono {a b : ℤ} (hab : a ≤ b) : months a ≤ months b := by
  have ha := monthsInEra_bounds (Int.emod_nonneg a (by omega)) (by omega : a % 146097 ≤ 146096)
  have hb := monthsInEra_bounds (Int.emod_nonneg b (by omega)) (by omega : b % 146097 ≤ 146096)
  unfold months
  by_cases hsame : a / 146097 = b / 146097
  · have := monthsInEra_mono (Int.emod_nonneg a (by omega)) (by omega : a % 146097 ≤ b % 146097)
      (by omega)
    omega
  · omega

/-- The days before a month, from 1 March of the year zero. -/
def monthStart (month : ℤ) : ℤ :=
  let year := month / 12
  365 * year + year / 4 - year / 100 + year / 400 + (153 * (month % 12) + 2) / 5

/-- Where a day lies in the cycles, and its month by them. -/
theorem months_eq (day : ℤ) : ∃ era century cycle year month,
    months day = 4800 * era + 1200 * century + 48 * cycle + 12 * year + month ∧
    (0 ≤ century ∧ century ≤ 3) ∧ (0 ≤ cycle ∧ cycle ≤ 24) ∧ (0 ≤ year ∧ year ≤ 3) ∧
    (0 ≤ month ∧ month ≤ 11) ∧
    146097 * era + 36524 * century + 1461 * cycle + 365 * year + (153 * month + 2) / 5 ≤ day := by
  refine ⟨day / 146097, min (day % 146097 / 36524) 3,
    (day % 146097 - 36524 * min (day % 146097 / 36524) 3) / 1461,
    min ((day % 146097 - 36524 * min (day % 146097 / 36524) 3) % 1461 / 365) 3, ?_⟩
  generalize hrest : day % 146097 - 36524 * min (day % 146097 / 36524) 3 = rest
  refine ⟨(5 * (rest % 1461 - 365 * min (rest % 1461 / 365) 3) + 2) / 153, ?_⟩
  have hbounds : 0 ≤ rest ∧ rest ≤ 36524 := by omega
  refine ⟨?_, by omega, by omega, by omega, by omega, by omega⟩
  simp only [months, monthsInEra, monthsInCentury, monthsInCycle, hrest]
  omega

theorem monthStart_months_le (day : ℤ) : monthStart (months day) ≤ day := by
  obtain ⟨era, century, cycle, year, month, hmonths, hcentury, hcycle, hyear, hmonth, hday⟩ :=
    months_eq day
  have hyears : months day / 12 = 400 * era + 100 * century + 4 * cycle + year := by omega
  have hmod : months day % 12 = month := by omega
  simp only [monthStart, hyears, hmod]
  omega

/-- The first day of a month is in it. -/
theorem months_monthStart (m : ℤ) : months (monthStart m) = m := by
  obtain ⟨era, century, cycle, year, month, rfl, hcentury, hcycle, hyear, hmonth⟩ :
      ∃ era century cycle year month : ℤ,
        m = 4800 * era + 1200 * century + 48 * cycle + 12 * year + month ∧
        (0 ≤ century ∧ century ≤ 3) ∧ (0 ≤ cycle ∧ cycle ≤ 24) ∧ (0 ≤ year ∧ year ≤ 3) ∧
        (0 ≤ month ∧ month ≤ 11) :=
    ⟨m / 4800, m % 4800 / 1200, m % 1200 / 48, m % 48 / 12, m % 12, by omega, by omega, by omega,
      by omega, by omega⟩
  have hyears : (4800 * era + 1200 * century + 48 * cycle + 12 * year + month) / 12
      = 400 * era + 100 * century + 4 * cycle + year := by omega
  have hmod : (4800 * era + 1200 * century + 48 * cycle + 12 * year + month) % 12 = month := by
    omega
  simp only [monthStart, hyears, hmod]
  generalize hday : (153 * month + 2) / 5 = first
  have hstart : 365 * (400 * era + 100 * century + 4 * cycle + year)
      + (400 * era + 100 * century + 4 * cycle + year) / 4
      - (400 * era + 100 * century + 4 * cycle + year) / 100
      + (400 * era + 100 * century + 4 * cycle + year) / 400 + first
      = 146097 * era + (36524 * century + (1461 * cycle + (365 * year + first))) := by omega
  have hfirst : 0 ≤ first ∧ first ≤ 337 := by omega
  have hera : (146097 * era + (36524 * century + (1461 * cycle + (365 * year + first)))) / 146097
      = era := by omega
  have hrest : (146097 * era + (36524 * century + (1461 * cycle + (365 * year + first)))) % 146097
      = 36524 * century + (1461 * cycle + (365 * year + first)) := by omega
  have hcenturies : min ((36524 * century + (1461 * cycle + (365 * year + first))) / 36524) 3
      = century := by omega
  have hcycles : (1461 * cycle + (365 * year + first)) / 1461 = cycle := by omega
  have hcycled : (1461 * cycle + (365 * year + first)) % 1461 = 365 * year + first := by omega
  have hyeared : min ((365 * year + first) / 365) 3 = year := by omega
  have hmonths : (5 * first + 2) / 153 = month := by omega
  have hmonthsIn : monthsInEra (36524 * century + (1461 * cycle + (365 * year + first)))
      = 1200 * century + (48 * cycle + (12 * year + month)) := by
    simp only [monthsInEra, monthsInCentury, monthsInCycle, hcenturies, add_sub_cancel_left,
      hcycles, hcycled, hyeared, hmonths]
  rw [hstart, months, hera, hrest, hmonthsIn]
  ring

/-- **A day is in a month or a later one exactly if it is not before the
first of the month.** -/
theorem monthStart_le_iff {m day : ℤ} : monthStart m ≤ day ↔ m ≤ months day := by
  constructor
  · intro h
    have := months_mono h
    rwa [months_monthStart] at this
  · intro h
    rcases h.eq_or_lt with rfl | hlt
    · exact monthStart_months_le day
    · -- a first of the month behind the day would be in an earlier month
      by_contra hlate
      have := months_mono (not_le.mp hlate).le
      rw [months_monthStart] at this
      omega

end Calendar

namespace Timestamp

/-- The month of a moment: twelve times its year, and the number of the
month within it from zero. 719468 days lie between 1 March of the year
zero and the epoch, and March is the third month. -/
def monthIndex (t : Timestamp) : ℤ := Calendar.months (t / (86400 * second) + 719468) + 2

def year (t : Timestamp) : ℤ := t.monthIndex / 12

def month (t : Timestamp) : ℤ := t.monthIndex % 12 + 1

def dayOfMonth (t : Timestamp) : ℤ :=
  let day := t / (86400 * second) + 719468
  day - Calendar.monthStart (Calendar.months day) + 1

/-- A number in `width` digits or more. -/
def digits (width : ℕ) (n : ℤ) : List Char := List.leftpad width '0' (Nat.toDigits 10 n.toNat)

/-- `isoformat()` of a moment in UTC, which leaves a fraction of zero out. -/
def isoformat (t : Timestamp) : String :=
  String.ofList (digits 4 t.year ++ '-' :: digits 2 t.month ++ '-' :: digits 2 t.dayOfMonth ++
    'T' :: digits 2 (t / (3600 * second) % 24) ++ ':' :: digits 2 (t / (60 * second) % 60) ++
    ':' :: digits 2 (t / second % 60) ++
    (if t % second = 0 then [] else '.' :: digits 6 (t % second)) ++ "+00:00".toList)

/-- `isoformat()` of a date, by the number of its day. -/
def dateText (date : ℤ) : String :=
  let t : Timestamp := date * (86400 * second)
  String.ofList (digits 4 t.year ++ '-' :: digits 2 t.month ++ '-' :: digits 2 t.dayOfMonth)

/-- The first instant of a month. -/
def firstOfMonth (index : ℤ) : Timestamp :=
  (Calendar.monthStart (index - 2) - 719468) * (86400 * second)

/-- **A moment is in a month or a later one exactly if it is not before its
first instant.** -/
theorem firstOfMonth_le_iff {index : ℤ} {t : Timestamp} :
    firstOfMonth index ≤ t ↔ index ≤ t.monthIndex := by
  have h := @Calendar.monthStart_le_iff (index - 2) (t / (86400 * second) + 719468)
  simp only [firstOfMonth, monthIndex, second, Timestamp, Duration] at *
  omega

theorem monthIndex_mono {a b : Timestamp} (hab : a ≤ b) : monthIndex a ≤ monthIndex b := by
  have hday : a / (86400 * second) ≤ b / (86400 * second) :=
    Int.ediv_le_ediv (by decide) hab
  exact Int.add_le_add_right (Calendar.months_mono (Int.add_le_add_right hday 719468)) 2

/-- The epoch, the last of a leap February, and the day after it. -/
example : (year 0, month 0) = (1970, 1) ∧
    (year (11016 * 86400 * second), month (11016 * 86400 * second)) = (2000, 2) ∧
    (year (11017 * 86400 * second), month (11017 * 86400 * second)) = (2000, 3) := by decide

example : isoformat (11016 * 86400 * second + 4205000007) = "2000-02-29T01:10:05.000007+00:00" := by
  decide

end Timestamp

end Emporos
