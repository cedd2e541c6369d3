import Emporos.Core.Errors
/-!
# The trading session

The regular session of a trading day is 09:15 to 15:30 in India, half open.
The windows of the platform open on a whole minute after midnight, so the
minutes of a session stay inside one day.
-/

namespace Emporos

namespace Timestamp

/-- One minute, one day. -/
def minute : Duration := 60 * second

def day : Duration := 86400 * second

/-- India's clock is this far ahead of UTC. -/
def indiaOffset : Duration := 19800 * second

/-- The time of day in India. -/
def localTime (t : Timestamp) : Duration := (t + indiaOffset) % day

/-- The minute a moment falls in. India's offset is a whole number of
minutes, so both clocks agree on it. -/
def floorMinute (t : Timestamp) : Timestamp := t - t % minute

/-- A moment that starts a minute. -/
def WholeMinute (t : Timestamp) : Prop := t % minute = 0

instance (t : Timestamp) : Decidable (WholeMinute t) := inferInstanceAs (Decidable (_ = _))

variable {t s : Timestamp}

theorem minute_pos : 0 < minute := by decide

/-! In microseconds: -/

theorem minute_eq : minute = 60000000 := rfl

theorem wholeMinute_iff : WholeMinute t ↔ t % 60000000 = 0 := Iff.rfl

theorem floorMinute_eq (t : Timestamp) : floorMinute t = t - t % 60000000 := rfl

theorem sessionDate_eq (t : Timestamp) : sessionDate t = (t + 19800000000) / 86400000000 := rfl

theorem localTime_eq (t : Timestamp) : localTime t = (t + 19800000000) % 86400000000 := rfl

theorem wholeMinute_floor (t : Timestamp) : WholeMinute (floorMinute t) := by
  simp only [wholeMinute_iff, floorMinute_eq, Timestamp]
  omega

theorem floorMinute_le (t : Timestamp) : floorMinute t ≤ t := by
  simp only [floorMinute_eq, Timestamp]
  omega

theorem lt_floorMinute_add (t : Timestamp) : t < floorMinute t + minute := by
  simp only [floorMinute_eq, minute_eq, Timestamp]
  omega

theorem WholeMinute.add_minute (h : WholeMinute t) : WholeMinute (t + minute) := by
  simp only [wholeMinute_iff, minute_eq, Timestamp] at *
  omega

/-- Two minutes either agree or are a minute apart. -/
theorem WholeMinute.add_le (ht : WholeMinute t) (hs : WholeMinute s) (hlt : t < s) :
    t + minute ≤ s := by
  simp only [wholeMinute_iff, minute_eq, Timestamp] at *
  omega

/-- A moment and its minute fall on the same day. -/
@[simp] theorem sessionDate_floorMinute (t : Timestamp) :
    sessionDate (floorMinute t) = sessionDate t := by
  simp only [sessionDate_eq, floorMinute_eq, Timestamp]
  omega

theorem sessionDate_mono (h : t ≤ s) : sessionDate t ≤ sessionDate s := by
  simp only [sessionDate_eq, Timestamp] at *
  omega

end Timestamp

open Timestamp

def regularOpen : Duration := 33300 * second

def preOpen : Duration := 32400 * second

def regularClose : Duration := 55800 * second

/-- The hours of the session, in microseconds of the day in India. -/
structure SessionWindow where
  openTime : Duration
  closeTime : Duration
  isTradingDay : ℤ → Bool

/-- From the open to just before the close, on a trading day. -/
def SessionWindow.contains (w : SessionWindow) (moment : Timestamp) : Bool :=
  let time := (moment + 19800 * Timestamp.second) % (86400 * Timestamp.second)
  w.isTradingDay moment.sessionDate ∧ w.openTime ≤ time ∧ time < w.closeTime

namespace SessionWindow

/-- When the session of a day opens. -/
def openAt (w : SessionWindow) (date : Int) : Timestamp := date * day + w.openTime - indiaOffset

/-- `WeekdayCalendar`: Monday to Friday. Day 0 is a Thursday. -/
def weekdays (date : Int) : Bool := (date + 3) % 7 < 5

theorem contains_iff {w : SessionWindow} {t : Timestamp} : w.contains t ↔
    w.isTradingDay (sessionDate t) ∧ w.openTime ≤ localTime t ∧ localTime t < w.closeTime := by
  simp [contains, localTime, indiaOffset, day]

end SessionWindow

/-- A window that opens on a whole minute after midnight, as both windows
of the platform do. -/
structure MinuteWindow extends SessionWindow where
  open_whole : WholeMinute openTime
  open_pos : 0 < openTime

namespace MinuteWindow

theorem regularOpen_whole : WholeMinute regularOpen ∧ 0 < regularOpen := by decide

theorem preOpen_whole : WholeMinute preOpen ∧ 0 < preOpen := by decide

def regular (isTradingDay : ℤ → Bool) : MinuteWindow :=
  ⟨⟨regularOpen, regularClose, isTradingDay⟩, regularOpen_whole.1, regularOpen_whole.2⟩

def withPreOpen (isTradingDay : ℤ → Bool) : MinuteWindow :=
  ⟨⟨preOpen, regularClose, isTradingDay⟩, preOpen_whole.1, preOpen_whole.2⟩

variable {w : MinuteWindow} {t s u : Timestamp}

/-- The minute of a moment in the session is in the session. -/
theorem contains_floorMinute (h : w.contains t) : w.contains (floorMinute t) := by
  obtain ⟨hday, hopen, hclose⟩ := SessionWindow.contains_iff.1 h
  refine SessionWindow.contains_iff.2 ⟨by simpa using hday, ?_, ?_⟩
  · have hwhole := w.open_whole
    simp only [wholeMinute_iff, localTime_eq, floorMinute_eq, Timestamp, Duration] at *
    omega
  · simp only [localTime_eq, floorMinute_eq, Timestamp, Duration] at *
    omega

/-- A minute after a minute of the session, if it is in the session too, is
on the same day. -/
theorem sessionDate_add_minute (ht : w.contains t) (hnext : w.contains (t + minute)) :
    sessionDate (t + minute) = sessionDate t := by
  obtain ⟨-, hopen, -⟩ := SessionWindow.contains_iff.1 ht
  obtain ⟨-, hopen', -⟩ := SessionWindow.contains_iff.1 hnext
  have hpos := w.open_pos
  have hwhole := w.open_whole
  simp only [wholeMinute_iff, sessionDate_eq, localTime_eq, minute_eq, Timestamp, Duration] at *
  omega

/-- The session of a day has no hole. -/
theorem contains_between (ht : w.contains t) (hu : w.contains u)
    (hdate : sessionDate t = sessionDate u) (hts : t ≤ s) (hsu : s ≤ u) :
    w.contains s ∧ sessionDate s = sessionDate t := by
  obtain ⟨hday, hopen, -⟩ := SessionWindow.contains_iff.1 ht
  obtain ⟨-, -, hclose⟩ := SessionWindow.contains_iff.1 hu
  have hs : sessionDate s = sessionDate t := by
    simp only [sessionDate_eq, Timestamp] at *
    omega
  refine ⟨SessionWindow.contains_iff.2 ⟨by rwa [hs], ?_, ?_⟩, hs⟩
  · simp only [sessionDate_eq, localTime_eq, Timestamp, Duration] at *
    omega
  · simp only [sessionDate_eq, localTime_eq, Timestamp, Duration] at *
    omega

end MinuteWindow

end Emporos
