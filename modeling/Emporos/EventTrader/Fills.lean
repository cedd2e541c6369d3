import Emporos.Common.HalfUp
import Emporos.Domain.Signal
import Emporos.EventTrader.Rules
/-!
# Entries and exits of the replay

An entry is a marketable limit, tried on the first bar that starts at or
after the order is placed. A position leaves at its stop, at its target, or
when its time is up; the price is taken from the bars.
-/

namespace Emporos

namespace EventTrader

open Timestamp

/-- A five-minute bar of the replay. -/
structure Bar where
  ts : Timestamp
  openPrice : Decimal
  high : Decimal
  low : Decimal
  close : Decimal
  volume : ℕ

def Bar.closesAt (b : Bar) : Timestamp := b.ts + 5 * minute

structure DailyBar where
  day : ℤ
  openPrice : Decimal
  high : Decimal
  low : Decimal
  close : Decimal

/-- What the replay reads of the market. -/
structure MarketData where
  fiveMinuteBars : String → ℤ → List Bar
  dailyBars : String → ℤ → ℤ → List DailyBar
  nextSession : ℤ → Option ℤ
  isSession : ℤ → Bool
  lastClose : String → Timestamp → Option Decimal

structure ScanExecution where
  limitBufferBps : Decimal
  tickSize : Decimal
  participation : Decimal
  squareOffAt : Duration

inductive ExitReason
  | stop
  | target
  | squareOff
  | time
  | endOfData
  | kill
  deriving DecidableEq

inductive NoEntry
  | noBars
  | notThrough
  | noVolume
  | noAnchor
  deriving DecidableEq

def NoEntry.value : NoEntry → String
  | noBars => "no_bars"
  | notThrough => "not_through"
  | noVolume => "no_volume"
  | noAnchor => "no_anchor"

structure EntryFill where
  ts : Timestamp
  day : ℤ
  reference : Decimal
  barIndex : ℕ

structure ExitFill where
  ts : Timestamp
  price : Decimal
  reason : ExitReason

def timeOfDay (hours minutes : ℤ) : Duration := (60 * hours + minutes) * minute

def afterHoursFirstEntry : Duration := timeOfDay 9 20

def lastEntry : Duration := timeOfDay 15 25

def sessionEnd : Duration := timeOfDay 15 30

/-- `datetime.combine(day, time, tzinfo=IST)`. -/
def combine (day : ℤ) (time : Duration) : Timestamp := day * Timestamp.day + time - indiaOffset

/-- `entry_time`: when the order is placed, if there is a session for it. -/
def entryTime (decisionAt : Timestamp) (market : MarketData) : Option Timestamp :=
  let today := sessionDate decisionAt
  let time := localTime decisionAt
  if market.isSession today ∧ timeOfDay 9 15 ≤ time ∧ time < lastEntry then some decisionAt
  else if market.isSession today ∧ time < timeOfDay 9 15 then
    some (combine today afterHoursFirstEntry)
  else (market.nextSession today).map fun following => combine following afterHoursFirstEntry

section Prices

variable [DecimalContext]

def tick : Decimal := 1 / 20

/-- The nearest whole number, a tie going away from zero. -/
def nearest (x : Decimal) : ℤ := if 0 ≤ x then HalfUp.halfUp x else -HalfUp.halfUp (-x)

/-- `price_level`: the stop (`against`) or the target, on the tick. -/
def priceLevel (reference : Decimal) (side : Side) (pct : Decimal) (against : Bool) : Decimal :=
  let move := (reference.mul pct).div 100
  let below := decide (side = .long) = against
  let raw := if below then reference.sub move else reference.add move
  Decimal.mul (nearest (raw.div tick)) tick

/-- `limit_for`: through the market, rounded to the tick so that it stays so. -/
def limitFor (execution : ScanExecution) (buying : Bool) (reference : Decimal) : Decimal :=
  let buffer := execution.limitBufferBps.div 10000
  if buying then
    Decimal.mul ⌈(reference.mul (Decimal.add 1 buffer)).div execution.tickSize⌉ execution.tickSize
  else
    Decimal.mul ⌊(reference.mul (Decimal.sub 1 buffer)).div execution.tickSize⌋ execution.tickSize

/-- Whether a bar trades strictly through a limit. -/
def through (side : Side) (limit : Decimal) (bar : Bar) : Bool :=
  match side with
  | .long => bar.low < limit
  | .short => limit < bar.high

variable (market : MarketData) (execution : ScanExecution)

/-- `EntryFiller.fill`. -/
def fill (instrumentId : String) (side : Side) (placedAt : Timestamp) (quantity : ℕ) :
    EntryFill ⊕ NoEntry :=
  let day := sessionDate placedAt
  let bars := market.fiveMinuteBars instrumentId day
  match bars.findIdx? (placedAt ≤ ·.ts) with
  | none => .inr .noBars
  | some index =>
      match bars.reverse.find? (·.closesAt ≤ placedAt), bars[index]? with
      | none, _ => .inr .noAnchor
      | _, none => .inr .noBars
      | some anchor, some bar =>
          let limit := limitFor execution (side = .long) anchor.close
          if !through side limit bar then .inr .notThrough
          else if ⌊Decimal.mul bar.volume execution.participation⌋ < quantity then .inr .noVolume
          else .inl ⟨bar.ts, day, anchor.close, index⟩

end Prices

/-- `touch`: the stop first when a bar reaches both; a bar that opens past a
level fills at its open. -/
def touch (openPrice high low : Decimal) (side : Side) (stop target : Decimal) :
    Option (Decimal × ExitReason) :=
  match side with
  | .long =>
      if low ≤ stop then some (min openPrice stop, .stop)
      else if target ≤ high then some (max openPrice target, .target)
      else none
  | .short =>
      if stop ≤ high then some (max openPrice stop, .stop)
      else if low ≤ target then some (min openPrice target, .target)
      else none

def dailyClose (day : ℤ) : Timestamp := combine day sessionEnd

section Exits

variable (market : MarketData) (execution : ScanExecution) (side : Side) (stop target : Decimal)

/-- `_scan_bars`: the first bar that touches a level, up to a time of day. -/
def scanBars (endAt : Duration) : List Bar → Option ExitFill
  | [] => none
  | bar :: bars =>
      if endAt < localTime bar.closesAt then none
      else
        match touch bar.openPrice bar.high bar.low side stop target with
        | some (price, reason) => some ⟨bar.closesAt, price, reason⟩
        | none => scanBars endAt bars

/-- `_square_off`: the close of the last bar that completes by then. -/
def squareOff (bars : List Bar) : Except PyError ExitFill :=
  let eligible := bars.filter fun b => localTime b.closesAt ≤ execution.squareOffAt
  match eligible.getLast?.or bars.getLast? with
  | none => .error (.other "IndexError")
  | some last => .ok ⟨last.closesAt, last.close, .squareOff⟩

/-- `intraday_exit`. -/
def intradayExit (instrumentId : String) (entry : EntryFill) : Except PyError ExitFill :=
  let bars := market.fiveMinuteBars instrumentId entry.day
  match scanBars side stop target execution.squareOffAt (bars.drop (entry.barIndex + 1)) with
  | some hit => .ok hit
  | none => squareOff execution bars

/-- `_daily_hit`. -/
def dailyHit (bar : DailyBar) : Option ExitFill :=
  (touch bar.openPrice bar.high bar.low side stop target).map fun hit =>
    ⟨dailyClose bar.day, hit.1, hit.2⟩

/-- `swing_exit`: the entry day's remaining bars, then the daily bars, then
the close of the last session of the hold. -/
def swingExit (instrumentId : String) (entry : EntryFill) (holdDays : ℤ) : Except PyError ExitFill :=
  let bars := market.fiveMinuteBars instrumentId entry.day
  match scanBars side stop target sessionEnd (bars.drop (entry.barIndex + 1)) with
  | some hit => .ok hit
  | none =>
      let daily := market.dailyBars instrumentId entry.day holdDays
      match daily.findSome? (dailyHit side stop target), daily.getLast?, bars.getLast? with
      | some out, _, _ => .ok out
      | none, some last, _ =>
          .ok ⟨dailyClose last.day, last.close, if daily.length < holdDays then .endOfData else .time⟩
      | none, none, some bar => .ok ⟨bar.closesAt, bar.close, .endOfData⟩
      | none, none, none => .error (.other "IndexError")

end Exits

/-! ## When a filled order is entered -/

variable [DecimalContext] {market : MarketData} {execution : ScanExecution} {instrumentId : String}
  {side : Side} {placedAt : Timestamp} {quantity : ℕ} {f : EntryFill}

/-- **A filled order is entered when it is placed, or later.** -/
theorem placedAt_le_of_fill (h : fill market execution instrumentId side placedAt quantity = .inl f) :
    placedAt ≤ f.ts := by
  unfold fill at h
  simp only at h
  cases hindex : (market.fiveMinuteBars instrumentId (sessionDate placedAt)).findIdx?
      (placedAt ≤ ·.ts) with
  | none =>
      rw [hindex] at h
      cases h
  | some index =>
      rw [hindex] at h
      simp only at h
      split at h
      · cases h
      · cases h
      · rename_i anchor bar _ hbar
        split at h
        · cases h
        · split at h
          · cases h
          · obtain rfl := Sum.inl.inj h
            obtain ⟨hlt, hp, -⟩ := List.findIdx?_eq_some_iff_getElem.mp hindex
            obtain ⟨_, rfl⟩ := List.getElem?_eq_some_iff.mp hbar
            exact of_decide_eq_true hp

end EventTrader

end Emporos
