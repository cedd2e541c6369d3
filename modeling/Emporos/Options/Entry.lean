import Emporos.Options.Spread
/-!
# What a day's entry is planned from

The expiry, the filters and the strikes of an entry, the volatility they
need, and how many spreads may be open. The regime conditions read daily
series: a trend the closes up to the day, a band the days before it. The
square root of a decimal is a parameter.
-/

namespace Emporos

namespace Options

/-! ## Regime conditions -/

abbrev DayCondition := Day → Bool

/-- A close for each session: a mapping, in the order of its days. -/
structure Closes where
  rows : List (Day × Decimal)
  sorted : rows.Pairwise fun x y => x.1 < y.1

namespace Closes

variable (closes : Closes)

/-- Where a session stands. -/
def position (day : Day) : Option ℕ := (closes.rows.map Prod.fst).idxOf? day

/-- The `length` values that end at a position. -/
def window (last length : ℕ) : Option (List Decimal) :=
  if last + 1 < length then none
  else some (((closes.rows.map Prod.snd).drop (last + 1 - length)).take length)

def value (position : ℕ) : Decimal := (closes.rows.map Prod.snd).getD position 0

end Closes

def mean (values : List Decimal) : Decimal := values.sum / values.length

/-- The close is above its average of the last sessions. -/
def trendAboveSma (closes : Closes) (window : {n : ℕ // 2 ≤ n}) : DayCondition := fun day =>
  match closes.position day with
  | none => false
  | some last =>
      match closes.window last window with
      | none => false
      | some values => mean values < closes.value last

/-- The close is above its fast average, and that above the slow one. -/
def smaStack (closes : Closes) (fast slow : ℕ) : DayCondition := fun day =>
  match closes.position day with
  | none => false
  | some last =>
      match closes.window last fast, closes.window last slow with
      | some quick, some long => mean quick < closes.value last ∧ mean long < mean quick
      | _, _ => false

/-- By nearest rank. -/
def quantile (sorted : List Decimal) (q : Decimal) : Decimal :=
  sorted.getD ((⌈q * sorted.length⌉ - 1).toNat) 0

/-- The day's value lies between two quantiles of the sessions before it. -/
def trailingPercentileBand (values : Closes) (low high : Decimal) (lookback : ℕ) : DayCondition :=
  fun day =>
    match values.position day with
    | none => false
    | some last =>
        if last < lookback then false
        else
          let earlier := ((values.window (last - 1) lookback).getD []).insertionSort (· ≤ ·)
          if earlier = [] then false
          else quantile earlier low ≤ values.value last ∧ values.value last ≤ quantile earlier high

def allOf (conditions : List DayCondition) : DayCondition := fun day =>
  conditions.all fun condition => condition day

/-! ## Filters -/

abbrev EntryFilter := ChainSnapshot → Day → Bool

def alwaysOpen : EntryFilter := fun _ _ => true

def conditionFilter (condition : DayCondition) : EntryFilter := fun s _ => condition s.day

/-- The ISO week of a day. -/
def isoWeek (day : Day) : ℤ := (day - 1) / 7

/-- The first of the given sessions in its week. -/
def firstSessionOfWeek (sessions : List Day) : EntryFilter := fun s _ =>
  s.day ∈ sessions ∧ ∀ day ∈ sessions, isoWeek day = isoWeek s.day → s.day ≤ day

/-- No event from today through the expiry. -/
def noEventThroughExpiry (events : List Day) : EntryFilter := fun s expiry =>
  !events.any fun e => s.day ≤ e ∧ e ≤ expiry

/-! ## Expiries -/

abbrev ExpiryChooser := ChainSnapshot → Option Day

def ChainSnapshot.offTarget (s : ChainSnapshot) (target : ℤ) (expiry : Day) : ℕ :=
  (s.daysTo expiry - target).natAbs

/-- The expiry whose days left are closest to the target, the earlier one on
a tie. -/
def targetDte (minimum maximum target : ℤ) : ExpiryChooser := fun s =>
  ((s.expiryDates.filter fun e => minimum ≤ s.daysTo e ∧ s.daysTo e ≤ maximum).insertionSort
    fun e f => s.offTarget target e < s.offTarget target f ∨
      s.offTarget target e = s.offTarget target f ∧ e ≤ f).head?

/-- The nearest expiry on which a future expires as well. -/
def monthlyExpiries (futures : Day → List Day) (minimum maximum : ℤ) : ExpiryChooser := fun s =>
  (s.expiryDates.filter fun e =>
    e ∈ futures s.day ∧ minimum ≤ s.daysTo e ∧ s.daysTo e ≤ maximum).min?

/-! ## Strikes -/

abbrev VolatilitySource := Day → Option Decimal

/-- A close of 15 is a volatility of 0.15. -/
def vixVolatility (closes : Closes) : VolatilitySource := fun day =>
  match closes.rows.lookup day with
  | none => none
  | some close => if close ≤ 0 then none else some (close / 100)

abbrev SpreadTemplate := ChainSnapshot → Day → Except PyError (Option SpreadPlan)

/-- The volatility of a day, if there is one. -/
def knownVolatility (volatility : VolatilitySource) (day : Day) : Option Decimal :=
  match volatility day with
  | none => none
  | some vol => if vol ≤ 0 then none else some vol

structure SigmaStrikes where
  volatility : VolatilitySource
  sigmas : Decimal
  width : Decimal
  sigmas_pos : 0 < sigmas
  width_pos : 0 < width

variable (sqrt : Decimal → Decimal)

/-- One standard deviation over the days left. -/
def deviation (s : ChainSnapshot) (vol : Decimal) (expiry : Day) : Decimal :=
  s.underlyingClose * vol * sqrt (s.daysTo expiry / 365)

/-- The short strike is rounded away from the money. -/
def SigmaStrikes.vertical (k : SigmaStrikes) (s : ChainSnapshot) (expiry : Day)
    (right : OptionRight) : Except PyError (Option Vertical) :=
  match knownVolatility k.volatility s.day with
  | none => .ok none
  | some vol =>
      match right with
      | .put =>
          let raw := s.underlyingClose - k.sigmas * deviation sqrt s vol expiry
          let short := ⌊raw / s.strikeStep⌋ * s.strikeStep
          (Vertical.make .put short (short - k.width)).map some
      | .call =>
          let raw := s.underlyingClose + k.sigmas * deviation sqrt s vol expiry
          let short := -(⌊-raw / s.strikeStep⌋ : Decimal) * s.strikeStep
          (Vertical.make .call short (short + k.width)).map some

def putCreditSpread (k : SigmaStrikes) : SpreadTemplate := fun s expiry => do
  match ← k.vertical sqrt s expiry .put with
  | none => pure none
  | some put => some <$> SpreadPlan.make expiry [put]

def ironCondor (k : SigmaStrikes) : SpreadTemplate := fun s expiry => do
  let put ← k.vertical sqrt s expiry .put
  let call ← k.vertical sqrt s expiry .call
  match put, call with
  | some put, some call => some <$> SpreadPlan.make expiry [put, call]
  | _, _ => pure none

structure RiskCappedPutSpread where
  volatility : VolatilitySource
  sigmas : Decimal
  maxLossRupees : Decimal
  sigmas_pos : 0 < sigmas
  maxLossRupees_pos : 0 < maxLossRupees

/-- The listed strike next to the target, and the widest listed wing whose
loss stays within the cap. -/
def RiskCappedPutSpread.build (k : RiskCappedPutSpread) : SpreadTemplate := fun s expiry =>
  match knownVolatility k.volatility s.day, s.chain expiry with
  | some vol, some chain =>
      let target := s.underlyingClose - k.sigmas * deviation sqrt s vol expiry
      let puts := ((chain.quotes.filter fun q => q.1.2 = .put).map fun q => q.1.1).insertionSort
        (· ≤ ·)
      match (puts.filter fun x => x ≤ target).getLast? with
      | none => .ok none
      | some short =>
          if s.lotFor expiry = 0 then .error (.other "DivisionByZero")
          else
            let widest := k.maxLossRupees / s.lotFor expiry
            match (puts.filter fun x => x < short ∧ short - x ≤ widest).head? with
            | none => .ok none
            | some long => do
                let v ← Vertical.make .put short long
                some <$> SpreadPlan.make expiry [v]
  | _, _ => .ok none

/-! ## Entries and depth -/

abbrev EntryPlanner := ChainSnapshot → Except PyError (Option SpreadPlan)

/-- `SpreadEntry`. -/
def spreadEntry (filters : List EntryFilter) (chooser : ExpiryChooser) (template : SpreadTemplate) :
    EntryPlanner := fun s =>
  match chooser s with
  | none => .ok none
  | some expiry =>
      if filters.all fun allows => allows s expiry then template s expiry else .ok none

/-- The most spreads that may be open after the day's entry. -/
abbrev DepthPolicy := ChainSnapshot → ℤ

def fixedDepth (depth : {n : ℤ // 1 ≤ n}) : DepthPolicy := fun _ => depth

/-- Extra spreads on the days a condition holds. -/
def convictionDepth (base : {n : ℤ // 1 ≤ n}) (extra : {n : ℤ // 0 ≤ n})
    (conviction : DayCondition) : DepthPolicy := fun s =>
  base + if conviction s.day then extra.val else 0

end Options

end Emporos
