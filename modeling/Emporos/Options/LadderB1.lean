import Emporos.Options.Backtest
/-!
# The put spread ladder

One arm of the declared cell, wired into the backtester: an entry on the
first session of a week at most, on a monthly expiry three to seven weeks
out, where the regime filter allows it, at listed strikes with the loss
capped; two spreads open at once, or three on conviction.
-/

namespace Emporos

namespace Options

namespace B1

def maxWingLoss : Decimal := 5000

def minDte : ℤ := 21

def maxDte : ℤ := 49

def trendWindow : ℕ := 200

def fastWindow : ℕ := 50

def vixLookback : ℕ := 252

/-- One arm. The cell it belongs to fixes its stop. -/
structure B1Parameters where
  k : Decimal
  regimeFilter : Bool
  ladderDepth : ℕ
  wingCap : Decimal
  stop : Option {m : Decimal // 0 < m}
  k_pos : 0 < k
  depth_declared : ladderDepth = 2 ∨ ladderDepth = 3
  wingCap_pos : 0 < wingCap

/-- A third slot, or a wing beyond the cap. -/
def B1Parameters.aggressive (arm : B1Parameters) : Bool :=
  arm.ladderDepth = 3 ∨ maxWingLoss < arm.wingCap

structure B1Inputs where
  chains : ChainSource
  niftyCloses : Closes
  vixCloses : Closes
  blackoutDays : List Day
  /-- The future expiries that are listed on a day. -/
  monthlyExpiries : Day → List Day
  fees : FoFeeSchedule
  capital : Decimal
  capital_pos : 0 < capital

variable (sqrt : Decimal → Decimal) (i : B1Inputs) (arm : B1Parameters)

/-- The trend, and volatility neither low nor high. -/
def regime : DayCondition :=
  allOf [trendAboveSma i.niftyCloses ⟨trendWindow, by decide⟩,
    trailingPercentileBand i.vixCloses (1 / 5) (4 / 5) vixLookback]

def filters : List EntryFilter :=
  firstSessionOfWeek i.chains.days ::
    if arm.regimeFilter then [conditionFilter (regime i), noEventThroughExpiry i.blackoutDays]
    else []

def conviction : DayCondition :=
  allOf [trailingPercentileBand i.vixCloses (1 / 2) (4 / 5) vixLookback,
    smaStack i.niftyCloses fastWindow trendWindow]

/-- `_depth`. -/
def depth : DepthPolicy :=
  if arm.aggressive then convictionDepth ⟨2, by decide⟩ ⟨1, by decide⟩ (conviction i)
  else fixedDepth ⟨2, by decide⟩

def entry : EntryPlanner :=
  spreadEntry (filters i arm) (monthlyExpiries i.monthlyExpiries minDte maxDte)
    (RiskCappedPutSpread.build sqrt
      ⟨vixVolatility i.vixCloses, arm.k, arm.wingCap, arm.k_pos, arm.wingCap_pos⟩)

/-- `B1Backtests.build`. -/
def build (scenario : SlippageScenario) : SpreadBacktester where
  chains := i.chains
  entry := entry sqrt i arm
  exits := standardPolicy ⟨1 / 2, by norm_num⟩ arm.stop ⟨7, by decide⟩
  margin := spanLikeMargin ⟨1 / 10, by norm_num⟩
  fees := i.fees
  settings := ⟨i.capital, 1, scenario, 1, i.capital_pos, by decide⟩
  depth := depth i arm

end B1

end Options

end Emporos
