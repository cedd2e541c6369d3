import Emporos.Domain.Candles
import Emporos.Domain.Signal
/-!
# Opportunity candidates

A candidate is a strategy's signal with the stop and the target its risk
settings put around the limit, so that different strategies' outputs can be
compared. What the constructor of the source refuses cannot be built.
-/

namespace Emporos

inductive MarketRegime
  | trending
  | ranging
  | highVol
  | lowVol
  deriving DecidableEq

namespace MarketRegime

def value : MarketRegime → String
  | trending => "trending"
  | ranging => "ranging"
  | highVol => "high_vol"
  | lowVol => "low_vol"

end MarketRegime

/-- A signal that did not become a candidate, and why. -/
structure RejectedCandidate where
  strategyName : String
  instrumentId : String
  reason : String
  ts : Timestamp
  explained : Text.isMeaningful reason

/-- Stop and target are on the correct sides of the entry. -/
def bracketFits (side : OrderSide) (entry stop target : Money) : Prop :=
  match side with
  | .buy => stop < entry ∧ entry < target
  | .sell => target < entry ∧ entry < stop

instance (side : OrderSide) (entry stop target : Money) :
    Decidable (bracketFits side entry stop target) := by
  cases side <;> exact inferInstanceAs (Decidable (_ ∧ _))

/-- One comparable trade opportunity from one strategy on one instrument. -/
structure OpportunityCandidate where
  strategyName : String
  instrumentId : String
  timeframe : Timeframe
  signal : Signal
  entry : Money
  stop : Money
  target : Money
  regime : Option MarketRegime
  generatedAt : Timestamp
  confidence : Decimal
  confident : 0 ≤ confidence ∧ confidence ≤ 1
  positive : Money.zero < entry ∧ Money.zero < stop ∧ Money.zero < target
  bracket_fits : bracketFits signal.side entry stop target

namespace OpportunityCandidate

/-- The constructor: it refuses what a candidate may not be. -/
def make (strategyName instrumentId : String) (timeframe : Timeframe) (signal : Signal)
    (entry stop target : Money) (regime : Option MarketRegime) (generatedAt : Timestamp)
    (confidence : Decimal) : Except PyError OpportunityCandidate :=
  if confident : 0 ≤ confidence ∧ confidence ≤ 1 then
    if positive : Money.zero < entry ∧ Money.zero < stop ∧ Money.zero < target then
      if bracket_fits : bracketFits signal.side entry stop target then
        .ok { strategyName, instrumentId, timeframe, signal, entry, stop, target, regime,
              generatedAt, confidence, confident, positive, bracket_fits }
      else .error (.valueError (match signal.side with
        | .buy => "a long candidate needs stop < entry < target"
        | .sell => "a short candidate needs target < entry < stop"))
    else .error (.valueError "entry, stop and target must be positive prices")
  else .error (.valueError "confidence must be between 0 and 1")

variable [DecimalContext]

def riskPerShare (c : OpportunityCandidate) : Money := ⟨(c.entry.amount.sub c.stop.amount).abs⟩

def rewardPerShare (c : OpportunityCandidate) : Money := ⟨(c.target.amount.sub c.entry.amount).abs⟩

/-- Reward to risk. -/
def expectedEdge (c : OpportunityCandidate) : Decimal :=
  c.rewardPerShare.amount.div c.riskPerShare.amount

/-- The ranking key: the expected edge weighted by how much to trust it. -/
def score (c : OpportunityCandidate) : Decimal := c.expectedEdge.mul c.confidence

end OpportunityCandidate

end Emporos
