import Emporos.Opportunity.Models
import Mathlib.Data.List.Sort
/-!
# The opportunity scan

The scanner turns the entries of one evaluation point into candidates: it
asks the registry whether the strategy may speak, draws the stop and the
target its risk settings declare around the limit, and ranks what is left.
-/

namespace Emporos

/-- The per-strategy limits, as the configuration model accepts them. -/
structure RiskSettings where
  maxPositionValue : Decimal
  maxOpenPositions : ℕ
  stopLossPct : Decimal
  targetPct : Decimal
  value_pos : 0 < maxPositionValue
  positions_pos : 0 < maxOpenPositions
  stop_pos : 0 < stopLossPct
  stop_lt : stopLossPct < 100
  target_pos : 0 < targetPct

/-- What the registry knows about a strategy. An empty list of timeframes or
regimes declares no restriction. -/
structure StrategyMetadata where
  supportedTimeframes : List Timeframe
  supportedRegimes : List MarketRegime
  supportedInstrumentIds : Option (List String)

/-- The strategy may speak about the instrument. -/
def StrategyMetadata.supports (m : StrategyMetadata) (timeframe : Timeframe) (regime : MarketRegime)
    (instrumentId : String) : Bool :=
  if m.supportedTimeframes ≠ [] ∧ timeframe ∉ m.supportedTimeframes then false
  else if m.supportedRegimes ≠ [] ∧ regime ∉ m.supportedRegimes then false
  else
    match m.supportedInstrumentIds with
    | some ids => instrumentId ∈ ids
    | none => true

/-- The registered strategies, by name. -/
abbrev StrategyRegistry := List (String × StrategyMetadata)

/-- The metadata of a strategy; an unknown name is refused. -/
def StrategyRegistry.metadata (registry : StrategyRegistry) (name : String) :
    Except PyError StrategyMetadata :=
  match registry.find? fun entry => entry.1 = name with
  | some entry => .ok entry.2
  | none => .error (.other "UnknownStrategyError")

/-- One strategy's output for one instrument, with what its configuration
declares. -/
structure StrategySignal where
  strategyName : String
  instrumentId : String
  timeframe : Timeframe
  signal : Option Signal
  riskSettings : RiskSettings

structure ScanResult where
  candidates : List OpportunityCandidate
  rejected : List RejectedCandidate

namespace OpportunityScanner

theorem regimeReason_meaningful : Text.isMeaningful "no regime classification available yet" := by
  decide +kernel

theorem eligibleReason_meaningful (regime : MarketRegime) :
    Text.isMeaningful ("strategy is not eligible for " ++ regime.value ++
      " regime on this instrument") := by
  cases regime <;> decide +kernel

variable [DecimalContext]

/-- The stop a strategy's settings draw: on the losing side of the limit. -/
def stopPrice (side : OrderSide) (price : Decimal) (settings : RiskSettings) : Decimal :=
  match side with
  | .buy => price.mul (Decimal.sub 1 (settings.stopLossPct.div 100))
  | .sell => price.mul (Decimal.add 1 (settings.stopLossPct.div 100))

/-- The target they draw: on the winning side. -/
def targetPrice (side : OrderSide) (price : Decimal) (settings : RiskSettings) : Decimal :=
  match side with
  | .buy => price.mul (Decimal.add 1 (settings.targetPct.div 100))
  | .sell => price.mul (Decimal.sub 1 (settings.targetPct.div 100))

/-- `_to_candidate`. -/
def toCandidate (entry : StrategySignal) (signal : Signal) (regime : MarketRegime) :
    Except PyError OpportunityCandidate :=
  OpportunityCandidate.make entry.strategyName entry.instrumentId entry.timeframe signal
    signal.limitPrice
    ⟨stopPrice signal.side signal.limitPrice.amount entry.riskSettings⟩
    ⟨targetPrice signal.side signal.limitPrice.amount entry.riskSettings⟩
    (some regime) signal.ts 1

/-- `_evaluate`: a candidate, a rejection, or silence. -/
def evaluate (registry : StrategyRegistry) (entry : StrategySignal) (regime : Option MarketRegime)
    (ts : Timestamp) : Except PyError (Option (OpportunityCandidate ⊕ RejectedCandidate)) :=
  match entry.signal with
  | none => .ok none
  | some signal =>
      if signal.kind ≠ .entry then .ok none
      else
        registry.metadata entry.strategyName >>= fun metadata =>
          match regime with
          | none => .ok (some (.inr ⟨entry.strategyName, entry.instrumentId,
              "no regime classification available yet", ts, regimeReason_meaningful⟩))
          | some regime =>
              if metadata.supports entry.timeframe regime entry.instrumentId then
                toCandidate entry signal regime >>= fun candidate => .ok (some (.inl candidate))
              else .ok (some (.inr ⟨entry.strategyName, entry.instrumentId,
                "strategy is not eligible for " ++ regime.value ++ " regime on this instrument", ts,
                eligibleReason_meaningful regime⟩))

/-- The loop of the scan: the first exception ends it. -/
def scanAll (registry : StrategyRegistry) (regimes : String → Option MarketRegime) (ts : Timestamp) :
    List StrategySignal → ScanResult → Except PyError ScanResult
  | [], result => .ok result
  | entry :: rest, result =>
      evaluate registry entry (regimes entry.instrumentId) ts >>= fun outcome =>
        match outcome with
        | some (.inl candidate) =>
            scanAll registry regimes ts rest
              { result with candidates := result.candidates ++ [candidate] }
        | some (.inr rejection) =>
            scanAll registry regimes ts rest { result with rejected := result.rejected ++ [rejection] }
        | none => scanAll registry regimes ts rest result

/-- Best first, equals in the order they came. -/
def ranks (c d : OpportunityCandidate) : Prop := d.score ≤ c.score

instance : DecidableRel ranks := fun c d => inferInstanceAs (Decidable (d.score ≤ c.score))

def scan (registry : StrategyRegistry) (signals : List StrategySignal)
    (regimes : String → Option MarketRegime) (ts : Timestamp) : Except PyError ScanResult :=
  scanAll registry regimes ts signals ⟨[], []⟩ >>= fun result =>
    .ok ⟨result.candidates.insertionSort ranks, result.rejected⟩

/-! ## When the scan comes through -/

/-- The settings draw a well-formed bracket around the limit: stop and
target positive and on their sides. -/
def Brackets (settings : RiskSettings) (signal : Signal) : Prop :=
  (0 < stopPrice signal.side signal.limitPrice.amount settings ∧
    0 < targetPrice signal.side signal.limitPrice.amount settings) ∧
  bracketFits signal.side signal.limitPrice
    ⟨stopPrice signal.side signal.limitPrice.amount settings⟩
    ⟨targetPrice signal.side signal.limitPrice.amount settings⟩

instance (settings : RiskSettings) (signal : Signal) : Decidable (Brackets settings signal) :=
  inferInstanceAs (Decidable ((_ ∧ _) ∧ _))

/-- The strategy is registered, and if it may speak in the regime its
settings draw a well-formed bracket. -/
def Admissible (registry : StrategyRegistry) (entry : StrategySignal) (signal : Signal)
    (regime : Option MarketRegime) : Prop :=
  ∃ metadata, registry.metadata entry.strategyName = .ok metadata ∧
    ∀ r ∈ regime, metadata.supports entry.timeframe r entry.instrumentId →
      Brackets entry.riskSettings signal

variable {registry : StrategyRegistry} {entry : StrategySignal} {signal : Signal}
  {regimes : String → Option MarketRegime} {ts : Timestamp}

theorem toCandidate_isOk (regime : MarketRegime) :
    (∃ c, toCandidate entry signal regime = .ok c) ↔ Brackets entry.riskSettings signal := by
  have hconfident : (0 : Decimal) ≤ 1 ∧ (1 : Decimal) ≤ 1 := ⟨zero_le_one, le_rfl⟩
  have hlimit := signal.limit_pos
  unfold toCandidate OpportunityCandidate.make
  rw [dif_pos hconfident]
  constructor
  · rintro ⟨c, hc⟩
    split_ifs at hc with hpositive hfits
    exact ⟨hpositive.2, hfits⟩
  · rintro ⟨hpositive, hfits⟩
    rw [dif_pos ⟨hlimit, hpositive⟩, dif_pos hfits]
    exact ⟨_, rfl⟩

/-- **An entry is evaluated without an exception** exactly when it is
admissible. -/
theorem evaluate_isOk (hsignal : entry.signal = some signal) (hkind : signal.kind = .entry)
    (regime : Option MarketRegime) :
    (∃ outcome, evaluate registry entry regime ts = .ok outcome) ↔
      Admissible registry entry signal regime := by
  have hkind' : ¬ signal.kind ≠ .entry := not_not.mpr hkind
  unfold evaluate Admissible
  rw [hsignal]
  dsimp only
  rw [if_neg hkind']
  cases hmeta : registry.metadata entry.strategyName with
  | error e =>
      constructor
      · rintro ⟨outcome, h⟩
        cases h
      · rintro ⟨metadata, h, -⟩
        cases h
  | ok metadata =>
      rw [ok_bind]
      cases regime with
      | none => exact ⟨fun _ => ⟨metadata, rfl, fun r hr => by cases hr⟩, fun _ => ⟨_, rfl⟩⟩
      | some r =>
          dsimp only
          by_cases hsupports : metadata.supports entry.timeframe r entry.instrumentId = true
          · rw [if_pos hsupports]
            constructor
            · rintro ⟨outcome, h⟩
              obtain ⟨c, hc, -⟩ := exists_of_bind h
              exact ⟨metadata, rfl, fun _ _ _ => (toCandidate_isOk r).mp ⟨c, hc⟩⟩
            · rintro ⟨metadata', h, hadmits⟩
              obtain rfl := Except.ok.inj h
              obtain ⟨c, hc⟩ := (toCandidate_isOk r).mpr (hadmits r rfl hsupports)
              rw [hc]
              exact ⟨_, rfl⟩
          · rw [if_neg hsupports]
            refine ⟨fun _ => ⟨metadata, rfl, fun r' hr' hs => ?_⟩, fun _ => ⟨_, rfl⟩⟩
            obtain rfl := Option.some.inj hr'
            exact absurd hs hsupports

theorem scanAll_isOk {signals : List StrategySignal} :
    ∀ result, (∃ r, scanAll registry regimes ts signals result = .ok r) ↔
      ∀ entry ∈ signals, ∃ outcome,
        evaluate registry entry (regimes entry.instrumentId) ts = .ok outcome := by
  induction signals with
  | nil => exact fun result => ⟨fun _ entry h => absurd h List.not_mem_nil, fun _ => ⟨_, rfl⟩⟩
  | cons entry rest ih =>
      intro result
      rw [List.forall_mem_cons]
      unfold scanAll
      cases hentry : evaluate registry entry (regimes entry.instrumentId) ts with
      | error e =>
          constructor
          · rintro ⟨r, h⟩
            cases h
          · rintro ⟨⟨outcome, h⟩, -⟩
            cases h
      | ok outcome =>
          have hok : ∃ o, Except.ok (ε := PyError) outcome = .ok o := ⟨outcome, rfl⟩
          rw [ok_bind, and_iff_right hok]
          cases outcome with
          | none => exact ih _
          | some verdict =>
              cases verdict with
              | inl candidate => exact ih _
              | inr rejection => exact ih _

/-- **The scan comes through** exactly when every entry among the signals is
admissible. -/
theorem scan_isOk {signals : List StrategySignal}
    (hentries : ∀ entry ∈ signals, ∃ signal, entry.signal = some signal ∧ signal.kind = .entry) :
    (∃ result, scan registry signals regimes ts = .ok result) ↔
      ∀ entry ∈ signals, ∀ signal, entry.signal = some signal →
        Admissible registry entry signal (regimes entry.instrumentId) := by
  have hscan : (∃ result, scan registry signals regimes ts = .ok result) ↔
      ∃ r, scanAll registry regimes ts signals ⟨[], []⟩ = .ok r := by
    unfold scan
    constructor
    · rintro ⟨result, h⟩
      obtain ⟨r, hr, -⟩ := exists_of_bind h
      exact ⟨r, hr⟩
    · rintro ⟨r, hr⟩
      rw [hr]
      exact ⟨_, rfl⟩
  rw [hscan, scanAll_isOk]
  constructor
  · intro h entry hentry signal hsignal
    obtain ⟨signal', hsignal', hkind⟩ := hentries entry hentry
    obtain rfl := Option.some.inj (hsignal'.symm.trans hsignal)
    exact (evaluate_isOk hsignal hkind _).mp (h entry hentry)
  · intro h entry hentry
    obtain ⟨signal, hsignal, hkind⟩ := hentries entry hentry
    exact (evaluate_isOk hsignal hkind _).mpr (h entry hentry signal hsignal)

/-! ## Brackets that are not rounded -/

/-- The context draws the bracket exactly. -/
structure Unrounded (settings : RiskSettings) (signal : Signal) : Prop where
  stop : stopPrice signal.side signal.limitPrice.amount settings =
    match signal.side with
    | .buy => signal.limitPrice.amount * (1 - settings.stopLossPct / 100)
    | .sell => signal.limitPrice.amount * (1 + settings.stopLossPct / 100)
  target : targetPrice signal.side signal.limitPrice.amount settings =
    match signal.side with
    | .buy => signal.limitPrice.amount * (1 + settings.targetPct / 100)
    | .sell => signal.limitPrice.amount * (1 - settings.targetPct / 100)

/-- **A purchase always has its bracket, a sale only below a target of 100
percent.** -/
theorem brackets_iff {settings : RiskSettings} (h : Unrounded settings signal) :
    Brackets settings signal ↔ (signal.side = .sell → settings.targetPct < 100) := by
  have hlimit : 0 < signal.limitPrice.amount := Money.lt_iff.mp signal.limit_pos
  have hstop := settings.stop_pos
  have hstop' := settings.stop_lt
  have htarget := settings.target_pos
  have hs := h.stop
  have ht := h.target
  unfold Brackets bracketFits
  rw [Money.lt_iff, Money.lt_iff, Money.lt_iff, Money.lt_iff]
  cases hside : signal.side with
  | buy =>
      rw [hside] at hs ht
      rw [hs, ht]
      refine ⟨fun _ h => OrderSide.noConfusion h, fun _ => ⟨⟨?_, ?_⟩, ?_, ?_⟩⟩
      · exact mul_pos hlimit (by linarith)
      · exact mul_pos hlimit (by linarith)
      · exact mul_lt_of_lt_one_right hlimit (by linarith)
      · exact lt_mul_of_one_lt_right hlimit (by linarith)
  | sell =>
      rw [hside] at hs ht
      rw [hs, ht]
      constructor
      · rintro ⟨⟨-, hpos⟩, -⟩ -
        have := (mul_pos_iff_of_pos_left hlimit).mp hpos
        linarith
      · intro hlt
        have hlt' := hlt rfl
        refine ⟨⟨?_, ?_⟩, ?_, ?_⟩
        · exact mul_pos hlimit (by linarith)
        · exact mul_pos hlimit (by linarith)
        · exact mul_lt_of_lt_one_right hlimit (by linarith)
        · exact lt_mul_of_one_lt_right hlimit (by linarith)

end OpportunityScanner

end Emporos
