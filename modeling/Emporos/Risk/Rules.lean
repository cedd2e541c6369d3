import Emporos.Core.Text
import Emporos.Marketdata.Session
import Emporos.Risk.Snapshot
/-!
# The standard risk rules

Each rule is a pure function of the signal and the snapshot, and says
allow, or block and why. They run in the order of `StandardRuleSet.rules`
and stop at the first block; a rule that raises blocks, and so does a
snapshot that cannot be built. The details a block carries for the audit
are not modelled.
-/

namespace Emporos

/-- What one rule says. A block always says why. -/
structure RuleVerdict where
  allowed : Bool
  reason : String
  explained : allowed = false → Text.isMeaningful reason

namespace RuleVerdict

def allow : RuleVerdict := ⟨true, "", by decide⟩

def block (reason : String) (h : Text.isMeaningful reason) : RuleVerdict :=
  ⟨false, reason, fun _ => h⟩

@[simp] theorem allow_allowed : allow.allowed = true := rfl

@[simp] theorem block_allowed {reason : String} {h : Text.isMeaningful reason} :
    (block reason h).allowed = false := rfl

end RuleVerdict

structure RiskRule where
  name : String
  evaluate : Signal → RiskSnapshot → Except PyError RuleVerdict

/-- Block if the condition holds. -/
def blockIf (condition : Bool) (reason : String) (h : Text.isMeaningful reason := by decide +kernel) :
    Except PyError RuleVerdict :=
  .ok (if condition then .block reason h else .allow)

/-! ## The shared arithmetic -/

def isEntry (signal : Signal) : Bool := signal.kind = .entry

def signedQuantity (side : OrderSide) (quantity : ℕ) : ℤ :=
  match side with
  | .buy => quantity
  | .sell => -quantity

/-- The net quantity now, and if the whole signal fills. -/
def netAfter (signal : Signal) (snapshot : RiskSnapshot) : ℤ × ℤ :=
  let now := (snapshot.account.position signal.instrumentId).netQuantity
  (now, now + signedQuantity signal.side signal.quantity)

/-- Shares of extra exposure, none when the signal only reduces. -/
def addedExposure (signal : Signal) (snapshot : RiskSnapshot) : ℕ :=
  let (now, after) := netAfter signal snapshot
  after.natAbs - now.natAbs

/-! ## The state of the system -/

/-- Live orders need live trading enabled. -/
def tradingModeGuard : RiskRule where
  name := "TradingModeGuard"
  evaluate _ snapshot :=
    blockIf (snapshot.system.mode = .live ∧ !snapshot.system.liveTradingEnabled)
      "live trading is not enabled (LIVE_TRADING_ENABLED is not true)"

/-- Blocks while the switch is set or unknown; a halt that permits exits
blocks entries only. -/
def killSwitchGuard : RiskRule where
  name := "KillSwitchGuard"
  evaluate signal snapshot :=
    let switch := snapshot.system.killSwitch
    if !switch.known then
      .ok (.block "the kill switch state is unknown, so it is treated as set" (by decide +kernel))
    else if switch.halted ∧ switch.exitsPermitted ∧ !isEntry signal then .ok .allow
    else blockIf switch.halted "the kill switch is set"

def marketSessionGuard (window : SessionWindow) : RiskRule where
  name := "MarketSessionGuard"
  evaluate _ snapshot := blockIf (!window.contains snapshot.now) "outside the trading session"

/-- Blocks entries on an instrument whose feed is stale. -/
def staleDataGuard : RiskRule where
  name := "StaleDataGuard"
  evaluate signal snapshot :=
    blockIf (isEntry signal ∧ (snapshot.market signal.instrumentId).stale)
      "the market data feed for this instrument is stale"

def brokerHealthGuard : RiskRule where
  name := "BrokerHealthGuard"
  evaluate _ snapshot :=
    if !snapshot.system.brokerSessionOk then
      .ok (.block "the broker session is not healthy" (by decide +kernel))
    else blockIf (!snapshot.system.orderFeedOk) "the broker order-update feed is not healthy"

/-- Blocks unless the last reconciliation finished clean. -/
def reconciliationGuard : RiskRule where
  name := "ReconciliationGuard"
  evaluate _ snapshot :=
    match snapshot.system.reconciliation with
    | .clean => .ok .allow
    | status => .ok (.block ("reconciliation is " ++ status.lower) (by cases status <;> decide +kernel))

/-! ## How much -/

/-- The numbers the rules enforce. -/
structure RiskLimits where
  maxDailyLoss : Money
  maxStrategyLoss : Money
  maxPositionValue : Money
  maxOpenPositions : ℕ
  maxCapitalDeployed : Money
  maxOrderQuantity : ℕ
  maxPriceDeviationPct : Decimal
  maxSpreadBps : Decimal
  duplicateWindow : Duration
  maxOrdersPerSecond : ℕ
  maxOrdersPerMinute : ℕ
  /-- None leaves the guard out. -/
  maxRiskPerTrade : Option Money
  losses_pos : Money.zero < maxDailyLoss ∧ Money.zero < maxStrategyLoss
  values_pos : Money.zero < maxPositionValue ∧ Money.zero < maxCapitalDeployed
  counts_pos : 0 < maxOpenPositions ∧ 0 < maxOrderQuantity ∧ 0 < maxOrdersPerSecond ∧
    0 < maxOrdersPerMinute
  deviation_fits : 0 < maxPriceDeviationPct ∧ maxPriceDeviationPct < 100
  spread_pos : 0 < maxSpreadBps
  window_pos : 0 < duplicateWindow
  risk_pos : ∀ cap ∈ maxRiskPerTrade, Money.zero < cap

/-- Blocks a second live order on the instrument and side inside the
window. -/
def duplicateOrderGuard (window : Duration) : RiskRule where
  name := "DuplicateOrderGuard"
  evaluate signal snapshot :=
    blockIf (snapshot.flow.working.any fun order =>
        order.instrumentId = signal.instrumentId ∧ order.side = signal.side ∧
          snapshot.now - order.placedAt < window)
      "a live order on this instrument and side is already working"

variable [DecimalContext]

/-- A loss blocks when it exceeds the cap. -/
def lossBlocked (cap pnl : Money) : Bool := cap < -pnl

/-- A guard that stops entries once a loss exceeds its cap. -/
def lossGuard (name reason : String) (h : Text.isMeaningful reason) (cap : Money)
    (pnl : Signal → RiskSnapshot → Money) : RiskRule where
  name := name
  evaluate signal snapshot :=
    blockIf (isEntry signal && lossBlocked cap (pnl signal snapshot)) reason h

def maxDailyLossGuard (cap : Money) : RiskRule :=
  lossGuard "MaxDailyLossGuard" "the daily loss cap is exceeded" (by decide +kernel) cap
    fun _ snapshot => snapshot.account.dailyPnl

def maxStrategyLossGuard (cap : Money) : RiskRule :=
  lossGuard "MaxStrategyLossGuard" "this strategy's loss cap is exceeded" (by decide +kernel) cap
    fun signal snapshot => (snapshot.account.strategyPnl signal.strategyRunId).getD Money.zero

/-- An order that reduces is never blocked; one that flips is measured by
the new position. -/
def maxPositionValueGuard (cap : Money) : RiskRule where
  name := "MaxPositionValueGuard"
  evaluate signal snapshot :=
    blockIf (addedExposure signal snapshot ≠ 0 ∧
        cap < signal.limitPrice.times (netAfter signal snapshot).2.natAbs)
      "the position in this instrument would exceed its value cap"

/-- An entry without a protective stop has an unknown worst case. -/
def maxRiskPerTradeGuard (cap : Money) : RiskRule where
  name := "MaxRiskPerTradeGuard"
  evaluate signal _ :=
    if !isEntry signal then .ok .allow
    else
      signal.protectiveStop.elim
        (.ok (.block "an entry with no protective stop has an unknown worst case"
          (by decide +kernel)))
        fun stop =>
          blockIf (cap < (Money.mk (signal.limitPrice.amount.sub stop.amount).abs).times
              signal.quantity)
            "the trade's risk to its stop exceeds the per-trade cap"

omit [DecimalContext] in
/-- Adding to a held position is fine. -/
def maxOpenPositionsGuard (cap : ℕ) : RiskRule where
  name := "MaxOpenPositionsGuard"
  evaluate signal snapshot :=
    blockIf ((snapshot.account.position signal.instrumentId).isFlat ∧
        cap ≤ snapshot.account.openPositionCount)
      "the open positions cap is reached"

def maxCapitalDeployedGuard (cap : Money) : RiskRule where
  name := "MaxCapitalDeployedGuard"
  evaluate signal snapshot :=
    let extra := signal.limitPrice.times (addedExposure signal snapshot)
    let deployed := snapshot.account.capitalDeployed + extra
    blockIf (Money.zero < extra ∧ cap < deployed) "total deployed capital would exceed its cap"

omit [DecimalContext] in
def maxOrderQuantityGuard (cap : ℕ) : RiskRule where
  name := "MaxOrderQuantityGuard"
  evaluate signal _ :=
    blockIf (cap < signal.quantity) "the order quantity exceeds the fat-finger cap"

/-- Blocks a limit price outside the circuit limits, or too far from the
last price. Where that is zero the division raises. -/
def priceSanityGuard (maxDeviationPct : Decimal) : RiskRule where
  name := "PriceSanityGuard"
  evaluate signal snapshot :=
    let market := snapshot.market signal.instrumentId
    let price := signal.limitPrice
    market.ltp.elim
      (.ok (.block "no last price to check the limit price against" (by decide +kernel)))
      fun ltp =>
        if market.lowerCircuit.any fun lower => price < lower then
          .ok (.block "the limit price is below the lower circuit" (by decide +kernel))
        else if market.upperCircuit.any fun upper => upper < price then
          .ok (.block "the limit price is above the upper circuit" (by decide +kernel))
        else if ltp.amount = 0 then .error (.other "DivisionByZero")
        else
          let deviation := (((price.amount.sub ltp.amount).abs).div ltp.amount).mul 100
          blockIf (maxDeviationPct < deviation) "the limit price is too far from the last price"

/-- Blocks entries when the spread is too wide, or cannot be measured. -/
def abnormalSpreadGuard (maxSpreadBps : Decimal) : RiskRule where
  name := "AbnormalSpreadGuard"
  evaluate signal snapshot :=
    let market := snapshot.market signal.instrumentId
    let unmeasured := .ok (.block "no valid bid/ask to measure the spread" (by decide +kernel))
    if !isEntry signal then .ok .allow
    else
      market.bid.elim unmeasured fun bid => market.ask.elim unmeasured fun ask =>
        if bid ≤ Money.zero ∨ ask < bid then unmeasured
        else
          let mid := (bid.amount.add ask.amount).div 2
          let spread := ((ask.amount.sub bid.amount).div mid).mul 10000
          blockIf (maxSpreadBps < spread) "the bid/ask spread is abnormally wide"

omit [DecimalContext] in
/-- The budget of orders a second and a minute. -/
def orderRateGuard (perSecond perMinute : ℕ) : RiskRule where
  name := "OrderRateGuard"
  evaluate _ snapshot :=
    let sent := fun (span : Duration) =>
      (snapshot.flow.recentOrderTimes.filter fun t => snapshot.now - t < span).length
    if perSecond ≤ sent Timestamp.second then
      .ok (.block "the per-second order budget is spent" (by decide +kernel))
    else blockIf (perMinute ≤ sent (60 * Timestamp.second)) "the per-minute order budget is spent"

/-- The rules, in the order they run. -/
def StandardRuleSet.rules (limits : RiskLimits) (window : SessionWindow) : List RiskRule :=
  [tradingModeGuard, killSwitchGuard, marketSessionGuard window, staleDataGuard, brokerHealthGuard,
   reconciliationGuard, duplicateOrderGuard limits.duplicateWindow,
   maxDailyLossGuard limits.maxDailyLoss, maxStrategyLossGuard limits.maxStrategyLoss,
   maxPositionValueGuard limits.maxPositionValue] ++
  (limits.maxRiskPerTrade.map maxRiskPerTradeGuard).toList ++
  [maxOpenPositionsGuard limits.maxOpenPositions, maxCapitalDeployedGuard limits.maxCapitalDeployed,
   maxOrderQuantityGuard limits.maxOrderQuantity, priceSanityGuard limits.maxPriceDeviationPct,
   abnormalSpreadGuard limits.maxSpreadBps,
   orderRateGuard limits.maxOrdersPerSecond limits.maxOrdersPerMinute]

/-! ## The engine -/

namespace RiskEngine

omit [DecimalContext]

def ruleErrorReason : String := "the rule raised an error, which is treated as a block"

/-- `_run`: a rule that raises blocks. -/
def run (rule : RiskRule) (signal : Signal) (snapshot : RiskSnapshot) : RuleVerdict :=
  match rule.evaluate signal snapshot with
  | .ok verdict => verdict
  | .error _ => .block ruleErrorReason (by decide +kernel)

/-- The first block, with the rule it came from. -/
def firstBlock (signal : Signal) (snapshot : RiskSnapshot) :
    List RiskRule → Option (RiskRule × RuleVerdict)
  | [] => none
  | rule :: rest =>
      let verdict := run rule signal snapshot
      if verdict.allowed then firstBlock signal snapshot rest else some (rule, verdict)

/-- What the review depends on besides the rules and the signal: the
snapshot or why it could not be built, whether a rejection can be
persisted, and what an approval is stamped with. -/
structure Context where
  snapshot : Except PyError RiskSnapshot
  record : Except PyError Unit
  approvalId : String
  approvedAt : Timestamp

/-- A rejection is persisted before it is returned. -/
def reject (record : Except PyError Unit) (signal : Signal) (signalId rule reason : String) :
    Except PyError RiskDecision :=
  match record with
  | .ok () => .ok (.rejected { signal, signalId, rule, reason })
  | .error _ => .error (.other "RiskAuditError")

/-- `review`, by an engine with at least one rule. -/
def review (rules : List RiskRule) (hrules : rules ≠ []) (ctx : Context) (signal : Signal)
    (signalId : String) : Except PyError RiskDecision :=
  match ctx.snapshot with
  | .error _ =>
      reject ctx.record signal signalId "RiskSnapshot"
        "the account and market state could not be read"
  | .ok snapshot =>
      match firstBlock signal snapshot rules with
      | some (rule, verdict) => reject ctx.record signal signalId rule.name verdict.reason
      | none =>
          .ok (.approved { signal, signalId, approvalId := ctx.approvalId,
                           approvedAt := ctx.approvedAt, rulesPassed := rules.map (·.name),
                           passed_ne_nil := by simpa using hrules })

/-- The signal passes the rule. -/
def Allows (rule : RiskRule) (signal : Signal) (snapshot : RiskSnapshot) : Prop :=
  (run rule signal snapshot).allowed

instance (rule : RiskRule) (signal : Signal) (snapshot : RiskSnapshot) :
    Decidable (Allows rule signal snapshot) := inferInstanceAs (Decidable (_ = true))

/-- A rule that blocks on a condition allows where it fails. -/
@[simp] theorem allows_blockIf {signal : Signal} {snapshot : RiskSnapshot} {name reason : String}
    {h : Text.isMeaningful reason} {condition : Signal → RiskSnapshot → Bool} :
    Allows ⟨name, fun g s => blockIf (condition g s) reason h⟩ signal snapshot ↔
      condition signal snapshot = false := by
  cases h : condition signal snapshot <;> simp [Allows, run, blockIf, h]

theorem firstBlock_eq_none {signal : Signal} {snapshot : RiskSnapshot} {rules : List RiskRule} :
    firstBlock signal snapshot rules = none ↔ ∀ rule ∈ rules, Allows rule signal snapshot := by
  induction rules with
  | nil => simp [firstBlock]
  | cons rule rest ih =>
      rw [firstBlock, List.forall_mem_cons]
      by_cases h : (run rule signal snapshot).allowed
      · simpa [h, Allows] using ih
      · simp [h, Allows]

/-- The review ended in an approval. -/
def approves : Except PyError RiskDecision → Bool
  | .ok (.approved _) => true
  | _ => false

/-- **When a signal is approved**: the snapshot could be built, and every
rule allows it. -/
theorem approves_review {rules : List RiskRule} {hrules : rules ≠ []} {ctx : Context}
    {signal : Signal} {signalId : String} :
    approves (review rules hrules ctx signal signalId) ↔
      ∃ snapshot, ctx.snapshot = .ok snapshot ∧ ∀ rule ∈ rules, Allows rule signal snapshot := by
  unfold review reject
  constructor
  · intro h
    split at h
    · split at h <;> cases h
    · rename_i snapshot hs
      split at h
      · split at h <;> cases h
      · rename_i hnone
        exact ⟨snapshot, hs, firstBlock_eq_none.1 hnone⟩
  · rintro ⟨snapshot, hs, hall⟩
    rw [hs]
    simp only [firstBlock_eq_none.2 hall]
    rfl

end RiskEngine

end Emporos
