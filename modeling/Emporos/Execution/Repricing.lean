import Emporos.Execution.Fills
/-!
# Repricing

Bounded cancel-confirm-replace. Everything a replacement is judged on is
read from the persisted order, and every replacement goes back through
risk under a key of its own. The scheduler hands the orders that are due
to the coordinator, one after the other.
-/

namespace Emporos

structure RepricePolicy where
  after : Duration
  maxReprices : ℕ
  maxChaseBps : Decimal
  after_pos : 0 < after
  chase_nonneg : 0 ≤ maxChaseBps

/-- What is left of an order, at a new price and under a new key. -/
structure Replacement where
  strategyRunId : String
  instrumentId : String
  kind : String
  side : OrderSide
  orderType : OrderType
  quantity : ℕ
  limitPrice : Money
  reason : String
  key : String

namespace RepricePolicy

variable [DecimalContext]

/-- The distance between two prices, in basis points of the first. -/
def chase (originalPrice candidate : Money) : Decimal :=
  Decimal.mul (((candidate.amount.sub originalPrice.amount).abs).div originalPrice.amount) 10000

def validate (p : RepricePolicy) (order : OrderRecord) (count : ℕ) (originalPrice : Money)
    (candidate : Money) (age : Duration) : Except PyError Unit :=
  if order.orderType ≠ .limit then .error (.valueError "stop-loss orders cannot be chased")
  else if age < p.after ∨ ¬ count < p.maxReprices then
    .error (.valueError "repricing time or count bound reached")
  else if originalPrice ≤ Money.zero ∨ candidate ≤ Money.zero then
    .error (.valueError "repricing needs positive prices")
  else if p.maxChaseBps < chase originalPrice candidate then
    .error (.valueError "maximum chase distance exceeded")
  else .ok ()

/-- **What the policy lets pass** is within its bounds. -/
theorem validate_eq_ok {p : RepricePolicy} {order : OrderRecord} {count : ℕ}
    {originalPrice candidate : Money} {age : Duration} :
    p.validate order count originalPrice candidate age = .ok () ↔
      order.orderType = .limit ∧ p.after ≤ age ∧ count < p.maxReprices ∧
        Money.zero < originalPrice ∧ Money.zero < candidate ∧
        chase originalPrice candidate ≤ p.maxChaseBps := by
  unfold validate
  constructor
  · intro h
    split_ifs at h with h₁ h₂ h₃ h₄
    rw [not_or, not_not] at h₂
    rw [not_or] at h₃
    exact ⟨not_not.mp h₁, not_lt.mp h₂.1, h₂.2, not_le.mp h₃.1, not_le.mp h₃.2, not_lt.mp h₄⟩
  · rintro ⟨ht, ha, hc, ho, hp, hd⟩
    rw [if_neg (not_not.mpr ht), if_neg, if_neg, if_neg (not_lt.mpr hd)]
    · exact not_or.mpr ⟨not_le.mpr ho, not_le.mpr hp⟩
    · exact not_or.mpr ⟨not_lt.mpr ha, not_not.mpr hc⟩

end RepricePolicy

namespace RiskReplacementReviewer

open Program

/-- Turn a replacement into a fresh signal and have the risk engine judge
it like any other, under the replacement's key. -/
def review (replacement : Replacement) : Program RiskDecision := do
  let kind ← lift (SignalKind.ofValue replacement.kind)
  let now ← await .now
  let signal ← lift (Signal.make replacement.strategyRunId replacement.instrumentId kind
    replacement.side replacement.orderType replacement.quantity replacement.limitPrice now
    replacement.reason none none)
  match ← await (.review signal replacement.key) with
  | .approved approvalId approvedAt rulesPassed passed_ne_nil =>
      pure (.approved { signal, signalId := replacement.key, approvalId, approvedAt, rulesPassed,
                        passed_ne_nil })
  | .rejected rule reason => pure (.rejected { signal, signalId := replacement.key, rule, reason })

end RiskReplacementReviewer

/-- What the repricing layer is built with. -/
structure Settings where
  engine : EngineSettings
  fills : FillSettings
  policy : RepricePolicy
  same_account : fills.accountId = engine.accountId

inductive RepriceResult
  | order (order : OrderRecord)
  | rejected (rejection : RiskRejection)

namespace OrderRecord

/-- The price a chain of replacements started at. -/
def chainPrice (o : OrderRecord) : Money := o.originalLimitPrice.getD o.limitPrice

/-- The key of the replacement of an order. -/
def replacementKey (o : OrderRecord) : String :=
  o.id ++ ":reprice:" ++ toString (o.repriceCount + 1)

end OrderRecord

namespace RepriceCoordinator

open Program

variable [DecimalContext] (cfg : Settings)

omit [DecimalContext] in
/-- What is asked of risk for the rest of a cancelled order. -/
def replacementOf (order : OrderRecord) (runId kind : String) (remaining : ℕ)
    (candidate : Money) : Replacement where
  strategyRunId := runId
  instrumentId := order.instrumentId
  kind := kind
  side := order.side
  orderType := order.orderType
  quantity := remaining
  limitPrice := candidate
  reason := "reprice " ++ toString (order.repriceCount + 1) ++ " of " ++ order.id
  key := order.replacementKey

/-- Replace what is left of an order that is confirmed cancelled. -/
def replace (order cancelled : OrderRecord) (runId kind : String) (candidate : Money) :
    Program RepriceResult :=
  if cancelled.state ≠ .cancelled then pure (.order cancelled)
  else if cancelled.remaining = 0 then pure (.order cancelled)
  else do
    match ← RiskReplacementReviewer.review
        (replacementOf order runId kind cancelled.remaining candidate) with
    | .rejected rejection => pure (.rejected rejection)
    | .approved approval =>
        let placed ← ExecutionEngine.place cfg.engine approval (some order.id) false
        pure (.order placed)

/-- Cancel `order`, and look again after the fills are in if that did not
confirm it. -/
def cancelConfirmed (order : OrderRecord) : Program OrderRecord := do
  let cancelled ← ExecutionEngine.cancel cfg.engine order.id
  if cancelled.state = .cancelled then pure cancelled
  else
    let _ ← FillSynchroniser.sync cfg.fills
    ExecutionEngine.refresh cfg.engine order.id

/-- Cancel `order`, confirm it is really gone, and replace what is left at
`candidate`. -/
def reprice (order : OrderRecord) (candidate : Money) : Program RepriceResult :=
  match order.strategyRunId, order.signalKind with
  | some runId, some kind =>
      if runId = "" ∨ kind = "" then
        raise (.valueError "only an order that came from a signal can be repriced")
      else do
        let now ← await .now
        lift (cfg.policy.validate order order.repriceCount order.chainPrice candidate
          (now - order.createdAt))
        let cancelled ← cancelConfirmed cfg order
        replace cfg order cancelled runId kind candidate
  | _, _ => raise (.valueError "only an order that came from a signal can be repriced")

end RepriceCoordinator

inductive RepriceOutcome
  | replaced (orderId result : String)
  | rejected (orderId rule : String)
  | refused (orderId : String) (error : PyError)

namespace RepriceScheduler

open Program

variable [DecimalContext] (cfg : Settings)

omit [DecimalContext] in
/-- A resting order that is due a reprice. -/
def due (policy : RepricePolicy) (order : OrderRecord) (now : Timestamp) : Bool :=
  (order.state = .open ∨ order.state = .partiallyFilled) ∧ order.orderType = .limit ∧
    order.signalKind ≠ none ∧ order.repriceCount < policy.maxReprices ∧
    policy.after ≤ now - order.createdAt

omit [DecimalContext] in
def describe (order : OrderRecord) : RepriceResult → RepriceOutcome
  | .order result => .replaced order.id result.id
  | .rejected rejection => .rejected order.id rejection.rule

/-- Hand one order to the coordinator. What it refuses is reported, and
any other exception ends the pass. -/
def repriceOne (order : OrderRecord) (candidate : Money) : Program RepriceOutcome := do
  match ← (RepriceCoordinator.reprice cfg order candidate).attempt with
  | .ok result => pure (describe order result)
  | .error e =>
      if e.isValueError then do
        await (.raiseAlert order.id)
        pure (.refused order.id e)
      else raise e

/-- One order of a pass: nothing unless it is due and there is a market. -/
def visit (order : OrderRecord) : Program (Option RepriceOutcome) := do
  let now ← await .now
  if due cfg.policy order now then
    match ← await (.candidate order) with
    | none => pure none
    | some candidate => some <$> repriceOne cfg order candidate
  else pure none

def visitAll : List OrderRecord → Program (List RepriceOutcome)
  | [] => pure []
  | order :: rest => do
      let outcome ← visit cfg order
      let others ← visitAll rest
      pure (outcome.toList ++ others)

def runOnce : Program (List RepriceOutcome) := do
  visitAll cfg (← await .active)

end RepriceScheduler

end Emporos
