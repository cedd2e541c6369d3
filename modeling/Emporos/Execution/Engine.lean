import Emporos.Execution.Pricing
/-!
# The execution engine

The single serialised path from a risk approval to a durable broker
intent: placement, cancellation and conservative resolution. The intent is
written first, then one broker call is made, and an ambiguous outcome is
never retried but resolved by asking the broker what it holds under the
order's tag.

`resolve` is cut in two: `verdict` is the pure decision on what the broker
answered, and `resolve` asks and carries it out.
-/

namespace Emporos

/-- When an order the broker does not list is called absent. -/
structure AbsencePolicy where
  confirmations : ℕ
  window : Duration
  one_le : 1 ≤ confirmations
  window_pos : 0 < window

namespace AbsencePolicy

def confirmed (p : AbsencePolicy) (order : OrderRecord) (checks : ℕ) (now : Timestamp) : Bool :=
  decide (p.confirmations ≤ checks) && decide (p.window ≤ now - order.createdAt)

/-- Five checks over a minute. -/
def standard : AbsencePolicy := ⟨5, 60 * Timestamp.second, by decide, by decide⟩

end AbsencePolicy

/-- What an engine is built with. -/
structure EngineSettings where
  accountId : String
  absence : AbsencePolicy
  approvalLifetime : Duration
  /-- The marketable limit of each strategy run. -/
  rule : String → MarketableLimit
  account_named : accountId ≠ ""
  lifetime_pos : 0 < approvalLifetime

/-- `new or old`, where an empty text counts as none. -/
def orText (new old : Option String) : Option String :=
  match new with
  | some text => if text = "" then old else some text
  | none => old

namespace BrokerOrderStatus

/-- `_BROKER_STATE`: the order state a broker status stands for. -/
def state : BrokerOrderStatus → OrderState
  | pending => .open
  | «open» => .open
  | triggerPending => .open
  | partiallyFilled => .partiallyFilled
  | filled => .filled
  | cancelled => .cancelled
  | rejected => .rejected
  | unrecognised => .unknown

end BrokerOrderStatus

namespace OrderRecord

/-- The last twenty characters of a text. -/
def lastTwenty (text : String) : String :=
  String.ofList (text.toList.drop (text.toList.length - 20))

/-- The broker's row is this order: every field of the intent agrees, and
the broker id is the one we know, if we know one. -/
def matchesRow (o : OrderRecord) (m : BrokerOrder) : Bool :=
  m.clientTag = some o.ordertag ∧ m.instrumentId = o.instrumentId ∧ m.side = o.side ∧
    m.orderType = some o.orderType ∧ m.quantity = o.quantity ∧ m.price = some o.limitPrice ∧
    m.triggerPrice = o.triggerPrice ∧
    (o.brokerOrderId = none ∨ o.brokerOrderId = some m.brokerOrderId)

/-- The order a transition writes. `absenceChecks` is what `_change` was
given for the count; without it only a doubtful order keeps its own. -/
def changed (o : OrderRecord) (target : OrderState) (reason : String)
    (brokerOrderId : Option String) (absenceChecks : Option ℕ) (now : Timestamp) : OrderRecord :=
  { o with
    state := target
    statusMessage := reason
    updatedAt := now
    brokerOrderId := orText brokerOrderId o.brokerOrderId
    absenceChecks := absenceChecks.getD
      (if target = .unknown ∨ target = .pendingNew then o.absenceChecks else 0) }

end OrderRecord

namespace ExecutionEngine

open Program

/-- Hold the engine's lock over `body`, whatever becomes of it. -/
def locked {α : Type} (body : Program α) : Program α := do
  await .acquireLock
  let outcome ← body.attempt
  await .releaseLock
  lift outcome

/-- `_change`: validate, then record the new state with its event. -/
def change (order : OrderRecord) (target : OrderState) (reason : String)
    (brokerOrderId : Option String) (absenceChecks : Option ℕ) : Program OrderRecord := do
  lift (OrderStateMachine.validate order.state target order.filledQuantity order.filledQuantity
    order.quantity)
  let now ← await .now
  let updated := order.changed target reason brokerOrderId absenceChecks now
  await (.transition order updated)
  pure updated

/-! ## Resolution -/

/-- What to do about an order once the broker has answered. -/
inductive Verdict
  /-- Nothing: what we know stays as it is. -/
  | keep
  /-- The broker does not list it. -/
  | absent
  | change (target : OrderState) (reason : String) (brokerOrderId : Option String)
      (absenceChecks : Option ℕ)
  deriving DecidableEq

/-- The decision on one row that is this order. While quantities differ
the order's fate is not decided, but its identity is adopted, so that its
fills can be attributed. -/
def verdictOn (order : OrderRecord) (row : BrokerOrder) : Verdict :=
  let target := row.status.state
  if target = .unknown then
    .change target (if row.statusMessage = "" then "unrecognised status" else row.statusMessage)
      none none
  else if row.filledQuantity ≠ order.filledQuantity then
    if order.brokerOrderId = none ∧ order.filledQuantity = 0 then
      .change .open "adopted from the broker; its fills are not applied yet"
        (some row.brokerOrderId) none
    else .keep
  else
    let target := if target = .partiallyFilled ∧ order.filledQuantity = 0 then .open else target
    if target = order.state then
      if order.absenceChecks = 0 then .keep
      else .change order.state "found at the broker" none (some 0)
    else .change target row.statusMessage (some row.brokerOrderId) none

/-- The decision on the rows the broker holds under the order's tag. -/
def verdict (order : OrderRecord) : List BrokerOrder → Verdict
  | [] => .absent
  | [row] =>
      if order.matchesRow row then verdictOn order row
      else .change .unknown "broker order conflicts with intent" none none
  | rows@(_ :: _ :: _) =>
      .change .unknown ("resolution found " ++ toString rows.length ++ " matching orders") none none

variable (cfg : EngineSettings)

/-- `_absent`: one more look-up that did not find the order. -/
def absent (order : OrderRecord) : Program OrderRecord :=
  if order.state ≠ .unknown ∧ order.state ≠ .pendingNew then
    change order .unknown "the broker no longer lists this order" none none
  else do
    let checks := order.absenceChecks + 1
    let now ← await .now
    if cfg.absence.confirmed order checks now then
      change order .rejected ("absent at the broker after " ++ toString checks ++
        " checks over the confirmation window") none (some checks)
    else
      change order .unknown ("not found at the broker (check " ++ toString checks ++ " of " ++
        toString cfg.absence.confirmations ++ ")") none (some checks)

/-- `_resolve`: ask the broker what it holds under the order's tag, and
record what that decides. -/
def resolve (order : OrderRecord) : Program OrderRecord := do
  match ← (await (.findByTag order.ordertag)).attempt with
  | .error _ => pure order
  | .ok rows =>
      match verdict order rows with
      | .keep => pure order
      | .absent => absent cfg order
      | .change target reason brokerOrderId absenceChecks =>
          change order target reason brokerOrderId absenceChecks

/-- Resolve one order after the other; an exception ends it. -/
def resolveAll : List OrderRecord → Program (List OrderRecord)
  | [] => pure []
  | order :: rest => do
      let resolved ← resolve cfg order
      let others ← resolveAll rest
      pure (resolved :: others)

/-! ## Placement -/

/-- The key that makes an approved signal one order. -/
def idempotencyKey (approval : RiskApprovedSignal) : String :=
  cfg.accountId ++ ":" ++ approval.signalId

omit cfg in
/-- A parent that may be replaced: confirmed cancelled, of the same
instrument and side, with exactly the signal's quantity left. -/
def replaceable (signal : Signal) (parent : OrderRecord) : Bool :=
  parent.state = .cancelled ∧ parent.instrumentId = signal.instrumentId ∧
    parent.side = signal.side ∧ parent.remaining = signal.quantity

/-- `_parent`: the order a placement replaces, none for a new one. -/
def parentOf (parentOrderId : Option String) (approval : RiskApprovedSignal) :
    Program (Option OrderRecord) :=
  match parentOrderId with
  | none => pure none
  | some parentId => do
      match ← await (.get parentId) with
      | some parent =>
          if replaceable approval.signal parent then pure (some parent)
          else raise (.invalidReplacement
            "replacement requires a confirmed cancelled matching parent")
      | none =>
          raise (.invalidReplacement "replacement requires a confirmed cancelled matching parent")

/-- The order a placement writes. -/
def newOrder (approval : RiskApprovedSignal) (parent : Option OrderRecord)
    (parentOrderId : Option String) (orderId : String) (limit : Money) (trigger : Option Money)
    (now : Timestamp) : OrderRecord where
  id := orderId
  strategyRunId := some approval.signal.strategyRunId
  signalId := some approval.signalId
  signalKind := some approval.signal.kind.value
  parentOrderId := parentOrderId
  repriceCount := match parent with
    | none => 0
    | some p => p.repriceCount + 1
  absenceChecks := 0
  originalLimitPrice := match parent with
    | none => some limit
    | some p => some (p.originalLimitPrice.getD p.limitPrice)
  idempotencyKey := idempotencyKey cfg approval
  ordertag := OrderRecord.lastTwenty orderId
  instrumentId := approval.signal.instrumentId
  side := approval.signal.side
  orderType := approval.signal.orderType
  quantity := approval.signal.quantity
  limitPrice := limit
  triggerPrice := trigger
  state := .pendingNew
  sessionDate := now.sessionDate
  brokerOrderId := none
  filledQuantity := 0
  createdAt := now
  updatedAt := now
  accountId := some cfg.accountId
  averagePrice := none
  statusMessage := ""

omit cfg in
/-- The request that submits an order. -/
def requestOf (order : OrderRecord) : Except PyError PlaceOrderRequest :=
  PlaceOrderRequest.make order.instrumentId order.side order.orderType order.quantity
    order.limitPrice order.triggerPrice order.ordertag

omit cfg in
/-- What becomes of an order after its submission: the state to record,
why, and the broker id it got. -/
def submitted (order : OrderRecord) :
    Except PyError BrokerOrderAck → OrderState × String × Option String
  | .error (.broker _ classification message) =>
      (if classification = .ambiguous then .unknown else .rejected, message, none)
  | .error e => (.unknown, e.typeName, none)
  | .ok ack =>
      if ack.brokerOrderId = "" ∨ ¬ (ack.clientTag = none ∨ ack.clientTag = some order.ordertag) then
        (.unknown, "invalid broker acknowledgement", none)
      else (.open, "broker acknowledged intent", some ack.brokerOrderId)

/-- `_send`: the one broker call of a placement. -/
def send (order : OrderRecord) (approval : RiskApprovedSignal) : Program OrderRecord := do
  await .acquireOrders
  let now ← await .now
  if cfg.approvalLifetime < now - approval.approvedAt then
    change order .rejected "approval expired in queue" none none
  else
    let ack ← Async.Task.attempt do
      let request ← lift (requestOf order)
      await (.submit request)
    let (target, reason, brokerOrderId) := submitted order ack
    change order target reason brokerOrderId none

variable [DecimalContext]

/-- What `place` does under the lock. -/
def placeUnderLock (approval : RiskApprovedSignal) (parentOrderId : Option String)
    (marketable : Bool) : Program OrderRecord := do
  let key := idempotencyKey cfg approval
  match ← await (.byKey key) with
  | some existing => pure existing
  | none => do
      let parent ← parentOf parentOrderId approval
      if ← await (.unresolved approval.signal.instrumentId) then
        raise (.instrumentFrozen "instrument frozen by an unresolved order")
      else
        let now ← await .now
        if ¬ (0 ≤ now - approval.approvedAt ∧ now - approval.approvedAt ≤ cfg.approvalLifetime) then
          raise (.approvalExpired "risk approval expired; review against a fresh snapshot")
        else
          let (limit, trigger) ← MarketableLimitPricer.price cfg.rule approval.signal marketable
          let orderId ← await .newUlid
          let order := newOrder cfg approval parent parentOrderId orderId limit trigger now
          match ← (await (.create order)).attempt with
          | .ok () => send cfg order approval
          | .error (.duplicateRecord fields) => do
              match ← await (.byKey key) with
              | none => raise (.duplicateRecord fields)
              | some existing => pure existing
          | .error e => raise e

def place (approval : RiskApprovedSignal) (parentOrderId : Option String) (marketable : Bool) :
    Program OrderRecord :=
  locked (placeUnderLock cfg approval parentOrderId marketable)

omit [DecimalContext]

/-! ## Cancellation, refresh and recovery -/

/-- Ask the broker to cancel a live order. An acknowledgement is no proof,
so the order book is asked next. -/
def revoke (order : OrderRecord) : Program OrderRecord := do
  let order ← change order .pendingCancel "cancel requested" none none
  await .acquireOrders
  let ack ← Async.Task.attempt do
    let request ← lift (CancelOrderRequest.make (order.brokerOrderId.getD "") order.orderType)
    await (.revoke request)
  match ack with
  | .error e => change order .unknown e.typeName none none
  | .ok _ => resolve cfg order

def cancel (orderId : String) : Program OrderRecord := locked do
  match ← await (.get orderId) with
  | none => raise (.valueError "order not found")
  | some order =>
      if order.state.terminal ∨ order.state = .pendingCancel then pure order
      else if order.state = .unknown ∨ order.state = .pendingNew then resolve cfg order
      else if order.brokerOrderId = none then
        raise (.valueError "cannot cancel an uncorrelated order")
      else revoke cfg order

/-- Ask the broker again what it holds for one order. -/
def refresh (orderId : String) : Program OrderRecord := locked do
  match ← await (.get orderId) with
  | none => raise (.valueError "order not found")
  | some order => if order.state.terminal then pure order else resolve cfg order

/-- Restart path: every order that could still be live. -/
def recover : Program (List OrderRecord) := locked do
  resolveAll cfg (← await .active)

omit cfg in
/-- `_UNRESOLVED`: the states an order is in doubt in. -/
def inDoubt (order : OrderRecord) : Bool :=
  order.state = .unknown ∨ order.state = .pendingNew ∨ order.state = .pendingCancel

/-- Periodic path: only the orders whose state is in doubt. -/
def resolveUnresolved : Program (List OrderRecord) := locked do
  resolveAll cfg ((← await .active).filter inDoubt)

end ExecutionEngine

end Emporos
