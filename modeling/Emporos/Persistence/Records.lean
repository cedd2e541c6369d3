import Emporos.Domain.Signal
import Emporos.Execution.State
/-!
# Records

One record type a collection: orders, their audit events, executions and
positions. A record is an immutable value; a change of state is a new
record. `stored` is what a record reads back as, since BSON keeps whole
milliseconds.

What an order is asked to do never changes once it is written. `intent`
blanks everything that may, so that two rows of one order have one intent.
-/

namespace Emporos

structure OrderRecord where
  id : String
  strategyRunId : Option String
  signalId : Option String
  /-- ENTRY or EXIT: what a replacement must be judged as. -/
  signalKind : Option String
  parentOrderId : Option String
  repriceCount : ℕ
  /-- Consecutive broker look-ups that found no such order. -/
  absenceChecks : ℕ
  originalLimitPrice : Option Money
  idempotencyKey : String
  ordertag : String
  instrumentId : String
  side : OrderSide
  orderType : OrderType
  quantity : ℕ
  limitPrice : Money
  triggerPrice : Option Money
  state : OrderState
  sessionDate : ℤ
  brokerOrderId : Option String
  filledQuantity : ℕ
  createdAt : Timestamp
  updatedAt : Timestamp
  accountId : Option String
  averagePrice : Option Money
  statusMessage : String
  deriving DecidableEq

namespace OrderRecord

/-- The row as it reads back. -/
def stored (o : OrderRecord) : OrderRecord :=
  { o with createdAt := o.createdAt.millis, updatedAt := o.updatedAt.millis }

/-- What the order is, with everything that changes over its life blanked. -/
def intent (o : OrderRecord) : OrderRecord :=
  { o with state := .pendingNew, brokerOrderId := none, filledQuantity := 0, absenceChecks := 0,
           createdAt := o.createdAt.millis, updatedAt := 0, averagePrice := none,
           statusMessage := "" }

@[simp] theorem intent_stored (o : OrderRecord) : o.stored.intent = o.intent := by
  simp [intent, stored]

/-- What the order still has to trade. -/
def remaining (o : OrderRecord) : ℕ := o.quantity - o.filledQuantity

variable {o p : OrderRecord}

theorem id_of_intent (h : o.intent = p.intent) : o.id = p.id :=
  show o.intent.id = p.intent.id by rw [h]

theorem idempotencyKey_of_intent (h : o.intent = p.intent) : o.idempotencyKey = p.idempotencyKey :=
  show o.intent.idempotencyKey = p.intent.idempotencyKey by rw [h]

theorem ordertag_of_intent (h : o.intent = p.intent) : o.ordertag = p.ordertag :=
  show o.intent.ordertag = p.intent.ordertag by rw [h]

theorem parentOrderId_of_intent (h : o.intent = p.intent) : o.parentOrderId = p.parentOrderId :=
  show o.intent.parentOrderId = p.intent.parentOrderId by rw [h]

theorem signalId_of_intent (h : o.intent = p.intent) : o.signalId = p.signalId :=
  show o.intent.signalId = p.intent.signalId by rw [h]

theorem accountId_of_intent (h : o.intent = p.intent) : o.accountId = p.accountId :=
  show o.intent.accountId = p.intent.accountId by rw [h]

theorem instrumentId_of_intent (h : o.intent = p.intent) : o.instrumentId = p.instrumentId :=
  show o.intent.instrumentId = p.intent.instrumentId by rw [h]

theorem side_of_intent (h : o.intent = p.intent) : o.side = p.side :=
  show o.intent.side = p.intent.side by rw [h]

theorem quantity_of_intent (h : o.intent = p.intent) : o.quantity = p.quantity :=
  show o.intent.quantity = p.intent.quantity by rw [h]

theorem orderType_of_intent (h : o.intent = p.intent) : o.orderType = p.orderType :=
  show o.intent.orderType = p.intent.orderType by rw [h]

theorem triggerPrice_of_intent (h : o.intent = p.intent) : o.triggerPrice = p.triggerPrice :=
  show o.intent.triggerPrice = p.intent.triggerPrice by rw [h]

theorem limitPrice_of_intent (h : o.intent = p.intent) : o.limitPrice = p.limitPrice :=
  show o.intent.limitPrice = p.intent.limitPrice by rw [h]

theorem repriceCount_of_intent (h : o.intent = p.intent) : o.repriceCount = p.repriceCount :=
  show o.intent.repriceCount = p.intent.repriceCount by rw [h]

theorem originalLimitPrice_of_intent (h : o.intent = p.intent) : o.originalLimitPrice = p.originalLimitPrice :=
  show o.intent.originalLimitPrice = p.intent.originalLimitPrice by rw [h]

theorem sessionDate_of_intent (h : o.intent = p.intent) : o.sessionDate = p.sessionDate :=
  show o.intent.sessionDate = p.intent.sessionDate by rw [h]

end OrderRecord

/-- The `_id` of the source is the other two keys in one text. -/
structure OrderEventRecord where
  orderId : String
  seq : ℕ
  ts : Timestamp
  state : OrderState
  filledQuantity : ℕ
  reason : String
  deriving DecidableEq

def OrderEventRecord.stored (e : OrderEventRecord) : OrderEventRecord :=
  { e with ts := e.ts.millis }

structure ExecutionRecord where
  id : String
  brokerTradeId : String
  orderId : String
  instrumentId : String
  side : OrderSide
  quantity : ℕ
  price : Money
  ts : Timestamp
  accountId : Option String
  sessionDate : Option ℤ
  fees : Option Money
  /-- The place of this fill among the account's fills of the session. -/
  sessionTradeNo : Option ℕ
  deriving DecidableEq

def ExecutionRecord.stored (e : ExecutionRecord) : ExecutionRecord :=
  { e with ts := e.ts.millis }

structure PositionRecord where
  id : String
  accountId : String
  instrumentId : String
  netQuantity : ℤ
  averagePrice : Money
  /-- Net of charges. -/
  realisedPnl : Money
  updatedAt : Timestamp
  grossRealisedPnl : Option Money
  fees : Option Money
  deriving DecidableEq

def PositionRecord.stored (p : PositionRecord) : PositionRecord :=
  { p with updatedAt := p.updatedAt.millis }

end Emporos
