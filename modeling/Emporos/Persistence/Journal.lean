import Emporos.Common.Table
import Emporos.Persistence.Records
import Mathlib.Data.List.Sort
/-!
# The order journal

The one writer of platform order state, for the account `account`. Every
change to an order lands in the same transaction as its audit event, and a
fill adds its execution and the resulting position to that transaction. A
transaction is atomic here: it returns the new store or leaves the old one.
-/

namespace Emporos

inductive FillOutcome
  | applied
  | duplicate
  deriving DecidableEq, Repr

/-- What the database keeps, each collection in insertion order. -/
structure Store where
  orders : List OrderRecord
  events : List OrderEventRecord
  executions : List ExecutionRecord
  positions : List PositionRecord
  deriving DecidableEq

namespace OrderRecord

/-- What two readings of one order must agree on for a write based on the
first to be good. -/
def version (o : OrderRecord) : OrderState × ℕ × ℕ × Option String × Timestamp :=
  (o.state, o.filledQuantity, o.absenceChecks, o.brokerOrderId, o.updatedAt.millis)

/-- Oldest first, and by id within a moment. -/
def earlier (a b : OrderRecord) : Prop :=
  a.createdAt < b.createdAt ∨ (a.createdAt = b.createdAt ∧ a.id ≤ b.id)

instance : DecidableRel earlier := fun _ _ => inferInstanceAs (Decidable (_ ∨ _))

/-- The audit event of an order's present state. -/
def event (o : OrderRecord) (seq : ℕ) : OrderEventRecord where
  orderId := o.id
  seq := seq
  ts := o.updatedAt
  state := o.state
  filledQuantity := o.filledQuantity
  reason := o.statusMessage

end OrderRecord

namespace Store

def empty : Store := ⟨[], [], [], []⟩

/-! ## The unique indexes -/

def insertOrder (s : Store) (o : OrderRecord) : Except PyError Store :=
  if s.orders.any fun x => x.id = o.id then .error (.duplicateRecord ["_id"])
  else if s.orders.any fun x => x.idempotencyKey = o.idempotencyKey then
    .error (.duplicateRecord ["idempotency_key"])
  else if s.orders.any fun x => x.ordertag = o.ordertag then .error (.duplicateRecord ["ordertag"])
  else .ok { s with orders := s.orders ++ [o.stored] }

def replaceOrder (s : Store) (o : OrderRecord) : Except PyError Store :=
  if s.orders.any fun x => x.id ≠ o.id ∧ x.idempotencyKey = o.idempotencyKey then
    .error (.duplicateRecord ["idempotency_key"])
  else if s.orders.any fun x => x.id ≠ o.id ∧ x.ordertag = o.ordertag then
    .error (.duplicateRecord ["ordertag"])
  else .ok { s with orders := Table.replace (·.id) o.stored s.orders }

def insertEvent (s : Store) (e : OrderEventRecord) : Except PyError Store :=
  if s.events.any fun x => x.orderId = e.orderId ∧ x.seq = e.seq then
    .error (.duplicateRecord ["order_id", "seq"])
  else .ok { s with events := s.events ++ [e.stored] }

def insertExecution (s : Store) (e : ExecutionRecord) : Except PyError Store :=
  if s.executions.any fun x => x.id = e.id then .error (.duplicateRecord ["_id"])
  else if s.executions.any fun x => x.brokerTradeId = e.brokerTradeId then
    .error (.duplicateRecord ["broker_trade_id"])
  else .ok { s with executions := s.executions ++ [e.stored] }

/-- `replace` with `upsert`. -/
def replacePosition (s : Store) (p : PositionRecord) : Except PyError Store :=
  if s.positions.any fun x =>
      x.id ≠ p.id ∧ x.accountId = p.accountId ∧ x.instrumentId = p.instrumentId then
    .error (.duplicateRecord ["account_id", "instrument_id"])
  else .ok { s with positions := Table.upsert (·.id) p.stored s.positions }

/-- The order's highest event number. -/
def lastSeq (s : Store) (orderId : String) : Option ℕ :=
  ((s.events.filter fun e => e.orderId = orderId).map (·.seq)).max?

/-- Replace an order and append its event, if it still is at the version
the change was computed from. -/
def change (s : Store) (previous updated : OrderRecord) : Except PyError Store :=
  match Table.lookup (·.id) previous.id s.orders with
  | none => .error (.concurrentModification "order changed concurrently; reload and retry")
  | some current =>
      if current.version ≠ previous.version then
        .error (.concurrentModification "order changed concurrently; reload and retry")
      else
        match s.lastSeq previous.id with
        | none => .error (.valueError "an order without an audit event cannot transition")
        | some seq => do
            let s ← s.replaceOrder updated
            s.insertEvent (updated.event (seq + 1))

/-! ## The journal of one account -/

section

variable (account : String) (s : Store)

def get (orderId : String) : Option OrderRecord :=
  s.orders.find? fun o => o.id = orderId ∧ o.accountId = some account

def byKey (key : String) : Option OrderRecord :=
  s.orders.find? fun o => o.idempotencyKey = key ∧ o.accountId = some account

def byBrokerOrderId (brokerOrderId : String) : Option OrderRecord :=
  s.orders.find? fun o => o.brokerOrderId = some brokerOrderId ∧ o.accountId = some account

/-- Whether an order on the instrument is UNKNOWN or PENDING_NEW. -/
def unresolved (instrumentId : String) : Bool :=
  s.orders.any fun o => o.accountId = some account ∧ o.instrumentId = instrumentId ∧
    (o.state = .unknown ∨ o.state = .pendingNew)

def active : List OrderRecord :=
  (s.orders.filter fun o => o.accountId = some account ∧ !o.state.terminal).insertionSort
    OrderRecord.earlier

def hasExecution (brokerTradeId : String) : Bool :=
  s.executions.any fun e => e.brokerTradeId = brokerTradeId

def position (instrumentId : String) : Option PositionRecord :=
  s.positions.find? fun p => p.accountId = account ∧ p.instrumentId = instrumentId

def fillsThisSession (sessionDate : ℤ) : ℕ :=
  (s.executions.filter fun e =>
    e.accountId = some account ∧ e.sessionDate = some sessionDate).length

def create (o : OrderRecord) : Except PyError Store :=
  if o.accountId ≠ some account then
    .error (.valueError "order does not belong to this journal's account")
  else do
    let s ← s.insertOrder o
    s.insertEvent (o.event 1)

def transition (previous updated : OrderRecord) : Except PyError Store :=
  if previous.accountId ≠ some account ∨ updated.accountId ≠ some account ∨
      previous.id ≠ updated.id ∨ previous.idempotencyKey ≠ updated.idempotencyKey ∨
      previous.ordertag ≠ updated.ordertag then
    .error (.valueError "an order transition cannot change ownership or identity")
  else s.change previous updated

/-- The execution, the order with its event, and the position, in one
transaction. -/
def writeFill (previous updated : OrderRecord) (execution : ExecutionRecord)
    (position : PositionRecord) : Except PyError Store := do
  let s ← s.insertExecution execution
  let s ← s.change previous updated
  s.replacePosition position

def recordFill (previous updated : OrderRecord) (execution : ExecutionRecord)
    (position : PositionRecord) : Except PyError (FillOutcome × Store) :=
  if execution.accountId ≠ some account ∨ updated.accountId ≠ some account then
    .error (.valueError "a fill cannot cross accounts")
  else
    match s.writeFill previous updated execution position with
    | .ok s' => .ok (.applied, s')
    | .error e => if e = .duplicateRecord ["broker_trade_id"] then .ok (.duplicate, s) else .error e

end

end Store

end Emporos
