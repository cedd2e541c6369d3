import Emporos.Paper.Broker
import Emporos.Persistence.Journal
/-!
# The paper broker's own books

Simulated orders, their events, fills, positions and snapshots, in
collections of their own with the unique indexes of the platform's. The
journal writes its entries front to back and drops one only once it is
written; an attempt that fails leaves what it had written so far, and the
entry is tried again. A session is read back into what a new broker resumes
from.
-/

namespace Emporos

/-- The status a value names. -/
def BrokerOrderStatus.ofValue (value : String) : Except PyError BrokerOrderStatus :=
  if value = pending.value then .ok .pending
  else if value = open.value then .ok .open
  else if value = triggerPending.value then .ok .triggerPending
  else if value = partiallyFilled.value then .ok .partiallyFilled
  else if value = filled.value then .ok .filled
  else if value = cancelled.value then .ok .cancelled
  else if value = rejected.value then .ok .rejected
  else if value = unrecognised.value then .ok .unrecognised
  else .error (.valueError s!"'{value}' is not a valid BrokerOrderStatus")

@[simp] theorem BrokerOrderStatus.ofValue_value (status : BrokerOrderStatus) :
    ofValue status.value = .ok status := by
  cases status <;> rfl

/-- An order of the paper books. Its state is the value of the broker's
status. -/
structure PaperOrderRecord where
  id : String
  idempotencyKey : String
  ordertag : String
  instrumentId : String
  side : OrderSide
  orderType : OrderType
  quantity : ℕ
  limitPrice : Money
  triggerPrice : Option Money
  state : String
  sessionDate : ℤ
  brokerOrderId : Option String
  filledQuantity : ℕ
  createdAt : Timestamp
  updatedAt : Timestamp
  accountId : Option String
  averagePrice : Option Money
  statusMessage : String
  deriving DecidableEq

namespace PaperOrderRecord

/-- The row as it reads back. -/
def stored (r : PaperOrderRecord) : PaperOrderRecord :=
  { r with createdAt := r.createdAt.millis, updatedAt := r.updatedAt.millis }

/-- Oldest first, and by id within a moment. -/
def earlier (a b : PaperOrderRecord) : Prop :=
  a.createdAt < b.createdAt ∨ (a.createdAt = b.createdAt ∧ a.id ≤ b.id)

instance : DecidableRel earlier := fun _ _ => inferInstanceAs (Decidable (_ ∨ _))

end PaperOrderRecord

structure PaperEventRecord where
  orderId : String
  seq : ℕ
  ts : Timestamp
  state : String
  filledQuantity : ℕ
  reason : String
  deriving DecidableEq

def PaperEventRecord.stored (e : PaperEventRecord) : PaperEventRecord := { e with ts := e.ts.millis }

/-- In the order the fills were booked. -/
def ExecutionRecord.booked (a b : ExecutionRecord) : Prop :=
  let place (e : ExecutionRecord) : ℕ := (e.sessionTradeNo.map (· + 1)).getD 0
  place a < place b ∨ (place a = place b ∧ a.ts ≤ b.ts)

instance : DecidableRel ExecutionRecord.booked := fun _ _ => inferInstanceAs (Decidable (_ ∨ _))

/-- What the books keep, each collection in insertion order. A snapshot's
`_id` is its account, its moment in full and its number of trades. -/
structure PaperBooks where
  orders : List PaperOrderRecord
  events : List PaperEventRecord
  executions : List ExecutionRecord
  positions : List PositionRecord
  snapshots : List SnapshotRecorded

namespace PaperBooks

def empty : PaperBooks := ⟨[], [], [], [], []⟩

variable (b : PaperBooks)

/-! ## The unique indexes -/

/-- `replace`, with or without `upsert`. -/
def replaceOrder (upsert : Bool) (r : PaperOrderRecord) : Except PyError PaperBooks :=
  if b.orders.any fun x => x.id ≠ r.id ∧ x.idempotencyKey = r.idempotencyKey then
    .error (.duplicateRecord ["idempotency_key"])
  else if b.orders.any fun x => x.id ≠ r.id ∧ x.ordertag = r.ordertag then
    .error (.duplicateRecord ["ordertag"])
  else
    .ok { b with
      orders := if upsert then Table.upsert (·.id) r.stored b.orders
        else Table.replace (·.id) r.stored b.orders }

def insertEvent (e : PaperEventRecord) : Except PyError PaperBooks :=
  if b.events.any fun x => x.orderId = e.orderId ∧ x.seq = e.seq then
    .error (.duplicateRecord ["order_id", "seq"])
  else .ok { b with events := b.events ++ [e.stored] }

def insertExecution (e : ExecutionRecord) : Except PyError PaperBooks :=
  if b.executions.any fun x => x.id = e.id then .error (.duplicateRecord ["_id"])
  else if b.executions.any fun x => x.brokerTradeId = e.brokerTradeId then
    .error (.duplicateRecord ["broker_trade_id"])
  else .ok { b with executions := b.executions ++ [e.stored] }

/-- `replace` with `upsert`. -/
def replacePosition (p : PositionRecord) : Except PyError PaperBooks :=
  if b.positions.any fun x =>
      x.id ≠ p.id ∧ x.accountId = p.accountId ∧ x.instrumentId = p.instrumentId then
    .error (.duplicateRecord ["account_id", "instrument_id"])
  else .ok { b with positions := Table.upsert (·.id) p.stored b.positions }

def insertSnapshot (e : SnapshotRecorded) : Except PyError PaperBooks :=
  if b.snapshots.any fun x =>
      x.accountId = e.accountId ∧ x.moment = e.moment ∧ x.trades = e.trades then
    .error (.duplicateRecord ["_id"])
  else .ok { b with snapshots := b.snapshots ++ [e] }

/-! ## Look-ups -/

def byOrdertag (tag : String) : Option PaperOrderRecord := Table.lookup (·.ordertag) tag b.orders

def byBrokerTradeId (tradeId : String) : Option ExecutionRecord :=
  Table.lookup (·.brokerTradeId) tradeId b.executions

def position (accountId instrumentId : String) : Option PositionRecord :=
  b.positions.find? fun p => p.accountId = accountId ∧ p.instrumentId = instrumentId

/-- The order's highest event number, zero without events. -/
def lastSeq (orderId : String) : ℕ :=
  (((b.events.filter fun e => e.orderId = orderId).map (·.seq)).max?).getD 0

/-- `orders.for_account_session`. -/
def ordersOf (accountId : String) (sessionDate : ℤ) : List PaperOrderRecord :=
  (b.orders.filter fun r =>
    r.accountId = some accountId ∧ r.sessionDate = sessionDate).insertionSort
    PaperOrderRecord.earlier

/-- `executions.for_account_session`. -/
def executionsOf (accountId : String) (sessionDate : ℤ) : List ExecutionRecord :=
  (b.executions.filter fun e =>
    e.accountId = some accountId ∧ e.sessionDate = some sessionDate).insertionSort
    ExecutionRecord.booked

end PaperBooks

/-! ## The journal -/

/-- One operation on the database, whole or not at all. -/
abbrev BookWrite := PaperBooks → Except PyError PaperBooks

namespace PaperJournal

/-- `_tag`. -/
def tagOf (order : PaperOrder) : Except PyError String :=
  match order.clientTag with
  | some tag => .ok tag
  | none => .error (.valueError "a paper order always carries its client tag")

/-- `_order_record`. -/
def orderRecord (accountId : String) (sessionDate : ℤ) (order : PaperOrder) (moment : Timestamp)
    (existing : Option PaperOrderRecord) : Except PyError PaperOrderRecord :=
  match order.orderType, order.price with
  | some orderType, some price => do
      let tag ← tagOf order
      return {
        id := (existing.map (·.id)).getD order.brokerOrderId
        idempotencyKey :=
          (existing.map (·.idempotencyKey)).getD s!"paper-{order.brokerOrderId}"
        ordertag := tag
        instrumentId := order.instrumentId
        side := order.side
        orderType := orderType
        quantity := order.quantity
        limitPrice := price
        triggerPrice := order.triggerPrice
        state := order.status.value
        sessionDate := sessionDate
        brokerOrderId := some order.brokerOrderId
        filledQuantity := order.filledQuantity
        createdAt := (existing.map (·.createdAt)).getD moment
        updatedAt := order.updatedAt
        accountId := some accountId
        averagePrice := order.averagePrice
        statusMessage := order.statusMessage }
  | _, _ => .error (.other "AssertionError")

/-- `_append_event`: a transition that is recorded already is left. -/
def appendEvent (orderId : String) (seq : ℕ) (moment : Timestamp) (order : PaperOrder)
    (reason : String) : BookWrite := fun b =>
  match b.insertEvent ⟨orderId, seq, moment, order.status.value, order.filledQuantity, reason⟩ with
  | .error (.duplicateRecord _) => .ok b
  | outcome => outcome

/-- The three writes of `FillApplier`, in one transaction. -/
def fillWrites (execution : ExecutionRecord) (order : PaperOrderRecord) (position : PositionRecord) :
    BookWrite := fun b => do
  let b ← b.insertExecution execution
  let b ← b.replaceOrder false order
  b.replacePosition position

/-- `_is_redelivery`: a collision on the id counts only if the trade really
is stored. -/
def isRedelivery (b : PaperBooks) (keyFields : List String) (execution : ExecutionRecord) : Bool :=
  if keyFields = ["broker_trade_id"] then true
  else if keyFields = ["_id"] then (b.byBrokerTradeId execution.brokerTradeId).isSome
  else false

/-- `FillApplier.apply`: a fill that is stored already leaves the books as
they are. -/
def applyFill (execution : ExecutionRecord) (order : PaperOrderRecord) (position : PositionRecord) :
    BookWrite := fun b =>
  match fillWrites execution order position b with
  | .error (.duplicateRecord keyFields) =>
      if isRedelivery b keyFields execution then .ok b else .error (.duplicateRecord keyFields)
  | outcome => outcome

/-- An account state that is written already is left. -/
def addSnapshot (e : SnapshotRecorded) : BookWrite := fun b =>
  match b.insertSnapshot e with
  | .error (.duplicateRecord _) => .ok b
  | outcome => outcome

variable [DecimalContext]

def executionRecord (e : FillRecorded) (orderId : String) : ExecutionRecord where
  id := s!"exec-{e.trade.tradeId}"
  brokerTradeId := e.trade.tradeId
  orderId := orderId
  instrumentId := e.trade.instrumentId
  side := e.trade.side
  quantity := e.trade.quantity
  price := e.trade.price
  ts := e.moment
  accountId := some e.accountId
  sessionDate := some e.sessionDate
  fees := some e.fees
  sessionTradeNo := some e.number

def positionRecord (e : FillRecorded) (held : Option PositionRecord) : PositionRecord where
  id := (held.map (·.id)).getD s!"{e.accountId}:{e.position.instrumentId}"
  accountId := e.accountId
  instrumentId := e.position.instrumentId
  netQuantity := e.position.netQuantity
  averagePrice := e.position.averagePrice
  realisedPnl := e.position.realised
  updatedAt := e.moment
  grossRealisedPnl := some e.position.grossRealised
  fees := some e.position.fees

/-- The operations that write an entry, from what the books have. -/
def writes (b : PaperBooks) : JournalEntry → Except PyError (List BookWrite)
  | .orderState e => do
      let existing := b.byOrdertag (← tagOf e.order)
      let record ← orderRecord e.accountId e.sessionDate e.order e.moment existing
      return [fun b => b.replaceOrder true record,
        appendEvent record.id e.seq e.moment e.order e.reason]
  | .fill e => do
      let existing := b.byOrdertag (← tagOf e.order)
      let record ← orderRecord e.accountId e.sessionDate e.order e.moment existing
      -- the transaction only replaces: the order must exist first
      let first : List BookWrite :=
        if existing.isNone then [fun b => b.replaceOrder true record] else []
      let held := b.position e.accountId e.position.instrumentId
      return first ++ [applyFill (executionRecord e record.id) record (positionRecord e held),
        appendEvent record.id e.seq e.moment e.order ""]
  | .snapshot e => .ok [addSnapshot e]

/-- Operations one after the other. -/
def perform (b : PaperBooks) (operations : List BookWrite) : Except PyError PaperBooks :=
  operations.foldlM (fun b operation => operation b) b

/-- The writer of an entry. -/
def write (e : JournalEntry) (b : PaperBooks) : Except PyError PaperBooks := do
  perform b (← writes b e)

/-- The books after an attempt that failed behind `n` operations. -/
def interrupted (e : JournalEntry) (n : ℕ) (b : PaperBooks) : Except PyError PaperBooks := do
  perform b ((← writes b e).take n)

/-- What a completed `flush` of a queue leaves: each entry is written, after
any number of attempts that failed. -/
inductive Flushed : PaperBooks → List JournalEntry → PaperBooks → Prop
  | done {b : PaperBooks} : Flushed b [] b
  | failed {b b₁ b₂ : PaperBooks} {e : JournalEntry} {rest : List JournalEntry} (n : ℕ) :
      interrupted e n b = .ok b₁ → Flushed b₁ (e :: rest) b₂ → Flushed b (e :: rest) b₂
  | written {b b₁ b₂ : PaperBooks} {e : JournalEntry} {rest : List JournalEntry} :
      write e b = .ok b₁ → Flushed b₁ rest b₂ → Flushed b (e :: rest) b₂

/-- A flush no write of which fails. -/
def flush (b : PaperBooks) (entries : List JournalEntry) : Except PyError PaperBooks :=
  entries.foldlM (fun b e => write e b) b

theorem flushed_of_flush {b b' : PaperBooks} {entries : List JournalEntry}
    (h : flush b entries = .ok b') : Flushed b entries b' := by
  induction entries generalizing b with
  | nil =>
      obtain rfl := Except.ok.inj h
      exact .done
  | cons e rest ih =>
      obtain ⟨b₁, hwrite, hrest⟩ := exists_of_bind h
      exact .written hwrite (ih hrest)

end PaperJournal

/-! ## Reading a session back -/

/-- An order as persisted. -/
structure RestoredOrder where
  order : PaperOrder
  seq : ℕ
  /-- The trades it has had, so that new ids continue the series. -/
  trades : ℕ

structure RestoredFill where
  trade : BrokerTrade
  fees : Money

structure RestoredSession where
  orders : List RestoredOrder
  fills : List RestoredFill

namespace PaperSessionStore

/-- `record.broker_order_id or record.id`. -/
def brokerId (r : PaperOrderRecord) : String :=
  match r.brokerOrderId with
  | some id => if id = "" then r.id else id
  | none => r.id

/-- `_broker_order`. -/
def brokerOrder (r : PaperOrderRecord) : Except PyError PaperOrder := do
  let status ← BrokerOrderStatus.ofValue r.state
  return {
    brokerOrderId := brokerId r
    clientTag := some r.ordertag
    instrumentId := r.instrumentId
    side := r.side
    orderType := some r.orderType
    quantity := r.quantity
    filledQuantity := r.filledQuantity
    status := status
    price := some r.limitPrice
    triggerPrice := r.triggerPrice
    statusMessage := r.statusMessage
    averagePrice := r.averagePrice
    updatedAt := r.updatedAt }

/-- The fill an execution is of. -/
def restoredFill (records : List PaperOrderRecord) (e : ExecutionRecord) :
    Except PyError RestoredFill :=
  match e.fees with
  | none => .error (.valueError s!"execution {e.brokerTradeId} has no recorded charges")
  | some fees =>
      match Table.lookup (·.id) e.orderId records with
      | none => .error (.other "KeyError")
      | some r =>
          if h : 0 < e.quantity then
            .ok ⟨⟨e.brokerTradeId, brokerId r, e.instrumentId, e.side, e.quantity, e.price,
              some e.ts, h⟩, fees⟩
          else .error (.valueError "a trade has a positive quantity")

def load (b : PaperBooks) (accountId : String) (sessionDate : ℤ) :
    Except PyError RestoredSession := do
  let records := b.ordersOf accountId sessionDate
  let executions := b.executionsOf accountId sessionDate
  let fills ← executions.mapM (restoredFill records)
  let orders ← records.mapM fun r => do
    return ⟨← brokerOrder r, b.lastSeq r.id, (executions.filter fun e => e.orderId = r.id).length⟩
  return ⟨orders, fills⟩

end PaperSessionStore

/-- Put persisted orders back, on an empty exchange only. -/
def SimulatedExchange.restore (x : SimulatedExchange) (restored : List RestoredOrder)
    (now : Timestamp) : Except PyError SimulatedExchange :=
  if x.orders ≠ [] then
    .error (.valueError "orders can only be restored onto an empty exchange")
  else
    .ok { x with
      orders := restored.foldl (fun orders item =>
        Table.upsert SimulatedOrder.id ⟨item.order, item.seq, now, item.trades⟩ orders) x.orders }

/-- `PaperBrokerFactory.build`, given the session as persisted. -/
def PaperBroker.resume [DecimalContext] (startingCash : Money) (h : Money.zero ≤ startingCash)
    (restored : RestoredSession) (now : Timestamp) : Except PyError PaperBroker := do
  let exchange ← SimulatedExchange.empty.restore restored.orders now
  let account ← (PaperAccount.new startingCash h).applyAll
    (restored.fills.map fun f => (f.trade, f.fees))
  return { exchange, account, prices := [], journal := [] }

end Emporos
