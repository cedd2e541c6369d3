import Emporos.Backtest.Orders
import Emporos.Common.Recording
import Emporos.Common.Table
import Emporos.Core.Text
/-!
# The simulated broker

A book of resting orders that bars act on. An order carries the moment it
was accepted, and a bar fills it only if it opened at or after that; a
stop is armed by one bar and fills on the next at the earliest. Orders are
matched as they were placed and share what a bar has for them. The clock
is read wherever the source reads it: a call is given its readings.
-/

namespace Emporos

/-- An order, as the broker keeps it. -/
structure SimOrder where
  orderId : String
  request : SimOrderRequest
  acceptedAt : Timestamp
  status : OrderUpdateStatus
  filled : ℕ
  /-- The sum of price and quantity over the fills. -/
  turnover : Decimal
  /-- When the trigger of a stop fired. -/
  armedAt : Option Timestamp

namespace SimOrder

def remaining (o : SimOrder) : ℤ := o.request.quantity - o.filled

def isOpen (o : SimOrder) : Bool := !o.status.isTerminal

variable [DecimalContext]

/-- `_event`. -/
def event (o : SimOrder) (now : Timestamp) (message : String) (fill : Option SimFill) : SimEvent where
  orderId := o.orderId
  update :=
    { instrumentId := o.request.instrumentId
      side := o.request.side
      status := o.status
      quantity := o.request.quantity
      filledQuantity := o.filled
      ts := now
      averagePrice := if o.filled = 0 then none else some ⟨o.turnover.div o.filled⟩
      ordertag := some o.request.tag
      message }
  fill := fill

/-- The order after a fill. -/
def afterFill (o : SimOrder) (quantity : ℕ) (price : Money) : SimOrder :=
  { o with
    filled := o.filled + quantity
    turnover := o.turnover.add (price.amount.mul quantity)
    status := if o.filled + quantity = o.request.quantity then .filled else .partiallyFilled }

omit [DecimalContext] in
/-- `_still_waiting_for_trigger`: a stop rests until a bar reaches its
trigger, and that bar only arms it. -/
def stillWaitingForTrigger (model : BarFillModel) (bar : Candle) (o : SimOrder) :
    Except PyError (Bool × SimOrder) :=
  match o.request.orderType with
  | .limit => .ok (false, o)
  | .stoplossLimit =>
      match o.armedAt, o.request.triggerPrice with
      | some armedAt, _ => .ok (bar.ts < armedAt, o)
      | none, none => .error (.other "AssertionError")
      | none, some trigger =>
          .ok (true, if model.triggers o.request.side bar trigger then
            { o with armedAt := some bar.closesAt } else o)

end SimOrder

structure SimulatedBroker where
  /-- Every order, in the order they were placed. -/
  orders : List SimOrder
  /-- The ids of those that rest, as they were accepted. -/
  resting : List String
  restingIn : String → List String
  tags : List String
  fills : ℕ

def DuplicateTagError (tag : String) : PyError :=
  .valueError s!"client tag {tag} was already used"

def UnknownOrderError : PyError := .other "UnknownOrderError"

def OrderNotOpenError : PyError := .other "OrderNotOpenError"

/-- What a call comes to: the book after it, the events it made, and the
exception it raised. -/
structure BrokerOutcome where
  broker : SimulatedBroker
  events : List SimEvent
  error : Option PyError

namespace SimulatedBroker

def empty : SimulatedBroker := ⟨[], [], fun _ => [], [], 0⟩

/-- The id of the order with a number: six digits at least. -/
def orderIdOf (n : ℕ) : String :=
  String.ofList ("SIM-".toList ++ List.leftpad 6 '0' (Nat.toDigits 10 n))

variable (b : SimulatedBroker)

/-- `_next_order_id`. -/
def nextOrderId : String := orderIdOf (b.orders.length + 1)

def find (orderId : String) : Option SimOrder := Table.lookup SimOrder.orderId orderId b.orders

/-- The order behind an id changes. -/
def put (o : SimOrder) : SimulatedBroker := { b with orders := Table.replace SimOrder.orderId o b.orders }

/-- `_close`: the order no longer rests. -/
def close (o : SimOrder) : SimulatedBroker :=
  { b with
    resting := b.resting.filter (· ≠ o.orderId)
    restingIn := fun i => if i = o.request.instrumentId then (b.restingIn i).filter (· ≠ o.orderId)
      else b.restingIn i }

/-- A new order among all of them, its tag used. -/
def register (o : SimOrder) : SimulatedBroker :=
  { b with orders := b.orders ++ [o], tags := o.request.tag :: b.tags }

/-- The order rests. -/
def rest (o : SimOrder) : SimulatedBroker :=
  { b with
    resting := b.resting ++ [o.orderId]
    restingIn := fun i => if i = o.request.instrumentId then b.restingIn i ++ [o.orderId]
      else b.restingIn i }

def newOrder (request : SimOrderRequest) (acceptedAt : Timestamp) : SimOrder :=
  ⟨b.nextOrderId, request, acceptedAt, .working, 0, 0, none⟩

variable [DecimalContext]

/-- Accept an order or, with the policy's reason, refuse it. -/
def submit (request : SimOrderRequest) (rejection : Option String) (now : ℕ → Timestamp) :
    BrokerOutcome :=
  if request.tag ∈ b.tags then ⟨b, [], some (DuplicateTagError request.tag)⟩
  else
    let o := b.newOrder request (now 0)
    match rejection with
    | some why =>
        let o := { o with status := .rejected }
        ⟨b.register o, [o.event (now 1) why none], none⟩
    | none => ⟨(b.register o).rest o, [o.event (now 1) "" none], none⟩

/-- The order is cancelled, and no longer rests. -/
def cancelled (o : SimOrder) : SimulatedBroker := (b.put { o with status := .cancelled }).close o

def cancel (orderId : String) (now : ℕ → Timestamp) : BrokerOutcome :=
  match b.find orderId with
  | none => ⟨b, [], some UnknownOrderError⟩
  | some o =>
      if o.isOpen then
        ⟨b.cancelled o, [{ o with status := .cancelled }.event (now 0) "cancelled" none], none⟩
      else ⟨b, [], some OrderNotOpenError⟩

/-- The next fill, of an order. -/
def record (o : SimOrder) (quantity : ℕ) (h : 0 < quantity) (price : Money) (reason : FillReason)
    (now : Timestamp) : SimFill where
  sequence := b.fills + 1
  orderId := o.orderId
  instrumentId := o.request.instrumentId
  side := o.request.side
  quantity := quantity
  price := price
  ts := now
  strategyRunId := o.request.strategyRunId
  run_named := o.request.run_named
  quantity_pos := h
  tag := o.request.tag
  reason := reason

/-- `_fill`. -/
def fill (o : SimOrder) (quantity : ℕ) (h : 0 < quantity) (price : Money) (reason : FillReason)
    (now : ℕ → Timestamp) : SimulatedBroker × SimEvent :=
  let filled := o.afterFill quantity price
  let b' := { b with fills := b.fills + 1 }.put filled
  (if filled.status.isTerminal then b'.close filled else b',
    filled.event (now 1) "" (some (b.record o quantity h price reason (now 0))))

/-- Where the loop of `match` is: the book, what the bar has left, and the
events so far. -/
structure Matching where
  broker : SimulatedBroker
  capacity : ℤ
  events : List SimEvent

/-- One order's turn. -/
def turn (model : BarFillModel) (bar : Candle) (now : ℕ → Timestamp) (m : Matching) (o : SimOrder) :
    Except PyError Matching :=
  if bar.ts < o.acceptedAt then .ok m
  else do
    let (waiting, o) ← o.stillWaitingForTrigger model bar
    if waiting then return { m with broker := m.broker.put o }
    else
      let price ← model.priceIfFilled o.request.side o.request.limitPrice bar
      match price with
      | none => return m
      | some price =>
          if h : 0 < min o.remaining m.capacity then
            let (broker, e) := m.broker.fill o (min o.remaining m.capacity).toNat (by omega) price
              .matched fun k => now (2 * m.events.length + k)
            return ⟨broker, m.capacity - min o.remaining m.capacity, m.events ++ [e]⟩
          else return m

/-- The turns of the orders in a list of ids. An exception leaves those
behind it without theirs. -/
def turns (model : BarFillModel) (bar : Candle) (now : ℕ → Timestamp) :
    List String → Matching → Matching × Option PyError
  | [], m => (m, none)
  | id :: rest, m =>
      match m.broker.find id with
      | none => turns model bar now rest m
      | some o =>
          match turn model bar now m o with
          | .error e => (m, some e)
          | .ok m => turns model bar now rest m

/-- `match`: one closed bar acts on the resting orders of its
instrument. -/
def matchBar (model : BarFillModel) (bar : Candle) (now : ℕ → Timestamp) : BrokerOutcome :=
  let done := turns model bar now (b.restingIn bar.instrumentId) ⟨b, model.capacity bar, []⟩
  ⟨done.1.broker, done.1.events, done.2⟩

/-- The orders of a list of ids, cancelled at the end of a session. -/
def expireEach (now : ℕ → Timestamp) : List String → SimulatedBroker × List SimEvent →
    SimulatedBroker × List SimEvent
  | [], done => done
  | id :: rest, (b, events) =>
      match b.find id with
      | none => expireEach now rest (b, events)
      | some o =>
          let message := "expired at the end of the session"
          expireEach now rest (b.cancelled o,
            events ++ [{ o with status := .cancelled }.event (now events.length) message none])

def expireOpenOrders (now : ℕ → Timestamp) : BrokerOutcome :=
  let (b, events) := expireEach now b.resting (b, [])
  ⟨b, events, none⟩

/-- The broker closes a position itself. -/
def squareOff (instrumentId : String) (side : OrderSide) (quantity : ℕ) (price : Money)
    (strategyRunId : String) (now : ℕ → Timestamp) : BrokerOutcome :=
  match SimOrderRequest.make instrumentId side .limit quantity price s!"SQUAREOFF-{b.fills + 1}"
    strategyRunId none with
  | .error e => ⟨b, [], some e⟩
  | .ok request =>
      let o := b.newOrder request (now 0)
      let (b, e) := (b.register o).fill o request.quantity request.quantity_pos price .forcedSquareOff
        fun k => now (1 + k)
      ⟨b, [e], none⟩

end SimulatedBroker

/-- A call on the broker. -/
inductive BrokerCall
  /-- With the reason of the policy, where it refuses the order. -/
  | submit (request : SimOrderRequest) (rejection : Option String)
  | cancel (orderId : String)
  | matchBar (bar : Candle)
  | expireOpenOrders
  | squareOff (instrumentId : String) (side : OrderSide) (quantity : ℕ) (price : Money)
      (strategyRunId : String)

namespace SimulatedBroker

variable [DecimalContext]

/-- The call, with the readings of the clock it makes. -/
def call (model : BarFillModel) (b : SimulatedBroker) (c : BrokerCall) (now : ℕ → Timestamp) :
    BrokerOutcome :=
  match c with
  | .submit request rejection => b.submit request rejection now
  | .cancel orderId => b.cancel orderId now
  | .matchBar bar => b.matchBar model bar now
  | .expireOpenOrders => b.expireOpenOrders now
  | .squareOff instrumentId side quantity price strategyRunId =>
      b.squareOff instrumentId side quantity price strategyRunId now

end SimulatedBroker

/-- A call of a run, and what it came to. -/
structure BrokerStep where
  before : SimulatedBroker
  call : BrokerCall
  outcome : BrokerOutcome

namespace SimulatedBroker

variable [DecimalContext]

/-- The steps of a run. -/
def trace (model : BarFillModel) :
    SimulatedBroker → List (BrokerCall × (ℕ → Timestamp)) → List BrokerStep :=
  Recording.steps (fun b c => ⟨b, c.1, b.call model c.1 c.2⟩) (·.outcome.broker)

end SimulatedBroker

end Emporos
