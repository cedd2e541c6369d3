import Emporos.Marketdata.Ticks
import Emporos.Paper.Account
/-!
# The simulated exchange

Resting orders, their lifecycle, and matching against the ticks. Every
change to an order is an event with the order after it and a number of the
order's own. The exchange does no I/O and is told the time. The order of
its list is time priority: the orders on one instrument share what a tick
has for them, the first one first.
-/

namespace Emporos

def OrderSide.direction : OrderSide → ℤ
  | buy => 1
  | sell => -1

namespace Paper

/-- What the policies may know about an order that is resting on the
exchange. -/
structure WorkingOrder where
  side : OrderSide
  limitPrice : Money
  remaining : ℤ
  triggerPrice : Option Money

variable [DecimalContext]

/-- How far a price is inside the limit, for the order's owner. -/
def edge (side : OrderSide) (limit price : Money) : Decimal :=
  (limit.amount.sub price.amount).mul side.direction

/-! ## The policies -/

/-- `TouchCrossing`: a tick at the limit is enough. -/
def touchCrossing (order : WorkingOrder) (price : Money) : Bool :=
  0 ≤ edge order.side order.limitPrice price

/-- `ThroughCrossing`: only a tick beyond the limit. -/
def throughCrossing (order : WorkingOrder) (price : Money) : Bool :=
  0 < edge order.side order.limitPrice price

omit [DecimalContext] in
/-- `AtLimitPrice`: no price improvement. -/
def atLimitPrice (order : WorkingOrder) (_tradePrice : Money) : Money := order.limitPrice

/-- `AtTradePrice`: the price of the tape with slippage, and no worse than
the limit. -/
def atTradePrice (adverse : Money) (order : WorkingOrder) (tradePrice : Money) : Money :=
  let slipped : Money :=
    ⟨tradePrice.amount.add (Decimal.mul order.side.direction adverse.amount)⟩
  if 0 ≤ edge order.side order.limitPrice slipped then slipped else order.limitPrice

omit [DecimalContext] in
/-- `LimitFillPolicy`. -/
def limitFill (crosses : WorkingOrder → Money → Bool) (pricing : WorkingOrder → Money → Money)
    (order : WorkingOrder) (tick : Tick) : Option Money :=
  if crosses order tick.ltp then some (pricing order tick.ltp) else none

omit [DecimalContext] in
/-- `FullLiquidity`: no limit. -/
def fullLiquidity (_tradedVolume : Option ℕ) : Option ℤ := none

/-- `ParticipationLiquidity`: a share of what traded, and nothing where the
feed does not say. -/
def participationLiquidity (rate : Decimal) : Option ℕ → Option ℤ
  | none => some 0
  | some tradedVolume => some ⌊Decimal.mul tradedVolume rate⌋

omit [DecimalContext] in
/-- `CappedLiquidity`: so many a tick. -/
def cappedLiquidity (shares : ℕ) (_tradedVolume : Option ℕ) : Option ℤ := some shares

/-- `StopTrigger`: a sale's trigger fires when the price falls to it, a
purchase's when it rises to it. -/
def stopTrigger (order : WorkingOrder) (tick : Tick) : Bool :=
  match order.triggerPrice with
  | none => false
  | some trigger => edge order.side trigger tick.ltp ≤ 0

end Paper

/-- What an exchange is built with. -/
structure ExchangePolicies where
  /-- The price an order trades at on a tick, if it trades. -/
  executionPrice : Paper.WorkingOrder → Tick → Option Money
  /-- What a tick has for the account, from what traded since the tick
  before; none for no limit. -/
  budget : Option ℕ → Option ℤ
  fires : Paper.WorkingOrder → Tick → Bool
  latency : Duration
  latency_nonneg : 0 ≤ latency

/-- A row of the order book, with what only the paper broker fills in. -/
structure PaperOrder extends BrokerOrder where
  averagePrice : Option Money
  updatedAt : Timestamp
  deriving DecidableEq

/-- An order's state after one change; a fill has its trade. -/
structure ExchangeEvent where
  order : PaperOrder
  seq : ℕ
  moment : Timestamp
  trade : Option BrokerTrade
  reason : String
  deriving DecidableEq

def BrokerRejectedError (message : String) : PyError :=
  .broker "BrokerRejectedError" .definitive message

/-- One order and its state machine. -/
structure SimulatedOrder where
  order : PaperOrder
  seq : ℕ
  liveFrom : Timestamp
  trades : ℕ
  deriving DecidableEq

namespace SimulatedOrder

variable (o : SimulatedOrder)

def id : String := o.order.brokerOrderId

def isWorking : Prop :=
  o.order.status = .open ∨ o.order.status = .triggerPending ∨ o.order.status = .partiallyFilled

instance : Decidable o.isWorking := inferInstanceAs (Decidable (_ ∨ _))

def awaitingTrigger : Prop := o.order.status = .triggerPending

instance : Decidable o.awaitingTrigger := inferInstanceAs (Decidable (_ = _))

def remaining : ℤ := o.order.quantity - o.order.filledQuantity

/-- The order has a limit price, which the source asserts. -/
def view : Except PyError Paper.WorkingOrder :=
  match o.order.price with
  | none => .error (.other "AssertionError")
  | some price => .ok ⟨o.order.side, price, o.remaining, o.order.triggerPrice⟩

/-- `_event`. -/
def event (now : Timestamp) (order : PaperOrder) (reason : String) (trade : Option BrokerTrade) :
    SimulatedOrder × ExchangeEvent :=
  let order := { order with updatedAt := now }
  ({ o with order, seq := o.seq + 1 }, ⟨order, o.seq + 1, now, trade, reason⟩)

def accepted (now : Timestamp) : SimulatedOrder × ExchangeEvent := o.event now o.order "" none

def rejected (now : Timestamp) (reason : String) : SimulatedOrder × ExchangeEvent :=
  o.event now { o.order with status := .rejected, statusMessage := reason } reason none

/-- `_require_working`. -/
def requireWorking (action : String) : Except PyError Unit :=
  if o.isWorking then .ok ()
  else
    .error (BrokerRejectedError
      s!"cannot {action} order {o.order.brokerOrderId}: it is {o.order.status.value}")

def triggered (now : Timestamp) : Except PyError (SimulatedOrder × ExchangeEvent) := do
  o.requireWorking "trigger"
  return o.event now { o.order with status := .open } "" none

def cancelled (now : Timestamp) : Except PyError (SimulatedOrder × ExchangeEvent) := do
  o.requireWorking "cancel"
  return o.event now { o.order with status := .cancelled } "" none

def amended (now : Timestamp) (quantity : ℕ) (price : Money) (triggerPrice : Option Money) :
    Except PyError (SimulatedOrder × ExchangeEvent) := do
  o.requireWorking "modify"
  if quantity ≤ o.order.filledQuantity then
    .error (BrokerRejectedError
      s!"quantity {quantity} does not exceed the {o.order.filledQuantity} already filled")
  else if triggerPrice.isNone ≠ o.order.triggerPrice.isNone then
    .error (BrokerRejectedError "a modification cannot add or remove the trigger price")
  else
    return o.event now { o.order with quantity, price := some price, triggerPrice } "" none

/-- The trade a fill makes. -/
def trade (now : Timestamp) (quantity : ℕ) (price : Money) (h : 0 < quantity) : BrokerTrade where
  tradeId := s!"{o.order.brokerOrderId}-{o.trades + 1}"
  brokerOrderId := o.order.brokerOrderId
  instrumentId := o.order.instrumentId
  side := o.order.side
  quantity := quantity
  price := price
  executedAt := some now
  quantity_pos := h

variable [DecimalContext]

/-- The average price after a fill. -/
def averageAfter (quantity : ℕ) (price : Money) : Money :=
  let previous :=
    Decimal.mul (o.order.averagePrice.getD Money.zero).amount o.order.filledQuantity
  ⟨(previous.add (price.amount.mul quantity)).div (o.order.filledQuantity + quantity : ℕ)⟩

/-- The effect of a fill. -/
def fill (now : Timestamp) (quantity : ℕ) (price : Money) (h : 0 < quantity) :
    SimulatedOrder × ExchangeEvent :=
  let total := o.order.filledQuantity + quantity
  { o with trades := o.trades + 1 }.event now
    { o.order with
      filledQuantity := total
      status := if total = o.order.quantity then .filled else .partiallyFilled
      averagePrice := some (o.averageAfter quantity price) }
    "" (some (o.trade now quantity price h))

def filled (now : Timestamp) (quantity : ℤ) (price : Money) :
    Except PyError (SimulatedOrder × ExchangeEvent) := do
  o.requireWorking "fill"
  if h : 0 < quantity ∧ quantity ≤ o.remaining then
    return o.fill now quantity.toNat price (by omega)
  else .error (.valueError "a fill must be positive and no more than the unfilled quantity")

end SimulatedOrder

/-- `TapeVolume`: the cumulative volume an instrument's last tick had. -/
abbrev TapeVolume := List (String × ℕ)

/-- What traded since the instrument's previous tick; the first one has no
baseline, and a falling counter is a glitch. -/
def TapeVolume.sincePrevious (tape : TapeVolume) (tick : Tick) : TapeVolume × Option ℕ :=
  match tick.volume with
  | none => (tape, none)
  | some volume =>
      (Table.upsert Prod.fst (tick.instrumentId, volume) tape,
        (Table.lookup Prod.fst tick.instrumentId tape).map fun previous => volume - previous.2)

structure SimulatedExchange where
  orders : List SimulatedOrder
  tape : TapeVolume

namespace SimulatedExchange

def empty : SimulatedExchange := ⟨[], []⟩

variable (x : SimulatedExchange)

def put (o : SimulatedOrder) : SimulatedExchange :=
  { x with orders := Table.upsert SimulatedOrder.id o x.orders }

/-- `_order`. -/
def find (brokerOrderId : String) : Except PyError SimulatedOrder :=
  match Table.lookup SimulatedOrder.id brokerOrderId x.orders with
  | none => .error (BrokerRejectedError s!"unknown order '{brokerOrderId}'")
  | some o => .ok o

def findByTag (clientTag : String) : List SimulatedOrder :=
  x.orders.filter fun o => o.order.clientTag = some clientTag

/-- The order a request makes. -/
def newOrder (P : ExchangePolicies) (request : PlaceOrderRequest) (ulid : String) (now : Timestamp) :
    SimulatedOrder where
  order :=
    { brokerOrderId := "PAPER" ++ ulid
      clientTag := some request.clientTag
      instrumentId := request.instrumentId
      side := request.side
      orderType := some request.orderType
      quantity := request.quantity
      filledQuantity := 0
      status := if request.orderType = .stoplossLimit then .triggerPending else .open
      price := some request.price
      triggerPrice := request.triggerPrice
      statusMessage := ""
      averagePrice := none
      updatedAt := now }
  seq := 0
  liveFrom := now + P.latency
  trades := 0

/-- Accept an order or, with a reason, record it as rejected downstream. -/
def submit (P : ExchangePolicies) (request : PlaceOrderRequest) (ulid : String) (now : Timestamp)
    (rejectReason : Option String) : SimulatedExchange × ExchangeEvent :=
  let simulated := newOrder P request ulid now
  let (o, e) := match rejectReason with
    | none => simulated.accepted now
    | some reason => simulated.rejected now reason
  (x.put o, e)

def cancel (brokerOrderId : String) (now : Timestamp) :
    Except PyError (SimulatedExchange × ExchangeEvent) := do
  let o ← x.find brokerOrderId
  let (o, e) ← o.cancelled now
  return (x.put o, e)

def amend (brokerOrderId : String) (now : Timestamp) (quantity : ℕ) (price : Money)
    (triggerPrice : Option Money) : Except PyError (SimulatedExchange × ExchangeEvent) := do
  let o ← x.find brokerOrderId
  let (o, e) ← o.amended now quantity price triggerPrice
  return (x.put o, e)

/-- An order a tick may match. -/
def Eligible (tick : Tick) (o : SimulatedOrder) : Prop :=
  o.isWorking ∧ o.order.instrumentId = tick.instrumentId ∧ o.liveFrom ≤ tick.receivedTs

instance (tick : Tick) (o : SimulatedOrder) : Decidable (Eligible tick o) :=
  inferInstanceAs (Decidable (_ ∧ _))

/-- What an order may take of a budget. -/
def share (budget : Option ℤ) (remaining : ℤ) : ℤ :=
  match budget with
  | none => remaining
  | some left => min remaining left

variable [DecimalContext] (P : ExchangePolicies) (tick : Tick) (now : Timestamp)

/-- One order's turn: the order after it, what is left of the budget, and
the event. -/
def visit (budget : Option ℤ) (o : SimulatedOrder) :
    Except PyError (SimulatedOrder × Option ℤ × Option ExchangeEvent) :=
  if ¬ Eligible tick o then .ok (o, budget, none)
  else if o.awaitingTrigger then do
    let view ← o.view
    if P.fires view tick then
      -- it may fill from the next tick
      let (o, e) ← o.triggered now
      return (o, budget, some e)
    else return (o, budget, none)
  else do
    let view ← o.view
    match P.executionPrice view tick with
    | none => return (o, budget, none)
    | some price =>
        let quantity := share budget view.remaining
        if quantity ≤ 0 then return (o, budget, none)
        else
          let (o, e) ← o.filled now quantity price
          return (o, budget.map (· - quantity), some e)

/-- The turns of the orders, in time priority. An exception leaves the
orders behind it as they were, and the events of those before it are lost. -/
def matchAll : Option ℤ → List SimulatedOrder →
    List SimulatedOrder × Except PyError (List ExchangeEvent)
  | _, [] => ([], .ok [])
  | budget, o :: rest =>
      match visit P tick now budget o with
      | .error e => (o :: rest, .error e)
      | .ok (o, budget, e) =>
          let (rest, events) := matchAll budget rest
          (o :: rest, events.map (e.toList ++ ·))

/-- Match one tick against the resting orders on its instrument. -/
def onTick : SimulatedExchange × Except PyError (List ExchangeEvent) :=
  if tick.outOfOrder then (x, .ok [])
  else
    let (tape, traded) := x.tape.sincePrevious tick
    let (orders, events) := matchAll P tick now (P.budget traded) x.orders
    (⟨orders, tape⟩, events)

end SimulatedExchange

end Emporos
