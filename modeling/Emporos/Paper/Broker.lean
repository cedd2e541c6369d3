import Emporos.Domain.Fees
import Emporos.Paper.Exchange
/-!
# The paper broker

The `Broker` interface over real market data and a simulated exchange. The
broker owns only the choreography of its parts: the exchange, the account
and its funds, the reject screen, the cost model and the journal. A call
that raises leaves behind what it did before.
-/

namespace Emporos

/-- What one trade costs; it may raise. -/
abbrev CostModel := BrokerTrade → Except PyError Money

/-- `NoCosts`. -/
def noCosts : CostModel := fun _ => .ok Money.zero

/-- `ScheduledCosts`: the charges of a dated fee schedule. -/
def scheduledCosts [DecimalContext] (schedule : FeeSchedule) : CostModel := fun trade => do
  let exchange ← Exchange.ofInstrument trade.instrumentId
  let charges ← IntradayCharges.forTrade schedule exchange trade.side trade.quantity trade.price
  return charges.total

/-- An instrument, as far as an order on it is screened. -/
structure Instrument where
  instrumentId : String
  tickSize : Money
  tick_pos : Money.zero < tickSize

structure ModifyOrderRequest where
  brokerOrderId : String
  instrumentId : String
  orderType : OrderType
  quantity : ℕ
  price : Money
  triggerPrice : Option Money
  named : brokerOrderId ≠ ""
  quantity_pos : 0 < quantity
  price_pos : Money.zero < price
  trigger_fits : triggerFits orderType triggerPrice

/-! ## The reject screen -/

inductive RejectionStage
  | atAcceptance
  | atExchange
  deriving DecidableEq

structure Rejection where
  reason : String
  stage : RejectionStage

/-- Everything a rule may look at when judging one order. -/
structure OrderContext where
  request : PlaceOrderRequest
  instrument : Instrument
  lastPrice : Option Money
  availableCash : Money
  marginRequired : Money

structure RejectRule where
  stage : RejectionStage
  reason : OrderContext → Except PyError (Option String)

/-- Prices sit on the instrument's tick grid. -/
def tickSizeRule : RejectRule where
  stage := .atAcceptance
  reason context :=
    let tick := context.instrument.tickSize.amount
    let offGrid (price : Money) : Bool := (price.amount / tick).den ≠ 1
    let text (label : String) (price : Money) : String :=
      s!"{label} {price.amount} is not a multiple of the tick size {tick}"
    if offGrid context.request.price then .ok (some (text "price" context.request.price))
    else
      match context.request.triggerPrice with
      | none => .ok none
      | some trigger => .ok (if offGrid trigger then some (text "trigger" trigger) else none)

/-- A stop-loss limit's trigger lies on the right side of its limit and of
the market. -/
def stopPlacementRule : RejectRule where
  stage := .atAcceptance
  reason context :=
    let request := context.request
    if request.orderType ≠ .stoplossLimit then .ok none
    else
      match request.triggerPrice with
      | none => .ok none
      | some trigger =>
          let (wrong, reached) := match request.side with
            | .buy => (decide (request.price < trigger), context.lastPrice.any (trigger ≤ ·))
            | .sell => (decide (trigger < request.price), context.lastPrice.any (· ≤ trigger))
          if wrong then .ok (some "the limit price is on the wrong side of the trigger price")
          else if reached then .ok (some "the trigger price has already been reached")
          else .ok none

/-- Refuses an order whose margin exceeds the free cash. -/
def sufficientFundsRule : RejectRule where
  stage := .atExchange
  reason context :=
    .ok (if context.availableCash < context.marginRequired then
      some (s!"insufficient funds: need {context.marginRequired.amount}, " ++
        s!"available {context.availableCash.amount}")
    else none)

/-- Refuses where the draw hits. -/
def probabilisticRejectRule (hits : Bool) (reason : String) : RejectRule where
  stage := .atExchange
  reason _ := .ok (if hits then some reason else none)

/-- The first objection of an ordered list of rules. -/
def firstRejection (rules : List RejectRule) (context : OrderContext) :
    Except PyError (Option Rejection) :=
  match rules with
  | [] => .ok none
  | rule :: rest => do
      match ← rule.reason context with
      | some reason => return some ⟨reason, rule.stage⟩
      | none => firstRejection rest context

/-- What an amendment is checked against. -/
def firstAcceptanceRejection (rules : List RejectRule) (context : OrderContext) :
    Except PyError (Option Rejection) :=
  firstRejection (rules.filter fun rule => rule.stage = .atAcceptance) context

/-- The product rule has nothing to say: a request here is intraday. -/
def defaultRules : List RejectRule := [tickSizeRule, stopPlacementRule, sufficientFundsRule]

/-! ## The journal's entries -/

/-- An order changed state, by its own event number. -/
structure OrderStateRecorded where
  accountId : String
  sessionDate : ℤ
  order : PaperOrder
  seq : ℕ
  moment : Timestamp
  reason : String

/-- One fill: the trade, the order after it, and the position it made. -/
structure FillRecorded where
  accountId : String
  sessionDate : ℤ
  order : PaperOrder
  seq : ℕ
  moment : Timestamp
  trade : BrokerTrade
  fees : Money
  position : PositionState
  /-- Its place among the account's fills, from one. -/
  number : ℕ

/-- The account's P&L at a moment. -/
structure SnapshotRecorded where
  accountId : String
  sessionDate : ℤ
  moment : Timestamp
  cash : Money
  realised : Money
  unrealised : Money
  fees : Money
  trades : ℕ
  positions : List PositionState

inductive JournalEntry
  | orderState (entry : OrderStateRecorded)
  | fill (entry : FillRecorded)
  | snapshot (entry : SnapshotRecorded)

/-! ## The broker -/

/-- What a paper broker is built with. -/
structure PaperSettings where
  clientCode : String
  policies : ExchangePolicies
  costs : CostModel
  leverage : Decimal
  leverage_ge : 1 ≤ leverage

structure PaperBroker where
  exchange : SimulatedExchange
  account : PaperAccount
  /-- The last traded price of each instrument. -/
  prices : List (String × Money)
  /-- Every entry appended so far. -/
  journal : List JournalEntry

/-- What a call is told by what is outside the broker. -/
structure CallAnswers where
  now : Timestamp
  catalog : Except PyError (String → Option Instrument)
  /-- The rules of the screen, with their draws. -/
  screen : List RejectRule
  ulid : String
  flush : Except PyError Unit
  losesReply : Bool

namespace PaperBroker

def new (startingCash : Money) (h : Money.zero ≤ startingCash) : PaperBroker where
  exchange := .empty
  account := .new startingCash h
  prices := []
  journal := []

variable (s : PaperBroker)

/-- `LastPrices.last`. -/
def lastPrice (instrumentId : String) : Option Money :=
  (Table.lookup Prod.fst instrumentId s.prices).map Prod.snd

/-- `LastPrices.observe`. -/
def observe (tick : Tick) : PaperBroker :=
  if tick.outOfOrder then s
  else { s with prices := Table.upsert Prod.fst (tick.instrumentId, tick.ltp) s.prices }

variable [DecimalContext] (settings : PaperSettings)

/-! ### Funds -/

/-- The margin of the part of an order that would open. -/
def marginRequired (request : PlaceOrderRequest) : Money :=
  let net : ℤ := ((s.account.position request.instrumentId).map (·.netQuantity)).getD 0
  let opposing : ℤ := match request.side with
    | .buy => -net
    | .sell => net
  let opening : ℤ := request.quantity - min (request.quantity : ℤ) (max opposing 0)
  ⟨(request.price.amount.mul opening).div settings.leverage⟩

def unrealised : Money :=
  s.account.positions.foldl (fun total (p : PositionState) =>
    match s.lastPrice p.instrumentId with
    | some mark =>
        if p.netQuantity ≠ 0 then
          total + ⟨(mark.amount.sub p.averagePrice.amount).mul p.netQuantity⟩
        else total
    | none => total) Money.zero

def utilised : Money :=
  let held := s.account.positions.foldl (fun total (p : PositionState) =>
    total + ⟨(Decimal.mul p.netQuantity.natAbs p.averagePrice.amount).div settings.leverage⟩)
    Money.zero
  (s.exchange.orders.filter fun o => o.isWorking).foldl (fun total o =>
    match o.order.price with
    | some price => total + ⟨(price.amount.mul o.remaining).div settings.leverage⟩
    | none => total) held

def availableCash : Money := s.account.cash - s.utilised settings

/-! ### Events -/

def snapshot (now : Timestamp) : SnapshotRecorded where
  accountId := settings.clientCode
  sessionDate := now.sessionDate
  moment := now
  cash := s.account.cash
  realised := s.account.realised
  unrealised := s.unrealised
  fees := s.account.fees
  trades := s.account.trades.length
  positions := s.account.positions

/-- The broker once a fill is booked: the fill and a snapshot are
journalled. -/
def booked (now : Timestamp) (e : ExchangeEvent) (trade : BrokerTrade) (fees : Money)
    (account : PaperAccount) : PaperBroker :=
  let s' := { s with account }
  { s' with journal := s.journal ++
    [.fill ⟨settings.clientCode, now.sessionDate, e.order, e.seq, e.moment, trade, fees,
      s.account.after trade fees, account.trades.length⟩,
    .snapshot (s'.snapshot settings now)] }

/-- One event of the exchange: a state is journalled, a fill is charged and
booked first. -/
def applyEvent (now : Timestamp) (e : ExchangeEvent) : Except PyError PaperBroker :=
  match e.trade with
  | none =>
      .ok { s with journal := s.journal ++ [.orderState
        ⟨settings.clientCode, now.sessionDate, e.order, e.seq, e.moment, e.reason⟩] }
  | some trade => do
      let fees ← settings.costs trade
      let account ← s.account.apply trade fees
      return s.booked settings now e trade fees account

/-- `_apply`: an exception leaves the events behind it out. -/
def applyEvents (now : Timestamp) (s : PaperBroker) :
    List ExchangeEvent → PaperBroker × Except PyError Unit
  | [] => (s, .ok ())
  | e :: rest =>
      match s.applyEvent settings now e with
      | .error error => (s, .error error)
      | .ok s => applyEvents now s rest

/-- `_on_source_tick`: no exception of the simulation gets out. -/
def onSourceTick (now : Timestamp) (tick : Tick) : PaperBroker :=
  let s := s.observe tick
  let (exchange, events) := s.exchange.onTick settings.policies tick now
  let s := { s with exchange }
  match events with
  | .error _ => s
  | .ok events => (applyEvents settings now s events).1

/-! ### Orders -/

/-- `_locate`. -/
def locate (answers : CallAnswers) (instrumentId : String) : Except PyError Instrument := do
  match (← answers.catalog) instrumentId with
  | some instrument => return instrument
  | none => .error (BrokerRejectedError s!"unknown instrument '{instrumentId}'")

/-- `_context`. -/
def context (request : PlaceOrderRequest) (instrument : Instrument) : OrderContext where
  request := request
  instrument := instrument
  lastPrice := s.lastPrice request.instrumentId
  availableCash := s.availableCash settings
  marginRequired := s.marginRequired settings request

/-- `_make_durable`. -/
def makeDurable (answers : CallAnswers) : Except PyError Unit :=
  answers.flush.mapError fun _ =>
    .broker "BrokerTransportError" .ambiguous "the paper journal could not be written"

/-- An event without a trade on a new book, the flush, and the answer. -/
def settle (answers : CallAnswers) (exchange : SimulatedExchange) (e : ExchangeEvent)
    (answer : Except PyError BrokerOrderAck) : PaperBroker × Except PyError BrokerOrderAck :=
  let (s, applied) := applyEvents settings answers.now { s with exchange } [e]
  (s, do
    applied
    makeDurable answers
    answer)

/-- What a placement is refused for before the exchange has it, or the
reason the exchange rejects it for. -/
def screened (answers : CallAnswers) (request : PlaceOrderRequest) :
    Except PyError (Option String) := do
  let instrument ← locate answers request.instrumentId
  if s.exchange.findByTag request.clientTag ≠ [] then
    .error (BrokerRejectedError
      s!"client tag '{request.clientTag}' is already in use: an order is never resent")
  else
    match ← firstRejection answers.screen (s.context settings request instrument) with
    | none => return none
    | some rejection =>
        if rejection.stage = .atAcceptance then .error (BrokerRejectedError rejection.reason)
        else return some rejection.reason

def placeOrder (answers : CallAnswers) (request : PlaceOrderRequest) :
    PaperBroker × Except PyError BrokerOrderAck :=
  match s.screened settings answers request with
  | .error error => (s, .error error)
  | .ok rejected =>
      let (exchange, e) :=
        s.exchange.submit settings.policies request answers.ulid answers.now rejected
      s.settle settings answers exchange e
        (if answers.losesReply then
          .error (.broker "BrokerTransportError" .ambiguous
            "simulated timeout: the reply to the order was lost")
        else .ok ⟨e.order.brokerOrderId, some request.clientTag⟩)

/-- The amendment of an order on the book, or what it is refused for. -/
def amended (answers : CallAnswers) (request : ModifyOrderRequest) :
    Except PyError (SimulatedExchange × ExchangeEvent) := do
  let existing ← s.exchange.find request.brokerOrderId
  let tag := match existing.order.clientTag with
    | some tag => if tag = "" then "MODIFY" else tag
    | none => "MODIFY"
  let proposed ← PlaceOrderRequest.make existing.order.instrumentId existing.order.side
    request.orderType request.quantity request.price request.triggerPrice tag
  let instrument ← locate answers existing.order.instrumentId
  match ← firstAcceptanceRejection answers.screen (s.context settings proposed instrument) with
  | some rejection => .error (BrokerRejectedError rejection.reason)
  | none =>
      s.exchange.amend request.brokerOrderId answers.now request.quantity request.price
        request.triggerPrice

def modifyOrder (answers : CallAnswers) (request : ModifyOrderRequest) :
    PaperBroker × Except PyError BrokerOrderAck :=
  match s.amended settings answers request with
  | .error error => (s, .error error)
  | .ok (exchange, e) =>
      s.settle settings answers exchange e (.ok ⟨request.brokerOrderId, e.order.clientTag⟩)

def cancelOrder (answers : CallAnswers) (request : CancelOrderRequest) :
    PaperBroker × Except PyError BrokerOrderAck :=
  match s.exchange.cancel request.brokerOrderId answers.now with
  | .error error => (s, .error error)
  | .ok (exchange, e) =>
      s.settle settings answers exchange e (.ok ⟨request.brokerOrderId, e.order.clientTag⟩)

end PaperBroker

/-- A call a paper broker receives. -/
inductive PaperCall
  | place (answers : CallAnswers) (request : PlaceOrderRequest)
  | modify (answers : CallAnswers) (request : ModifyOrderRequest)
  | cancel (answers : CallAnswers) (request : CancelOrderRequest)
  | tick (now : Timestamp) (tick : Tick)

namespace PaperBroker

variable [DecimalContext] (settings : PaperSettings)

def step (s : PaperBroker) : PaperCall → PaperBroker
  | .place answers request => (s.placeOrder settings answers request).1
  | .modify answers request => (s.modifyOrder settings answers request).1
  | .cancel answers request => (s.cancelOrder settings answers request).1
  | .tick now tick => s.onSourceTick settings now tick

/-- The state a sequence of calls leaves. -/
def run (s : PaperBroker) (calls : List PaperCall) : PaperBroker := calls.foldl (step settings) s

end PaperBroker

end Emporos
