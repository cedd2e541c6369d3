import Emporos.Domain.Signal
/-!
# The broker's vocabulary

What a broker is asked and what it answers, whichever broker it is. A
request that breaks its own rules cannot be built: `PlaceOrderRequest.make`
and `CancelOrderRequest.make` are the constructors of the source.
-/

namespace Emporos

inductive BrokerOrderStatus
  /-- Accepted by the broker, not yet at the exchange. -/
  | pending
  | open
  | triggerPending
  | partiallyFilled
  | filled
  | cancelled
  | rejected
  /-- A status there is no mapping for. -/
  | unrecognised
  deriving DecidableEq, Repr

def BrokerOrderStatus.value : BrokerOrderStatus → String
  | pending => "PENDING"
  | «open» => "OPEN"
  | triggerPending => "TRIGGER_PENDING"
  | partiallyFilled => "PARTIALLY_FILLED"
  | filled => "FILLED"
  | cancelled => "CANCELLED"
  | rejected => "REJECTED"
  | unrecognised => "UNRECOGNISED"

/-- `[A-Za-z0-9]{1,20}`, with the line break Python's `$` lets stand at
the end. -/
def isClientTag (tag : String) : Bool :=
  let body := if tag.toList.getLast? = some '\n' then tag.toList.dropLast else tag.toList
  decide (1 ≤ body.length ∧ body.length ≤ 20) && body.all Char.isAlphanum

/-- The request that places an order; the tag is its idempotency handle. -/
structure PlaceOrderRequest where
  instrumentId : String
  side : OrderSide
  orderType : OrderType
  quantity : ℕ
  price : Money
  clientTag : String
  triggerPrice : Option Money
  quantity_pos : 0 < quantity
  price_pos : Money.zero < price
  trigger_fits : triggerFits orderType triggerPrice
  tag_fits : isClientTag clientTag

def PlaceOrderRequest.make (instrumentId : String) (side : OrderSide) (orderType : OrderType)
    (quantity : ℕ) (price : Money) (triggerPrice : Option Money) (clientTag : String) :
    Except PyError PlaceOrderRequest :=
  if quantity_pos : 0 < quantity then
    if price_pos : Money.zero < price then
      if trigger_fits : triggerFits orderType triggerPrice then
        if tag_fits : isClientTag clientTag then
          .ok { instrumentId, side, orderType, quantity, price, clientTag, triggerPrice,
                quantity_pos, price_pos, trigger_fits, tag_fits }
        else .error (.valueError "client_tag must be 1-20 alphanumeric characters")
      else .error (.valueError (if orderType = .stoplossLimit then
          "a stop-loss limit order needs a positive trigger price"
        else "only stop-loss limit orders take a trigger price"))
    else .error (.valueError "a limit price must be positive")
  else .error (.valueError "quantity must be positive")

/-- The tag the broker echoes is the one it was given. -/
theorem PlaceOrderRequest.clientTag_of_make {instrument : String} {side : OrderSide}
    {orderType : OrderType} {quantity : ℕ} {price : Money} {trigger : Option Money} {tag : String}
    {r : PlaceOrderRequest}
    (h : make instrument side orderType quantity price trigger tag = .ok r) :
    r.clientTag = tag := by
  unfold make at h
  split_ifs at h
  obtain rfl := Except.ok.inj h
  rfl

theorem PlaceOrderRequest.price_of_make {instrument : String} {side : OrderSide}
    {orderType : OrderType} {quantity : ℕ} {price : Money} {trigger : Option Money} {tag : String}
    {r : PlaceOrderRequest}
    (h : make instrument side orderType quantity price trigger tag = .ok r) : r.price = price := by
  unfold make at h
  split_ifs at h
  obtain rfl := Except.ok.inj h
  rfl

structure CancelOrderRequest where
  brokerOrderId : String
  orderType : OrderType
  named : brokerOrderId ≠ ""

def CancelOrderRequest.make (brokerOrderId : String) (orderType : OrderType) :
    Except PyError CancelOrderRequest :=
  if named : brokerOrderId ≠ "" then .ok { brokerOrderId, orderType, named }
  else .error (.valueError "a broker order id is required")

/-- The broker accepted a request. It is not a fill. -/
structure BrokerOrderAck where
  brokerOrderId : String
  clientTag : Option String
  deriving DecidableEq

/-- A row of the broker's order book. -/
structure BrokerOrder where
  brokerOrderId : String
  clientTag : Option String
  instrumentId : String
  side : OrderSide
  /-- None for a type this platform cannot place. -/
  orderType : Option OrderType
  quantity : ℕ
  filledQuantity : ℕ
  status : BrokerOrderStatus
  price : Option Money
  triggerPrice : Option Money
  statusMessage : String
  deriving DecidableEq

/-- A row of the broker's trade book. -/
structure BrokerTrade where
  tradeId : String
  brokerOrderId : String
  instrumentId : String
  side : OrderSide
  quantity : ℕ
  price : Money
  executedAt : Option Timestamp
  quantity_pos : 0 < quantity
  deriving DecidableEq

structure BrokerPosition where
  instrumentId : String
  netQuantity : ℤ
  averagePrice : Money
  deriving DecidableEq

/-- A quote, as far as risk reads it. -/
structure Quote where
  instrumentId : String
  ltp : Money
  lowerCircuit : Option Money
  upperCircuit : Option Money
  bid : Option Money
  ask : Option Money

end Emporos
