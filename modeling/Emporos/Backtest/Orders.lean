import Emporos.Backtest.FillModel
import Emporos.Backtest.Portfolio
/-!
# Order and fill values of the simulated broker

A request that the source's constructor refuses cannot be built, and
`SimOrderRequest.make` is that constructor. What a strategy is told of an
order is an `OrderUpdate`.
-/

namespace Emporos

/-- Where the limit of a stop may lie, seen from its trigger. -/
def limitFits (side : OrderSide) (limit : Money) (trigger : Option Money) : Prop :=
  match side with
  | .buy => ∀ t ∈ trigger, t ≤ limit
  | .sell => ∀ t ∈ trigger, limit ≤ t

instance (side : OrderSide) (limit : Money) (trigger : Option Money) :
    Decidable (limitFits side limit trigger) := by
  unfold limitFits
  cases side <;> infer_instance

structure SimOrderRequest where
  instrumentId : String
  side : OrderSide
  orderType : OrderType
  quantity : ℕ
  limitPrice : Money
  tag : String
  strategyRunId : String
  triggerPrice : Option Money
  named : instrumentId ≠ "" ∧ tag ≠ ""
  run_named : strategyRunId ≠ ""
  quantity_pos : 0 < quantity
  limit_pos : Money.zero < limitPrice
  trigger_fits : triggerFits orderType triggerPrice
  limit_fits : limitFits side limitPrice triggerPrice

namespace SimOrderRequest

/-- The constructor of the source. -/
def make (instrumentId : String) (side : OrderSide) (orderType : OrderType) (quantity : ℕ)
    (limitPrice : Money) (tag strategyRunId : String) (triggerPrice : Option Money) :
    Except PyError SimOrderRequest :=
  if named : instrumentId ≠ "" ∧ tag ≠ "" then
    if run_named : strategyRunId ≠ "" then
      if quantity_pos : 0 < quantity then
        if limit_pos : Money.zero < limitPrice then
          if trigger_fits : triggerFits orderType triggerPrice then
            if limit_fits : limitFits side limitPrice triggerPrice then
              .ok ⟨instrumentId, side, orderType, quantity, limitPrice, tag, strategyRunId,
                triggerPrice, named, run_named, quantity_pos, limit_pos, trigger_fits, limit_fits⟩
            else .error (.valueError "the limit price is on the wrong side of the trigger price")
          else match orderType with
            | .limit => .error (.valueError "only stop-loss limit orders take a trigger price")
            | .stoplossLimit =>
                .error (.valueError "a stop-loss limit order needs a positive trigger price")
        else .error (.valueError "an order has a positive limit price")
      else .error (.valueError "an order has a positive quantity")
    else .error (.valueError "an order needs a strategy_run_id")
  else .error (.valueError "an order needs an instrument and a tag")

end SimOrderRequest

/-- A matched fill, or the broker's own square-off at the end of a day. -/
inductive FillReason
  | matched
  | forcedSquareOff
  deriving DecidableEq

/-- A fill with the tag of its order and why it was made. -/
structure SimFill extends Fill where
  tag : String
  reason : FillReason

inductive OrderUpdateStatus
  | working
  | partiallyFilled
  | filled
  | cancelled
  | rejected
  | unknown
  deriving DecidableEq

def OrderUpdateStatus.value : OrderUpdateStatus → String
  | working => "WORKING"
  | partiallyFilled => "PARTIALLY_FILLED"
  | filled => "FILLED"
  | cancelled => "CANCELLED"
  | rejected => "REJECTED"
  | unknown => "UNKNOWN"

def OrderUpdateStatus.isTerminal : OrderUpdateStatus → Bool
  | filled | cancelled | rejected => true
  | working | partiallyFilled | unknown => false

structure OrderUpdate where
  instrumentId : String
  side : OrderSide
  status : OrderUpdateStatus
  quantity : ℕ
  filledQuantity : ℕ
  ts : Timestamp
  averagePrice : Option Money
  ordertag : Option String
  message : String

/-- An order changing state, with the fill that caused it. -/
structure SimEvent where
  orderId : String
  update : OrderUpdate
  fill : Option SimFill

namespace SimFill

/-- The shares of fills. -/
def total (fills : List SimFill) : ℕ := (fills.map (·.quantity)).sum

/-- The fills of orders. -/
def ofOrders (ids : List String) (fills : List SimFill) : List SimFill :=
  fills.filter fun fill => fill.orderId ∈ ids

variable {fills fills' : List SimFill} {ids : List String}

@[simp] theorem total_nil : total [] = 0 := rfl

@[simp] theorem total_append : total (fills ++ fills') = total fills + total fills' := by simp [total]

@[simp] theorem ofOrders_nil : ofOrders ids [] = [] := rfl

@[simp] theorem ofOrders_append :
    ofOrders ids (fills ++ fills') = ofOrders ids fills ++ ofOrders ids fills' :=
  List.filter_append ..

theorem ofOrders_eq_nil (h : ∀ fill ∈ fills, fill.orderId ∉ ids) : ofOrders ids fills = [] :=
  List.filter_eq_nil_iff.mpr fun fill hfill => by simpa using h fill hfill

theorem ofOrders_eq_self (h : ∀ fill ∈ fills, fill.orderId ∈ ids) : ofOrders ids fills = fills :=
  List.filter_eq_self.mpr fun fill hfill => by simpa using h fill hfill

theorem total_ofOrders_le : total (ofOrders ids fills) ≤ total fills :=
  (List.filter_sublist.map _).sum_le_sum fun _ _ => Nat.zero_le _

/-- Fills of no shares are no fills. -/
theorem eq_nil_of_total (h : total fills = 0) : fills = [] := by
  cases fills with
  | nil => rfl
  | cons fill rest =>
      have hpos := fill.quantity_pos
      rw [total, List.map_cons, List.sum_cons] at h
      omega

end SimFill

/-- The fills of events. -/
def SimEvent.fills (events : List SimEvent) : List SimFill := events.filterMap (·.fill)

end Emporos
