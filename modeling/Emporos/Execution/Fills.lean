import Emporos.Execution.Engine
import Emporos.Portfolio.Replay
/-!
# Applying broker fills

Idempotent, atomic, and the only place an order's filled quantity moves. A
fill is identified by the broker's trade id, so a redelivered one is
recognised and changes nothing.
-/

namespace Emporos

inductive FillResult
  /-- A new fill: execution, order and position all written. -/
  | applied
  /-- Already applied. -/
  | duplicate
  /-- No order of ours has this broker order id, yet. -/
  | unattributed
  /-- Applying it would be impossible. -/
  | refused
  deriving DecidableEq, Repr

/-- What a fill processor is built with. -/
structure FillSettings where
  accountId : String
  /-- The charges of a trade. -/
  charges : BrokerTrade → Except PyError Money

structure SyncResult where
  applied : ℕ
  duplicates : ℕ
  unattributed : ℕ
  refused : ℕ
  deriving DecidableEq

namespace SyncResult

def zero : SyncResult := ⟨0, 0, 0, 0⟩

def count (r : SyncResult) : FillResult → SyncResult
  | .applied => { r with applied := r.applied + 1 }
  | .duplicate => { r with duplicates := r.duplicates + 1 }
  | .unattributed => { r with unattributed := r.unattributed + 1 }
  | .refused => { r with refused := r.refused + 1 }

end SyncResult

namespace FillProcessor

open Program

/-- The state an order is in after a fill brought its quantity to `filled`.
A fill after a cancel is a fact, not a transition. -/
def targetState (order : OrderRecord) (filled : ℕ) : OrderState :=
  if order.state.terminal then order.state
  else if filled = order.quantity then .filled
  else if order.state = .pendingCancel then order.state
  else .partiallyFilled

variable [DecimalContext]

/-- The average price once a trade is added to the fills. -/
def averageWith (order : OrderRecord) (trade : BrokerTrade) (filled : ℕ) : Money :=
  let previous := (order.averagePrice.getD Money.zero).amount.mul order.filledQuantity
  ⟨(previous.add (trade.price.amount.mul trade.quantity)).div filled⟩

/-- The order with the trade applied. -/
def withFill (order : OrderRecord) (trade : BrokerTrade) (now : Timestamp) : OrderRecord :=
  let filled := order.filledQuantity + trade.quantity
  { order with
    state := targetState order filled
    filledQuantity := filled
    averagePrice := some (averageWith order trade filled)
    updatedAt := now
    statusMessage := "fill " ++ trade.tradeId }

/-- `_filled`: validate the order's new state, and build it. -/
def filledOrder (order : OrderRecord) (trade : BrokerTrade) : Program OrderRecord := do
  let filled := order.filledQuantity + trade.quantity
  lift (OrderStateMachine.validate order.state (targetState order filled) order.filledQuantity
    filled order.quantity)
  let now ← await .now
  pure (withFill order trade now)

variable (cfg : FillSettings)

/-- The execution a trade on an order becomes. -/
def executionOf (order : OrderRecord) (trade : BrokerTrade) (id : String) (now : Timestamp)
    (fees : Money) (fillsSoFar : ℕ) : ExecutionRecord where
  id := id
  brokerTradeId := trade.tradeId
  orderId := order.id
  instrumentId := trade.instrumentId
  side := trade.side
  quantity := trade.quantity
  price := trade.price
  ts := trade.executedAt.getD now
  accountId := some cfg.accountId
  sessionDate := some order.sessionDate
  fees := some fees
  sessionTradeNo := some (fillsSoFar + 1)

/-- The position a fill is folded into: the one held, or a flat one. -/
def heldOrFlat (instrumentId : String) : Option PositionRecord → Program PositionRecord
  | some held => pure held
  | none => do
      let now ← await .now
      pure (.flat cfg.accountId instrumentId now)

/-- Write a trade that belongs to `order`. -/
def book (order : OrderRecord) (trade : BrokerTrade) : Program FillResult := do
  let now ← await .now
  let id ← await .newUlid
  let fees ← lift (cfg.charges trade)
  let soFar ← await (.fillsThisSession order.sessionDate)
  let execution := executionOf cfg order trade id now fees soFar
  let held ← await (.position trade.instrumentId)
  let before ← heldOrFlat cfg trade.instrumentId held
  let position ← lift (PositionCalculator.apply before execution)
  let updated ← filledOrder order trade
  match ← await (.recordFill order updated execution position) with
  | .applied => do
      await (.onFill updated execution)
      pure .applied
  | .duplicate => pure .duplicate

/-- The trade contradicts the order it names, or overfills it. -/
def refuses (order : OrderRecord) (trade : BrokerTrade) : Bool :=
  ¬ (trade.instrumentId = order.instrumentId ∧ trade.side = order.side) ∨
    order.quantity < order.filledQuantity + trade.quantity

/-- `_attempt`. The trade is looked up first: a redelivery must never look
like an overfill. -/
def attempt (trade : BrokerTrade) : Program FillResult := do
  if ← await (.hasExecution trade.tradeId) then pure .duplicate
  else
    match ← await (.byBrokerOrderId trade.brokerOrderId) with
    | none => pure .unattributed
    | some order => if refuses order trade then pure .refused else book cfg order trade

/-- Attempt again while the order moves underneath. -/
def attempts (trade : BrokerTrade) : ℕ → Program FillResult
  | 0 => raise (.concurrentModification ("order for trade " ++ trade.tradeId ++ " kept changing"))
  | n + 1 => do
      match ← (attempt cfg trade).attempt with
      | .ok result => pure result
      | .error (.concurrentModification _) => attempts trade n
      | .error e => raise e

/-- Three attempts. -/
def process (trade : BrokerTrade) : Program FillResult := attempts cfg trade 3

end FillProcessor

namespace FillSynchroniser

open Program

/-- By the time of execution, a missing one first, then by id. -/
def earlier (a b : BrokerTrade) : Prop :=
  match a.executedAt, b.executedAt with
  | none, none => a.tradeId ≤ b.tradeId
  | none, some _ => True
  | some _, none => False
  | some s, some t => s < t ∨ (s = t ∧ a.tradeId ≤ b.tradeId)

instance : DecidableRel earlier := fun a b => by
  unfold earlier
  split <;> infer_instance

variable [DecimalContext] (cfg : FillSettings)

/-- Process the trades one after the other; an exception ends it. -/
def processAll : List BrokerTrade → SyncResult → Program SyncResult
  | [], counts => pure counts
  | trade :: rest, counts => do
      let result ← FillProcessor.process cfg trade
      processAll rest (counts.count result)

/-- Bring every fill of the trade book into the platform's books. -/
def sync : Program SyncResult := do
  let trades ← await .tradeBook
  processAll cfg (trades.insertionSort earlier) SyncResult.zero

end FillSynchroniser

end Emporos
