import Emporos.Async.Pool
import Emporos.Broker.Model
import Emporos.Persistence.Journal
/-!
# What execution awaits, and how the world answers

The calls of the execution layer and the world they run over: the store,
the engine's lock, and the trace of every call made so far. The journal
answers from the store, atomically. It may also fail without telling
whether the write landed. The broker, the clock, the risk engine and the
rest of the process answer as they like, within what `admits` allows.

A new engine process starts with a free lock over the same store.
-/

namespace Emporos

/-- What the risk engine decided on a signal it was shown. -/
inductive RiskVerdict
  | approved (approvalId : String) (approvedAt : Timestamp) (rulesPassed : List String)
      (passed_ne_nil : rulesPassed ≠ [])
  | rejected (rule reason : String)

inductive Call
  | get (orderId : String)
  | byKey (key : String)
  | byBrokerOrderId (brokerOrderId : String)
  | unresolved (instrumentId : String)
  | active
  | create (order : OrderRecord)
  | transition (previous updated : OrderRecord)
  | hasExecution (brokerTradeId : String)
  | position (instrumentId : String)
  | fillsThisSession (sessionDate : ℤ)
  | recordFill (previous updated : OrderRecord) (execution : ExecutionRecord)
      (position : PositionRecord)
  | submit (request : PlaceOrderRequest)
  | revoke (request : CancelOrderRequest)
  | findByTag (clientTag : String)
  | tradeBook
  | acquireLock
  | releaseLock
  /-- The rate limiter's bucket for orders. -/
  | acquireOrders
  | now
  | newUlid
  | tickSize (instrumentId : String)
  | review (signal : Signal) (signalId : String)
  | candidate (order : OrderRecord)
  | onFill (order : OrderRecord) (execution : ExecutionRecord)
  | raiseAlert (orderId : String)

namespace Call

/-- What a call returns when it does not raise. -/
abbrev Value : Call → Type
  | get _ | byKey _ | byBrokerOrderId _ => Option OrderRecord
  | unresolved _ | hasExecution _ => Bool
  | active => List OrderRecord
  | position _ => Option PositionRecord
  | fillsThisSession _ => ℕ
  | recordFill .. => FillOutcome
  | submit _ | revoke _ => BrokerOrderAck
  | findByTag _ => List BrokerOrder
  | tradeBook => List BrokerTrade
  | now => Timestamp
  | newUlid => String
  | tickSize _ => Money
  | review .. => RiskVerdict
  | candidate _ => Option Money
  | create _ | transition .. | acquireLock | releaseLock | acquireOrders | onFill ..
  | raiseAlert _ => Unit

/-- What a call ends with. -/
abbrev Answer (c : Call) : Type := Except PyError c.Value

end Call

/-- The interface execution programs are written against. -/
abbrev calls : Async.Interface := ⟨Call, Call.Value⟩

/-- A program of the execution layer. -/
abbrev Program (α : Type) := Async.Task calls PyError α

namespace Program

/-- Await one call. -/
def await (c : Call) : Program c.Value := Async.Task.ask (I := calls) c

def raise {α : Type} (e : PyError) : Program α := Async.Task.raise e

def lift {α : Type} (r : Except PyError α) : Program α := Async.Task.lift r

@[simp] theorem lift_ok_bind {α β : Type} (v : α) (f : α → Program β) :
    (lift (.ok v) >>= f) = f v := rfl

@[simp] theorem lift_error_bind {α β : Type} (e : PyError) (f : α → Program β) :
    (lift (.error e) >>= f) = lift (.error e) := rfl

@[simp] theorem attempt_lift {α : Type} (r : Except PyError α) :
    Async.Task.attempt (lift r) = lift (.ok r) := rfl

end Program

/-! ## The journal's answers -/

namespace Store

/-- A write that returns nothing. -/
def written (s : Store) : Except PyError Store → Except PyError Unit × Store
  | .ok s' => (.ok (), s')
  | .error e => (.error e, s)

/-- What the journal of `account` answers a call, and the store it leaves;
none for a call the journal does not take. -/
def serve (account : String) (s : Store) : (c : Call) → Option (c.Answer × Store)
  | .get orderId => some (.ok (s.get account orderId), s)
  | .byKey key => some (.ok (s.byKey account key), s)
  | .byBrokerOrderId id => some (.ok (s.byBrokerOrderId account id), s)
  | .unresolved instrumentId => some (.ok (s.unresolved account instrumentId), s)
  | .active => some (.ok (s.active account), s)
  | .create order => some (s.written (s.create account order))
  | .transition previous updated => some (s.written (s.transition account previous updated))
  | .hasExecution tradeId => some (.ok (s.hasExecution tradeId), s)
  | .position instrumentId => some (.ok (s.position account instrumentId), s)
  | .fillsThisSession date => some (.ok (s.fillsThisSession account date), s)
  | .recordFill previous updated execution position =>
      some (match s.recordFill account previous updated execution position with
        | .ok (outcome, s') => (.ok outcome, s')
        | .error e => (.error e, s))
  | _ => none

end Store

/-! ## The world -/

/-- A call that was made: by which task, how it ended, when, and over
which store. -/
structure Event where
  task : ℕ
  call : Call
  answer : call.Answer
  time : Timestamp
  store : Store

structure World where
  store : Store
  /-- The task that holds the engine's lock. -/
  lock : Option ℕ
  /-- The calls made so far, newest first. -/
  trace : List Event

/-- What is outside the model: the account the journal is bound to, and
which answers the rest of the world may give. -/
structure Environment where
  account : String
  admits : (c : Call) → c.Answer → Prop

namespace World

/-- A journal with nothing in it, before the first call. -/
def start : World := ⟨Store.empty, none, []⟩

/-- The calls task `t` made, newest first. -/
def own (w : World) (t : ℕ) : List Event := w.trace.filter fun e => e.task = t

/-- The world after task `t` had its call answered. -/
def after (w : World) (t : ℕ) (c : Call) (a : c.Answer) (time : Timestamp) (store : Store)
    (lock : Option ℕ) : World :=
  ⟨store, lock, ⟨t, c, a, time, w.store⟩ :: w.trace⟩

/-- How a call of task `t` may end, and the store and lock it leaves. -/
inductive Answers (env : Environment) (w : World) (t : ℕ) (time : Timestamp) :
    (c : Call) → c.Answer → Store → Option ℕ → Prop
  /-- The journal answers. -/
  | served {c : Call} {a : c.Answer} {s : Store} (h : w.store.serve env.account c = some (a, s)) :
      Answers env w t time c a s w.lock
  /-- The journal fails, and the write is lost. -/
  | lost {c : Call} {a : c.Answer} {s : Store} {name : String}
      (h : w.store.serve env.account c = some (a, s)) :
      Answers env w t time c (.error (.other name)) w.store w.lock
  /-- The journal fails, although the write landed. -/
  | unheard {c : Call} {a : c.Answer} {s : Store} {name : String}
      (h : w.store.serve env.account c = some (a, s)) :
      Answers env w t time c (.error (.other name)) s w.lock
  | acquired (h : w.lock = none) : Answers env w t time .acquireLock (.ok ()) w.store (some t)
  | released : Answers env w t time .releaseLock (.ok ()) w.store none
  | clock : Answers env w t time .now (.ok time) w.store w.lock
  | outside {c : Call} {a : c.Answer} (hs : w.store.serve env.account c = none)
      (hl : c ≠ .acquireLock ∧ c ≠ .releaseLock ∧ c ≠ .now) (h : env.admits c a) :
      Answers env w t time c a w.store w.lock

end World

/-- One call of one task, as a step of the world; a crash frees the lock. -/
def platform (env : Environment) : Async.Platform calls PyError World where
  step t w c a w' := ∃ time s l, w.Answers env t time c a s l ∧ w' = w.after t c a time s l
  restart w := { w with lock := none }

end Emporos
