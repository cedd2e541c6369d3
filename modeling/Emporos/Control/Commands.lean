import Mathlib.Data.List.Sort
import Emporos.Async.Solo
import Emporos.Common.Table
import Emporos.Core.Errors
/-!
# Commands, their log, and the calls of the processor

A command is a row whose status a conditional update moves. The log of
outcomes is append-only. A call to the store or the log may raise, and one
that does may have landed.
-/

namespace Emporos

open Async

inductive CommandStatus
  | pending
  | accepted
  | executing
  | done
  | failed
  | rejected
  | expired
  deriving DecidableEq, Repr

namespace CommandStatus

def value : CommandStatus → String
  | pending => "PENDING"
  | accepted => "ACCEPTED"
  | executing => "EXECUTING"
  | done => "DONE"
  | failed => "FAILED"
  | rejected => "REJECTED"
  | expired => "EXPIRED"

def terminal : CommandStatus → Bool
  | done | failed | rejected | expired => true
  | pending | accepted | executing => false

end CommandStatus

/-- `_INTERRUPTED`. -/
def interrupted : List CommandStatus := [.accepted, .executing]

/-- A command. `params` is the document its type reads. -/
structure CommandRecord where
  id : String
  idempotencyKey : String
  type : String
  status : CommandStatus
  createdAt : Timestamp
  params : String
  issuedBy : String
  expiresAt : Option Timestamp
  updatedAt : Option Timestamp
  reason : String
  attempts : ℕ

/-- An entry of the log: a status, or progress of a job. -/
structure CommandResultRecord where
  id : String
  commandId : String
  createdAt : Timestamp
  status : Option CommandStatus
  message : String
  data : List (String × String)

/-- What a handler reports. -/
structure CommandOutcome where
  status : CommandStatus
  message : String
  data : List (String × String)

namespace CommandOutcome

def rejected (reason : String) : CommandOutcome := ⟨.rejected, reason, []⟩

def failed (reason : String) : CommandOutcome := ⟨.failed, reason, []⟩

end CommandOutcome

/-- An update of one command, from one of some statuses. -/
structure CommandUpdate where
  id : String
  allowedFrom : List CommandStatus
  target : CommandStatus
  time : Timestamp
  reason : String
  countAttempt : Bool

namespace CommandRepository

/-- The row an update leaves. -/
def updated (u : CommandUpdate) (c : CommandRecord) : CommandRecord :=
  { c with
    status := u.target
    updatedAt := some u.time
    reason := u.reason
    attempts := c.attempts + if u.countAttempt then 1 else 0 }

/-- The row an update finds: the command, in an allowed status. -/
def matching (u : CommandUpdate) (rows : List CommandRecord) : Option CommandRecord :=
  (Table.lookup (·.id) u.id rows).filter fun c => c.status ∈ u.allowedFrom

/-- `transition`: the rows after it, and the row it moved. -/
def transition (u : CommandUpdate) (rows : List CommandRecord) :
    List CommandRecord × Option CommandRecord :=
  match matching u rows with
  | some c => (Table.replace (·.id) (updated u c) rows, some (updated u c))
  | none => (rows, none)

/-- Oldest first. -/
def older (a b : CommandRecord) : Bool :=
  decide (a.createdAt < b.createdAt ∨ (a.createdAt = b.createdAt ∧ a.id ≤ b.id))

def inStatuses (statuses : List CommandStatus) (rows : List CommandRecord) : List CommandRecord :=
  (rows.filter fun c => c.status ∈ statuses).mergeSort older

theorem mem_inStatuses {statuses : List CommandStatus} {rows : List CommandRecord}
    {c : CommandRecord} : c ∈ inStatuses statuses rows ↔ c ∈ rows ∧ c.status ∈ statuses := by
  simp [inStatuses]

theorem nodup_inStatuses {statuses : List CommandStatus} {rows : List CommandRecord}
    (h : (rows.map (·.id)).Nodup) : ((inStatuses statuses rows).map (·.id)).Nodup := by
  have hperm : (inStatuses statuses rows).Perm (rows.filter fun c => c.status ∈ statuses) :=
    List.mergeSort_perm _ _
  rw [(hperm.map _).nodup_iff]
  exact h.sublist (List.filter_sublist.map _)

end CommandRepository

/-! ## Calls -/

inductive CommandType
  | setKillSwitch
  | squareOffAll
  | closePosition
  | cancelOrder
  | placeManualOrder
  | startStrategy
  | stopStrategy
  | updateStrategyConfig
  | triggerBackfill
  | runBacktest
  | reconcileNow
  | setTradingMode
  deriving DecidableEq, Repr

namespace CommandType

def value : CommandType → String
  | setKillSwitch => "SET_KILL_SWITCH"
  | squareOffAll => "SQUARE_OFF_ALL"
  | closePosition => "CLOSE_POSITION"
  | cancelOrder => "CANCEL_ORDER"
  | placeManualOrder => "PLACE_MANUAL_ORDER"
  | startStrategy => "START_STRATEGY"
  | stopStrategy => "STOP_STRATEGY"
  | updateStrategyConfig => "UPDATE_STRATEGY_CONFIG"
  | triggerBackfill => "TRIGGER_BACKFILL"
  | runBacktest => "RUN_BACKTEST"
  | reconcileNow => "RECONCILE_NOW"
  | setTradingMode => "SET_TRADING_MODE"

end CommandType

/-- What the processor awaits, or asks of the clock and the ids. -/
inductive ControlCall
  | now
  | newId
  | alert (name message : String)
  | inStatuses (statuses : List CommandStatus)
  | transition (u : CommandUpdate)
  | insertResult (record : CommandResultRecord)
  | handle (kind : CommandType) (command : CommandRecord)

namespace ControlCall

/-- A call of the store or the log: one that may fail. -/
def store : ControlCall → Bool
  | inStatuses _ | transition _ | insertResult _ => true
  | now | newId | alert .. | handle .. => false

end ControlCall

def controlInterface : Interface where
  Call := ControlCall
  Value
    | .now => Timestamp
    | .newId => String
    | .alert .. => Unit
    | .inStatuses _ => List CommandRecord
    | .transition _ => Option CommandRecord
    | .insertResult _ => Unit
    | .handle .. => CommandOutcome

abbrev Control (α : Type) : Type := Task controlInterface PyError α

/-- The start of a handler. -/
structure HandlerStart where
  commandId : String
  time : Timestamp
  deriving DecidableEq

/-- The store, the log, the clock, and what the process remembers: whether
it has recovered. The starts of handlers are history. -/
structure ControlWorld where
  clock : Timestamp
  commands : List CommandRecord
  results : List CommandResultRecord
  recovered : Bool
  starts : List HandlerStart

namespace ControlWorld

/-- What a call leaves when it lands. -/
def landed (w : ControlWorld) : ControlCall → ControlWorld
  | .transition u => { w with commands := (CommandRepository.transition u w.commands).1 }
  | .insertResult r => { w with results := w.results ++ [r] }
  | .handle _ command => { w with starts := w.starts ++ [⟨command.id, w.clock⟩] }
  | .now | .newId | .alert .. | .inStatuses _ => w

/-- How calls are answered. -/
inductive Answers : ControlWorld → (c : controlInterface.Call) →
    Except PyError (controlInterface.Value c) → ControlWorld → Prop
  | now {w : ControlWorld} : Answers w .now (.ok w.clock) w
  | newId {w : ControlWorld} (id : String) : Answers w .newId (.ok id) w
  | alert {w : ControlWorld} {name message : String} : Answers w (.alert name message) (.ok ()) w
  | found {w : ControlWorld} {statuses : List CommandStatus} :
      Answers w (.inStatuses statuses) (.ok (CommandRepository.inStatuses statuses w.commands)) w
  | moved {w : ControlWorld} {u : CommandUpdate} :
      Answers w (.transition u) (.ok (CommandRepository.transition u w.commands).2)
        (w.landed (.transition u))
  | logged {w : ControlWorld} {r : CommandResultRecord} :
      Answers w (.insertResult r) (.ok ()) (w.landed (.insertResult r))
  | handled {w : ControlWorld} {kind : CommandType} {command : CommandRecord}
      (a : Except PyError CommandOutcome) :
      Answers w (.handle kind command) a (w.landed (.handle kind command))
  | lost {w : ControlWorld} {c : ControlCall} (hc : c.store) (e : PyError) :
      Answers w c (.error e) w
  | unheard {w : ControlWorld} {c : ControlCall} (hc : c.store) (e : PyError) :
      Answers w c (.error e) (w.landed c)

/-- An answer to every call when nothing fails. -/
def reply (w : ControlWorld) :
    (c : controlInterface.Call) → Except PyError (controlInterface.Value c) × ControlWorld
  | .now => (.ok w.clock, w)
  | .newId => (.ok "result", w)
  | .alert _ _ => (.ok (), w)
  | .inStatuses statuses => (.ok (CommandRepository.inStatuses statuses w.commands), w)
  | .transition u => (.ok (CommandRepository.transition u w.commands).2, w.landed (.transition u))
  | .insertResult r => (.ok (), w.landed (.insertResult r))
  | .handle kind command => (.ok ⟨.done, "", []⟩, w.landed (.handle kind command))

theorem answers_reply (w : ControlWorld) (c : controlInterface.Call) :
    Answers w c (w.reply c).1 (w.reply c).2 := by
  cases c with
  | now => exact .now
  | newId => exact .newId _
  | alert name message => exact .alert
  | inStatuses statuses => exact .found
  | transition u => exact .moved
  | insertResult r => exact .logged
  | handle kind command => exact .handled _

/-- What others do between two calls: time passes, commands are submitted,
and jobs log their progress. -/
inductive Others : ControlWorld → ControlWorld → Prop
  | clock {w : ControlWorld} (time : Timestamp) : Others w { w with clock := time }
  | submit {w : ControlWorld} (c : CommandRecord) (hid : ∀ d ∈ w.commands, d.id ≠ c.id)
      (hstatus : c.status = .pending) (hattempts : c.attempts = 0) :
      Others w { w with commands := w.commands ++ [c] }
  | progress {w : ControlWorld} (r : CommandResultRecord) (hstatus : r.status = none) :
      Others w { w with results := w.results ++ [r] }

end ControlWorld

end Emporos
