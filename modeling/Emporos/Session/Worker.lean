import Emporos.Async.Solo
import Emporos.Persistence.Records
/-!
# The trading worker

One process, one session, driven by a poll loop over an explicit state
machine. The worker's fields outlive an exception, so they are memory the
program reads and writes; so are the names its handlers read. Everything
the worker is told comes from a call, and any call that awaits may be
cancelled. The loops are bounded by a number of polls; a program that
reaches the bound ends in `unfinished`, which nothing catches.
-/

namespace Emporos

inductive SessionState
  | starting
  | authenticating
  | recovering
  | connecting
  | ready
  | trading
  | halted
  | squaringOff
  | reconciling
  | reporting
  | shuttingDown
  | failed
  deriving DecidableEq, Repr

namespace SessionState

def value : SessionState → String
  | starting => "STARTING"
  | authenticating => "AUTHENTICATING"
  | recovering => "RECOVERING"
  | connecting => "CONNECTING"
  | ready => "READY"
  | trading => "TRADING"
  | halted => "HALTED"
  | squaringOff => "SQUARING_OFF"
  | reconciling => "RECONCILING"
  | reporting => "REPORTING"
  | shuttingDown => "SHUTTING_DOWN"
  | failed => "FAILED"

/-- `_ALLOWED`; every state may fail besides. -/
def allowed : SessionState → List SessionState
  | starting => [authenticating]
  | authenticating => [recovering]
  | recovering => [connecting, halted]
  | connecting => [ready]
  | ready => [trading, halted]
  | trading => [halted, squaringOff]
  | halted => [trading, reconciling]
  | squaringOff => [reconciling, halted]
  | reconciling => [reporting]
  | reporting => [shuttingDown]
  | shuttingDown => []
  | failed => []

/-- What the lifecycle lets pass. -/
def Legal (state target : SessionState) : Prop :=
  (target = .failed ∨ target ∈ state.allowed) ∧ state ≠ .failed

instance (state target : SessionState) : Decidable (Legal state target) :=
  inferInstanceAs (Decidable (_ ∧ _))

end SessionState

structure StateChange where
  previous : SessionState
  current : SessionState
  reason : String
  moment : Timestamp

/-- How a call or a program raises: an exception, or the cancellation of its
task, which `except Exception` does not catch. -/
inductive Raised
  | exception (e : PyError)
  | cancelled
  /-- The bound on the polls of the model. -/
  | unfinished

inductive ReconciliationTrigger
  | startup
  | manual

structure RecoveryResult where
  clean : Bool
  ordersChecked : ℕ
  fillsApplied : ℕ
  problem : String

/-- The instruments an exit was sent for, was already working for, and had
no price for. -/
structure SquareOffReport where
  submitted : List String
  alreadyClosing : List String
  unpriced : List String

/-- The day's end, without its snapshot. -/
structure CloseOutResult where
  discrepancies : ℕ
  realisedPnl : Option Money
  trades : Option ℕ

/-- The fields of the worker, and the names of `run_session` that its
handler reads. -/
structure SessionMemory where
  connected : Bool
  traded : Bool
  lastResume : Option Timestamp
  recovery : Option RecoveryResult
  squared : Option SquareOffReport
  flat : Option Bool
  closed : Option CloseOutResult

inductive SessionCall
  /-- The memory, and the state of the lifecycle. -/
  | memory
  | store (m : SessionMemory)
  | state
  | enter (s : SessionState)
  /-- Two marks: a transition is asked for, and a recovery has come back. -/
  | attempt (target : SessionState)
  | recovered (result : RecoveryResult)
  | now
  | listeners (change : StateChange)
  | alert (name message : String)
  | authenticate
  | connect
  | closeVenue
  | recoverOrders
  | syncFills
  | reconcile (trigger : ReconciliationTrigger)
  | switchHalted
  | startHost
  | pump
  | endSession
  | shutdownHost
  | runAlways
  | runWhileTrading
  | flatten (reason : String)
  | openPositions
  | activeOrders
  | closeOut
  | flushEvents
  | sleep (interval : Duration)

namespace SessionCall

/-- What a call returns when it does not raise. -/
abbrev Value : SessionCall → Type
  | memory => SessionMemory
  | state => SessionState
  | now => Timestamp
  -- how many orders were checked, fills applied, discrepancies found
  | recoverOrders | syncFills | reconcile _ => ℕ
  | switchHalted => Bool
  | flatten _ => SquareOffReport
  | openPositions => List PositionRecord
  | activeOrders => List OrderRecord
  | closeOut => CloseOutResult
  | store _ | enter _ | attempt _ | recovered _ | listeners _ | alert .. | authenticate | connect
  | closeVenue | startHost | pump | endSession | shutdownHost | runAlways | runWhileTrading
  | flushEvents | sleep _ => Unit

end SessionCall

abbrev sessionCalls : Async.Interface := ⟨SessionCall, SessionCall.Value⟩

/-- A program of the session. -/
abbrev Session (α : Type) := Async.Task sessionCalls Raised α

namespace Session

def await (c : SessionCall) : Session c.Value := Async.Task.ask (I := sessionCalls) c

def raise {α : Type} (e : Raised) : Session α := Async.Task.raise e

/-- `try`: the outcome as a value. -/
def attempt {α : Type} (p : Session α) : Session (Except Raised α) := Async.Task.attempt p

def modify (f : SessionMemory → SessionMemory) : Session Unit := do
  let m ← await .memory
  await (.store (f m))

end Session

/-- `f"{type(error).__name__}: {error}"`, as far as an exception keeps its
text. -/
def PyError.describe (e : PyError) : String :=
  e.typeName ++ ": " ++ match e with
    | valueError m | instrumentFrozen m | approvalExpired m | invalidReplacement m
    | concurrentModification m | broker _ _ m => m
    | invalidOrderPrice .. | duplicateRecord _ | other _ => ""

open Session (await raise attempt modify)

/-- `SessionLifecycle.transition`. -/
def SessionLifecycle.transition (target : SessionState) (reason : String) : Session StateChange := do
  await (.attempt target)
  let state ← await .state
  if ¬ (target = .failed ∨ target ∈ state.allowed) then
    raise (.exception (.other "IllegalTransitionError"))
  else if state = .failed then raise (.exception (.other "IllegalTransitionError"))
  else
    let change := ⟨state, target, reason, ← await .now⟩
    await (.enter target)
    await (.listeners change)
    return change

/-- `StartupRecovery.run`. -/
def StartupRecovery.run (trigger : ReconciliationTrigger) : Session RecoveryResult := do
  let outcome ← attempt do
    let checked ← await .recoverOrders
    let synced ← await .syncFills
    let found ← await (.reconcile trigger)
    return (checked, synced, found)
  let result ← match outcome with
    | .ok (checked, synced, found) =>
        if found ≠ 0 then
          pure (⟨false, checked, synced, s!"{found} reconciliation discrepancies"⟩ : RecoveryResult)
        else pure ⟨true, checked, synced, ""⟩
    | .error (.exception error) => do
        await (.alert "recovery_failed" error.describe)
        pure ⟨false, 0, 0, error.describe⟩
    | .error other => raise other
  await (.recovered result)
  return result

/-- Moments of the trading day, as times after midnight in India. -/
structure SessionSchedule where
  squareOffAt : Duration
  closeAt : Duration
  pollInterval : Duration
  resumeRetry : Duration
  square_off_first : squareOffAt < closeAt
  intervals_pos : 0 < pollInterval ∧ 0 < resumeRetry

namespace SessionSchedule

/-- A time of day on the date of a moment in India. -/
def on (now : Timestamp) (time : Duration) : Timestamp :=
  now.sessionDate * (86400 * Timestamp.second) - 19800 * Timestamp.second + time

variable (schedule : SessionSchedule)

def squareOff (now : Timestamp) : Timestamp := on now schedule.squareOffAt

def close (now : Timestamp) : Timestamp := on now schedule.closeAt

end SessionSchedule

structure SessionReport where
  finalState : SessionState
  traded : Bool
  recovery : Option RecoveryResult
  squareOff : Option SquareOffReport
  flatAtClose : Option Bool
  closeOut : Option CloseOutResult
  failure : String

namespace TradingWorker

open SessionLifecycle (transition)

/-- Open the feeds and start the strategies, the first time. -/
def connectOnce : Session Unit := do
  if ¬ (← await .memory).connected then
    await .connect
    await .startHost
    modify fun m => { m with connected := true }

/-- `_begin_trading`. -/
def beginTrading : Session Unit := do
  let resuming := (← await .state) = .halted
  if ¬ resuming then
    let _ ← transition .connecting ""
  connectOnce
  if ¬ resuming then
    let _ ← transition .ready ""
  let _ ← transition .trading "recovered and reconciled"
  modify fun m => { m with traded := true }

/-- `_start`. -/
def start : Session Unit := do
  let _ ← transition .authenticating ""
  await .authenticate
  let _ ← transition .recovering ""
  let result ← StartupRecovery.run .startup
  modify fun m => { m with recovery := some result }
  if ¬ result.clean then
    let _ ← transition .halted result.problem
  else beginTrading

variable (schedule : SessionSchedule)

/-- `_try_resume`. -/
def tryResume : Session Unit := do
  let now ← await .now
  let m ← await .memory
  if m.lastResume.any fun last => now - last < schedule.resumeRetry then return ()
  else
    modify fun m => { m with lastResume := some now }
    let result ← StartupRecovery.run .manual
    modify fun m => { m with recovery := some result }
    if result.clean then beginTrading

/-- `_poll`. -/
def poll : Session Unit := do
  let state ← await .state
  let halted ← await .switchHalted
  if state = .trading ∧ halted then
    let _ ← transition .halted "kill switch"
  else if state = .halted ∧ ¬ halted then tryResume schedule
  if (← await .state) = .trading then await .pump
  await .runAlways
  if (← await .state) = .trading then await .runWhileTrading

/-- `self._clock.now() < moment(self._clock.now())`. -/
def before (moment : Timestamp → Timestamp) : Session Bool := do
  let now ← await .now
  let today ← await .now
  return now < moment today

/-- `_trade`, for so many polls. -/
def trade : ℕ → Session Unit
  | 0 => do
      if ← before schedule.squareOff then raise .unfinished
  | polls + 1 => do
      if ← before schedule.squareOff then
        poll schedule
        await (.sleep schedule.pollInterval)
        trade polls

/-- `_is_flat`. -/
def isFlat : Session Bool := do
  if (← await .openPositions) ≠ [] then return false
  else return (← await .activeOrders) = []

/-- The end of `_flatten` at the close. -/
def notFlat : Session Bool := do
  await (.alert "square_off_incomplete" "positions or orders remain at the close")
  return false

/-- The loop of `_flatten`: whether the books were flat before the close. -/
def untilFlat : ℕ → Session Bool
  | 0 => do if ← before schedule.close then raise .unfinished else notFlat
  | polls + 1 => do
      if ← before schedule.close then
        await .runAlways
        await .runWhileTrading
        if ← isFlat then return true
        else
          await (.sleep schedule.pollInterval)
          untilFlat polls
      else notFlat

/-- `_flatten`. -/
def flatten (polls : ℕ) : Session (SquareOffReport × Bool) := do
  let _ ← transition .squaringOff "square-off time"
  await .endSession
  let report ← await (.flatten "end of session square-off")
  let flat ← untilFlat schedule polls
  return (report, flat)

/-- What `run_session` tries. -/
def session (polls : ℕ) : Session Unit := do
  start
  trade schedule polls
  if (← await .state) = .trading then
    let (squared, flat) ← flatten schedule polls
    modify fun m => { m with squared := some squared, flat := some flat }
  let _ ← transition .reconciling "session over"
  let closed ← await .closeOut
  modify fun m => { m with closed := some closed }
  let _ ← transition .reporting "reconciled"
  await .flushEvents
  let _ ← transition .shuttingDown "reported"

/-- `_shutdown`. -/
def shutdown : Session Unit := do
  let outcome ← attempt (await .shutdownHost)
  await .closeVenue
  match outcome with
  | .ok () => return ()
  | .error e => raise e

def report (finalState : SessionState) (failure : String) : Session SessionReport := do
  let m ← await .memory
  return ⟨finalState, m.traded, m.recovery, m.squared, m.flat, m.closed, failure⟩

/-- The `except` clause: the session fails. -/
def fail (error : PyError) : Session SessionReport := do
  await (.alert "session_failed" error.describe)
  let _ ← transition .failed error.describe
  report .failed error.describe

/-- What stands before the `finally`: a report if the session failed. -/
def guarded (polls : ℕ) : Session (Option SessionReport) := do
  match ← attempt (session schedule polls) with
  | .ok () => return none
  | .error (.exception error) => return some (← fail error)
  | .error other => raise other

def runSession (polls : ℕ) : Session SessionReport := do
  match ← attempt (guarded schedule polls) with
  | .error .unfinished => raise .unfinished
  | outcome =>
      shutdown
      await .flushEvents
      match outcome with
      | .error e => raise e
      | .ok (some failed) => return failed
      | .ok none => report (← await .state) ""

end TradingWorker

end Emporos
