import Emporos.Control.Commands
/-!
# The command processor

Pending commands are claimed and executed oldest first. What a previous
process left accepted or executing is resumed once, when the process
starts.
-/

namespace Emporos

open Async

namespace CommandProcessor

def maxAttempts : ℕ := 3

/-- Reading a command's parameters, the handlers of the deployment, and how
an exception is written. -/
structure Deployment where
  parse : String → String → Except String CommandType
  handled : CommandType → Bool
  str : PyError → String
  repr : PyError → String

variable (d : Deployment)

/-- `_log`. -/
def log (commandId : String) (status : CommandStatus) (message : String)
    (data : List (String × String)) : Control Unit := do
  let id ← Task.ask (I := controlInterface) .newId
  let time ← Task.ask (I := controlInterface) .now
  Task.ask (I := controlInterface) (.insertResult ⟨id, commandId, time, some status, message, data⟩)

/-- Only a final status that is not EXPIRED may be reported. -/
def final (outcome : CommandOutcome) : CommandOutcome :=
  if !outcome.status.terminal ∨ outcome.status = .expired then
    .failed ("handler reported a non-final status " ++ outcome.status.value)
  else outcome

/-- `_finish`. -/
def finish (commandId : String) (allowedFrom : List CommandStatus) (outcome : CommandOutcome) :
    Control Unit := do
  let outcome := final outcome
  let time ← Task.ask (I := controlInterface) .now
  let _ ← Task.ask (I := controlInterface)
    (.transition ⟨commandId, allowedFrom, outcome.status, time, outcome.message, false⟩)
  log commandId outcome.status outcome.message outcome.data

/-- What the handler of a running command reports. -/
def outcome (kind : CommandType) (running : CommandRecord) : Control CommandOutcome := do
  match ← (Task.ask (I := controlInterface) (.handle kind running)).attempt with
  | .ok outcome => return outcome
  | .error e => do
      Task.ask (I := controlInterface)
        (.alert "command_failed" (kind.value ++ " " ++ running.id ++ ": " ++ d.repr e))
      return .failed (e.typeName ++ ": " ++ d.str e)

/-- What is left of `_execute` once the command is marked EXECUTING. -/
def carryOut (commandId : String) (running : CommandRecord) : Control Unit := do
  log commandId .executing "" []
  match d.parse running.type running.params with
  | .error message => finish commandId [.executing] (.rejected message)
  | .ok kind =>
      if d.handled kind then do
        let o ← outcome d kind running
        finish commandId [.executing] o
      else
        finish commandId [.executing]
          (.rejected ("no handler for " ++ kind.value ++ " in this deployment"))

/-- `_execute`. -/
def execute (commandId : String) (allowedFrom : List CommandStatus) : Control Unit := do
  let time ← Task.ask (I := controlInterface) .now
  match ← Task.ask (I := controlInterface)
      (.transition ⟨commandId, allowedFrom, .executing, time, "", true⟩) with
  | none => return ()
  | some running => carryOut d commandId running

/-- `recover`, command by command. -/
def resume : List CommandRecord → Control ℕ
  | [] => return 0
  | command :: rest =>
      if maxAttempts ≤ command.attempts then do
        finish command.id interrupted
          (.failed ("abandoned after " ++ toString command.attempts ++ " attempts across restarts"))
        resume rest
      else do
        log command.id .accepted "resumed after a restart" []
        execute d command.id interrupted
        let resumed ← resume rest
        return resumed + 1

/-- `recover`: finish what a previous process began. -/
def recover : Control ℕ := do
  let commands ← Task.ask (I := controlInterface) (.inStatuses interrupted)
  resume d commands

/-- `run_once` for one pending command: how many it handled. -/
def process (command : CommandRecord) : Control ℕ := do
  let now : Timestamp ← Task.ask (I := controlInterface) .now
  if command.expiresAt.any fun expiry => expiry ≤ now then do
    match ← Task.ask (I := controlInterface) (.transition
        ⟨command.id, [.pending], .expired, now, "not started before it expired", false⟩) with
    | some expired => do
        log command.id .expired expired.reason []
        return 1
    | none => return 0
  else do
    match ← Task.ask (I := controlInterface)
        (.transition ⟨command.id, [.pending], .accepted, now, "", false⟩) with
    | some _ => do
        log command.id .accepted "" []
        execute d command.id [.accepted]
        return 1
    | none => return 0

/-- `run_once`, command by command. -/
def processAll : List CommandRecord → Control ℕ
  | [] => return 0
  | command :: rest => do
      let handled ← process d command
      let others ← processAll rest
      return handled + others

/-- `run_once`. -/
def runOnce : Control ℕ := do
  let commands ← Task.ask (I := controlInterface) (.inStatuses [.pending])
  processAll d commands

/-- One poll of the worker: recover first, if the process has not tried. -/
def poll (recovered : Bool) : Control ℕ :=
  if recovered then runOnce d
  else do
    let _ ← recover d
    runOnce d

/-- A worker process. It remembers that it has recovered before it does. -/
def setting : Setting controlInterface PyError ℕ ControlWorld where
  answers := ControlWorld.Answers
  others := ControlWorld.Others
  starts w p w' := p = poll d w.recovered ∧ w' = { w with recovered := true }
  restart w := { w with recovered := false }

end CommandProcessor

end Emporos
