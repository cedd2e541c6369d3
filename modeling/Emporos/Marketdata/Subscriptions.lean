import Emporos.Async.Pool
import Emporos.Broker.Endpoints
import Emporos.Common.Table
import Emporos.Instruments.Master
/-!
# The market feed, and what is subscribed on it

One socket, opened and reopened by the feed client. The subscription
manager keeps the instruments that are wanted, under a lock, and sends them
whole when the feed comes back; between reconnects it sends what changes.
A message carries at most a hundred tokens of one exchange. The world keeps
the manager, the socket with the messages sent on it, and who holds the
lock.
-/

namespace Emporos

namespace MarketFeed

open Instruments (Instrument)

/-- Depth is out of scope. -/
inductive FeedMode
  | ltp
  | quote
  | snapQuote
  deriving DecidableEq

def FeedMode.code : FeedMode → ℕ
  | ltp => 1
  | quote => 2
  | snapQuote => 3

inductive ExchangeType
  | nseCm
  | bseCm
  deriving DecidableEq

namespace ExchangeType

def code : ExchangeType → ℕ
  | nseCm => 1
  | bseCm => 3

/-- `ExchangeType.of`. -/
def ofExchange : Exchange → ExchangeType
  | .nse => nseCm
  | .bse => bseCm

theorem ofExchange_injective : Function.Injective ofExchange := by
  intro x y h
  cases x <;> cases y <;> first | rfl | cases h

end ExchangeType

inductive SubscriptionAction
  | unsubscribe
  | subscribe
  deriving DecidableEq

def SubscriptionAction.code : SubscriptionAction → ℕ
  | unsubscribe => 0
  | subscribe => 1

/-- A control message: the fields of its JSON. -/
structure Message where
  correlationId : String
  action : ℕ
  mode : ℕ
  tokenList : List (ℕ × List String)
  deriving DecidableEq

def subscriptionMessage (action : SubscriptionAction) (mode : FeedMode)
    (tokens : List (ExchangeType × List String)) (correlationId : String) : Message :=
  ⟨correlationId, action.code, mode.code, tokens.map fun batch => (batch.1.code, batch.2)⟩

/-- `f"{n:010d}"`. -/
def sequentialCorrelationId (n : ℕ) : String :=
  String.ofList (List.leftpad 10 '0' (Nat.toDigits 10 n))

structure SubscriptionLimits where
  maxTokens : ℕ
  one_le : 1 ≤ maxTokens
  le_ceiling : maxTokens ≤ 1000

namespace SubscriptionLimits

def apiCeiling : ℕ := 1000

def defaultCap : SubscriptionLimits := ⟨200, by decide, by decide⟩

/-- The constructor of the source. -/
def make (maxTokens : ℕ) : Except PyError SubscriptionLimits :=
  if h : 1 ≤ maxTokens ∧ maxTokens ≤ apiCeiling then .ok ⟨maxTokens, h.1, h.2⟩
  else .error (.other "ConfigurationError")

end SubscriptionLimits

/-- What the feed raises. -/
inductive FeedError
  /-- `SubscriptionLimitExceededError`. -/
  | limitExceeded (requestedNew active limit : ℕ)
  /-- `BrokerConnectionError`. -/
  | notConnected
  /-- `BrokerTlsError`, which `ssl.SSLError` becomes. -/
  | tls
  /-- `ConnectionClosed`. -/
  | closed
  /-- `InvalidStatus`. -/
  | invalidStatus (code : ℕ)
  /-- Another `OSError`, `WebSocketException` or `TimeoutError`. -/
  | transport
  | cancelled
  | other
  deriving DecidableEq

def FeedError.message : FeedError → String
  | limitExceeded requestedNew active limit =>
      s!"cannot subscribe {requestedNew} more instrument(s): {active} already active and the " ++
        s!"limit is {limit} per connection"
  | notConnected => "market feed is not connected"
  | tls => "market feed TLS verification failed"
  | _ => ""

/-- What the feed is built with. -/
structure Settings where
  limits : SubscriptionLimits
  mode : FeedMode
  policy : BackoffPolicy

/-- `RECONNECT_POLICY`. -/
def reconnectPolicy : BackoffPolicy where
  baseDelay := 1
  maxDelay := 30
  maxAttempts := 1
  multiplier := 2
  baseDelay_pos := defectPolicy.baseDelay_pos
  baseDelay_le := defectPolicy.baseDelay_le
  one_le_multiplier := defectPolicy.one_le_multiplier
  one_le_maxAttempts := Nat.one_pos

/-! ## The manager's state -/

/-- `desired` is in the order in which its ids came. -/
structure SubscriptionManager where
  desired : List Instrument
  connected : Bool

namespace SubscriptionManager

def initial : SubscriptionManager := ⟨[], false⟩

def isSubscribed (m : SubscriptionManager) (instrumentId : String) : Bool :=
  m.desired.any (·.instrumentId = instrumentId)

/-- `subscribe`, up to the send: the new ones of a batch, if they fit. -/
def enlist (limits : SubscriptionLimits) (m : SubscriptionManager) (batch : List Instrument) :
    Except FeedError (List Instrument × SubscriptionManager) :=
  let new := batch.filter fun i => !m.isSubscribed i.instrumentId
  if limits.maxTokens < m.desired.length + new.length then
    .error (.limitExceeded new.length m.desired.length limits.maxTokens)
  else .ok (new, { m with desired := m.desired ++ new })

/-- `self._desired.pop(...)` for each, and those that were there. -/
def pops : List Instrument → List Instrument → List Instrument × List Instrument
  | desired, [] => ([], desired)
  | desired, i :: rest =>
      let (gone, left) := pops (desired.filter (·.instrumentId ≠ i.instrumentId)) rest
      if desired.any (·.instrumentId = i.instrumentId) then (i :: gone, left) else (gone, left)

/-- `unsubscribe`, up to the send. -/
def strike (m : SubscriptionManager) (instruments : List Instrument) :
    List Instrument × SubscriptionManager :=
  let (gone, left) := pops m.desired instruments
  (gone, { m with desired := left })

end SubscriptionManager

/-! ## What the tasks await -/

inductive Call
  /-- The manager's lock. -/
  | lock
  | unlock
  /-- What the manager does to its state between two awaits. -/
  | enlist (batch : List Instrument)
  | strike (instruments : List Instrument)
  | connected
  | disconnected
  /-- `send_subscription`, with the next correlation id. -/
  | send (action : SubscriptionAction) (tokens : List (ExchangeType × List String))
  | stopping
  /-- The flag is set, and a socket that is open begins to close. -/
  | stop
  | auth (refresh : Bool)
  /-- The handshake, which ends with `_socket` set. -/
  | connect
  /-- The other listeners, which leave the subscriptions alone. -/
  | others
  /-- Frames, until the connection ends. -/
  | read
  /-- `_socket` is reset. -/
  | leave
  /-- The heartbeat is cancelled and awaited. -/
  | heartbeat
  /-- The closing handshake. -/
  | close
  | fraction
  | sleep (delay : ℚ)

/-- What a call returns when it does not raise. -/
abbrev Call.Value : Call → Type
  | enlist _ | strike _ => List Instrument × Bool
  | connected => List Instrument
  | stopping => Bool
  | fraction => ℚ
  | _ => Unit

abbrev calls : Async.Interface := ⟨Call, Call.Value⟩

abbrev Program (α : Type) := Async.Task calls FeedError α

/-- Await one call. -/
def await (c : Call) : Program c.Value := Async.Task.ask (I := calls) c

/-! ## The adapter -/

/-- `items[start : start + size]` for every start. -/
def chunks {α : Type} (items : List α) (size : ℕ) : List (List α) :=
  (List.range ((items.length + size - 1) / size)).map fun k => (items.drop (k * size)).take size

namespace FeedSubscriptionAdapter

def tokensPerMessage : ℕ := 100

/-- `by_exchange[exchange].append(token)`. -/
def file (exchange : ExchangeType) (token : String) :
    List (ExchangeType × List String) → List (ExchangeType × List String)
  | [] => [(exchange, [token])]
  | group :: rest =>
      if group.1 = exchange then (group.1, group.2 ++ [token]) :: rest
      else group :: file exchange token rest

def byExchange (instruments : List Instrument) : List (ExchangeType × List String) :=
  instruments.foldl (fun groups i => file (.ofExchange i.exchange) i.token groups) []

/-- What one message each is made of. -/
def batches (instruments : List Instrument) : List (ExchangeType × List String) :=
  (byExchange instruments).flatMap fun group =>
    (chunks group.2 tokensPerMessage).map fun chunk => (group.1, chunk)

def sendEach (action : SubscriptionAction) : List (ExchangeType × List String) → Program Unit
  | [] => pure ()
  | batch :: rest => do
      await (.send action [batch])
      sendEach action rest

/-- `_send`. -/
def send (action : SubscriptionAction) (instruments : List Instrument) : Program Unit :=
  sendEach action (batches instruments)

end FeedSubscriptionAdapter

/-! ## The manager -/

namespace SubscriptionManager

/-- `async with self._lock`. -/
def withLock (p : Program Unit) : Program Unit := do
  await .lock
  let r ← p.attempt
  await .unlock
  Async.Task.lift r

/-- Of one id the last instrument counts. -/
def subscribe (instruments : List Instrument) : Program Unit := withLock do
  let (new, connected) ← await (.enlist (Table.dict Instrument.instrumentId instruments))
  if new ≠ [] ∧ connected then FeedSubscriptionAdapter.send .subscribe new else pure ()

def unsubscribe (instruments : List Instrument) : Program Unit := withLock do
  let (gone, connected) ← await (.strike instruments)
  if gone ≠ [] ∧ connected then FeedSubscriptionAdapter.send .unsubscribe gone else pure ()

def onConnected : Program Unit := withLock do
  let desired ← await .connected
  if desired ≠ [] then FeedSubscriptionAdapter.send .subscribe desired else pure ()

def onDisconnected : Program Unit := withLock (await .disconnected)

end SubscriptionManager

/-! ## The feed client -/

namespace MarketFeedClient

/-- `_run_connected`. -/
def runConnected : Program Unit := do
  let r ← (do
    SubscriptionManager.onConnected
    await .others
    await .read : Program Unit).attempt
  await .leave
  await .heartbeat
  match r with
  | .error .closed => pure ()
  | r => Async.Task.lift r

/-- `_serve_one_connection`. -/
def serveOneConnection (refreshAuth : Bool) : Program Unit := do
  await (.auth refreshAuth)
  await .connect
  let r ← runConnected.attempt
  await .close
  Async.Task.lift r

/-- `_notify_disconnected`. -/
def notifyDisconnected : Program Unit := do
  SubscriptionManager.onDisconnected
  await .others

/-- The connection is down: the listeners are told, and after a pause
`again` takes the next one. -/
def down (cfg : Settings) (attempt : ℕ) (again : Program Unit) : Program Unit := do
  if ← await .stopping then pure () else do
    notifyDisconnected
    let fraction ← await .fraction
    await (.sleep (cfg.policy.delay (min attempt 30) fraction))
    again

/-- `run`, for as many connections as it is given rounds. -/
def run (cfg : Settings) : ℕ → ℕ → Bool → Program Unit
  | 0, _, _ => pure ()
  | rounds + 1, attempt, refreshAuth => do
      if ← await .stopping then pure () else do
        match ← (serveOneConnection refreshAuth).attempt with
        | .ok _ => down cfg 0 (run cfg rounds 1 false)
        | .error .tls => do
            notifyDisconnected
            Async.Task.raise .tls
        | .error (.invalidStatus code) =>
            down cfg attempt (run cfg rounds (attempt + 1) (code = 401 ∨ code = 403))
        | .error .closed | .error .transport =>
            down cfg attempt (run cfg rounds (attempt + 1) refreshAuth)
        | .error e => Async.Task.raise e

def stop : Program Unit := do
  await .stop
  await .close

end MarketFeedClient

/-- What the rest of the process asks of the feed. -/
inductive Caller
  | subscribe (instruments : List Instrument)
  | unsubscribe (instruments : List Instrument)
  | stop

def Caller.run : Caller → Program Unit
  | subscribe instruments => SubscriptionManager.subscribe instruments
  | unsubscribe instruments => SubscriptionManager.unsubscribe instruments
  | stop => MarketFeedClient.stop

/-! ## The world -/

/-- A connection, with the messages sent on it. -/
structure Connection where
  sent : List Message
  /-- A send has found it closed, or the client has closed it. -/
  closed : Bool
  /-- A task was cancelled in a send on it. -/
  cut : Bool
  deriving DecidableEq

def Connection.fresh : Connection := ⟨[], false, false⟩

structure World where
  manager : SubscriptionManager
  holder : Option ℕ
  socket : Option Connection
  /-- The correlation ids that are used up. -/
  issued : ℕ
  isStopping : Bool

/-- A new process. -/
def World.start : World := ⟨.initial, none, none, 0, false⟩

namespace World

/-- The next message of an adapter. -/
def message (cfg : Settings) (w : World) (action : SubscriptionAction)
    (tokens : List (ExchangeType × List String)) : Message :=
  subscriptionMessage action cfg.mode tokens (sequentialCorrelationId (w.issued + 1))

/-- The world after a send that left its connection as `socket`. -/
def sending (w : World) (socket : Option Connection) : World :=
  { w with socket := socket, issued := w.issued + 1 }

/-- A call that leaves the world alone, whatever it ends with. -/
def Idle : Call → Prop
  | .auth _ | .connect | .others | .read | .heartbeat | .close => True
  | _ => False

/-- How a call of task `t` may end, and the world it leaves. -/
inductive Answers (cfg : Settings) (t : ℕ) (w : World) :
    (c : Call) → Except FeedError c.Value → World → Prop
  | locked (h : w.holder = none) :
      Answers cfg t w .lock (.ok ()) { w with holder := some t }
  | lockCancelled : Answers cfg t w .lock (.error .cancelled) w
  | unlocked : Answers cfg t w .unlock (.ok ()) { w with holder := none }
  | enlisted {batch new : List Instrument} {m : SubscriptionManager}
      (h : w.manager.enlist cfg.limits batch = .ok (new, m)) :
      Answers cfg t w (.enlist batch) (.ok (new, m.connected)) { w with manager := m }
  | refused {batch : List Instrument} {e : FeedError}
      (h : w.manager.enlist cfg.limits batch = .error e) :
      Answers cfg t w (.enlist batch) (.error e) w
  | struck {instruments : List Instrument} :
      Answers cfg t w (.strike instruments)
        (.ok ((w.manager.strike instruments).1, w.manager.connected))
        { w with manager := (w.manager.strike instruments).2 }
  | connected : Answers cfg t w .connected (.ok w.manager.desired)
      { w with manager := { w.manager with connected := true } }
  | disconnected : Answers cfg t w .disconnected (.ok ())
      { w with manager := { w.manager with connected := false } }
  | unconnected {action : SubscriptionAction} {tokens : List (ExchangeType × List String)}
      (h : w.socket = none) :
      Answers cfg t w (.send action tokens) (.error .notConnected) (w.sending none)
  | sent {action : SubscriptionAction} {tokens : List (ExchangeType × List String)}
      {c : Connection} (h : w.socket = some c) (hopen : c.closed = false) :
      Answers cfg t w (.send action tokens) (.ok ())
        (w.sending (some { c with sent := c.sent ++ [w.message cfg action tokens] }))
  | lost {action : SubscriptionAction} {tokens : List (ExchangeType × List String)}
      {c : Connection} (h : w.socket = some c) :
      Answers cfg t w (.send action tokens) (.error .closed)
        (w.sending (some { c with closed := true }))
  /-- The message may be out all the same. -/
  | cut {action : SubscriptionAction} {tokens : List (ExchangeType × List String)}
      {c : Connection} {out : List Message} (h : w.socket = some c) (hopen : c.closed = false)
      (hout : out = [] ∨ out = [w.message cfg action tokens]) :
      Answers cfg t w (.send action tokens) (.error .cancelled)
        (w.sending (some { c with sent := c.sent ++ out, cut := true }))
  | stopping : Answers cfg t w .stopping (.ok w.isStopping) w
  | stop : Answers cfg t w .stop (.ok ())
      { w with isStopping := true, socket := w.socket.map fun c => { c with closed := true } }
  | opened : Answers cfg t w .connect (.ok ()) { w with socket := some .fresh }
  | passed {c : Call} {a : Except FeedError c.Value} (h : Idle c)
      (hopen : c = .connect → ∃ e, a = .error e) : Answers cfg t w c a w
  | left : Answers cfg t w .leave (.ok ()) { w with socket := none }
  | drawn {fraction : ℚ} (h0 : 0 ≤ fraction) (h1 : fraction < 1) :
      Answers cfg t w .fraction (.ok fraction) w
  | slept {delay : ℚ} : Answers cfg t w (.sleep delay) (.ok ()) w
  | woken {delay : ℚ} : Answers cfg t w (.sleep delay) (.error .cancelled) w

end World

/-- A restart keeps nothing. -/
def platform (cfg : Settings) : Async.Platform calls FeedError World where
  step := World.Answers cfg
  restart _ := .start

end MarketFeed

end Emporos
