import Emporos.Async.Pool
import Emporos.Broker.Classification
/-!
# The transport stack, and the session it keeps

One HTTP round trip; over it the limiter, the bounded retry, and the
transport that attaches the session's token. The session manager logs in,
refreshes and logs out under one lock, through the same stack. The world
keeps who holds the lock, the session that is stored, and the attempts
each task made on the wire.
-/

namespace Emporos

namespace AngelOne

structure RestRequest where
  endpoint : Endpoint
  body : Option (List (String × Json))
  bearer : Option String

/-- What the stack raises. -/
inductive StackError
  | broker (error : BrokerError)
  | configuration (message : String)
  | cancelled
  deriving DecidableEq

structure Session where
  jwt : String
  refreshToken : String
  feedToken : String
  establishedAt : Timestamp
  expiresAt : Timestamp

/-- A session lives until the next midnight in India. -/
def SessionExpiry.expiresAt (establishedAt : Timestamp) : Timestamp :=
  (establishedAt.sessionDate + 1) * (86400 * Timestamp.second) - 19800 * Timestamp.second

def SessionExpiry.isExpired (session : Session) (now : Timestamp) : Bool := session.expiresAt ≤ now

structure Credentials where
  clientCode : String
  pin : String
  clientCode_ne : clientCode ≠ ""
  pin_ne : pin ≠ ""

/-- The `X-` headers. -/
structure ClientIdentity where
  localIp : String := "127.0.0.1"
  publicIp : String := "127.0.0.1"
  macAddress : String := "00:00:00:00:00:00"

/-- What the stack is built with. -/
structure Stack where
  codec : Codec
  apiKey : String
  identity : ClientIdentity
  credentials : Credentials
  policy : EndpointGroup → BackoffPolicy
  apiKey_ne : apiKey ≠ ""

/-- What the rest of the process asks of the stack. -/
inductive Caller
  | send (request : RestRequest)
  | authenticate
  | feedToken
  | refreshFeedToken
  | logout

inductive Call
  /-- The next thing to do. -/
  | take
  /-- One HTTP round trip. -/
  | request (request : RestRequest) (headers : List (String × String))
  /-- The limiter of the endpoint's group. -/
  | acquire (group : EndpointGroup)
  | fraction
  | sleep (delay : ℚ)
  | now
  | totp
  | lock
  | unlock
  | load
  | save (session : Session)
  | clear

/-- What a call returns when it does not raise. -/
abbrev Call.Value : Call → Type
  | take => Caller
  | request .. => HttpReply
  | fraction => ℚ
  | now => Timestamp
  | totp => String
  | load => Option Session
  | acquire _ | sleep _ | lock | unlock | save _ | clear => Unit

abbrev calls : Async.Interface := ⟨Call, Call.Value⟩

abbrev Program (α : Type) := Async.Task calls StackError α

/-- Await one call. -/
def await (c : Call) : Program c.Value := Async.Task.ask (I := calls) c

variable (cfg : Stack)

/-! ## The transports -/

namespace HttpRestTransport

def headers (r : RestRequest) : List (String × String) :=
  [("Content-Type", "application/json"), ("Accept", "application/json"), ("X-UserType", "USER"),
    ("X-SourceID", "WEB"), ("X-ClientLocalIP", cfg.identity.localIp),
    ("X-ClientPublicIP", cfg.identity.publicIp), ("X-MACAddress", cfg.identity.macAddress),
    ("X-PrivateKey", cfg.apiKey)] ++
  match r.bearer with
  | none | some "" => []
  | some bearer => [("Authorization", s!"Bearer {bearer}")]

/-- One round trip, decoded and classified. -/
def send (r : RestRequest) : Program Json :=
  if r.endpoint.authenticated ∧ r.bearer.getD "" = "" then
    .raise (.configuration s!"{r.endpoint.name} needs a session token")
  else do
    let reply ← await (.request r (headers cfg r))
    .lift ((reply.outcome cfg.codec r.endpoint).mapError .broker)

end HttpRestTransport

/-- Waits for capacity, then delegates. -/
def RateLimitedTransport.send (r : RestRequest) : Program Json := do
  await (.acquire r.endpoint.group)
  HttpRestTransport.send cfg r

/-- Whether a failed attempt may be replayed. -/
def RetryDecider.mayRetry (e : BrokerError) (endpoint : Endpoint) : Bool :=
  if e.kind = .sessionExpired then false
  else match e.classification with
    | .retryable => true
    | .ambiguous => !endpoint.mutates
    | .definitive => false

namespace RetryingTransport

/-- The outcome of an attempt, and `retry` where it may be replayed. -/
def orRetry (r : RestRequest) (retry : BrokerError → Program Json) :
    Except StackError Json → Program Json
  | .ok data => pure data
  | .error (.broker e) =>
      if !RetryDecider.mayRetry e r.endpoint then .raise (.broker e) else retry e
  | .error e => .raise e

/-- The attempt numbered `attempt`, with so many more after it. -/
def attempts (r : RestRequest) (attempt : ℕ) : ℕ → Program Json
  | 0 => do
      orRetry r (fun e => .raise (.broker (.retriesExhausted
          s!"{r.endpoint.name}: still failing after {attempt} attempts ({e.typeName})" e attempt)))
        (← (RateLimitedTransport.send cfg r).attempt)
  | left + 1 => do
      orRetry r (fun _ => do
          let fraction ← await .fraction
          await (.sleep ((cfg.policy r.endpoint.group).delay (attempt - 1) fraction))
          attempts r (attempt + 1) left)
        (← (RateLimitedTransport.send cfg r).attempt)

def send (r : RestRequest) : Program Json :=
  attempts cfg r 1 ((cfg.policy r.endpoint.group).maxAttempts - 1)

end RetryingTransport

/-! ## Sessions -/

/-- A text that is not empty, under a key. -/
def token (fields : List (String × Json)) (key : String) : Except StackError String :=
  match Json.get key fields with
  | some (.str value) =>
      if value = "" then .error (.broker (.protocol s!"login reply is missing {key}" none none))
      else .ok value
  | _ => .error (.broker (.protocol s!"login reply is missing {key}" none none))

/-- `_tokens` and `_session_from`. -/
def sessionFrom (data : Json) (establishedAt expiresAt : Timestamp) : Except StackError Session :=
  match data with
  | .obj fields => do
      let jwt ← token fields "jwtToken"
      let refreshToken ← token fields "refreshToken"
      let feedToken ← token fields "feedToken"
      pure { jwt, refreshToken, feedToken, establishedAt, expiresAt }
  | _ => .error (.broker (.protocol "login reply has no token payload" none none))

namespace AngelOneAuthenticator

def login : Program Session := do
  let code ← await .totp
  let data ← RetryingTransport.send cfg
    { endpoint := Endpoints.login
      body := some [("clientcode", .str cfg.credentials.clientCode),
        ("password", .str cfg.credentials.pin), ("totp", .str code)]
      bearer := none }
  let now ← await .now
  .lift (sessionFrom data now (SessionExpiry.expiresAt now))

/-- The expiry of the original login is kept. -/
def renew (session : Session) : Program Session := do
  let data ← RetryingTransport.send cfg
    { endpoint := Endpoints.generateTokens
      body := some [("refreshToken", .str session.refreshToken)]
      bearer := some session.jwt }
  let now ← await .now
  .lift (sessionFrom data now session.expiresAt)

def logout (session : Session) : Program Unit := do
  let _ ← RetryingTransport.send cfg
    { endpoint := Endpoints.logout
      body := some [("clientcode", .str cfg.credentials.clientCode)]
      bearer := some session.jwt }
  pure ()

end AngelOneAuthenticator

namespace SessionManager

/-- `async with self._lock` -/
def withLock {α : Type} (p : Program α) : Program α := do
  await .lock
  let r ← p.attempt
  await .unlock
  .lift r

/-- `_login` -/
def login : Program Session := do
  let fresh ← AngelOneAuthenticator.login cfg
  await (.save fresh)
  pure fresh

/-- The session, if there is one that has not expired. -/
def live : Option Session → Program (Option Session)
  | none => pure none
  | some current => do
      let now ← await .now
      pure (if SessionExpiry.isExpired current now then none else some current)

def session : Program Session := withLock do
  let current ← await .load
  match ← live current with
  | some current => pure current
  | none => login cfg

def authenticate : Program Session := withLock (login cfg)

/-- The refresh, or a login where it is refused. -/
def refresh (rejected : Session) : Program Session := do
  match ← (AngelOneAuthenticator.renew cfg rejected).attempt with
  | .ok renewed => do
      await (.save renewed)
      pure renewed
  | .error (.broker e) =>
      if e.kind = .sessionExpired ∨ e.kind = .auth then login cfg else .raise (.broker e)
  | .error e => .raise e

/-- A concurrent caller may have replaced the rejected session. -/
def renew (rejected : Session) : Program Session := withLock do
  let current ← await .load
  match ← live (current.filter fun current => current.jwt ≠ rejected.jwt) with
  | some current => pure current
  | none => refresh cfg rejected

def feedToken : Program String := do
  let session ← session cfg
  pure session.feedToken

def refreshFeedToken : Program String := do
  let renewed ← renew cfg (← session cfg)
  pure renewed.feedToken

def logout : Program Unit := withLock do
  match ← await .load with
  | none => pure ()
  | some current => do
      let r ← (AngelOneAuthenticator.logout cfg current).attempt
      await .clear
      .lift r

end SessionManager

/-- Attaches the token. A read whose token was rejected is replayed once,
with a new one. -/
def AuthenticatedTransport.send (r : RestRequest) : Program Json :=
  if !r.endpoint.authenticated ∨ r.bearer.isSome then RetryingTransport.send cfg r
  else do
    let session ← SessionManager.session cfg
    match ← (RetryingTransport.send cfg { r with bearer := some session.jwt }).attempt with
    | .ok data => pure data
    | .error (.broker e) =>
        if e.kind = .sessionExpired ∧ !r.endpoint.mutates then do
          let renewed ← SessionManager.renew cfg session
          RetryingTransport.send cfg { r with bearer := some renewed.jwt }
        else .raise (.broker e)
    | .error e => .raise e

/-- What a caller gets. -/
inductive Result
  | data (data : Json)
  | session (session : Session)
  | token (token : String)
  | done

def Caller.run : Caller → Program Result
  | send r => do pure (.data (← AuthenticatedTransport.send cfg r))
  | authenticate => do pure (.session (← SessionManager.authenticate cfg))
  | feedToken => do pure (.token (← SessionManager.feedToken cfg))
  | refreshFeedToken => do pure (.token (← SessionManager.refreshFeedToken cfg))
  | logout => do
      SessionManager.logout cfg
      pure .done

/-- A task that asks the stack for one thing. -/
def serve : Program Result := do
  let caller ← await .take
  caller.run cfg

/-! ## The world -/

/-- A request on the wire, and the reply; none where the task was
cancelled before one came. -/
structure Attempt where
  request : RestRequest
  reply : Option HttpReply

structure World where
  /-- What each task was asked for. -/
  asked : ℕ → Option Caller
  /-- The attempts it has made for it, oldest first. -/
  attempts : ℕ → List Attempt
  holder : Option ℕ
  store : Option Session
  /-- The token of the last session a reply has brought. -/
  newest : Option String
  clock : Timestamp

/-- A new process. -/
def World.start (time : Timestamp) : World := ⟨fun _ => none, fun _ => [], none, none, none, time⟩

/-- The token of the session these data make, at an endpoint that gives
one. -/
def bring (endpoint : Endpoint) (data : Json) : Option String :=
  if endpoint = Endpoints.login ∨ endpoint = Endpoints.generateTokens then
    match sessionFrom data 0 0 with
    | .ok session => some session.jwt
    | .error _ => none
  else none

/-- The token of the session a reply brings. -/
def delivered (codec : Codec) (endpoint : Endpoint) (reply : HttpReply) : Option String :=
  match reply.outcome codec endpoint with
  | .ok data => bring endpoint data
  | .error _ => none

namespace World

/-- The world after task `t` has made an attempt. -/
def attempted (cfg : Stack) (w : World) (t : ℕ) (r : RestRequest) (reply : Option HttpReply) : World :=
  { w with
    attempts := Function.update w.attempts t (w.attempts t ++ [⟨r, reply⟩])
    newest := (reply.bind (delivered cfg.codec r.endpoint)).or w.newest }

@[simp] theorem attempted_asked (w : World) (t : ℕ) (r : RestRequest) (reply : Option HttpReply) :
    (w.attempted cfg t r reply).asked = w.asked := rfl

@[simp] theorem attempted_attempts (w : World) (t : ℕ) (r : RestRequest)
    (reply : Option HttpReply) : (w.attempted cfg t r reply).attempts =
      Function.update w.attempts t (w.attempts t ++ [⟨r, reply⟩]) := rfl

/-- A call, other than a round trip, that a task can be cancelled in. -/
def Waits : Call → Prop
  | .lock | .acquire _ | .sleep _ => True
  | _ => False

/-- How a call of task `t` may end, and the world it leaves. -/
inductive Answers (cfg : Stack) (allowed : Caller → Prop) (t : ℕ) (w : World) :
    (c : Call) → Except StackError c.Value → World → Prop
  | take {caller : Caller} (h : allowed caller) :
      Answers cfg allowed t w .take (.ok caller)
        { w with
          asked := Function.update w.asked t (some caller)
          attempts := Function.update w.attempts t [] }
  | replied {r : RestRequest} {headers : List (String × String)} (reply : HttpReply) :
      Answers cfg allowed t w (.request r headers) (.ok reply) (w.attempted cfg t r (some reply))
  /-- The task is cancelled while it waits, and the request may be out. -/
  | dropped {r : RestRequest} {headers : List (String × String)} :
      Answers cfg allowed t w (.request r headers) (.error .cancelled)
        (w.attempted cfg t r none)
  | admitted {group : EndpointGroup} : Answers cfg allowed t w (.acquire group) (.ok ()) w
  /-- An unknown group fails closed. -/
  | unknownGroup {group : EndpointGroup} {message : String} :
      Answers cfg allowed t w (.acquire group) (.error (.configuration message)) w
  | cancelled {c : Call} (h : Waits c) :
      Answers cfg allowed t w c (.error .cancelled) w
  | drawn {fraction : ℚ} (h0 : 0 ≤ fraction) (h1 : fraction < 1) :
      Answers cfg allowed t w .fraction (.ok fraction) w
  | slept {delay : ℚ} : Answers cfg allowed t w (.sleep delay) (.ok ()) w
  | time : Answers cfg allowed t w .now (.ok w.clock) w
  | code {code : String} : Answers cfg allowed t w .totp (.ok code) w
  | locked (h : w.holder = none) :
      Answers cfg allowed t w .lock (.ok ()) { w with holder := some t }
  | unlocked : Answers cfg allowed t w .unlock (.ok ()) { w with holder := none }
  | loaded : Answers cfg allowed t w .load (.ok w.store) w
  | saved {session : Session} :
      Answers cfg allowed t w (.save session) (.ok ()) { w with store := some session }
  | cleared : Answers cfg allowed t w .clear (.ok ()) { w with store := none }

end World

/-- Time passes between calls. A restart keeps no session. -/
def platform (allowed : Caller → Prop) : Async.Platform calls StackError World where
  step t w c a w' := ∃ time, w.clock ≤ time ∧
    World.Answers cfg allowed t { w with clock := time } c a w'
  restart w := { w with holder := none, store := none }

end AngelOne

end Emporos
