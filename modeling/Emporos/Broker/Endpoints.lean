import Emporos.Core.Errors
import Mathlib.Algebra.Order.Field.Rat
import Mathlib.Algebra.Order.Ring.Rat
import Mathlib.Tactic.NormNum
/-!
# Broker errors, endpoints and backoff

The failures that cross the broker boundary, each with a classification
that says whether the action took effect; the endpoints that are called,
each with whether it changes anything at the broker; and how long a retry
waits.
-/

namespace Emporos

/-- The subclasses of `BrokerError`. -/
inductive BrokerErrorKind
  | connection
  | tls
  | transport
  | protocol
  | rateLimited
  | sessionExpired
  | auth
  | rejected
  | retriesExhausted (attempts : ℕ)
  deriving DecidableEq

/-- `code` and `http_status` are diagnostics. -/
structure BrokerError where
  kind : BrokerErrorKind
  message : String
  classification : ErrorClassification
  code : Option String
  httpStatus : Option ℕ
  deriving DecidableEq

namespace BrokerError

def connection (message : String) : BrokerError := ⟨.connection, message, .retryable, none, none⟩

def tls (message : String) : BrokerError := ⟨.tls, message, .definitive, none, none⟩

def transport (message : String) (code : Option String) (httpStatus : Option ℕ) : BrokerError :=
  ⟨.transport, message, .ambiguous, code, httpStatus⟩

def protocol (message : String) (code : Option String) (httpStatus : Option ℕ) : BrokerError :=
  ⟨.protocol, message, .ambiguous, code, httpStatus⟩

/-- The adapter chooses the classification. -/
def rateLimited (message : String) (classification : ErrorClassification) (code : Option String)
    (httpStatus : Option ℕ) : BrokerError :=
  ⟨.rateLimited, message, classification, code, httpStatus⟩

def sessionExpired (message : String) (code : Option String) (httpStatus : Option ℕ) :
    BrokerError :=
  ⟨.sessionExpired, message, .retryable, code, httpStatus⟩

def auth (message : String) (code : Option String) (httpStatus : Option ℕ) : BrokerError :=
  ⟨.auth, message, .definitive, code, httpStatus⟩

def rejected (message : String) (code : Option String) (httpStatus : Option ℕ) : BrokerError :=
  ⟨.rejected, message, .definitive, code, httpStatus⟩

/-- Keeps the classification of the last error. -/
def retriesExhausted (message : String) (last : BrokerError) (attempts : ℕ) : BrokerError :=
  ⟨.retriesExhausted attempts, message, last.classification, last.code, last.httpStatus⟩

/-- The name of the error's class. -/
def typeName (e : BrokerError) : String :=
  match e.kind with
  | .connection => "BrokerConnectionError"
  | .tls => "BrokerTlsError"
  | .transport => "BrokerTransportError"
  | .protocol => "BrokerProtocolError"
  | .rateLimited => "BrokerRateLimitedError"
  | .sessionExpired => "BrokerSessionExpiredError"
  | .auth => "BrokerAuthError"
  | .rejected => "BrokerRejectedError"
  | .retriesExhausted _ => "BrokerRetriesExhaustedError"

/-- The error as the code above the boundary sees it. -/
def toPyError (e : BrokerError) : PyError := .broker e.typeName e.classification e.message

end BrokerError

inductive HttpMethod
  | get
  | post
  deriving DecidableEq

/-- Endpoints that share one upstream rate limit. -/
inductive EndpointGroup
  | login
  | account
  | placeOrder
  | orderBook
  | ltp
  | position
  | searchScrip
  | holding
  | quote
  | candles
  deriving DecidableEq

/-- What a refusal means at an endpoint: a failed login is an auth
failure. -/
inductive RejectionError
  | auth
  | rejected
  deriving DecidableEq

def RejectionError.error : RejectionError → String → Option String → Option ℕ → BrokerError
  | .auth => BrokerError.auth
  | .rejected => BrokerError.rejected

structure Endpoint where
  name : String
  method : HttpMethod
  path : String
  group : EndpointGroup
  mutates : Bool := false
  authenticated : Bool := true
  rejectionError : RejectionError := .rejected
  deriving DecidableEq

namespace Endpoints

def login : Endpoint where
  name := "loginByPassword"
  method := .post
  path := "/rest/auth/angelbroking/user/v1/loginByPassword"
  group := .login
  mutates := true
  authenticated := false
  rejectionError := .auth

def generateTokens : Endpoint where
  name := "generateTokens"
  method := .post
  path := "/rest/auth/angelbroking/jwt/v1/generateTokens"
  group := .login
  mutates := true
  rejectionError := .auth

def logout : Endpoint where
  name := "logout"
  method := .post
  path := "/rest/secure/angelbroking/user/v1/logout"
  group := .account
  mutates := true

def profile : Endpoint where
  name := "getProfile"
  method := .get
  path := "/rest/secure/angelbroking/user/v1/getProfile"
  group := .account

def funds : Endpoint where
  name := "getRMS"
  method := .get
  path := "/rest/secure/angelbroking/user/v1/getRMS"
  group := .account

def placeOrder : Endpoint where
  name := "placeOrder"
  method := .post
  path := "/rest/secure/angelbroking/order/v1/placeOrder"
  group := .placeOrder
  mutates := true

def modifyOrder : Endpoint where
  name := "modifyOrder"
  method := .post
  path := "/rest/secure/angelbroking/order/v1/modifyOrder"
  group := .placeOrder
  mutates := true

def cancelOrder : Endpoint where
  name := "cancelOrder"
  method := .post
  path := "/rest/secure/angelbroking/order/v1/cancelOrder"
  group := .placeOrder
  mutates := true

def orderBook : Endpoint where
  name := "getOrderBook"
  method := .get
  path := "/rest/secure/angelbroking/order/v1/getOrderBook"
  group := .orderBook

def tradeBook : Endpoint where
  name := "getTradeBook"
  method := .get
  path := "/rest/secure/angelbroking/order/v1/getTradeBook"
  group := .orderBook

def positions : Endpoint where
  name := "getPosition"
  method := .get
  path := "/rest/secure/angelbroking/order/v1/getPosition"
  group := .position

def holdings : Endpoint where
  name := "getHolding"
  method := .get
  path := "/rest/secure/angelbroking/portfolio/v1/getHolding"
  group := .holding

def ltp : Endpoint where
  name := "getLtpData"
  method := .post
  path := "/rest/secure/angelbroking/order/v1/getLtpData"
  group := .ltp

def quote : Endpoint where
  name := "quote"
  method := .post
  path := "/rest/secure/angelbroking/market/v1/quote/"
  group := .quote

def candles : Endpoint where
  name := "getCandleData"
  method := .post
  path := "/rest/secure/angelbroking/historical/v1/getCandleData"
  group := .candles

end Endpoints

/-! ## Backoff -/

/-- `max_attempts` counts every try, the first included. Seconds are
rationals. -/
structure BackoffPolicy where
  baseDelay : ℚ
  maxDelay : ℚ
  maxAttempts : ℕ
  multiplier : ℚ
  baseDelay_pos : 0 < baseDelay
  baseDelay_le : baseDelay ≤ maxDelay
  one_le_multiplier : 1 ≤ multiplier
  one_le_maxAttempts : 1 ≤ maxAttempts

namespace BackoffPolicy

variable (p : BackoffPolicy)

def ceiling (retryIndex : ℕ) : ℚ := min p.maxDelay (p.baseDelay * p.multiplier ^ retryIndex)

/-- `fraction` is what the jitter source drew. -/
def delay (retryIndex : ℕ) (fraction : ℚ) : ℚ :=
  p.ceiling retryIndex / 2 + fraction * p.ceiling retryIndex / 2

end BackoffPolicy

def defaultPolicy : BackoffPolicy where
  baseDelay := 1 / 2
  maxDelay := 8
  maxAttempts := 4
  multiplier := 2
  baseDelay_pos := by norm_num
  baseDelay_le := by norm_num
  one_le_multiplier := by norm_num
  one_le_maxAttempts := by norm_num

/-- Patient, for the endpoints that deny at random. -/
def defectPolicy : BackoffPolicy where
  baseDelay := 1
  maxDelay := 30
  maxAttempts := 8
  multiplier := 2
  baseDelay_pos := by norm_num
  baseDelay_le := by norm_num
  one_le_multiplier := by norm_num
  one_le_maxAttempts := by norm_num

/-- `ANGELONE_RETRY_POLICIES`, with the default for the other groups. -/
def angelOneRetryPolicy : EndpointGroup → BackoffPolicy
  | .candles | .orderBook => defectPolicy
  | _ => defaultPolicy

end Emporos
