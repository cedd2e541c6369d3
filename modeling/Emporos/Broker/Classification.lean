import Emporos.Broker.Endpoints
/-!
# Replies and what they mean

The envelope of a reply, decoded under either of its dialects, and the
classifier that turns every failure into one broker error. An envelope is
matched against an ordered table of rules; a transport failure against a
table of exception classes.
-/

namespace Emporos

/-- What `json.loads` makes of a text, objects in the order of their keys. -/
inductive Json
  | null
  | bool (b : Bool)
  | num (value : ℚ)
  | str (text : String)
  | arr (items : List Json)
  | obj (fields : List (String × Json))

namespace Json

/-- Python's truth of a value. -/
def truthy : Json → Bool
  | null => false
  | bool b => b
  | num q => q ≠ 0
  | str t => t ≠ ""
  | arr items => !items.isEmpty
  | obj fields => !fields.isEmpty

/-- `body.get(key)` -/
def get (key : String) (fields : List (String × Json)) : Option Json := fields.lookup key

end Json

/-- The library functions replies are read with: `json.loads` on the
body, none where it raises; the body as text; and `str`, `str.strip`,
`str.lower` and `str.isprintable`. -/
structure Codec where
  loads : ByteArray → Option Json
  decode : ByteArray → Option String
  blank : ByteArray → Bool
  str : Json → String
  strip : String → String
  lower : String → String
  isPrintable : String → Bool

structure Envelope where
  status : Option Bool
  message : String
  errorCode : String
  data : Json
  /-- The body was plain text. -/
  fromText : Bool

namespace EnvelopeDecoder

variable (codec : Codec)

/-- The success flag under either dialect's key. -/
def flag (body : List (String × Json)) : Option Bool :=
  ["status", "success"].findSome? fun key =>
    match Json.get key body with
    | some (.bool value) => some value
    | _ => none

/-- `str(a or b or "")`, each by its key. -/
def text (keys : List String) (body : List (String × Json)) : String :=
  match (keys.filterMap fun key => Json.get key body).find? Json.truthy with
  | some value => codec.str value
  | none => ""

def textEnvelope (content : ByteArray) : Option Envelope := do
  let text := codec.strip (← codec.decode content)
  if text = "" ∨ 200 < text.length ∨ ("\x7b[".toList.any fun c => text.toList.head? = some c) ∨
      codec.isPrintable text = false then none
  else some ⟨none, text, "", .null, true⟩

def decode (content : ByteArray) : Option Envelope :=
  if codec.blank content then none
  else match codec.loads content with
    | none => textEnvelope codec content
    | some (.obj body) => some
        { status := flag body
          message := text codec ["message"] body
          errorCode := text codec ["errorcode", "errorCode"] body
          data := (Json.get "data" body).getD .null
          fromText := false }
    | some _ => none

end EnvelopeDecoder

/-! ## The classifier -/

/-- `value or None` -/
def nonempty (s : String) : Option String := if s = "" then none else some s

def rateLimited (envelope : Envelope) (endpoint : Endpoint) (httpStatus : ℕ) : BrokerError :=
  .rateLimited s!"{endpoint.name}: rate limited ({envelope.message})"
    (if endpoint.mutates then .ambiguous else .retryable) (nonempty envelope.errorCode)
    (some httpStatus)

def sessionExpired (envelope : Envelope) (endpoint : Endpoint) (httpStatus : ℕ) : BrokerError :=
  .sessionExpired s!"{endpoint.name}: session rejected ({envelope.message})"
    (nonempty envelope.errorCode) (some httpStatus)

def serverFault (envelope : Envelope) (endpoint : Endpoint) (httpStatus : ℕ) : BrokerError :=
  .transport s!"{endpoint.name}: broker-side fault ({envelope.message})"
    (nonempty envelope.errorCode) (some httpStatus)

/-- Matches a failed envelope by its code or a fragment of its message. -/
structure EnvelopeRule where
  build : Envelope → Endpoint → ℕ → BrokerError
  codes : List String
  fragments : List String

/-- `fragment in text` -/
def occursIn (fragment text : String) : Bool :=
  text.toList.tails.any fragment.toList.isPrefixOf

def EnvelopeRule.matches (codec : Codec) (rule : EnvelopeRule) (envelope : Envelope) : Bool :=
  envelope.errorCode ∈ rule.codes ∨
    rule.fragments.any fun fragment => occursIn fragment (codec.lower envelope.message)

def defaultEnvelopeRules : List EnvelopeRule :=
  [⟨rateLimited, [], ["exceeding access rate"]⟩,
   ⟨sessionExpired, ["AG8001", "AG8002", "AG8003", "AB8050", "AB8051"],
    ["invalid token", "token missing", "token expired", "invalid refresh token"]⟩,
   ⟨serverFault, ["AB1004", "AB2001"], ["please try after sometime", "internal error"]⟩]

/-- The exceptions of `httpx` a request can raise. -/
inductive HttpxError
  | connectTimeout
  | readTimeout
  | writeTimeout
  | poolTimeout
  | connectError
  | readError
  | writeError
  | closeError
  | localProtocolError
  | remoteProtocolError
  | proxyError
  | unsupportedProtocol
  | decodingError
  | tooManyRedirects
  deriving DecidableEq

/-- The request never left this process. -/
def HttpxError.NeverSent : HttpxError → Prop
  | .connectTimeout | .connectError | .poolTimeout => True
  | _ => False

instance : DecidablePred HttpxError.NeverSent := fun e => by
  cases e <;> unfold HttpxError.NeverSent <;> infer_instance

/-- A failure of a request, and whether one of its causes is a failure of
TLS. -/
structure HttpFailure where
  error : HttpxError
  ssl : Bool

/-- How one HTTP round trip ends. -/
inductive HttpReply
  | raised (failure : HttpFailure)
  | response (status : ℕ) (content : ByteArray)

namespace ErrorClassifier

/-- The first rule of `DEFAULT_TRANSPORT_RULES` whose classes the error is
an instance of. -/
def forTransportFailure (failure : HttpFailure) (endpoint : Endpoint) : BrokerError :=
  if failure.ssl then .tls s!"{endpoint.name}: TLS verification/handshake failed"
  else match failure.error with
    | .connectTimeout | .connectError | .poolTimeout =>
        .connection s!"{endpoint.name}: could not connect"
    | .readTimeout | .writeTimeout | .readError | .writeError | .closeError
    | .localProtocolError | .remoteProtocolError =>
        .transport s!"{endpoint.name}: no reliable reply (timeout/reset)" none none
    | .proxyError | .unsupportedProtocol | .decodingError | .tooManyRedirects =>
        .transport s!"{endpoint.name}: unexpected transport failure" none none

/-- The rule that recognises a failed envelope. -/
def recognised (codec : Codec) (envelope : Option Envelope) (endpoint : Endpoint)
    (statusCode : ℕ) : Option BrokerError := do
  let e ← envelope
  if e.status = some true then none
  else
    let rule ← defaultEnvelopeRules.find? (EnvelopeRule.matches codec · e)
    some (rule.build e endpoint statusCode)

/-- ` (message)`, where there is one to quote. -/
def detail (e : Envelope) : String := if e.fromText then "" else s!" ({e.message})"

/-- What a status other than success means. -/
def forStatus (statusCode : ℕ) (envelope : Option Envelope) (endpoint : Endpoint) :
    Option BrokerError :=
  if 500 ≤ statusCode then
    some (.transport s!"{endpoint.name}: HTTP {statusCode}" none (some statusCode))
  else if statusCode = 429 then
    some (rateLimited ⟨some false, "HTTP 429", "", .null, false⟩ endpoint statusCode)
  else if statusCode = 401 then
    some (.sessionExpired s!"{endpoint.name}: HTTP 401" none (some statusCode))
  else if 400 ≤ statusCode then
    let detail := match envelope with
      | some e => if e.message = "" then "" else detail e
      | none => ""
    some (endpoint.rejectionError.error s!"{endpoint.name}: HTTP {statusCode}{detail}"
      (envelope.bind fun e => nonempty e.errorCode) (some statusCode))
  else if ¬ (200 ≤ statusCode ∧ statusCode < 300) then
    some (.protocol s!"{endpoint.name}: unexpected HTTP {statusCode}" none (some statusCode))
  else none

/-- What an envelope under a success status means. -/
def forEnvelope (statusCode : ℕ) (envelope : Option Envelope) (endpoint : Endpoint) :
    Option BrokerError :=
  match envelope with
  | none => some (.protocol s!"{endpoint.name}: reply is not a SmartAPI envelope" none
      (some statusCode))
  | some e => match e.status with
    | some true => none
    | some false => some (endpoint.rejectionError.error s!"{endpoint.name}: rejected ({e.message})"
        (nonempty e.errorCode) (some statusCode))
    | none => some (.protocol s!"{endpoint.name}: envelope has no status{detail e}"
        (nonempty e.errorCode) (some statusCode))

/-- `for_response`: none for a genuine success. -/
def forResponse (codec : Codec) (statusCode : ℕ) (envelope : Option Envelope)
    (endpoint : Endpoint) : Option BrokerError :=
  (recognised codec envelope endpoint statusCode).or
    ((forStatus statusCode envelope endpoint).or (forEnvelope statusCode envelope endpoint))

end ErrorClassifier

/-- What a round trip comes to: the data of a success, or one broker
error. -/
def HttpReply.outcome (codec : Codec) (endpoint : Endpoint) : HttpReply → Except BrokerError Json
  | .raised failure => .error (ErrorClassifier.forTransportFailure failure endpoint)
  | .response status content =>
      let envelope := EnvelopeDecoder.decode codec content
      match ErrorClassifier.forResponse codec status envelope endpoint with
      | some failure => .error failure
      | none => .ok ((envelope.map Envelope.data).getD .null)

end Emporos
