import Emporos.Async.Pool
import Emporos.Common.Decimal
import Emporos.Common.Reserves
import Emporos.Core.Calendar
/-!
# Paid calls

A question goes through the date guard, the journal of recorded answers,
the daily cap on tokens and the ceiling on dollars to the model. A
recorded question is answered from the journal. What a call could cost at
most is set aside before it is made and settled when it ends, so that
calls in flight count. Each of these is done without awaiting, so each is
one call of the interface.
-/

namespace Emporos

namespace Llm

structure LlmRequest where
  stage : String
  model : String
  promptVersion : String
  promptHash : String
  system : String
  user : String
  maxOutputTokens : ℕ
  asOf : Timestamp
  one_le_maxOutputTokens : 1 ≤ maxOutputTokens

structure LlmReply where
  text : String
  tokensIn : ℕ
  tokensOut : ℕ
  /-- The model that answered. -/
  model : String

/-- What the journal keeps of a question and its answer. -/
structure Recording where
  requestHash : String
  stage : String
  model : String
  promptVersion : String
  promptHash : String
  asOf : Timestamp
  text : String
  tokensIn : ℕ
  tokensOut : ℕ
  answeredBy : String
  recordedAt : Timestamp

def Recording.reply (r : Recording) : LlmReply := ⟨r.text, r.tokensIn, r.tokensOut, r.answeredBy⟩

/-- Dollars for a million tokens. -/
structure ModelPrice where
  usdPerMillionInput : Decimal
  usdPerMillionOutput : Decimal
  input_nonneg : 0 ≤ usdPerMillionInput
  output_nonneg : 0 ≤ usdPerMillionOutput

/-- Exact: prices have few digits. -/
def ModelPrice.costUsd (p : ModelPrice) (tokensIn tokensOut : ℕ) : Decimal :=
  (tokensIn * p.usdPerMillionInput + tokensOut * p.usdPerMillionOutput) / 1000000

inductive LlmError
  | budgetRefused (worst committed ceiling : Decimal)
  | notRecorded (stage requestHash : String)
  | leakage (asOf earliest : ℤ)
  | valueError (message : String)
  | cancelled
  /-- Any other exception of the client. -/
  | other (name : String)

abbrev PriceTable := String → Option ModelPrice

/-- A model with no price cannot be spent on. -/
def PriceTable.costUsd (prices : PriceTable) (model : String) (tokensIn tokensOut : ℕ) :
    Except LlmError Decimal :=
  match prices model with
  | none => .error (.valueError s!"no declared price for model '{model}'")
  | some p => .ok (p.costUsd tokensIn tokensOut)

/-- What the clients are built with. -/
structure Settings where
  prices : PriceTable
  /-- `sha256(...).hexdigest()` -/
  digest : String → String
  /-- The first day of each model a question may be about. -/
  earliestAllowed : String → Option ℤ
  /-- A new question reaches the model and is recorded. -/
  record : Bool
  /-- The model whose recordings count against the ceiling and the cap. -/
  counted : String
  ceilingUsd : Decimal
  dailyCap : ℤ
  ceilingUsd_pos : 0 < ceilingUsd
  dailyCap_pos : 1 ≤ dailyCap

variable (cfg : Settings)

/-- The identity of the question that is asked. -/
def LlmRequest.requestHash (r : LlmRequest) : String :=
  cfg.digest ("\x1f".intercalate [r.model, r.system, r.user, toString r.maxOutputTokens])

/-- The day of a moment, in UTC. -/
def utcDay (t : Timestamp) : ℤ := t / (86400 * Timestamp.second)

/-! ## What the clients await -/

inductive Call
  /-- The next question. -/
  | take
  /-- The model, behind its network. -/
  | ask (request : LlmRequest)
  | now
  | get (requestHash : String)
  | append (recording : Recording)
  | reserveUsd (worst : Decimal)
  | releaseUsd (worst : Decimal)
  | recordUsd (cost worst : Decimal)
  /-- Answered once the worst case fits the day. -/
  | reserveTokens (worst : ℕ)
  | releaseTokens (worst : ℕ)
  | recordTokens (tokens worst : ℕ)

abbrev Call.Value : Call → Type
  | take => LlmRequest
  | ask _ => LlmReply
  | now => Timestamp
  | get _ => Option Recording
  | append _ => Bool
  | reserveUsd _ | releaseUsd _ | recordUsd .. | reserveTokens _ | releaseTokens _
  | recordTokens .. => Unit

abbrev calls : Async.Interface := ⟨Call, Call.Value⟩

abbrev Program (α : Type) := Async.Task calls LlmError α

/-- Await one call. -/
def await (c : Call) : Program c.Value := Async.Task.ask (I := calls) c

/-! ## The clients, innermost first -/

def LlmRequest.promptChars (r : LlmRequest) : ℕ := r.system.length + r.user.length

/-- Raises rather than degrading. -/
def BudgetedClient.complete (request : LlmRequest) : Program LlmReply := do
  let worst ← .lift (cfg.prices.costUsd request.model request.promptChars request.maxOutputTokens)
  await (.reserveUsd worst)
  match ← (await (.ask request)).attempt with
  | .error e => do
      await (.releaseUsd worst)
      .raise e
  | .ok reply => do
      let cost ← .lift (cfg.prices.costUsd reply.model reply.tokensIn reply.tokensOut)
      await (.recordUsd cost worst)
      pure reply

/-- One call is never larger than a whole day's allowance. -/
def DailyTokenCap.reserve (worst : ℕ) : Program Unit :=
  if cfg.dailyCap < worst then .raise (.valueError "one call is larger than a whole day's allowance")
  else await (.reserveTokens worst)

def TokenCappedClient.complete (request : LlmRequest) : Program LlmReply := do
  let worst := request.promptChars + request.maxOutputTokens
  DailyTokenCap.reserve cfg worst
  match ← (BudgetedClient.complete cfg request).attempt with
  | .error e => do
      await (.releaseTokens worst)
      .raise e
  | .ok reply => do
      await (.recordTokens (reply.tokensIn + reply.tokensOut) worst)
      pure reply

def recordingOf (request : LlmRequest) (reply : LlmReply) (now : Timestamp) : Recording where
  requestHash := request.requestHash cfg
  stage := request.stage
  model := request.model
  promptVersion := request.promptVersion
  promptHash := request.promptHash
  asOf := request.asOf
  text := reply.text
  tokensIn := reply.tokensIn
  tokensOut := reply.tokensOut
  answeredBy := reply.model
  recordedAt := now

/-- A recorded question is answered from the journal. -/
def JournaledClient.complete (request : LlmRequest) : Program LlmReply := do
  match ← await (.get (request.requestHash cfg)) with
  | some recorded => pure recorded.reply
  | none =>
      if cfg.record then do
        let reply ← TokenCappedClient.complete cfg request
        let now ← await .now
        let _ ← await (.append (recordingOf cfg request reply now))
        pure reply
      else .raise (.notRecorded request.stage (request.requestHash cfg))

/-- Nothing from before a model's declared cutoff and its margin. -/
def CutoffGuardedClient.check (request : LlmRequest) : Except LlmError Unit :=
  match cfg.earliestAllowed request.model with
  | none => .error (.valueError s!"no declared knowledge cutoff for model '{request.model}'")
  | some earliest =>
      if utcDay request.asOf < earliest then .error (.leakage (utcDay request.asOf) earliest)
      else .ok ()

def CutoffGuardedClient.complete (request : LlmRequest) : Program LlmReply := do
  .lift (check cfg request)
  JournaledClient.complete cfg request

/-- A task that asks one question. -/
def serve : Program LlmReply := do
  let request ← await .take
  CutoffGuardedClient.complete cfg request

/-! ## The world -/

/-- What a question of these recordings has cost. -/
def journalSpendUsd (recordings : List Recording) : Decimal :=
  ((recordings.filter fun r => r.model = cfg.counted).map fun r =>
    match cfg.prices r.model with
    | some p => p.costUsd r.tokensIn r.tokensOut
    | none => 0).sum

/-- The tokens these recordings used on a day. -/
def usageByDay (recordings : List Recording) (day : ℤ) : ℤ :=
  ((recordings.filter fun r => r.model = cfg.counted ∧ utcDay r.recordedAt = day).map fun r =>
    ((r.tokensIn + r.tokensOut : ℕ) : ℤ)).sum

structure UsdBudget where
  spentUsd : Decimal
  calls : ℕ
  reservedUsd : Decimal

structure TokenUse where
  used : ℤ → ℤ
  reserved : ℤ

structure World where
  clock : Timestamp
  /-- In the order they were recorded. -/
  journal : List Recording
  budget : UsdBudget
  tokens : TokenUse
  /-- What each task has set aside, and what it has paid for and not yet
  recorded. -/
  heldUsd : List (ℕ × Decimal)
  heldTokens : List (ℕ × ℤ)
  unwritten : List (ℕ × Decimal)
  /-- What the journal held when the process started, and when that was. -/
  opened : List Recording
  started : Timestamp

/-- A new process, over what is recorded. -/
def World.start (time : Timestamp) (journal : List Recording) : World where
  clock := time
  journal := journal
  budget := ⟨journalSpendUsd cfg journal, 0, 0⟩
  tokens := ⟨usageByDay cfg journal, 0⟩
  heldUsd := []
  heldTokens := []
  unwritten := []
  opened := journal
  started := time

namespace World

def get (w : World) (requestHash : String) : Option Recording :=
  w.journal.find? fun r => r.requestHash = requestHash

def today (w : World) : ℤ := utcDay w.clock

def reserveUsd (w : World) (t : ℕ) (worst : Decimal) : World :=
  { w with
    budget := { w.budget with reservedUsd := w.budget.reservedUsd + worst }
    heldUsd := (t, worst) :: w.heldUsd }

def releaseUsd (w : World) (t : ℕ) (worst : Decimal) : World :=
  { w with
    budget := { w.budget with reservedUsd := w.budget.reservedUsd - worst }
    heldUsd := w.heldUsd.erase (t, worst) }

def recordUsd (w : World) (t : ℕ) (cost worst : Decimal) : World :=
  { w with
    budget := ⟨w.budget.spentUsd + cost, w.budget.calls + 1, w.budget.reservedUsd - worst⟩
    heldUsd := w.heldUsd.erase (t, worst)
    unwritten := (t, cost) :: w.unwritten }

def reserveTokens (w : World) (t : ℕ) (worst : ℕ) : World :=
  { w with
    tokens := { w.tokens with reserved := w.tokens.reserved + worst }
    heldTokens := (t, (worst : ℤ)) :: w.heldTokens }

def releaseTokens (w : World) (t : ℕ) (worst : ℕ) : World :=
  { w with
    tokens := { w.tokens with reserved := w.tokens.reserved - worst }
    heldTokens := w.heldTokens.erase (t, (worst : ℤ)) }

def recordTokens (w : World) (t : ℕ) (tokens worst : ℕ) : World :=
  { w with
    tokens :=
      { used := Function.update w.tokens.used w.today (w.tokens.used w.today + tokens)
        reserved := w.tokens.reserved - worst }
    heldTokens := w.heldTokens.erase (t, (worst : ℤ)) }

/-- The first answer to a question stands. -/
def append (w : World) (t : ℕ) (cost : Decimal) (r : Recording) : World :=
  { w with
    journal := if (w.get r.requestHash).isSome then w.journal else w.journal ++ [r]
    unwritten := w.unwritten.erase (t, cost) }

/-- How a call of task `t` may end, and the world it leaves. -/
inductive Answers (cfg : Settings) (admits : LlmRequest → LlmReply → Prop) (t : ℕ) (w : World) :
    (c : Call) → Except LlmError c.Value → World → Prop
  | take {request : LlmRequest} : Answers cfg admits t w .take (.ok request) w
  | replied {request : LlmRequest} {reply : LlmReply} (h : admits request reply) :
      Answers cfg admits t w (.ask request) (.ok reply) w
  | failed {request : LlmRequest} (e : LlmError) : Answers cfg admits t w (.ask request) (.error e) w
  | time : Answers cfg admits t w .now (.ok w.clock) w
  | found {requestHash : String} : Answers cfg admits t w (.get requestHash)
      (.ok (w.get requestHash)) w
  | appended {r : Recording} : Answers cfg admits t w (.append r)
      (.ok !(w.get r.requestHash).isSome)
      (w.append t (((cfg.prices r.answeredBy).map fun p =>
        p.costUsd r.tokensIn r.tokensOut).getD 0) r)
  | reservedUsd {worst : Decimal}
      (h : w.budget.spentUsd + w.budget.reservedUsd + worst ≤ cfg.ceilingUsd) :
      Answers cfg admits t w (.reserveUsd worst) (.ok ()) (w.reserveUsd t worst)
  | refusedUsd {worst : Decimal}
      (h : cfg.ceilingUsd < w.budget.spentUsd + w.budget.reservedUsd + worst) :
      Answers cfg admits t w (.reserveUsd worst)
        (.error (.budgetRefused worst (w.budget.spentUsd + w.budget.reservedUsd) cfg.ceilingUsd)) w
  | releasedUsd {worst : Decimal} : Answers cfg admits t w (.releaseUsd worst) (.ok ())
      (w.releaseUsd t worst)
  | recordedUsd {cost worst : Decimal} : Answers cfg admits t w (.recordUsd cost worst) (.ok ())
      (w.recordUsd t cost worst)
  | reservedTokens {worst : ℕ}
      (h : w.tokens.used w.today + w.tokens.reserved + worst ≤ cfg.dailyCap) :
      Answers cfg admits t w (.reserveTokens worst) (.ok ()) (w.reserveTokens t worst)
  /-- The task is cancelled while it waits for the day to turn. -/
  | gaveUp {worst : ℕ} : Answers cfg admits t w (.reserveTokens worst) (.error .cancelled) w
  | releasedTokens {worst : ℕ} : Answers cfg admits t w (.releaseTokens worst) (.ok ())
      (w.releaseTokens t worst)
  | recordedTokens {tokens worst : ℕ} : Answers cfg admits t w (.recordTokens tokens worst) (.ok ())
      (w.recordTokens t tokens worst)

end World

/-- Time passes between calls. A new process counts what is recorded. -/
def platform (admits : LlmRequest → LlmReply → Prop) : Async.Platform calls LlmError World where
  step t w c a w' := ∃ time, w.clock ≤ time ∧
    World.Answers cfg admits t { w with clock := time } c a w'
  restart w := World.start cfg w.clock w.journal

end Llm

end Emporos
