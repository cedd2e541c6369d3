import Emporos.Async.Alone
import Emporos.EventTrader.Ceilings
/-!
# Record once, replay forever

A run whose questions were all answered while the journal recorded, and
the same run answered from that journal alone: every question gets the
answer it got, so the run ends the same, whatever it does with its answers
and whichever questions it asks for them; and the second run asks the
model nothing, spends nothing and records nothing.
-/

namespace Emporos

namespace Llm

open Async

variable {cfg : Settings} {admits : LlmRequest → LlmReply → Prop} {α : Type}

/-- The clients of a replay: `record=False`. -/
def Settings.replaying (cfg : Settings) : Settings := { cfg with record := false }

/-- What a decision is written against: questions and their answers. -/
abbrev questions : Interface := ⟨LlmRequest, fun _ => LlmReply⟩

/-- How the calls of one run are answered. -/
abbrev Handler : Type := (c : Call) → World → Except LlmError c.Value × World

/-- Each answer is one the world may give. -/
def Handler.Within (h : Handler) (cfg : Settings) (admits : LlmRequest → LlmReply → Prop) : Prop :=
  ∀ c w, (platform cfg admits).step 0 w c (h c w).1 (h c w).2

/-- A question, asked through the clients. -/
def client (cfg : Settings) (h : Handler) (request : LlmRequest) (w : World) :
    Except LlmError LlmReply × World :=
  (CutoffGuardedClient.complete cfg request).exec h w

/-- Every question of the run is answered. -/
def Answered (cfg : Settings) (h : Handler) : Task questions LlmError α → World → Prop
  | .done _, _ => True
  | .call request k, w =>
      (client cfg h request w).1.isOk = true ∧
        Answered cfg h (k (client cfg h request w).1) (client cfg h request w).2

instance decidableAnswered (h : Handler) :
    (p : Task questions LlmError α) → (w : World) → Decidable (Answered cfg h p w)
  | .done _, _ => .isTrue trivial
  | .call request k, w =>
      have := decidableAnswered h (k (client cfg h request w).1) (client cfg h request w).2
      inferInstanceAs (Decidable (_ ∧ _))

theorem exists_of_isOk {x : Except LlmError LlmReply} (h : x.isOk = true) :
    ∃ reply, x = .ok reply := by
  cases x with
  | error e => cases h
  | ok reply => exact ⟨reply, rfl⟩

/-! ## What one call does to the journal -/

/-- The answers in the journal of `w` are in that of `w'`. -/
def Extends (w w' : World) : Prop := ∀ k r, w.get k = some r → w'.get k = some r

theorem Extends.refl (w : World) : Extends w w := fun _ _ h => h

theorem Extends.trans {w₁ w₂ w₃ : World} (h : Extends w₁ w₂) (h' : Extends w₂ w₃) :
    Extends w₁ w₃ := fun k r hr => h' k r (h k r hr)

/-- The journal, and what was spent. -/
structure SameBooks (w w' : World) : Prop where
  journal : w'.journal = w.journal
  budget : w'.budget = w.budget
  tokens : w'.tokens = w.tokens

theorem SameBooks.refl (w : World) : SameBooks w w := ⟨rfl, rfl, rfl⟩

theorem SameBooks.trans {w₁ w₂ w₃ : World} (h : SameBooks w₁ w₂) (h' : SameBooks w₂ w₃) :
    SameBooks w₁ w₃ :=
  ⟨h'.journal.trans h.journal, h'.budget.trans h.budget, h'.tokens.trans h.tokens⟩

theorem SameBooks.get {w w' : World} (h : SameBooks w w') (k : String) : w'.get k = w.get k := by
  unfold World.get
  rw [h.journal]

/-- The old answers stay. -/
theorem extends_append (w : World) (t : ℕ) (cost : Decimal) (r : Recording) :
    Extends w (w.append t cost r) := by
  intro k x hx
  change List.find? _ (if (w.get r.requestHash).isSome then w.journal else w.journal ++ [r]) = _
  split
  · exact hx
  · rw [List.find?_append, show w.journal.find? (fun r => r.requestHash = k) = some x from hx]
    rfl

/-- A new answer is found under its question. -/
theorem get_append_self {w : World} {t : ℕ} {cost : Decimal} (r : Recording)
    (hnone : w.get r.requestHash = none) : (w.append t cost r).get r.requestHash = some r := by
  change List.find? _ (if (w.get r.requestHash).isSome then w.journal else w.journal ++ [r]) = _
  rw [hnone, if_neg (by simp), List.find?_append,
    show w.journal.find? (fun x => x.requestHash = r.requestHash) = none from hnone,
    Option.none_or, List.find?_cons_of_pos (by simp)]

/-- No call forgets an answer. -/
theorem extends_of_answers {t : ℕ} {w w' : World} {c : Call} {a : Except LlmError c.Value}
    (hs : World.Answers cfg admits t w c a w') : Extends w w' := by
  cases hs with
  | appended => exact extends_append _ _ _ _
  | _ => exact .refl _

theorem extends_of_step {t : ℕ} {w w' : World} {c : Call} {a : Except LlmError c.Value}
    (hs : (platform cfg admits).step t w c a w') : Extends w w' := by
  obtain ⟨time, -, hs⟩ := hs
  exact fun k r hr => extends_of_answers hs k r hr

/-- No program forgets an answer. -/
theorem extends_exec {h : Handler} (hw : h.Within cfg admits) (p : Program α) (w : World) :
    Extends w (p.exec h w).2 := by
  induction p generalizing w with
  | done r => exact .refl w
  | call c k ih =>
      rw [Task.exec_call]
      exact (extends_of_step (hw c w)).trans (ih _ _)

/-- Nor does a run. -/
theorem extends_run {h : Handler} (hw : h.Within cfg admits) (p : Task questions LlmError α)
    (w : World) : Extends w (p.exec (client cfg h) w).2 := by
  induction p generalizing w with
  | done r => exact .refl w
  | call request k ih =>
      rw [Task.exec_call]
      exact (extends_exec hw (CutoffGuardedClient.complete cfg request) w).trans (ih _ _)

/-! ## One question, recorded and replayed -/

/-- **The rule of a call.** -/
theorem ends_call {h : Handler} (hw : h.Within cfg admits) {c : Call} {w : World}
    {Q : Except LlmError c.Value → World → Prop}
    (hQ : ∀ time a w', World.Answers cfg admits 0 { w with clock := time } c a w' → Q a w') :
    Task.Ends h (await c) Q w := by
  obtain ⟨time, -, hs⟩ := hw c w
  exact hQ time _ _ hs

/-- A call that does not write the journal. -/
def Unwritten : Call → Prop
  | .append _ => False
  | _ => True

theorem ends_sameJournal {h : Handler} (hw : h.Within cfg admits) {p : Program α}
    (hp : p.Only Unwritten) (w : World) :
    Task.Ends h p (fun _ w' => w'.journal = w.journal) w := by
  induction p generalizing w with
  | done r => rfl
  | call c k ih =>
      refine (ih _ (hp.2 _) (h c w).2).trans ?_
      obtain ⟨time, -, hs⟩ := hw c w
      have honly := hp.1
      generalize h c w = answer at hs
      obtain ⟨a, w'⟩ := answer
      cases hs with
      | appended => exact honly.elim
      | _ => rfl

theorem only_tokenCapped (request : LlmRequest) :
    (TokenCappedClient.complete cfg request).Only Unwritten := by
  have hbudgeted : (BudgetedClient.complete cfg request).Only Unwritten := by
    refine Task.Only.bind (Task.only_done _) fun worst => Task.Only.bind (Task.only_ask trivial)
      fun _ => Task.Only.bind (Task.Only.attempt (Task.only_ask trivial)) fun res => ?_
    cases res with
    | error e => exact Task.Only.bind (Task.only_ask trivial) fun _ => Task.only_done _
    | ok reply =>
        exact Task.Only.bind (Task.only_done _) fun cost => Task.Only.bind (Task.only_ask trivial)
          fun _ => Task.only_done _
  refine Task.Only.bind ?_ fun _ => Task.Only.bind (Task.Only.attempt hbudgeted) fun res => ?_
  · unfold DailyTokenCap.reserve
    split
    · exact Task.only_done _
    · exact Task.only_ask trivial
  · cases res with
    | error e => exact Task.Only.bind (Task.only_ask trivial) fun _ => Task.only_done _
    | ok reply => exact Task.Only.bind (Task.only_ask trivial) fun _ => Task.only_done _

/-- The answer the journal of `w` has for a question. -/
def Recorded (cfg : Settings) (request : LlmRequest) (reply : LlmReply) (w : World) : Prop :=
  ∃ r, w.get (request.requestHash cfg) = some r ∧ r.reply = reply

theorem Recorded.mono {request : LlmRequest} {reply : LlmReply} {w w' : World}
    (h : Recorded cfg request reply w) (he : Extends w w') : Recorded cfg request reply w' := by
  obtain ⟨r, hr, hreply⟩ := h
  exact ⟨r, he _ _ hr, hreply⟩

/-- An answer that came is recorded. -/
theorem ends_journaled {h : Handler} (hw : h.Within cfg admits) (request : LlmRequest) (w : World) :
    Task.Ends h (JournaledClient.complete cfg request)
      (fun res w' => ∀ reply, res = .ok reply → Recorded cfg request reply w') w := by
  refine (Task.ends_bind _ _).mpr (ends_call hw fun time a w₁ hs => ?_)
  cases hs with
  | found =>
      cases hfound : World.get { w with clock := time } (request.requestHash cfg) with
      | some r =>
          intro reply hr
          obtain rfl := Except.ok.inj hr
          exact ⟨r, hfound, rfl⟩
      | none =>
          change Task.Ends (I := calls) (ε := LlmError) (W := World) h
            (if cfg.record then _ else _) _ _
          split
          · refine (Task.ends_bind _ _).mpr ((ends_sameJournal hw (only_tokenCapped request)
              { w with clock := time }).mono fun res w₂ hjournal => ?_)
            cases res with
            | error e => exact fun _ hr => nomatch hr
            | ok reply =>
                refine (Task.ends_bind _ _).mpr (ends_call hw fun time₂ a w₃ hs => ?_)
                cases hs with
                | time =>
                    refine (Task.ends_bind _ _).mpr (ends_call hw fun time₃ a w₄ hs => ?_)
                    cases hs with
                    | appended =>
                        intro reply' hr
                        obtain rfl : reply = reply' := Except.ok.inj hr
                        refine ⟨recordingOf cfg request reply time₂, ?_, rfl⟩
                        refine get_append_self _ ?_
                        change List.find? _ w₂.journal = none
                        rw [hjournal]
                        exact hfound
          · exact fun _ hr => nomatch hr

/-- **An answered question passed the guard, and its answer is recorded.** -/
theorem recorded_of_client {h : Handler} (hw : h.Within cfg admits) {request : LlmRequest}
    {reply : LlmReply} {w : World} (hok : (client cfg h request w).1 = .ok reply) :
    CutoffGuardedClient.check cfg request = .ok () ∧
      Recorded cfg request reply (client cfg h request w).2 := by
  unfold client CutoffGuardedClient.complete at hok ⊢
  cases hcheck : CutoffGuardedClient.check cfg request with
  | error e =>
      rw [hcheck] at hok
      cases hok
  | ok _ =>
      rw [hcheck] at hok
      exact ⟨rfl, ends_journaled hw request w reply hok⟩

/-- **A recorded question is answered from the journal**, and nothing else
happens. -/
theorem client_of_recorded {h : Handler} (hw : h.Within cfg admits) {request : LlmRequest}
    {reply : LlmReply} {w : World} (hcheck : CutoffGuardedClient.check cfg request = .ok ())
    (hr : Recorded cfg request reply w) :
    (client cfg h request w).1 = .ok reply ∧ SameBooks w (client cfg h request w).2 := by
  suffices hends : Task.Ends h (CutoffGuardedClient.complete cfg request)
      (fun res w' => res = .ok reply ∧ SameBooks w w') w from hends
  unfold CutoffGuardedClient.complete
  rw [hcheck]
  refine (Task.ends_bind _ _).mpr ((Task.ends_lift _).mpr ?_)
  refine (Task.ends_bind _ _).mpr (ends_call hw fun time a w₁ hs => ?_)
  obtain ⟨r, hget, rfl⟩ := hr
  cases hs with
  | found =>
      have hget' : World.get { w with clock := time } (request.requestHash cfg) = some r := hget
      rw [hget']
      exact ⟨rfl, rfl, rfl, rfl⟩

/-- Whether questions are recorded is no matter to the world. -/
theorem answers_replaying {t : ℕ} {w w' : World} {c : Call} {a : Except LlmError c.Value}
    (hs : World.Answers cfg admits t w c a w') :
    World.Answers cfg.replaying admits t w c a w' := by
  cases hs with
  | take => exact .take
  | replied h => exact .replied h
  | failed e => exact .failed e
  | time => exact .time
  | found => exact .found
  | appended => exact .appended
  | reservedUsd h => exact .reservedUsd h
  | refusedUsd h => exact .refusedUsd h
  | releasedUsd => exact .releasedUsd
  | recordedUsd => exact .recordedUsd
  | reservedTokens h => exact .reservedTokens h
  | gaveUp => exact .gaveUp
  | releasedTokens => exact .releasedTokens
  | recordedTokens => exact .recordedTokens

theorem Handler.Within.replaying {h : Handler} (hw : h.Within cfg admits) :
    h.Within cfg.replaying admits := by
  intro c w
  obtain ⟨time, hle, hs⟩ := hw c w
  exact ⟨time, hle, answers_replaying hs⟩

/-! ## The run -/

namespace TwoAsk

/-- Where the world does not answer, the caller is told so. -/
def refusal (c : Call) (w : World) : Except LlmError c.Value × World :=
  match c with
  | .reserveUsd worst => (.error (.budgetRefused worst
      (w.budget.spentUsd + w.budget.reservedUsd) settings.ceilingUsd), w)
  | _ => (.error .cancelled, w)

def handler : Handler := fun c w => (respond 0 w c).getD (refusal c w)

theorem handler_within : handler.Within settings Gives := by
  intro c w
  unfold handler
  cases hr : respond 0 w c with
  | some answer => exact respond_within 0 w c _ _ hr
  | none =>
      refine ⟨w.clock, le_rfl, ?_⟩
      cases c with
      | ask request => exact .failed _
      | reserveTokens worst => exact .gaveUp
      | reserveUsd worst =>
          simp only [respond, ite_eq_right_iff, reduceCtorEq, imp_false, not_le] at hr
          exact .refusedUsd hr
      | _ => cases hr

def again : LlmRequest := { question with user := "[]" }

/-- Asks again where the answer is an empty object. -/
def decider : Task questions LlmError ℕ := do
  let first ← Task.ask (I := questions) question
  if first.text = "\x7b\x7d" then do
    let second ← Task.ask (I := questions) again
    pure (first.tokensOut + second.tokensOut)
  else pure 0

/-- What the recording run leaves. -/
def left : World := (decider.exec (client settings handler) (World.start settings 0 [])).2

end TwoAsk

end Llm

end Emporos
