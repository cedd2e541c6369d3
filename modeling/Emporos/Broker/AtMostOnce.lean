import Emporos.Async.Schedule
import Emporos.Broker.Transport
import Mathlib.Tactic.Linarith
/-!
# A mutating request is sent at most once

Of the attempts a task makes for a request that changes something at the
broker, at most one leaves the process, however the tasks interleave:
a retry follows only a failure to connect. And what the caller is told is
what that attempt came to, so a failure that is called retryable, other
than a rejected session, means that nothing was sent.
-/

namespace Emporos

namespace Async.Contract

variable {I : Interface} {ε α W : Type} {P : Platform I ε W} {C : Contract P} {t : ℕ} {w : W}

/-- A task is safe, and ends where it began, as far as what its calls and
the others keep is enough to make them. -/
theorem Safe.of_kept {p : Task I ε α} {on : I.Call → Prop} {F : W → Prop} (hF : F w)
    (honly : p.Only on) (hrely : ∀ {w w'}, C.rely t w w' → F w → F w')
    (hguar : ∀ {w c}, F w → on c → C.guar t w c)
    (hcall : ∀ {w c a w'}, P.step t w c a w' → on c → F w → F w') :
    C.Safe t p (fun _ w' => F w') w := by
  induction p generalizing w with
  | done r => exact hF
  | call c k ih =>
      intro w' hinv hr
      have hF' := hrely hr hF
      exact ⟨hguar hF' honly.1, fun a w'' hstep _ => ih a (hcall hstep honly.1 hF') (honly.2 a)⟩

end Async.Contract

namespace AngelOne

open Async

variable {cfg : Stack} {allowed : Caller → Prop} {t u : ℕ} {w w' : World}

/-! ## What a task has sent -/

/-- The request may have reached the broker. -/
def Attempt.Reached (a : Attempt) : Prop :=
  match a.reply with
  | some (.raised failure) => ¬ failure.error.NeverSent
  | _ => True

instance : DecidablePred Attempt.Reached := fun a => by
  unfold Attempt.Reached
  split <;> infer_instance

/-- The attempts of task `t` at an endpoint. -/
def World.own (w : World) (t : ℕ) (e : Endpoint) : List Attempt :=
  (w.attempts t).filter fun a => a.request.endpoint = e

/-- None of the attempts left the process. -/
def Unsent (own : List Attempt) : Prop := ∀ a ∈ own, ¬ a.Reached

/-- How often a request may be tried: a read may be replayed under a new
session. -/
def tries (cfg : Stack) (r : RestRequest) : ℕ :=
  (if r.endpoint.mutates then 1 else 2) * (cfg.policy r.endpoint.group).maxAttempts

theorem own_attempted (r : RestRequest) (reply : Option HttpReply) (e : Endpoint) :
    (w.attempted cfg t r reply).own t e =
      w.own t e ++ if r.endpoint = e then [⟨r, reply⟩] else [] := by
  rw [World.own, World.attempted_attempts, Function.update_self, List.filter_append]
  by_cases h : r.endpoint = e
  · simp [World.own, h]
  · simp [World.own, h]

theorem own_attempted_of_ne {r : RestRequest} {reply : Option HttpReply} {e : Endpoint}
    (h : u ≠ t) : (w.attempted cfg t r reply).own u e = w.own u e := by
  rw [World.own, World.attempted_attempts, Function.update_of_ne h, World.own]

/-! ## The contract -/

/-- Every request is within its tries, and a mutating one has reached the
broker at most once. -/
def Frugal (cfg : Stack) (w : World) : Prop :=
  ∀ t r, w.asked t = some (.send r) → (w.own t r.endpoint).length ≤ tries cfg r ∧
    (r.endpoint.mutates → ((w.own t r.endpoint).filter Attempt.Reached).length ≤ 1)

/-- Task `t` is at request `r`, with room for `n` more attempts, and has
not had a mutating one out. -/
structure Room (cfg : Stack) (t : ℕ) (r : RestRequest) (n : ℕ) (w : World) : Prop where
  asked : w.asked t = some (.send r)
  tries : (w.own t r.endpoint).length + n ≤ tries cfg r
  unsent : r.endpoint.mutates → Unsent (w.own t r.endpoint)

/-- What a task must be sure of before a call. -/
def Permit (cfg : Stack) (t : ℕ) (w : World) : Call → Prop
  | .request r' _ => ∀ r, w.asked t = some (.send r) → r'.endpoint = r.endpoint →
      Room cfg t r 1 w
  | _ => True

/-- Nothing of task `t` has changed. -/
structure SameFor (t : ℕ) (w w' : World) : Prop where
  asked : w'.asked t = w.asked t
  attempts : w'.attempts t = w.attempts t

theorem SameFor.refl (t : ℕ) (w : World) : SameFor t w w := ⟨rfl, rfl⟩

theorem SameFor.trans {w₁ w₂ w₃ : World} (h : SameFor t w₁ w₂) (h' : SameFor t w₂ w₃) :
    SameFor t w₁ w₃ :=
  ⟨h'.asked.trans h.asked, h'.attempts.trans h.attempts⟩

theorem SameFor.at (w : World) (time : Timestamp) : SameFor t w { w with clock := time } :=
  ⟨rfl, rfl⟩

theorem SameFor.own (h : SameFor t w w') (e : Endpoint) : w'.own t e = w.own t e := by
  unfold World.own
  rw [h.attempts]

theorem Room.of_same {r : RestRequest} {n : ℕ} (h : SameFor t w w') (hroom : Room cfg t r n w) :
    Room cfg t r n w' where
  asked := h.asked.trans hroom.asked
  tries := by rw [h.own]; exact hroom.tries
  unsent hm := by rw [h.own]; exact hroom.unsent hm

theorem Permit.of_same {c : Call} (h : SameFor t w w') (hp : Permit cfg t w c) :
    Permit cfg t w' c := by
  cases c with
  | request r' headers => exact fun r hasked he => (hp r (h.asked ▸ hasked) he).of_same h
  | _ => trivial

/-- A call of one task changes nothing of another. -/
theorem SameFor.of_answers {c : Call} {a : Except StackError c.Value}
    (h : World.Answers cfg allowed t w c a w') (hu : u ≠ t) : SameFor u w w' := by
  cases h with
  | take _ => exact ⟨Function.update_of_ne hu .., Function.update_of_ne hu ..⟩
  | replied _ => exact ⟨rfl, Function.update_of_ne hu ..⟩
  | dropped => exact ⟨rfl, Function.update_of_ne hu ..⟩
  | _ => exact ⟨rfl, rfl⟩

theorem frugal_of_same (h : Frugal cfg w) (hsame : SameFor u w w') {r : RestRequest}
    (hasked : w'.asked u = some (.send r)) :
    (w'.own u r.endpoint).length ≤ tries cfg r ∧
      (r.endpoint.mutates → ((w'.own u r.endpoint).filter Attempt.Reached).length ≤ 1) := by
  rw [hsame.own]
  exact h u r (hsame.asked ▸ hasked)

/-- One more attempt, where there is room. -/
theorem frugal_attempted {r' : RestRequest} {headers : List (String × String)}
    {reply : Option HttpReply} (h : Frugal cfg w)
    (hp : Permit cfg t w (.request r' headers)) :
    Frugal cfg (w.attempted cfg t r' reply) := by
  intro u r hasked
  by_cases hu : u = t
  · subst hu
    have hasked' : w.asked u = some (.send r) := hasked
    rw [own_attempted]
    by_cases he : r'.endpoint = r.endpoint
    · have hroom := hp r hasked' he
      rw [if_pos he]
      refine ⟨?_, fun hm => ?_⟩
      · rw [List.length_append]
        exact hroom.tries
      · rw [List.filter_append, List.filter_eq_nil_iff.mpr fun a ha => by
          simpa using hroom.unsent hm a ha]
        exact (List.length_filter_le _ _).trans_eq rfl
    · rw [if_neg he, List.append_nil]
      exact h u r hasked'
  · rw [own_attempted_of_ne hu]
    exact h u r hasked

theorem frugal_answers {c : Call} {a : Except StackError c.Value} (h : Frugal cfg w)
    (hp : Permit cfg t w c) (hs : World.Answers cfg allowed t w c a w') : Frugal cfg w' := by
  cases hs with
  | take _ =>
      intro u r hasked
      by_cases hu : u = t
      · subst hu
        simp [World.own]
      · exact frugal_of_same h ⟨Function.update_of_ne hu .., Function.update_of_ne hu ..⟩ hasked
  | replied _ => exact frugal_attempted h hp
  | dropped => exact frugal_attempted h hp
  | _ => exact h

theorem Frugal.at (h : Frugal cfg w) (time : Timestamp) :
    Frugal cfg { w with clock := time } := h

/-- **The contract of the wire.** -/
def wireContract (cfg : Stack) (allowed : Caller → Prop) : Contract (platform cfg allowed) where
  inv := Frugal cfg
  rely t w w' := SameFor t w w'
  guar := Permit cfg
  rely_refl := SameFor.refl
  rely_trans := SameFor.trans
  step_inv h hp hs := by
    obtain ⟨time, -, hs⟩ := hs
    exact frugal_answers (Frugal.at h time) (hp.of_same (.at _ _)) hs
  step_rely _ _ hs hu := by
    obtain ⟨time, -, hs⟩ := hs
    have hsame := SameFor.of_answers hs hu
    exact ⟨hsame.asked, hsame.attempts⟩
  restart_inv h := h

/-! ## What a reply to a mutating request says -/

/-- The errors of a reply that says nothing of the session: none is
retryable for a mutating request. -/
def Final (e : BrokerError) : Prop := e.kind = .sessionExpired ∨ e.classification ≠ .retryable

theorem final_rateLimited {endpoint : Endpoint} (hm : endpoint.mutates) (envelope : Envelope)
    (status : ℕ) : Final (rateLimited envelope endpoint status) := by
  refine .inr ?_
  simp [rateLimited, BrokerError.rateLimited, hm]

theorem final_rejectionError (r : RejectionError) (message : String) (code : Option String)
    (status : Option ℕ) : Final (r.error message code status) := by
  cases r <;> exact .inr (by simp [RejectionError.error, BrokerError.auth, BrokerError.rejected])

theorem final_transport (message : String) (code : Option String) (status : Option ℕ) :
    Final (.transport message code status) := .inr (by simp [BrokerError.transport])

theorem final_protocol (message : String) (code : Option String) (status : Option ℕ) :
    Final (.protocol message code status) := .inr (by simp [BrokerError.protocol])

theorem final_recognised {codec : Codec} {endpoint : Endpoint} (hm : endpoint.mutates)
    {envelope : Option Envelope} {status : ℕ} {e : BrokerError}
    (h : ErrorClassifier.recognised codec envelope endpoint status = some e) : Final e := by
  unfold ErrorClassifier.recognised at h
  obtain ⟨envelope, -, h⟩ := Option.bind_eq_some_iff.mp h
  split at h
  · cases h
  · obtain ⟨rule, hrule, h⟩ := Option.bind_eq_some_iff.mp h
    obtain rfl := Option.some.inj h
    have hmem := List.mem_of_find?_eq_some hrule
    simp only [defaultEnvelopeRules, List.mem_cons, List.not_mem_nil, or_false] at hmem
    rcases hmem with rfl | rfl | rfl
    · exact final_rateLimited hm _ _
    · exact .inl rfl
    · exact final_transport _ _ _

theorem final_forStatus {endpoint : Endpoint} (hm : endpoint.mutates)
    {envelope : Option Envelope} {status : ℕ} {e : BrokerError}
    (h : ErrorClassifier.forStatus status envelope endpoint = some e) : Final e := by
  unfold ErrorClassifier.forStatus at h
  split_ifs at h
  · exact Option.some.inj h ▸ final_transport _ _ _
  · exact Option.some.inj h ▸ final_rateLimited hm _ _
  · exact Option.some.inj h ▸ .inl rfl
  · exact Option.some.inj h ▸ final_rejectionError _ _ _ _
  · exact Option.some.inj h ▸ final_protocol _ _ _

theorem final_forEnvelope {endpoint : Endpoint} {envelope : Option Envelope} {status : ℕ}
    {e : BrokerError} (h : ErrorClassifier.forEnvelope status envelope endpoint = some e) :
    Final e := by
  unfold ErrorClassifier.forEnvelope at h
  split at h
  · exact Option.some.inj h ▸ final_protocol _ _ _
  · split at h
    · cases h
    · exact Option.some.inj h ▸ final_rejectionError _ _ _ _
    · exact Option.some.inj h ▸ final_protocol _ _ _

theorem final_forResponse {codec : Codec} {endpoint : Endpoint} (hm : endpoint.mutates)
    {envelope : Option Envelope} {status : ℕ} {e : BrokerError}
    (h : ErrorClassifier.forResponse codec status envelope endpoint = some e) : Final e := by
  rcases Option.or_eq_some_iff.mp h with h | ⟨-, h⟩
  · exact final_recognised hm h
  rcases Option.or_eq_some_iff.mp h with h | ⟨-, h⟩
  · exact final_forStatus hm h
  · exact final_forEnvelope h

/-- **A retryable failure of a mutating request is a failure to connect**,
or a rejected session. -/
theorem neverSent_of_retryable {codec : Codec} {endpoint : Endpoint} {reply : HttpReply}
    {e : BrokerError} (hm : endpoint.mutates) (ho : reply.outcome codec endpoint = .error e)
    (hc : e.classification = .retryable) (hk : e.kind ≠ .sessionExpired) :
    ∃ failure, reply = .raised failure ∧ failure.error.NeverSent := by
  cases reply with
  | raised failure =>
      refine ⟨failure, rfl, ?_⟩
      obtain rfl := Except.error.inj ho
      unfold ErrorClassifier.forTransportFailure at hc
      split at hc
      · cases hc
      · cases h : failure.error <;> simp_all [HttpxError.NeverSent, BrokerError.transport]
  | response status content =>
      exfalso
      unfold HttpReply.outcome at ho
      simp only at ho
      split at ho
      · rename_i failure hf
        obtain rfl := Except.error.inj ho
        exact (final_forResponse hm hf).elim hk fun h => h hc
      · cases ho

/-! ## What a send comes to -/

/-- **What the caller of a mutating request learns**: the last attempt was
answered and the caller gets what the reply says, or the task was
cancelled while it was out, and no attempt before it was sent; or none was
sent, and the request failed. -/
inductive Accounted (codec : Codec) (endpoint : Endpoint) :
    List Attempt → Except StackError Json → Prop
  | answered {before : List Attempt} {r : RestRequest} (reply : HttpReply)
      (hbefore : Unsent before) : Accounted codec endpoint (before ++ [⟨r, some reply⟩])
        ((reply.outcome codec endpoint).mapError .broker)
  | dropped {before : List Attempt} {r : RestRequest} (hbefore : Unsent before) :
      Accounted codec endpoint (before ++ [⟨r, none⟩]) (.error .cancelled)
  | unsent {own : List Attempt} {e : StackError} (h : Unsent own) :
      Accounted codec endpoint own (.error e)

/-- Where a mutating request may be retried, nothing was sent. -/
theorem Accounted.unsent_of_mayRetry {codec : Codec} {endpoint : Endpoint} {own : List Attempt}
    {e : BrokerError} (hm : endpoint.mutates) (hr : RetryDecider.mayRetry e endpoint)
    (h : Accounted codec endpoint own (.error (.broker e))) : Unsent own := by
  generalize hres : (Except.error (.broker e) : Except StackError Json) = res at h
  cases h with
  | @answered before r reply hbefore =>
      unfold RetryDecider.mayRetry at hr
      have hk : e.kind ≠ .sessionExpired := by
        intro hk
        simp [hk] at hr
      have hc : e.classification = .retryable := by
        cases hc : e.classification <;> simp_all
      cases ho : reply.outcome codec endpoint with
      | ok data => simp [ho, Except.mapError] at hres
      | error e' =>
          obtain rfl : e = e' := by simpa [ho, Except.mapError] using hres
          obtain ⟨failure, rfl, hnever⟩ := neverSent_of_retryable hm ho hc hk
          intro a ha
          rcases List.mem_append.mp ha with ha | ha
          · exact hbefore a ha
          · obtain rfl := List.mem_singleton.mp ha
            exact fun hreached => hreached hnever
  | dropped _ => cases hres
  | unsent h => exact h

/-- Task `t` has done with a send of `r`, and has room for `n` attempts. -/
structure Sent (cfg : Stack) (t : ℕ) (r : RestRequest) (n : ℕ) (res : Except StackError Json)
    (w : World) : Prop where
  asked : w.asked t = some (.send r)
  tries : (w.own t r.endpoint).length + n ≤ tries cfg r
  accounted : r.endpoint.mutates → Accounted cfg.codec r.endpoint (w.own t r.endpoint) res

theorem Sent.of_same {r : RestRequest} {n : ℕ} {res : Except StackError Json}
    (h : SameFor t w w') (hs : Sent cfg t r n res w) : Sent cfg t r n res w' where
  asked := h.asked.trans hs.asked
  tries := by rw [h.own]; exact hs.tries
  accounted hm := by rw [h.own]; exact hs.accounted hm

/-- A send that fails before the wire. -/
theorem Room.sent {r : RestRequest} {n m : ℕ} (h : Room cfg t r n w) (hle : m ≤ n)
    (e : StackError) : Sent cfg t r m (.error e) w where
  asked := h.asked
  tries := by have := h.tries; omega
  accounted hm := .unsent (h.unsent hm)

/-- Before a retry there is room for the rest. -/
theorem Sent.room {r : RestRequest} {n : ℕ} {e : BrokerError}
    (h : Sent cfg t r n (.error (.broker e)) w) (hr : RetryDecider.mayRetry e r.endpoint) :
    Room cfg t r n w where
  asked := h.asked
  tries := h.tries
  unsent hm := (h.accounted hm).unsent_of_mayRetry hm hr

/-- A call that is none of the two that change what a task keeps. -/
def Quiet : Call → Prop
  | .take | .request .. => False
  | _ => True

theorem permit_of_quiet {c : Call} (h : Quiet c) : Permit cfg t w c := by
  cases c with
  | request r headers => exact h.elim
  | _ => trivial

/-- Only the next thing to do and a round trip change what a task keeps. -/
theorem SameFor.of_quiet {c : Call} {a : Except StackError c.Value}
    (h : World.Answers cfg allowed t w c a w') (hq : Quiet c) : SameFor u w w' := by
  cases h with
  | take _ => exact hq.elim
  | replied _ => exact hq.elim
  | dropped => exact hq.elim
  | _ => exact ⟨rfl, rfl⟩

theorem SameFor.of_step {c : Call} {a : Except StackError c.Value} (hq : Quiet c)
    (hs : (platform cfg allowed).step t w c a w') : SameFor u w w' := by
  obtain ⟨time, -, hs⟩ := hs
  exact (SameFor.at w time).trans (.of_quiet hs hq)

/-- **The rule of a quiet call.** -/
theorem safe_quiet {c : Call} (hq : Quiet c) {Q : Except StackError c.Value → World → Prop}
    (h : ∀ a w', SameFor t w w' → Q a w') :
    (wireContract cfg allowed).Safe t (await c) Q w :=
  fun _ _ hr => ⟨permit_of_quiet hq, fun _ _ hs _ => h _ _ (hr.trans (.of_step hq hs))⟩

/-- **The rule of a round trip.** -/
theorem safe_request {r r' : RestRequest} {headers : List (String × String)} {n : ℕ}
    (he : r'.endpoint = r.endpoint) (h : Room cfg t r (n + 1) w) :
    (wireContract cfg allowed).Safe t (await (.request r' headers)) (fun a w' =>
      Sent cfg t r n (a.bind fun reply => (reply.outcome cfg.codec r'.endpoint).mapError .broker)
        w') w := by
  intro w₁ _ hr
  have h₁ := h.of_same hr
  refine ⟨fun r₂ hasked _ => ?_, fun a w₂ hs _ => ?_⟩
  · obtain rfl : r = r₂ := by
      have := h₁.asked.symm.trans hasked
      cases this
      rfl
    exact ⟨h₁.asked, by have := h₁.tries; omega, h₁.unsent⟩
  · obtain ⟨time, -, hs⟩ := hs
    have htries := h₁.tries
    cases hs with
    | replied reply =>
        refine ⟨h₁.asked, ?_, fun hm => ?_⟩
        · rw [own_attempted, if_pos he, List.length_append, List.length_singleton]
          change (w₁.own t r.endpoint).length + 1 + n ≤ _
          omega
        · rw [own_attempted, if_pos he, he]
          exact .answered reply (h₁.unsent hm)
    | dropped =>
        refine ⟨h₁.asked, ?_, fun hm => ?_⟩
        · rw [own_attempted, if_pos he, List.length_append, List.length_singleton]
          change (w₁.own t r.endpoint).length + 1 + n ≤ _
          omega
        · rw [own_attempted, if_pos he]
          exact .dropped (h₁.unsent hm)
    | cancelled hc => exact hc.elim

theorem safe_httpSend {r r' : RestRequest} {n : ℕ} (he : r'.endpoint = r.endpoint)
    (h : Room cfg t r (n + 1) w) :
    (wireContract cfg allowed).Safe t (HttpRestTransport.send cfg r') (Sent cfg t r n) w := by
  unfold HttpRestTransport.send
  split
  · exact h.sent (Nat.le_succ n) _
  · refine (Contract.safe_bind _ _).mpr ((safe_request he h).mono fun res w' hs => ?_)
    cases res with
    | ok reply => exact hs
    | error e => exact hs

theorem safe_limited {r r' : RestRequest} {n : ℕ} (he : r'.endpoint = r.endpoint)
    (h : Room cfg t r (n + 1) w) :
    (wireContract cfg allowed).Safe t (RateLimitedTransport.send cfg r') (Sent cfg t r n) w := by
  unfold RateLimitedTransport.send
  refine (Contract.safe_bind _ _).mpr (safe_quiet (c := .acquire _) trivial fun res w' hsame => ?_)
  cases res with
  | ok _ => exact safe_httpSend he (h.of_same hsame)
  | error e => exact (h.of_same hsame).sent (Nat.le_succ n) e

/-- **The rule of a retry.** -/
theorem safe_orRetry {r r' : RestRequest} {n m : ℕ} (he : r'.endpoint = r.endpoint) (hle : n ≤ m)
    {retry : BrokerError → Program Json} {res : Except StackError Json} (h : Sent cfg t r m res w)
    (hretry : ∀ e, Room cfg t r m w →
      (wireContract cfg allowed).Safe t (retry e) (Sent cfg t r n) w) :
    (wireContract cfg allowed).Safe t (RetryingTransport.orRetry r' retry res)
      (Sent cfg t r n) w := by
  have hend : Sent cfg t r n res w := { h with tries := by have := h.tries; omega }
  match res with
  | .ok data => exact hend
  | .error (.configuration _) => exact hend
  | .error .cancelled => exact hend
  | .error (.broker e) =>
      unfold RetryingTransport.orRetry
      by_cases hr : RetryDecider.mayRetry e r'.endpoint
      · simp only [hr]
        exact hretry e (h.room (he ▸ hr))
      · simp only [hr]
        exact hend

/-- **The attempts of a send**, by induction on how many are left. -/
theorem safe_attempts {r r' : RestRequest} {n : ℕ} (he : r'.endpoint = r.endpoint) (left : ℕ) :
    ∀ (attempt : ℕ) (w : World), Room cfg t r (left + 1 + n) w →
      (wireContract cfg allowed).Safe t (RetryingTransport.attempts cfg r' attempt left)
        (Sent cfg t r n) w := by
  induction left with
  | zero =>
      intro attempt w h
      unfold RetryingTransport.attempts
      rw [Nat.zero_add, Nat.add_comm] at h
      exact (Contract.safe_bind _ _).mpr ((Contract.safe_attempt _).mpr
        ((safe_limited he h).mono fun res w' hs =>
          safe_orRetry he le_rfl hs fun e hroom => hroom.sent le_rfl _))
  | succ left ih =>
      intro attempt w h
      unfold RetryingTransport.attempts
      have hle : left + 1 + 1 + n = (left + 1 + n) + 1 := by omega
      have hn : n ≤ left + 1 + n := by omega
      rw [hle] at h
      refine (Contract.safe_bind _ _).mpr ((Contract.safe_attempt _).mpr
        ((safe_limited he h).mono fun res w' hs => safe_orRetry he hn hs fun e hroom => ?_))
      refine (Contract.safe_bind _ _).mpr
        (safe_quiet (c := .fraction) trivial fun res₁ w₁ h₁ => ?_)
      cases res₁ with
      | error e₁ => exact (hroom.of_same h₁).sent hn e₁
      | ok fraction =>
          refine (Contract.safe_bind _ _).mpr
            (safe_quiet (c := .sleep _) trivial fun res₂ w₂ h₂ => ?_)
          cases res₂ with
          | error e₂ => exact (hroom.of_same (h₁.trans h₂)).sent hn e₂
          | ok _ => exact ih _ _ (hroom.of_same (h₁.trans h₂))

/-- **A send**, with room for as many attempts as the policy allows. -/
theorem safe_send {r r' : RestRequest} {n : ℕ} (he : r'.endpoint = r.endpoint)
    (h : Room cfg t r ((cfg.policy r.endpoint.group).maxAttempts + n) w) :
    (wireContract cfg allowed).Safe t (RetryingTransport.send cfg r') (Sent cfg t r n) w := by
  refine safe_attempts he _ _ _ ?_
  rw [he, Nat.sub_add_cancel (cfg.policy _).one_le_maxAttempts]
  exact h

/-! ## The session is another matter -/

/-- A call that sends nothing but to these endpoints. -/
def Within (endpoints : List Endpoint) : Call → Prop
  | .take => False
  | .request r _ => r.endpoint ∈ endpoints
  | _ => True

variable {es : List Endpoint}

/-- A call a send may make, to one of these endpoints. -/
def Wired (endpoints : List Endpoint) : Call → Prop
  | .request r _ => r.endpoint ∈ endpoints
  | .acquire _ | .fraction | .sleep _ => True
  | _ => False

theorem Wired.within {c : Call} (h : Wired es c) : Within es c := by
  cases c with
  | take => exact h
  | request r headers => exact h
  | _ => trivial

theorem wired_attempts {r : RestRequest} (h : r.endpoint ∈ es) (attempt left : ℕ) :
    (RetryingTransport.attempts cfg r attempt left).Only (Wired es) := by
  have hone : (RateLimitedTransport.send cfg r).Only (Wired es) := by
    unfold RateLimitedTransport.send HttpRestTransport.send
    refine Task.Only.bind (Task.only_ask trivial) fun _ => ?_
    split
    · exact Task.only_done _
    · exact Task.Only.bind (Task.only_ask h) fun _ => Task.only_done _
  have honce : ∀ (retry : BrokerError → Program Json), (∀ e, (retry e).Only (Wired es)) →
      ∀ res, (RetryingTransport.orRetry r retry res).Only (Wired es) := by
    intro retry hretry res
    unfold RetryingTransport.orRetry
    split
    · exact Task.only_done _
    · split
      · exact Task.only_done _
      · exact hretry _
    · exact Task.only_done _
  induction left generalizing attempt with
  | zero =>
      unfold RetryingTransport.attempts
      exact Task.Only.bind (Task.Only.attempt hone) (honce _ fun _ => Task.only_done _)
  | succ left ih =>
      unfold RetryingTransport.attempts
      exact Task.Only.bind (Task.Only.attempt hone) (honce _ fun _ =>
        Task.Only.bind (Task.only_ask trivial) fun _ =>
          Task.Only.bind (Task.only_ask trivial) fun _ => ih _)

theorem only_attempts {r : RestRequest} (h : r.endpoint ∈ es) (attempt left : ℕ) :
    (RetryingTransport.attempts cfg r attempt left).Only (Within es) :=
  (wired_attempts h attempt left).mono fun _ => Wired.within

theorem only_withLock {α : Type} {p : Program α} (h : p.Only (Within es)) :
    (SessionManager.withLock p).Only (Within es) :=
  Task.Only.bind (Task.only_ask trivial) fun _ => Task.Only.bind (Task.Only.attempt h) fun _ =>
    Task.Only.bind (Task.only_ask trivial) fun _ => Task.only_done _

theorem only_live (current : Option Session) : (SessionManager.live current).Only (Within es) := by
  cases current with
  | none => exact Task.only_done _
  | some current => exact Task.Only.bind (Task.only_ask trivial) fun _ => Task.only_done _

theorem only_login (h : Endpoints.login ∈ es) : (SessionManager.login cfg).Only (Within es) :=
  Task.Only.bind
    (Task.Only.bind (Task.only_ask trivial) fun _ => Task.Only.bind (only_attempts h _ _) fun _ =>
      Task.Only.bind (Task.only_ask trivial) fun _ => Task.only_done _)
    fun _ => Task.Only.bind (Task.only_ask trivial) fun _ => Task.only_done _

theorem only_session (h : Endpoints.login ∈ es) : (SessionManager.session cfg).Only (Within es) :=
  only_withLock <| Task.Only.bind (Task.only_ask trivial) fun current =>
    Task.Only.bind (only_live current) fun live => by
      cases live with
      | none => exact only_login h
      | some current => exact Task.only_done _

theorem only_renew (hl : Endpoints.login ∈ es) (hg : Endpoints.generateTokens ∈ es)
    (rejected : Session) : (SessionManager.renew cfg rejected).Only (Within es) := by
  refine only_withLock <| Task.Only.bind (Task.only_ask trivial) fun current =>
    Task.Only.bind (only_live _) fun live => ?_
  cases live with
  | some current => exact Task.only_done _
  | none =>
      refine Task.Only.bind (Task.Only.attempt ?_) fun res => ?_
      · exact Task.Only.bind (only_attempts hg _ _) fun _ =>
          Task.Only.bind (Task.only_ask trivial) fun _ => Task.only_done _
      · split
        · exact Task.Only.bind (Task.only_ask trivial) fun _ => Task.only_done _
        · split
          · exact only_login hl
          · exact Task.only_done _
        · exact Task.only_done _

theorem only_logout (h : Endpoints.logout ∈ es) : (SessionManager.logout cfg).Only (Within es) := by
  refine only_withLock <| Task.Only.bind (Task.only_ask trivial) fun current => ?_
  split
  · exact Task.only_done _
  · exact Task.Only.bind (Task.Only.attempt (Task.Only.bind (only_attempts h _ _) fun _ =>
      Task.only_done _)) fun _ => Task.Only.bind (Task.only_ask trivial) fun _ => Task.only_done _

/-- An attempt elsewhere takes no room. -/
theorem Room.attempted {r r' : RestRequest} {n : ℕ} (h : Room cfg t r n w)
    (hne : r'.endpoint ≠ r.endpoint) (reply : Option HttpReply) :
    Room cfg t r n (w.attempted cfg t r' reply) := by
  have hown : (w.attempted cfg t r' reply).own t r.endpoint = w.own t r.endpoint := by
    rw [own_attempted, if_neg hne, List.append_nil]
  exact ⟨h.asked, by rw [hown]; exact h.tries, fun hm => by rw [hown]; exact h.unsent hm⟩

/-- What sends nothing to the endpoint of `r` keeps the room for it. -/
theorem safe_room {α : Type} {p : Program α} {r : RestRequest} {n : ℕ} (honly : p.Only (Within es))
    (hr : r.endpoint ∉ es) (h : Room cfg t r n w) :
    (wireContract cfg allowed).Safe t p (fun _ w' => Room cfg t r n w') w := by
  refine Contract.Safe.of_kept h honly (fun hs hF => hF.of_same hs) (fun {w c} hF hc => ?_) ?_
  · cases c with
    | request r' headers =>
        intro r₂ hasked he
        obtain rfl : r = r₂ := by
          have := hF.asked.symm.trans hasked
          cases this
          rfl
        exact absurd (he ▸ hc) hr
    | _ => trivial
  · intro w c a w' hs hc hF
    obtain ⟨time, -, hs⟩ := hs
    have hF := hF.of_same (.at w time)
    cases hs with
    | take _ => exact hc.elim
    | replied _ => exact hF.attempted (fun he => hr (he ▸ hc)) _
    | dropped => exact hF.attempted (fun he => hr (he ▸ hc)) _
    | _ => exact ⟨hF.asked, hF.tries, hF.unsent⟩

/-! ## A caller's request -/

theorem login_mutates : Endpoints.login.mutates = true := rfl

theorem generateTokens_mutates : Endpoints.generateTokens.mutates = true := rfl

theorem bearing (r : RestRequest) (jwt : String) :
    ({ r with bearer := some jwt } : RestRequest).endpoint = r.endpoint := rfl

/-- **A request through the whole stack.** -/
theorem safe_authenticated {r : RestRequest} (h : Room cfg t r (tries cfg r) w) :
    (wireContract cfg allowed).Safe t (AuthenticatedTransport.send cfg r) (Sent cfg t r 0) w := by
  have hone : (cfg.policy r.endpoint.group).maxAttempts + 0 ≤ tries cfg r := by
    unfold tries
    split <;> omega
  have hfits : ∀ {n : ℕ} {w : World}, Room cfg t r n w → ∀ {m : ℕ}, m ≤ n → Room cfg t r m w :=
    fun hroom _ hle => ⟨hroom.asked, by have := hroom.tries; omega, hroom.unsent⟩
  unfold AuthenticatedTransport.send
  split
  · exact safe_send rfl (hfits h hone)
  rename_i hauth
  have hlogin : r.endpoint ∉ [Endpoints.login] := by
    intro hmem
    rw [List.mem_singleton] at hmem
    simp [hmem, Endpoints.login] at hauth
  refine (Contract.safe_bind _ _).mpr
    ((safe_room (only_session (List.mem_singleton_self _)) hlogin h).mono fun res w₁ h₁ => ?_)
  cases res with
  | error e => exact h₁.sent (Nat.zero_le _) e
  | ok session =>
      -- a read keeps room for a second send
      have hroom : Room cfg t r ((cfg.policy r.endpoint.group).maxAttempts +
          if r.endpoint.mutates then 0 else (cfg.policy r.endpoint.group).maxAttempts) w₁ := by
        refine hfits h₁ ?_
        unfold tries
        split <;> omega
      refine (Contract.safe_bind _ _).mpr ((Contract.safe_attempt _).mpr
        ((safe_send (bearing r session.jwt) hroom).mono fun res w₂ h₂ => ?_))
      have hzero : ∀ {res : Except StackError Json} {n : ℕ}, Sent cfg t r n res w₂ →
          Sent cfg t r 0 res w₂ :=
        fun hs => { hs with tries := by have := hs.tries; omega }
      match res with
      | .ok data => exact hzero h₂
      | .error (.configuration _) => exact hzero h₂
      | .error .cancelled => exact hzero h₂
      | .error (.broker e) =>
          by_cases hread : e.kind = .sessionExpired ∧ (!r.endpoint.mutates) = true
          · simp only [hread, and_self, if_true]
            have hm : ¬ r.endpoint.mutates := by simpa using hread.2
            have hnot : r.endpoint ∉ [Endpoints.login, Endpoints.generateTokens] := by
              intro hmem
              rcases List.mem_pair.mp hmem with he | he
              · exact hm (he ▸ login_mutates)
              · exact hm (he ▸ generateTokens_mutates)
            have hagain : Room cfg t r ((cfg.policy r.endpoint.group).maxAttempts + 0) w₂ := by
              have := h₂.tries
              rw [if_neg hm] at this
              exact ⟨h₂.asked, this, fun hm' => absurd hm' hm⟩
            refine (Contract.safe_bind _ _).mpr ((safe_room (only_renew (by simp) (by simp) session)
              hnot hagain).mono fun res w₃ h₃ => ?_)
            cases res with
            | error e => exact h₃.sent (Nat.zero_le _) e
            | ok renewed =>
                exact safe_send (bearing r renewed.jwt) h₃
          · simp only [hread, if_false]
            exact hzero h₂

/-- What task `t` was told of its request. -/
def Told (cfg : Stack) (t : ℕ) (res : Except StackError Result) (w : World) : Prop :=
  ∀ r, w.asked t = some (.send r) → r.endpoint.mutates → ∃ answer : Except StackError Json,
    res = answer.map .data ∧ Accounted cfg.codec r.endpoint (w.own t r.endpoint) answer

theorem Told.of_same {res : Except StackError Result} (hs : SameFor t w w')
    (h : Told cfg t res w) : Told cfg t res w' := by
  intro r hr hm
  rw [hs.own]
  exact h r (hs.asked ▸ hr) hm

/-- A task that was asked for something else has nothing to account for. -/
theorem safe_other {p : Program Result} {caller : Caller} {es : List Endpoint}
    (hother : ∀ r, caller ≠ .send r) (honly : p.Only (Within es))
    (hasked : w.asked t = some caller) :
    (wireContract cfg allowed).Safe t p (Told cfg t) w := by
  have hcontra : ∀ {w : World} {r : RestRequest}, w.asked t = some caller →
      w.asked t = some (.send r) → False :=
    fun h h' => hother _ (Option.some.inj (h.symm.trans h'))
  refine (Contract.Safe.of_kept (F := fun w => w.asked t = some caller) hasked honly
    (fun {w w'} (hs : SameFor t w w') hF => hs.asked.trans hF) (fun {w c} hF _ => ?_) ?_).mono
      fun res w' hF r hr => (hcontra hF hr).elim
  · cases c with
    | request r' headers => exact fun r hr => (hcontra hF hr).elim
    | _ => trivial
  · intro w c a w' hs hc hF
    obtain ⟨time, -, hs⟩ := hs
    cases hs with
    | take _ => exact hc.elim
    | _ => exact hF

/-- **Every task keeps to the contract**, and accounts for its request. -/
theorem safe_serve (t : ℕ) (w : World) :
    (wireContract cfg allowed).Safe t (serve cfg) (Told cfg t) w := by
  refine (Contract.safe_bind _ _).mpr fun w₁ _ _ => ⟨trivial, fun a w₂ hs _ => ?_⟩
  obtain ⟨time, -, hs⟩ := hs
  cases hs with
  | cancelled hc => exact hc.elim
  | @take caller _ =>
      have hasked : Function.update w₁.asked t (some caller) t = some caller :=
        Function.update_self ..
      have hnone : ∀ e, World.own { w₁ with
          clock := time
          asked := Function.update w₁.asked t (some caller)
          attempts := Function.update w₁.attempts t [] } t e = [] := by
        intro e
        simp [World.own]
      have hlogin : Endpoints.login ∈ [Endpoints.login, Endpoints.generateTokens] := by simp
      have htokens : Endpoints.generateTokens ∈ [Endpoints.login, Endpoints.generateTokens] := by
        simp
      cases caller with
      | send r =>
          refine (Contract.safe_bind _ _).mpr ((safe_authenticated (r := r) ⟨hasked, ?_, ?_⟩).mono
            fun res w' hsent => ?_)
          · rw [hnone, List.length_nil, Nat.zero_add]
          · rw [hnone]
            exact fun _ _ ha => nomatch ha
          · have hend : ∀ answer : Except StackError Json, Sent cfg t r 0 answer w' →
                Told cfg t (answer.map .data) w' := by
              intro answer hsent r' hr' hm
              obtain rfl : r = r' := by
                have := hsent.asked.symm.trans hr'
                cases this
                rfl
              exact ⟨answer, rfl, hsent.accounted hm⟩
            cases res with
            | ok data => exact hend _ hsent
            | error e => exact hend _ hsent
      | authenticate =>
          exact safe_other (by intro _ h; cases h) (Task.Only.bind (only_withLock (only_login hlogin)) fun _ =>
            Task.only_done _) hasked
      | feedToken =>
          exact safe_other (by intro _ h; cases h) (Task.Only.bind (Task.Only.bind (only_session hlogin) fun _ =>
            Task.only_done _) fun _ => Task.only_done _) hasked
      | refreshFeedToken =>
          exact safe_other (by intro _ h; cases h) (Task.Only.bind (Task.Only.bind (only_session hlogin) fun _ =>
            Task.Only.bind (only_renew hlogin htokens _) fun _ => Task.only_done _)
            fun _ => Task.only_done _) hasked
      | logout =>
          exact safe_other (by intro _ h; cases h) (Task.Only.bind (only_logout (List.mem_singleton_self _))
            fun _ => Task.only_done _) hasked

/-- **A mutating request is sent at most once.** However the callers of
the stack interleave and whatever the wire does, a request is tried no
more often than its policy says; of the attempts of a mutating one at most
one leaves the process; its caller is told what that attempt came to; and
where the failure is one that may be retried, nothing was sent. -/
theorem sent_at_most_once {time : Timestamp} {n : ℕ} {s : Pool calls StackError Result World}
    (hr : Pool.Reachable (platform cfg allowed) (fun p => p = serve cfg)
      (Pool.idle (World.start time) n) s)
    {t : ℕ} {r : RestRequest} (hasked : s.world.asked t = some (.send r)) :
    (s.world.own t r.endpoint).length ≤ tries cfg r ∧
      (r.endpoint.mutates →
        ((s.world.own t r.endpoint).filter Attempt.Reached).length ≤ 1 ∧
        (∀ res, s.task t = some (.done res) → ∃ answer : Except StackError Json,
          res = answer.map .data ∧
            Accounted cfg.codec r.endpoint (s.world.own t r.endpoint) answer) ∧
        ∀ e, s.task t = some (.done (.error (.broker e))) →
          RetryDecider.mayRetry e r.endpoint → Unsent (s.world.own t r.endpoint)) := by
  have hstart : Frugal cfg (World.start time) := fun t r h => by cases h
  have hsound : s.Sound (wireContract cfg allowed) (Told cfg) :=
    Pool.Reachable.sound (fun {t res w w'} (hs : SameFor t w w') htold => htold.of_same hs)
      (fun p hp t w _ => by subst hp; exact safe_serve t w) (Pool.Sound.idle hstart) hr
  obtain ⟨htries, honce⟩ := hsound.inv t r hasked
  refine ⟨htries, fun hm => ⟨honce hm, fun res hres => hsound.kept hres r hasked hm, ?_⟩⟩
  intro e he hretry
  obtain ⟨answer, hanswer, hacc⟩ := hsound.kept he r hasked hm
  cases answer with
  | ok data => cases hanswer
  | error e' =>
      obtain rfl : StackError.broker e = e' := by simpa [Except.map] using hanswer
      exact hacc.unsent_of_mayRetry hm hretry

/-! ## An order whose first attempt cannot connect -/

namespace OneOrder

/-- The body every reply has, as text and as it is read. -/
def body : String :=
  "\x7b\"status\":true,\"data\":\x7b\"jwtToken\":\"j\",\"refreshToken\":\"r\",\"feedToken\":\"f\"\x7d\x7d"

def json : Json :=
  .obj [("status", .bool true),
    ("data", .obj [("jwtToken", .str "j"), ("refreshToken", .str "r"), ("feedToken", .str "f")])]

def codec : Codec where
  loads _ := some json
  decode _ := some body
  blank _ := false
  str
    | .str text => text
    | _ => ""
  strip := id
  lower := id
  isPrintable _ := true

def stack : Stack where
  codec := codec
  apiKey := "key"
  identity := {}
  credentials := ⟨"client", "pin", by decide, by decide⟩
  policy := angelOneRetryPolicy
  apiKey_ne := by decide

def order : RestRequest := ⟨Endpoints.placeOrder, some [("quantity", .str "1")], none⟩

/-- The first attempt of the order times out on connecting; everything
else is answered. -/
def reply (w : World) (t : ℕ) (r : RestRequest) : HttpReply :=
  if r.endpoint.group = .placeOrder ∧ (w.own t Endpoints.placeOrder).isEmpty then
    .raised ⟨.connectTimeout, false⟩
  else .response 200 body.toUTF8

def respond : Responder calls StackError World := fun t w c => match c with
  | .take => some (.ok (.send order),
      { w with
        asked := Function.update w.asked t (some (.send order))
        attempts := Function.update w.attempts t [] })
  | .request r _ => some (.ok (reply w t r), w.attempted stack t r (some (reply w t r)))
  | .acquire _ | .sleep _ => some (.ok (), w)
  | .fraction => some (.ok 0, w)
  | .now => some (.ok w.clock, w)
  | .totp => some (.ok "000000", w)
  | .lock => if w.holder = none then some (.ok (), { w with holder := some t }) else none
  | .unlock => some (.ok (), { w with holder := none })
  | .load => some (.ok w.store, w)
  | .save session => some (.ok (), { w with store := some session })
  | .clear => some (.ok (), { w with store := none })

theorem respond_within {allowed : Caller → Prop} (horder : allowed (.send order)) :
    respond.Within (platform stack allowed) := by
  intro t w c a w' h
  refine ⟨w.clock, le_rfl, ?_⟩
  cases c with
  | take => cases h; exact .take horder
  | request r _ => cases h; exact .replied _
  | acquire _ => cases h; exact .admitted
  | sleep _ => cases h; exact .slept
  | fraction => cases h; exact .drawn le_rfl one_pos
  | now => cases h; exact .time
  | totp => cases h; exact .code
  | lock =>
      simp only [respond] at h
      split at h
      · rename_i hfree
        cases h
        exact .locked hfree
      · cases h
  | unlock => cases h; exact .unlocked
  | load => cases h; exact .loaded
  | save _ => cases h; exact .saved
  | clear => cases h; exact .cleared

/-- One caller, run to its end. -/
def moves : List (Move Unit) := [.start (), .run 0 20]

def placed : Pool calls StackError Result World :=
  (Pool.idle (World.start 0) 0).play respond (platform stack fun _ => True).restart
    (fun _ => serve stack) moves

theorem placed_reachable : Pool.Reachable (platform stack fun _ => True) (fun p => p = serve stack)
    (Pool.idle (World.start 0) 0) placed := by
  refine Pool.Reachable.play (respond_within trivial) (fun _ => ?_) .refl moves
  rfl

end OneOrder

open OneOrder in
theorem sent_at_most_once_sample :
    (placed.world.own 0 Endpoints.placeOrder).length = 2 ∧
      ((placed.world.own 0 Endpoints.placeOrder).filter Attempt.Reached).length ≤ 1 :=
  ⟨by decide, ((sent_at_most_once placed_reachable (t := 0) (r := order) rfl).2 rfl).1⟩

end AngelOne

end Emporos
