import Emporos.Broker.AtMostOnce
/-!
# One session at a time

Requests that log in, refresh or log out are made under one lock, so no
two are out together; while the lock is free the session that is stored is
the last one a reply has brought; and a session that another caller has
replaced by one that still lives is not refreshed again.
-/

namespace Emporos

namespace AngelOne

open Async

variable {cfg : Stack} {allowed : Caller → Prop} {t u : ℕ} {w w' : World}

/-- The endpoints that make and end sessions. -/
def sessionEndpoints : List Endpoint :=
  [Endpoints.login, Endpoints.generateTokens, Endpoints.logout]

theorem login_ne : Endpoints.login ≠ Endpoints.generateTokens := by decide

theorem logout_ne : Endpoints.logout ≠ Endpoints.generateTokens := by decide

theorem logout_gives_none :
    ¬ (Endpoints.logout = Endpoints.login ∨ Endpoints.logout = Endpoints.generateTokens) := by
  decide

/-- Callers leave the session to its manager. -/
def Ordinary (c : Caller) : Prop := ∀ r, c = .send r → r.endpoint ∉ sessionEndpoints

/-! ## The contract -/

/-- The session that is stored is the last one a reply has brought. -/
def Current (w : World) : Prop := ∀ session, w.store = some session → w.newest = some session.jwt

/-- What is stored may be replaced by a refresh of `jwt`. -/
def Replaceable (jwt : String) (w : World) : Prop :=
  ∀ session, w.store = some session → session.jwt = jwt ∨ session.expiresAt ≤ w.clock

/-- What task `t` must be sure of before a call. -/
def Licensed (t : ℕ) (w : World) : Call → Prop
  | .request r _ => r.endpoint ∈ sessionEndpoints → w.holder = some t ∧
      (r.endpoint = Endpoints.generateTokens → ∃ jwt, r.bearer = some jwt ∧ Replaceable jwt w)
  | .unlock => w.holder = some t ∧ Current w
  | .save _ | .clear => w.holder = some t
  | _ => True

/-- What the others leave to the task that holds the lock. -/
structure Kept (t : ℕ) (w w' : World) : Prop where
  clock : w.clock ≤ w'.clock
  held : w.holder = some t → w'.holder = some t ∧ w'.store = w.store ∧ w'.newest = w.newest

theorem Kept.refl (t : ℕ) (w : World) : Kept t w w := ⟨le_rfl, fun h => ⟨h, rfl, rfl⟩⟩

theorem Kept.trans {w₁ w₂ w₃ : World} (h : Kept t w₁ w₂) (h' : Kept t w₂ w₃) : Kept t w₁ w₃ where
  clock := h.clock.trans h'.clock
  held hw := by
    obtain ⟨hholder, hstore, hnewest⟩ := h.held hw
    obtain ⟨hholder', hstore', hnewest'⟩ := h'.held hholder
    exact ⟨hholder', hstore'.trans hstore, hnewest'.trans hnewest⟩

theorem bring_eq_none {endpoint : Endpoint} (data : Json)
    (h : ¬ (endpoint = Endpoints.login ∨ endpoint = Endpoints.generateTokens)) :
    bring endpoint data = none := if_neg h

/-- Elsewhere a reply brings no session. -/
theorem delivered_eq_none {codec : Codec} {endpoint : Endpoint} (h : endpoint ∉ sessionEndpoints)
    (reply : HttpReply) : delivered codec endpoint reply = none := by
  unfold delivered
  split
  · refine bring_eq_none _ ?_
    rintro (rfl | rfl)
    · exact h (by simp [sessionEndpoints])
    · exact h (by simp [sessionEndpoints])
  · rfl

theorem newest_attempted {r : RestRequest} {reply : Option HttpReply}
    (h : reply.bind (delivered cfg.codec r.endpoint) = none) :
    (w.attempted cfg t r reply).newest = w.newest := by
  change (reply.bind (delivered cfg.codec r.endpoint)).or w.newest = w.newest
  rw [h, Option.none_or]

theorem newest_of_ordinary {r : RestRequest} (h : r.endpoint ∉ sessionEndpoints)
    (reply : Option HttpReply) : (w.attempted cfg t r reply).newest = w.newest := by
  refine newest_attempted ?_
  cases reply with
  | none => rfl
  | some reply => exact delivered_eq_none h reply

/-- A licensed call of another task. -/
theorem Kept.of_answers {c : Call} {a : Except StackError c.Value} (hl : Licensed t w c)
    (hs : World.Answers cfg allowed t w c a w') (hu : u ≠ t) : Kept u w w' := by
  have hother : w.holder = some u → w.holder ≠ some t := fun h h' =>
    hu (Option.some.inj (h.symm.trans h'))
  have hrequest : ∀ {r : RestRequest} {headers : List (String × String)} (reply : Option HttpReply),
      Licensed t w (.request r headers) → Kept u w (w.attempted cfg t r reply) := by
    intro r headers reply hl
    refine ⟨le_rfl, fun h => ⟨h, rfl, newest_of_ordinary (fun hmem => ?_) reply⟩⟩
    exact hother h (hl hmem).1
  cases hs with
  | replied reply => exact hrequest _ hl
  | dropped => exact hrequest _ hl
  | locked hfree => exact ⟨le_rfl, fun h => by rw [hfree] at h; cases h⟩
  | unlocked => exact ⟨le_rfl, fun h => absurd hl.1 (hother h)⟩
  | saved => exact ⟨le_rfl, fun h => absurd hl (hother h)⟩
  | cleared => exact ⟨le_rfl, fun h => absurd hl (hother h)⟩
  | _ => exact ⟨le_rfl, fun h => ⟨h, rfl, rfl⟩⟩

/-- While the lock is free, what is stored is current. -/
def Tidy (w : World) : Prop := w.holder = none → Current w

theorem tidy_answers {c : Call} {a : Except StackError c.Value} (h : Tidy w)
    (hl : Licensed t w c) (hs : World.Answers cfg allowed t w c a w') : Tidy w' := by
  have hrequest : ∀ {r : RestRequest} {headers : List (String × String)} (reply : Option HttpReply),
      Licensed t w (.request r headers) → Tidy (w.attempted cfg t r reply) := by
    intro r headers reply hl hfree session hsession
    have hordinary : r.endpoint ∉ sessionEndpoints := fun hmem => by
      have := (hl hmem).1.symm.trans hfree
      cases this
    rw [newest_of_ordinary hordinary]
    exact h hfree session hsession
  cases hs with
  | replied reply => exact hrequest _ hl
  | dropped => exact hrequest _ hl
  | locked _ => intro hfree; cases hfree
  | unlocked => exact fun _ => hl.2
  | saved => intro hfree; exact absurd (hfree.symm.trans hl) nofun
  | cleared => intro hfree; exact absurd (hfree.symm.trans hl) nofun
  | _ => exact h

theorem Replaceable.mono {jwt : String} (h : Replaceable jwt w) (hstore : w'.store = w.store)
    (hclock : w.clock ≤ w'.clock) : Replaceable jwt w' := by
  intro session hsession
  rcases h session (hstore ▸ hsession) with h | h
  · exact .inl h
  · exact .inr (h.trans hclock)

theorem Licensed.at {c : Call} {time : Timestamp} (h : Licensed t w c) (hle : w.clock ≤ time) :
    Licensed t { w with clock := time } c := by
  cases c with
  | request r headers =>
      intro hmem
      obtain ⟨hholder, htokens⟩ := h hmem
      refine ⟨hholder, fun he => ?_⟩
      obtain ⟨jwt, hbearer, hr⟩ := htokens he
      exact ⟨jwt, hbearer, hr.mono rfl hle⟩
  | _ => exact h

theorem Kept.at {time : Timestamp} (hle : w.clock ≤ time) :
    Kept t w { w with clock := time } := ⟨hle, fun h => ⟨h, rfl, rfl⟩⟩

/-- **The contract of the session.** -/
def sessionContract (cfg : Stack) (allowed : Caller → Prop) : Contract (platform cfg allowed) where
  inv := Tidy
  rely := Kept
  guar := Licensed
  rely_refl := Kept.refl
  rely_trans := Kept.trans
  step_inv := by
    rintro t w c a w' h hl ⟨time, hle, hs⟩
    exact tidy_answers (w := { w with clock := time }) h (hl.at hle) hs
  step_rely := by
    rintro t u w c a w' h hl ⟨time, hle, hs⟩ hu
    exact (Kept.at hle).trans (Kept.of_answers (hl.at hle) hs hu)
  restart_inv := by
    intro w _ _ session hsession
    cases hsession

/-! ## Calls under the lock -/

/-- Task `t` holds the lock, and what is stored is current. -/
structure Holds (t : ℕ) (w : World) : Prop where
  holder : w.holder = some t
  current : Current w

theorem Holds.of_kept (h : Holds t w) (hk : Kept t w w') : Holds t w' := by
  obtain ⟨hholder, hstore, hnewest⟩ := hk.held h.holder
  refine ⟨hholder, fun session hsession => ?_⟩
  rw [hnewest]
  exact h.current session (hstore ▸ hsession)

/-- A call that changes nothing the manager keeps. -/
def Still : Call → Prop
  | .acquire _ | .fraction | .sleep _ | .now | .totp | .load => True
  | _ => False

theorem licensed_of_still {c : Call} (h : Still c) : Licensed t w c := by
  cases c with
  | request r headers => exact h.elim
  | unlock => exact h.elim
  | save session => exact h.elim
  | clear => exact h.elim
  | _ => trivial

theorem eq_of_still {c : Call} {a : Except StackError c.Value} (h : Still c)
    (hs : World.Answers cfg allowed t w c a w') : w' = w := by
  cases hs <;> first | rfl | exact h.elim

/-- **The rule of a still call.** -/
theorem safe_still {c : Call} (hc : Still c) {Q : Except StackError c.Value → World → Prop}
    (h : ∀ a w', Kept t w w' → World.Answers cfg allowed t w' c a w' → Q a w') :
    (sessionContract cfg allowed).Safe t (await c) Q w := by
  rintro w₁ - hr
  refine ⟨licensed_of_still hc, fun a w₂ hs _ => ?_⟩
  obtain ⟨time, hle, hs⟩ := hs
  obtain rfl := eq_of_still hc hs
  exact h a _ (Kept.trans hr (Kept.at hle)) hs

/-! ## A send by the holder -/

theorem delivered_of_ok {codec : Codec} {endpoint : Endpoint} {reply : HttpReply} {data : Json}
    (h : reply.outcome codec endpoint = .ok data) :
    delivered codec endpoint reply = bring endpoint data := by
  unfold delivered
  rw [h]

theorem delivered_of_error {codec : Codec} {endpoint : Endpoint} {reply : HttpReply}
    {e : BrokerError} (h : reply.outcome codec endpoint = .error e) :
    delivered codec endpoint reply = none := by
  unfold delivered
  rw [h]

/-- The holder is about to send `r`. -/
structure Ready (t : ℕ) (r : RestRequest) (w : World) : Prop extends Holds t w where
  replaceable : r.endpoint = Endpoints.generateTokens →
    ∃ jwt, r.bearer = some jwt ∧ Replaceable jwt w

theorem Ready.of_kept {r : RestRequest} (h : Ready t r w) (hk : Kept t w w') : Ready t r w' where
  toHolds := h.toHolds.of_kept hk
  replaceable he := by
    obtain ⟨jwt, hbearer, hr⟩ := h.replaceable he
    exact ⟨jwt, hbearer, hr.mono (hk.held h.holder).2.1 hk.clock⟩

/-- The holder has sent `r`: a session that came is not stored yet. -/
def Brought (t : ℕ) (r : RestRequest) (res : Except StackError Json) (w : World) : Prop :=
  match res with
  | .ok data => w.holder = some t ∧ match bring r.endpoint data with
      | some jwt => w.newest = some jwt
      | none => Current w
  | .error _ => Ready t r w

/-- What an attempt without a session leaves. -/
theorem Ready.attempted {r : RestRequest} {reply : Option HttpReply} (h : Ready t r w)
    (hnone : reply.bind (delivered cfg.codec r.endpoint) = none) :
    Ready t r (w.attempted cfg t r reply) where
  holder := h.holder
  current session hsession := by
    rw [newest_attempted hnone]
    exact h.current session hsession
  replaceable he := by
    obtain ⟨jwt, hbearer, hr⟩ := h.replaceable he
    exact ⟨jwt, hbearer, hr.mono rfl le_rfl⟩

/-- What a reply leaves. -/
theorem Ready.brought {r : RestRequest} (h : Ready t r w) (reply : HttpReply) :
    Brought t r ((reply.outcome cfg.codec r.endpoint).mapError .broker)
      (w.attempted cfg t r (some reply)) := by
  have hnone : ∀ {o : Option String}, delivered cfg.codec r.endpoint reply = o → o = none →
      Ready t r (w.attempted cfg t r (some reply)) :=
    fun hd ho => h.attempted (hd.trans ho)
  cases ho : reply.outcome cfg.codec r.endpoint with
  | error e => exact hnone (delivered_of_error ho) rfl
  | ok data =>
      refine ⟨h.holder, ?_⟩
      have hdelivered := delivered_of_ok ho
      cases hb : bring r.endpoint data with
      | none => exact (hnone hdelivered hb).current
      | some jwt =>
          change (delivered cfg.codec r.endpoint reply).or w.newest = some jwt
          rw [hdelivered, hb]
          rfl

theorem safe_holderRequest {r : RestRequest} {headers : List (String × String)}
    (h : Ready t r w) :
    (sessionContract cfg allowed).Safe t (await (.request r headers)) (fun a w' =>
      Brought t r (a.bind fun reply => (reply.outcome cfg.codec r.endpoint).mapError .broker) w')
      w := by
  rintro w₁ - hr
  have h₁ := h.of_kept hr
  refine ⟨fun _ => ⟨h₁.holder, h₁.replaceable⟩, fun a w₂ hs _ => ?_⟩
  obtain ⟨time, hle, hs⟩ := hs
  have h₂ := h₁.of_kept (Kept.at hle)
  cases hs with
  | dropped => exact h₂.attempted rfl
  | cancelled hc => exact hc.elim
  | replied reply => exact h₂.brought reply

theorem safe_holderHttp {r : RestRequest} (h : Ready t r w) :
    (sessionContract cfg allowed).Safe t (HttpRestTransport.send cfg r) (Brought t r) w := by
  unfold HttpRestTransport.send
  split
  · exact h
  · refine (Contract.safe_bind _ _).mpr ((safe_holderRequest h).mono fun res w' hs => ?_)
    cases res with
    | ok reply => exact hs
    | error e => exact hs

theorem safe_holderLimited {r : RestRequest} (h : Ready t r w) :
    (sessionContract cfg allowed).Safe t (RateLimitedTransport.send cfg r) (Brought t r) w := by
  unfold RateLimitedTransport.send
  refine (Contract.safe_bind _ _).mpr (safe_still (c := .acquire _) trivial fun res w' hk _ => ?_)
  cases res with
  | error e => exact h.of_kept hk
  | ok _ => exact safe_holderHttp (h.of_kept hk)

theorem safe_holderRetry {r : RestRequest} {retry : BrokerError → Program Json}
    {res : Except StackError Json} (h : Brought t r res w)
    (hretry : ∀ e, Ready t r w →
      (sessionContract cfg allowed).Safe t (retry e) (Brought t r) w) :
    (sessionContract cfg allowed).Safe t (RetryingTransport.orRetry r retry res)
      (Brought t r) w := by
  match res with
  | .ok data => exact h
  | .error (.configuration _) => exact h
  | .error .cancelled => exact h
  | .error (.broker e) =>
      unfold RetryingTransport.orRetry
      by_cases hr : RetryDecider.mayRetry e r.endpoint
      · simp only [hr]
        exact hretry e h
      · simp only [hr]
        exact h

/-- **A send by the holder**, by induction on the attempts that are left. -/
theorem safe_holderSend {r : RestRequest} (h : Ready t r w) :
    (sessionContract cfg allowed).Safe t (RetryingTransport.send cfg r) (Brought t r) w := by
  unfold RetryingTransport.send
  generalize (cfg.policy r.endpoint.group).maxAttempts - 1 = left
  generalize 1 = attempt
  induction left generalizing attempt w with
  | zero =>
      exact (Contract.safe_bind _ _).mpr ((Contract.safe_attempt _).mpr
        ((safe_holderLimited h).mono fun res w' hs => safe_holderRetry hs fun e hready => hready))
  | succ left ih =>
      refine (Contract.safe_bind _ _).mpr ((Contract.safe_attempt _).mpr
        ((safe_holderLimited h).mono fun res w' hs => safe_holderRetry hs fun e hready => ?_))
      refine (Contract.safe_bind _ _).mpr
        (safe_still (c := .fraction) trivial fun res₁ w₁ h₁ _ => ?_)
      cases res₁ with
      | error e₁ => exact hready.of_kept h₁
      | ok fraction =>
          refine (Contract.safe_bind _ _).mpr
            (safe_still (c := .sleep _) trivial fun res₂ w₂ h₂ _ => ?_)
          cases res₂ with
          | error e₂ => exact hready.of_kept (h₁.trans h₂)
          | ok _ => exact ih (hready.of_kept (h₁.trans h₂)) _

/-! ## The manager -/

theorem token_of_times {data : Json} {a b a' b' : Timestamp} {session : Session}
    (h : sessionFrom data a b = .ok session) :
    ∃ session', sessionFrom data a' b' = .ok session' ∧ session'.jwt = session.jwt := by
  cases data with
  | obj fields =>
      obtain ⟨jwt, hjwt, h⟩ := exists_of_bind h
      obtain ⟨refreshToken, hrefresh, h⟩ := exists_of_bind h
      obtain ⟨feedToken, hfeed, h⟩ := exists_of_bind h
      refine ⟨⟨jwt, refreshToken, feedToken, a', b'⟩, ?_, ?_⟩
      · simp only [sessionFrom, hjwt, hrefresh, hfeed]
        rfl
      · cases h
        rfl
  | _ => cases h

theorem bring_of_session {endpoint : Endpoint} {data : Json} {a b : Timestamp} {session : Session}
    (he : endpoint = Endpoints.login ∨ endpoint = Endpoints.generateTokens)
    (h : sessionFrom data a b = .ok session) : bring endpoint data = some session.jwt := by
  obtain ⟨session', h', hjwt⟩ := token_of_times h
  rw [bring, if_pos he, h', ← hjwt]

theorem bring_of_error {endpoint : Endpoint} {data : Json} {a b : Timestamp} {e : StackError}
    (h : sessionFrom data a b = .error e) : bring endpoint data = none := by
  unfold bring
  split
  · split
    · rename_i session hs
      obtain ⟨session', h', -⟩ := token_of_times hs
      rw [h'] at h
      cases h
    · rfl
  · rfl

/-- A session that was fetched under the lock and is not stored yet. -/
def Fetched (t : ℕ) (res : Except StackError Session) (w : World) : Prop :=
  match res with
  | .ok session => w.holder = some t ∧ w.newest = some session.jwt
  | .error _ => Holds t w

/-- The data of a reply are made a session. -/
theorem safe_sessionFrom {r : RestRequest} {data : Json} {expiresAt : Timestamp → Timestamp}
    (he : r.endpoint = Endpoints.login ∨ r.endpoint = Endpoints.generateTokens)
    (h : Brought t r (.ok data) w) :
    (sessionContract cfg allowed).Safe t (do
      let now ← await .now
      .lift (sessionFrom data now (expiresAt now))) (Fetched t) w := by
  refine (Contract.safe_bind _ _).mpr (safe_still (c := .now) trivial fun res w' hk hs => ?_)
  obtain ⟨hholder, hbring⟩ := h
  obtain ⟨hholder', hstore', hnewest'⟩ := hk.held hholder
  cases hs with
  | cancelled hc => exact hc.elim
  | time =>
      change Fetched t (sessionFrom data w'.clock (expiresAt w'.clock)) w'
      cases hsession : sessionFrom data w'.clock (expiresAt w'.clock) with
      | ok session =>
          rw [bring_of_session he hsession] at hbring
          exact ⟨hholder', hnewest'.trans hbring⟩
      | error e =>
          rw [bring_of_error hsession] at hbring
          have hcurrent : Current w := hbring
          exact Holds.of_kept ⟨hholder, hcurrent⟩ hk

theorem safe_fetchLogin (h : Holds t w) :
    (sessionContract cfg allowed).Safe t (AngelOneAuthenticator.login cfg) (Fetched t) w := by
  refine (Contract.safe_bind _ _).mpr (safe_still (c := .totp) trivial fun res w₁ hk _ => ?_)
  have h₁ := h.of_kept hk
  cases res with
  | error e => exact h₁
  | ok code =>
      refine (Contract.safe_bind _ _).mpr ((safe_holderSend ⟨h₁, fun he => ?_⟩).mono
        fun res w₂ h₂ => ?_)
      · exact absurd he login_ne
      · cases res with
        | error e => exact h₂.toHolds
        | ok data => exact safe_sessionFrom (.inl rfl) h₂

theorem safe_fetchRenew {session : Session} (h : Holds t w) (hr : Replaceable session.jwt w) :
    (sessionContract cfg allowed).Safe t (AngelOneAuthenticator.renew cfg session) (Fetched t)
      w := by
  refine (Contract.safe_bind _ _).mpr ((safe_holderSend ⟨h, fun _ => ⟨_, rfl, hr⟩⟩).mono
    fun res w₂ h₂ => ?_)
  cases res with
  | error e => exact h₂.toHolds
  | ok data => exact safe_sessionFrom (.inr rfl) h₂

/-- A fetched session is stored. -/
theorem safe_save {session : Session} (h : Fetched t (.ok session) w) :
    (sessionContract cfg allowed).Safe t (do
      await (.save session)
      pure session) (fun _ w' => Holds t w') w := by
  refine (Contract.safe_bind _ _).mpr fun w₁ _ hr => ?_
  obtain ⟨hholder, -, hnewest⟩ := Kept.held hr h.1
  refine ⟨hholder, fun a w₂ hs _ => ?_⟩
  obtain ⟨time, -, hs⟩ := hs
  cases hs with
  | cancelled hc => exact hc.elim
  | saved =>
      refine ⟨hholder, fun stored hstored => ?_⟩
      obtain rfl := Option.some.inj hstored
      exact hnewest.trans h.2

theorem safe_login (h : Holds t w) :
    (sessionContract cfg allowed).Safe t (SessionManager.login cfg) (fun _ w' => Holds t w') w := by
  refine (Contract.safe_bind _ _).mpr ((safe_fetchLogin h).mono fun res w' hf => ?_)
  cases res with
  | error e => exact hf
  | ok session => exact safe_save hf

theorem safe_refresh {rejected : Session} (h : Holds t w) (hr : Replaceable rejected.jwt w) :
    (sessionContract cfg allowed).Safe t (SessionManager.refresh cfg rejected)
      (fun _ w' => Holds t w') w := by
  refine (Contract.safe_bind _ _).mpr ((Contract.safe_attempt _).mpr
    ((safe_fetchRenew h hr).mono fun res w' hf => ?_))
  match res with
  | .ok renewed => exact safe_save hf
  | .error (.configuration _) => exact hf
  | .error .cancelled => exact hf
  | .error (.broker e) =>
      by_cases hrefused : e.kind = .sessionExpired ∨ e.kind = .auth
      · simp only [hrefused, if_true]
        exact safe_login hf
      · simp only [hrefused, if_false]
        exact hf

/-- What is stored, if it lives; where nothing does, it may be replaced. -/
theorem safe_live {current : Option Session} (h : Holds t w) :
    (sessionContract cfg allowed).Safe t (SessionManager.live current) (fun res w' =>
      Holds t w' ∧ w'.store = w.store ∧
        (res = .ok none → ∀ session, current = some session → session.expiresAt ≤ w'.clock)) w := by
  cases current with
  | none => exact ⟨h, rfl, fun _ _ hs => nomatch hs⟩
  | some current =>
      refine (Contract.safe_bind _ _).mpr (safe_still (c := .now) trivial fun res w' hk hs => ?_)
      have hstore := (hk.held h.holder).2.1
      cases hs with
      | cancelled hc => exact hc.elim
      | time =>
          refine ⟨h.of_kept hk, hstore, fun hnone session hsession => ?_⟩
          obtain rfl := Option.some.inj hsession
          by_cases hexpired : SessionExpiry.isExpired current w'.clock
          · exact of_decide_eq_true hexpired
          · simp [hexpired] at hnone

/-- **The rule of the lock.** -/
theorem safe_withLock {α : Type} {p : Program α}
    (h : ∀ w', Holds t w' → (sessionContract cfg allowed).Safe t p (fun _ w'' => Holds t w'') w') :
    (sessionContract cfg allowed).Safe t (SessionManager.withLock p) (fun _ _ => True) w := by
  refine (Contract.safe_bind _ _).mpr fun w₁ htidy _ => ⟨trivial, fun a w₂ hs _ => ?_⟩
  obtain ⟨time, -, hs⟩ := hs
  cases hs with
  | cancelled _ => trivial
  | locked hfree =>
      have hholds : Holds t { w₁ with clock := time, holder := some t } := ⟨rfl, htidy hfree⟩
      refine (Contract.safe_bind _ _).mpr ((Contract.safe_attempt _).mpr
        ((h _ hholds).mono fun res w₃ h₃ => ?_))
      refine (Contract.safe_bind _ _).mpr fun w₄ _ hr => ⟨?_, fun a w₅ hs _ => ?_⟩
      · have h₄ := h₃.of_kept hr
        exact ⟨h₄.holder, h₄.current⟩
      · cases a <;> trivial

theorem safe_load {Q : Except StackError (Option Session) → World → Prop}
    (h : ∀ w', Kept t w w' → Q (.ok w'.store) w') :
    (sessionContract cfg allowed).Safe t (await .load) Q w := by
  refine safe_still (c := .load) trivial fun res w' hk hs => ?_
  cases hs with
  | cancelled hc => exact hc.elim
  | loaded => exact h w' hk

theorem safe_session : (sessionContract cfg allowed).Safe t (SessionManager.session cfg)
    (fun _ _ => True) w := by
  refine safe_withLock fun w₁ h₁ => (Contract.safe_bind _ _).mpr (safe_load fun w₂ hk => ?_)
  refine (Contract.safe_bind _ _).mpr ((safe_live (h₁.of_kept hk)).mono fun res w₃ h₃ => ?_)
  match res with
  | .error e => exact h₃.1
  | .ok (some current) => exact h₃.1
  | .ok none => exact safe_login h₃.1

theorem safe_renew (rejected : Session) : (sessionContract cfg allowed).Safe t
    (SessionManager.renew cfg rejected) (fun _ _ => True) w := by
  refine safe_withLock fun w₁ h₁ => (Contract.safe_bind _ _).mpr (safe_load fun w₂ hk => ?_)
  refine (Contract.safe_bind _ _).mpr ((safe_live (h₁.of_kept hk)).mono fun res w₃ h₃ => ?_)
  match res with
  | .error e => exact h₃.1
  | .ok (some current) => exact h₃.1
  | .ok none =>
      refine safe_refresh h₃.1 fun session hsession => ?_
      by_cases hjwt : session.jwt = rejected.jwt
      · exact .inl hjwt
      · refine .inr (h₃.2.2 rfl session ?_)
        rw [h₃.2.1] at hsession
        simp [hsession, hjwt]

theorem safe_logout : (sessionContract cfg allowed).Safe t (SessionManager.logout cfg)
    (fun _ _ => True) w := by
  refine safe_withLock fun w₁ h₁ => (Contract.safe_bind _ _).mpr (safe_load fun w₂ hk => ?_)
  have h₂ := h₁.of_kept hk
  cases hstore : w₂.store with
  | none => exact h₂
  | some current =>
      have hready : Ready t ⟨Endpoints.logout, some [("clientcode", .str cfg.credentials.clientCode)],
          some current.jwt⟩ w₂ := ⟨h₂, fun he => absurd he logout_ne⟩
      refine (Contract.safe_bind _ _).mpr ((Contract.safe_attempt _).mpr
        ((Contract.safe_bind _ _).mpr ((safe_holderSend hready).mono fun res w₃ h₃ => ?_)))
      have hheld : Holds t w₃ := by
        cases res with
        | error e => exact h₃.toHolds
        | ok data =>
            refine ⟨h₃.1, ?_⟩
            have hbring := h₃.2
            rw [bring_eq_none data logout_gives_none] at hbring
            exact hbring
      have hclear : ∀ r : Except StackError Unit, (sessionContract cfg allowed).Safe t (do
          await .clear
          Task.lift r) (fun _ w' => Holds t w') w₃ := by
        refine fun r => (Contract.safe_bind _ _).mpr fun w₄ _ hr => ?_
        have h₄ := hheld.of_kept hr
        refine ⟨h₄.holder, fun a w₅ hs _ => ?_⟩
        obtain ⟨time, -, hs⟩ := hs
        cases hs with
        | cancelled hc => exact hc.elim
        | cleared => exact ⟨h₄.holder, fun _ hs => nomatch hs⟩
      cases res with
      | error e => exact hclear _
      | ok data => exact hclear _

/-! ## The callers -/

/-- A send of an ordinary request needs no lock. -/
theorem safe_ordinary {r : RestRequest} (h : r.endpoint ∉ sessionEndpoints) :
    (sessionContract cfg allowed).Safe t (RetryingTransport.send cfg r) (fun _ _ => True) w := by
  refine Contract.Safe.of_only (wired_attempts (List.mem_singleton_self _) _ _) fun {w c} _ hc => ?_
  cases c with
  | request r' headers =>
      intro hmem
      rw [List.mem_singleton.mp hc] at hmem
      exact absurd hmem h
  | acquire group => trivial
  | fraction => trivial
  | sleep delay => trivial
  | _ => exact hc.elim

theorem safe_ordinarySend {r : RestRequest} (h : r.endpoint ∉ sessionEndpoints) :
    (sessionContract cfg allowed).Safe t (AuthenticatedTransport.send cfg r) (fun _ _ => True)
      w := by
  unfold AuthenticatedTransport.send
  split
  · exact safe_ordinary h
  refine (Contract.safe_bind _ _).mpr (safe_session.mono fun res w₁ _ => ?_)
  cases res with
  | error e => trivial
  | ok session =>
      refine (Contract.safe_bind _ _).mpr ((Contract.safe_attempt _).mpr
        ((safe_ordinary (r := { r with bearer := some session.jwt }) h).mono fun res w₂ _ => ?_))
      match res with
      | .ok data => trivial
      | .error (.configuration _) => trivial
      | .error .cancelled => trivial
      | .error (.broker e) =>
          by_cases hread : e.kind = .sessionExpired ∧ (!r.endpoint.mutates) = true
          · simp only [hread, and_self, if_true]
            refine (Contract.safe_bind _ _).mpr ((safe_renew session).mono fun res w₃ _ => ?_)
            cases res with
            | error e => trivial
            | ok renewed => exact safe_ordinary (r := { r with bearer := some renewed.jwt }) h
          · simp only [hread, if_false]
            trivial

/-- A program whose end is of no concern. -/
theorem safe_then {α β : Type} {p : Program α} {f : α → Program β}
    (hp : ∀ w, (sessionContract cfg allowed).Safe t p (fun _ _ => True) w)
    (hf : ∀ a w, (sessionContract cfg allowed).Safe t (f a) (fun _ _ => True) w) :
    (sessionContract cfg allowed).Safe t (p >>= f) (fun _ _ => True) w := by
  refine (Contract.safe_bind _ _).mpr ((hp w).mono fun res w' _ => ?_)
  cases res with
  | error e => trivial
  | ok a => exact hf a w'

/-- **Every task keeps to the contract.** -/
theorem safe_caller (t : ℕ) (w : World) :
    (sessionContract cfg Ordinary).Safe t (serve cfg) (fun _ _ => True) w := by
  refine (Contract.safe_bind _ _).mpr fun w₁ _ _ => ⟨trivial, fun a w₂ hs _ => ?_⟩
  obtain ⟨time, -, hs⟩ := hs
  cases hs with
  | cancelled hc => exact hc.elim
  | @take caller hordinary =>
      have hend : ∀ (x : Result) (w : World), (sessionContract cfg Ordinary).Safe t
          (pure x : Program Result) (fun _ _ => True) w := fun _ _ => trivial
      cases caller with
      | send r => exact safe_then (fun _ => safe_ordinarySend (hordinary r rfl)) fun _ => hend _
      | authenticate =>
          exact safe_then (fun _ => safe_withLock fun _ => safe_login) fun _ => hend _
      | feedToken =>
          exact safe_then (fun _ => safe_then (fun _ => safe_session) fun _ _ => trivial)
            fun _ => hend _
      | refreshFeedToken =>
          exact safe_then (fun _ => safe_then (fun _ => safe_session) fun session _ =>
            safe_then (fun _ => safe_renew session) fun _ _ => trivial) fun _ => hend _
      | logout => exact safe_then (fun _ => safe_logout) fun _ => hend _

/-- **One session at a time.** However the callers of the stack interleave
and whatever the wire does: while the lock is free, the session that is
stored is the last one a reply has brought; a request that logs in,
refreshes or logs out is made by the task that holds the lock, so no two
are out together; and a refresh is only ever sent for the session that is
stored, or where none is, or the one that is has expired. -/
theorem session_single_flight {time : Timestamp} {n : ℕ}
    {s : Pool calls StackError Result World}
    (hr : Pool.Reachable (platform cfg Ordinary) (fun p => p = serve cfg)
      (Pool.idle (World.start time) n) s) :
    (s.world.holder = none →
      ∀ session, s.world.store = some session → s.world.newest = some session.jwt) ∧
    (∀ t r headers k, s.task t = some (.call (.request r headers) k) →
      r.endpoint ∈ sessionEndpoints → s.world.holder = some t ∧
        (r.endpoint = Endpoints.generateTokens → ∀ session, s.world.store = some session →
          r.bearer = some session.jwt ∨ session.expiresAt ≤ s.world.clock)) := by
  have hstart : Tidy (World.start time) := fun _ _ hs => nomatch hs
  have hsound : s.Sound (sessionContract cfg Ordinary) Pool.nothing :=
    Pool.Reachable.sound (fun _ _ => trivial) (fun p hp t w _ => by subst hp; exact safe_caller t w)
      (Pool.Sound.idle hstart) hr
  refine ⟨hsound.inv, fun t r headers k ht hmem => ?_⟩
  obtain ⟨hholder, htokens⟩ := hsound.guar ht hmem
  refine ⟨hholder, fun he session hsession => ?_⟩
  obtain ⟨jwt, hbearer, hreplaceable⟩ := htokens he
  rw [hbearer]
  exact (hreplaceable session hsession).imp_left fun h => congrArg some h.symm

/-! ## Two callers that find no session -/

namespace OneOrder

theorem order_ordinary : Ordinary (.send order) := by
  intro r hr
  cases hr
  decide

/-- The second caller comes while the first is logging in. -/
def twoCallers : List (Move Unit) := [.start (), .start (), .run 0 6, .run 1 3, .run 0 20, .run 1 20]

def settled : Pool calls StackError Result World :=
  (Pool.idle (World.start 0) 0).play respond (platform stack Ordinary).restart
    (fun _ => serve stack) twoCallers

theorem settled_reachable : Pool.Reachable (platform stack Ordinary) (fun p => p = serve stack)
    (Pool.idle (World.start 0) 0) settled := by
  refine Pool.Reachable.play (respond_within order_ordinary) (fun _ => ?_) .refl twoCallers
  rfl

end OneOrder

open OneOrder in
theorem session_single_flight_sample :
    (settled.world.own 0 Endpoints.login).length = 1 ∧
      (settled.world.own 1 Endpoints.login).length = 0 ∧
      (settled.world.own 1 Endpoints.placeOrder).length = 2 ∧ settled.world.store.isSome ∧
      ∀ session, settled.world.store = some session →
        settled.world.newest = some session.jwt :=
  ⟨by decide, by decide, by decide, by decide,
    (session_single_flight settled_reachable).1 (by decide)⟩

end AngelOne

end Emporos
