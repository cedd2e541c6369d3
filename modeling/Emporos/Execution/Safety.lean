import Emporos.Execution.Contract
/-!
# The programs keep the contract

One lemma for each program of the engine, each proved from those of the
programs it calls: under the contract, every call it makes is one it may
make. `Later` is what a task keeps between two of its locking calls.
-/

namespace Emporos

open Async Program

variable [DecimalContext] {cfg : Settings} {scope : Scope} {env : Environment} {t : ℕ}
  {w w' w'' : World} {α β : Type}

/-- What a task holds on to from `w` to `w'`: the lock if it had it, what
it has seen since it took it, and the orders it knows. -/
structure Later (t : ℕ) (w w' : World) : Prop where
  lock : w.lock = some t → w'.lock = some t
  seen : ∀ e ∈ w.sinceLock t, e ∈ w'.sinceLock t
  grows : w.store.Extends w'.store

omit [DecimalContext] in
theorem Later.refl (t : ℕ) (w : World) : Later t w w := ⟨id, fun _ h => h, .refl _⟩

omit [DecimalContext] in
theorem Later.trans (h : Later t w w') (h' : Later t w' w'') : Later t w w'' :=
  ⟨fun hl => h'.lock (h.lock hl), fun e he => h'.seen e (h.seen e he), h.grows.trans h'.grows⟩

omit [DecimalContext] in
theorem Undisturbed.sinceLock (h : Undisturbed t w w') : w'.sinceLock t = w.sinceLock t := by
  rw [World.sinceLock, World.sinceLock, h.own]

omit [DecimalContext] in
theorem Undisturbed.later (h : Undisturbed t w w') : Later t w w' :=
  ⟨h.lock.mpr, fun e he => by rw [h.sinceLock]; exact he, h.grows⟩

omit [DecimalContext] in
theorem sinceLock_of_own {e : Event} (h : w'.own t = e :: w.own t) (he : e.acquires = false) :
    w'.sinceLock t = e :: w.sinceLock t := by
  rw [World.sinceLock, World.sinceLock, h, List.takeWhile_cons_of_pos (by rw [he]; rfl)]

omit [DecimalContext] in
/-- A call that does not take the lock is one more since it was taken. -/
theorem sinceLock_of_step {c : Call} {a : c.Answer} (hc : c ≠ .acquireLock)
    (hs : (platform env).step t w c a w') :
    ∃ time, w'.own t = ⟨t, c, a, time, w.store⟩ :: w.own t ∧
      w'.sinceLock t = ⟨t, c, a, time, w.store⟩ :: w.sinceLock t := by
  obtain ⟨time, hown, -⟩ := own_of_step hs
  refine ⟨time, hown, sinceLock_of_own hown ?_⟩
  cases c <;> first | rfl | exact absurd rfl hc

omit [DecimalContext] in
theorem sinceLock_of_acquire {a : Call.acquireLock.Answer}
    (hs : (platform env).step t w .acquireLock a w') : w'.sinceLock t = [] := by
  obtain ⟨time, hown, -⟩ := own_of_step hs
  rw [World.sinceLock, hown, List.takeWhile_cons_of_neg (by simp [Event.acquires])]

theorem later_of_step {c : Call} {a : c.Answer} (hacq : c ≠ .acquireLock)
    (hrel : c ≠ .releaseLock) (hw : Sane w) (hg : Permit cfg scope t w c)
    (hs : (platform env).step t w c a w') : Later t w w' := by
  obtain ⟨time, -, hsince⟩ := sinceLock_of_step hacq hs
  obtain ⟨_, ha, -⟩ := platform_step hs
  refine ⟨fun hl => ?_, fun e he => ?_, extends_of_step hw hg hs⟩
  · rw [ha.lock_eq hacq hrel, hl]
  · rw [hsince]; exact List.mem_cons_of_mem _ he

/-! ## Rules -/

/-- What a section of a task promises: that it is later. -/
abbrev Section (t : ℕ) (w : World) : Except PyError α → World → Prop := fun _ w' => Later t w w'

/-- **The rule of a call that does not lock.** -/
theorem safe_await {c : Call} {f : c.Value → Program β} {Q : Except PyError β → World → Prop}
    (hacq : c ≠ .acquireLock) (hrel : c ≠ .releaseLock)
    (hg : ∀ w', Sane w' → Undisturbed t w w' → Permit cfg scope t w' c)
    (hok : ∀ v w' w'', Sane w' → Undisturbed t w w' → (platform env).step t w' c (.ok v) w'' →
      Later t w w'' → (engineContract cfg scope env).Safe t (f v) Q w'')
    (herr : ∀ e w'', Later t w w'' → Q (.error e) w'') :
    (engineContract cfg scope env).Safe t (await c >>= f) Q w := by
  refine (Contract.safe_bind _ _).mpr (Contract.safe_ask.mpr fun w' hw' hu => ?_)
  refine ⟨hg w' hw' hu, fun a w'' hs hw'' => ?_⟩
  have hl : Later t w w'' := hu.later.trans (later_of_step hacq hrel hw' (hg w' hw' hu) hs)
  cases a with
  | ok v => exact hok v w' w'' hw' hu hs hl
  | error e => exact herr e w'' hl

/-- The same under `try`. -/
theorem safe_try {c : Call} {f : Except PyError c.Value → Program β}
    {Q : Except PyError β → World → Prop} (hacq : c ≠ .acquireLock) (hrel : c ≠ .releaseLock)
    (hg : ∀ w', Sane w' → Undisturbed t w w' → Permit cfg scope t w' c)
    (hk : ∀ a w' w'', Sane w' → Undisturbed t w w' → (platform env).step t w' c a w'' →
      Later t w w'' → (engineContract cfg scope env).Safe t (f a) Q w'') :
    (engineContract cfg scope env).Safe t ((await c).attempt >>= f) Q w := by
  refine (Contract.safe_bind _ _).mpr ((Contract.safe_attempt _).mpr
    (Contract.safe_ask.mpr fun w' hw' hu => ?_))
  exact ⟨hg w' hw' hu, fun a w'' hs hw'' => hk a w' w'' hw' hu hs
    (hu.later.trans (later_of_step hacq hrel hw' (hg w' hw' hu) hs))⟩

/-- A pure computation goes on if it did not raise. -/
theorem safe_lift {r : Except PyError α} {f : α → Program β}
    {Q : Except PyError β → World → Prop}
    (hok : ∀ v, r = .ok v → (engineContract cfg scope env).Safe t (f v) Q w)
    (herr : ∀ e, r = .error e → Q (.error e) w) :
    (engineContract cfg scope env).Safe t (lift r >>= f) Q w := by
  cases r with
  | ok v => exact hok v rfl
  | error e => exact herr e rfl

/-- A part that keeps the section is followed by what keeps it. -/
theorem safe_then {p : Program α} {f : α → Program β} {R : α → World → Prop}
    {Q : Except PyError β → World → Prop}
    (hp : (engineContract cfg scope env).Safe t p
      (fun r w' => Later t w w' ∧ ∀ v, r = .ok v → R v w') w)
    (hf : ∀ v w', Later t w w' → R v w' → (engineContract cfg scope env).Safe t (f v) Q w')
    (herr : ∀ e w', Later t w w' → Q (.error e) w') :
    (engineContract cfg scope env).Safe t (p >>= f) Q w := by
  refine (Contract.safe_bind _ _).mpr (hp.mono ?_)
  rintro (e | v) w' ⟨hl, hR⟩
  · exact herr e w' hl
  · exact hf v w' hl (hR v rfl)

/-- Q follows a section. -/
theorem section_trans {p : Program α} (hl : Later t w w')
    (hp : (engineContract cfg scope env).Safe t p (Section t w') w') :
    (engineContract cfg scope env).Safe t p (Section t w) w' :=
  hp.mono fun _ _ h => hl.trans h

/-! ## The engine, under its lock -/

/-- The task has done nothing about `tag` from `w` to `w'`. -/
def Quiet (t : ℕ) (w w' : World) (tag : String) : Prop :=
  ∃ l, w'.sinceLock t = l ++ w.sinceLock t ∧ ∀ x ∈ l, x.concerns tag = false

omit [DecimalContext] in
theorem Undisturbed.quiet (h : Undisturbed t w w') (tag : String) : Quiet t w w' tag :=
  ⟨[], by rw [h.sinceLock]; rfl, by simp⟩

omit [DecimalContext] in
/-- Reading the clock is nothing about a tag. -/
theorem quiet_of_now {a : Call.now.Answer} (hu : Undisturbed t w w')
    (hs : (platform env).step t w' .now a w'') (tag : String) : Quiet t w w'' tag := by
  obtain ⟨time, -, hsince⟩ := sinceLock_of_step (by simp) hs
  refine ⟨[⟨t, .now, a, time, w'.store⟩], by rw [hsince, hu.sinceLock]; rfl, fun x hx => ?_⟩
  rw [List.mem_singleton.mp hx]
  rfl

omit [DecimalContext] in
theorem LastLookup.quiet {tag : String} {rows : List BrokerOrder} (h : LastLookup t w tag rows)
    (hq : Quiet t w w' tag) : LastLookup t w' tag rows := by
  obtain ⟨l₁, time, s, l₂, hl, hall⟩ := h
  obtain ⟨l, hl', hquiet⟩ := hq
  refine ⟨l ++ l₁, time, s, l₂, by rw [hl', hl, List.append_assoc], fun x hx => ?_⟩
  exact (List.mem_append.mp hx).elim (hquiet x) (hall x)

omit [DecimalContext] in
theorem Judged.quiet {tag : String} {now : Timestamp} (h : Judged t w tag now)
    (hq : Quiet t w w' tag) : Judged t w' tag now := by
  obtain ⟨l₁, s₁, time, s₂, l₂, hl, hall⟩ := h
  obtain ⟨l, hl', hquiet⟩ := hq
  refine ⟨l ++ l₁, s₁, time, s₂, l₂, by rw [hl', hl, List.append_assoc], fun x hx => ?_⟩
  exact (List.mem_append.mp hx).elim (hquiet x) (hall x)

omit [DecimalContext] in
/-- What decided a change still does while nothing is done about it. -/
theorem Grounds.quiet {p : OrderRecord} {target : OrderState} {reason : String}
    {b : Option String} {checks : Option ℕ} (hg : Grounds cfg t w p target reason b checks)
    (hq : Quiet t w w' p.ordertag) : Grounds cfg t w' p target reason b checks := by
  cases hg with
  | sent h fresh => exact .sent h fresh
  | cancelling named => exact .cancelling named
  | revokeFailed => exact .revokeFailed
  | rows seen decided => exact .rows (seen.quiet hq) decided
  | vanished seen state => exact .vanished (seen.quiet hq) state
  | counted seen state => exact .counted (seen.quiet hq) state
  | confirmed seen state h => exact .confirmed (seen.quiet hq) state h

/-- **`_change` records what decided it**, and returns the order it was
given in its new state. -/
theorem safe_change {p : OrderRecord} {target : OrderState} {reason : String}
    {b : Option String} {checks : Option ℕ} (hl : w.lock = some t) (hk : w.store.Knows p)
    (hg : Grounds cfg t w p target reason b checks) :
    (engineContract cfg scope env).Safe t (ExecutionEngine.change p target reason b checks)
      (fun r w' => Later t w w' ∧ ∀ v, r = .ok v → v.intent = p.intent) w := by
  unfold ExecutionEngine.change
  refine safe_lift (fun _ hvalid => ?_) fun e _ => ⟨.refl t w, by simp⟩
  refine safe_await (by simp) (by simp) (fun _ _ _ => trivial) (fun now w' w₁ hw' hu hs hl₁ => ?_)
    fun e w' hl' => ⟨hl', by simp⟩
  have hg₁ := hg.quiet (quiet_of_now hu hs p.ordertag)
  refine safe_await (by simp) (by simp) (fun w₂ _ hu₂ => ?_) (fun _ w₂ w₃ _ hu₂ _ hl₃ => ?_)
    fun e w' hl' => ⟨hl₁.trans hl', by simp⟩
  · refine ⟨hu₂.lock.mpr (hl₁.lock hl), target, reason, b, checks, now, rfl, ?_,
      hu₂.grows _ (hl₁.grows _ hk), hg₁.quiet (hu₂.quiet _)⟩
    exact hvalid
  · refine ⟨hl₁.trans hl₃, fun v hv => ?_⟩
    obtain rfl := Except.ok.inj hv
    rfl

omit [DecimalContext] in
/-- A look-up is the last one until the next. -/
theorem lastLookup_of_step {tag : String} {rows : List BrokerOrder}
    (hs : (platform env).step t w (.findByTag tag) (.ok rows) w') : LastLookup t w' tag rows := by
  obtain ⟨time, -, hsince⟩ := sinceLock_of_step (by simp) hs
  exact ⟨[], time, w.store, _, hsince, by simp⟩

/-- **`_absent` counts an empty look-up.** -/
theorem safe_absent {p : OrderRecord} (hl : w.lock = some t) (hk : w.store.Knows p)
    (hseen : ∃ time s l, w.sinceLock t = ⟨t, .findByTag p.ordertag, .ok [], time, s⟩ :: l) :
    (engineContract cfg scope env).Safe t (ExecutionEngine.absent cfg.engine p)
      (fun r w' => Later t w w' ∧ ∀ v, r = .ok v → v.intent = p.intent) w := by
  obtain ⟨time, s, l, hseen⟩ := hseen
  unfold ExecutionEngine.absent
  split
  · rename_i hstate
    exact safe_change hl hk (.vanished ⟨[], time, s, l, hseen, by simp⟩ hstate)
  · rename_i hstate
    have hdoubt : p.state = .unknown ∨ p.state = .pendingNew := by
      by_contra hno
      exact hstate (not_or.mp hno)
    refine safe_await (by simp) (by simp) (fun _ _ _ => trivial)
      (fun now w' w₁ hw' hu hs hl₁ => ?_) fun e w' hl' => ⟨hl', by simp⟩
    have hjudged : Judged t w₁ p.ordertag now := by
      refine ⟨[], w'.store, time, s, l, ?_, by simp⟩
      rw [sinceLock_of_own (own_of_now hs) rfl, hu.sinceLock, hseen]
      rfl
    have hnext : ∀ {target : OrderState} {reason : String},
        Grounds cfg t w₁ p target reason none (some (p.absenceChecks + 1)) →
        (engineContract cfg scope env).Safe t
          (ExecutionEngine.change p target reason none (some (p.absenceChecks + 1)))
          (fun r w' => Later t w w' ∧ ∀ v, r = .ok v → v.intent = p.intent) w₁ :=
      fun hg => (safe_change (hl₁.lock hl) (hl₁.grows _ hk) hg).mono
        fun _ _ h => ⟨hl₁.trans h.1, h.2⟩
    split
    · rename_i hconf
      exact hnext (.confirmed hjudged hdoubt hconf)
    · exact hnext (.counted hjudged.lastLookup hdoubt)

/-- **`_resolve` asks the broker, and records what its rows decide.** -/
theorem safe_resolve {p : OrderRecord} (hl : w.lock = some t) (hk : w.store.Knows p) :
    (engineContract cfg scope env).Safe t (ExecutionEngine.resolve cfg.engine p)
      (fun r w' => Later t w w' ∧ ∀ v, r = .ok v → v.intent = p.intent) w := by
  unfold ExecutionEngine.resolve
  refine safe_try (by simp) (by simp) (fun w' _ hu => hu.lock.mpr hl)
    fun a w' w₁ hw' hu hs hl₁ => ?_
  have hkeep : Later t w w₁ ∧ ∀ v, (.ok p : Except PyError OrderRecord) = .ok v →
      v.intent = p.intent := ⟨hl₁, fun v hv => by rw [Except.ok.inj hv]⟩
  cases a with
  | error e => exact hkeep
  | ok rows =>
      have hseen := lastLookup_of_step hs
      have hmono : ∀ {q : Program OrderRecord}, (engineContract cfg scope env).Safe t q
          (fun r w' => Later t w₁ w' ∧ ∀ v, r = .ok v → v.intent = p.intent) w₁ →
          (engineContract cfg scope env).Safe t q
          (fun r w' => Later t w w' ∧ ∀ v, r = .ok v → v.intent = p.intent) w₁ :=
        fun h => h.mono fun _ _ h => ⟨hl₁.trans h.1, h.2⟩
      cases hv : ExecutionEngine.verdict p rows with
      | keep => simp only [hv]; exact hkeep
      | absent =>
          have hrows : rows = [] := by
            rcases rows with _ | ⟨r, _ | ⟨r', rest⟩⟩
            · rfl
            · simp only [ExecutionEngine.verdict, ExecutionEngine.verdictOn] at hv
              split_ifs at hv
            · simp [ExecutionEngine.verdict] at hv
          subst hrows
          simp only [hv]
          obtain ⟨time, -, hsince⟩ := sinceLock_of_step (by simp) hs
          exact hmono (safe_absent (hl₁.lock hl) (hl₁.grows _ hk) ⟨time, w'.store, _, hsince⟩)
      | change target reason b checks =>
          simp only [hv]
          exact hmono (safe_change (hl₁.lock hl) (hl₁.grows _ hk) (.rows hseen hv))

theorem safe_resolveAll {orders : List OrderRecord} (hl : w.lock = some t)
    (hk : ∀ o ∈ orders, w.store.Knows o) :
    (engineContract cfg scope env).Safe t (ExecutionEngine.resolveAll cfg.engine orders)
      (Section t w) w := by
  induction orders generalizing w with
  | nil => exact .refl t w
  | cons o rest ih =>
      refine safe_then (R := fun _ _ => True)
        ((safe_resolve hl (hk o (List.mem_cons_self ..))).mono fun _ _ h => ⟨h.1, by simp⟩)
        (fun _ w₁ hl₁ _ => ?_) fun _ _ hl' => hl'
      refine safe_then (R := fun _ _ => True) ((ih (hl₁.lock hl) fun p hp =>
        hl₁.grows _ (hk p (List.mem_cons_of_mem _ hp))).mono fun _ _ h => ⟨h, by simp⟩)
        (fun _ w₂ hl₂ _ => hl₁.trans hl₂) fun _ _ hl' => hl₁.trans hl'

/-! ## Placement -/

/-- Tag `tag` was created and has not been submitted. -/
def Unsent (t : ℕ) (w : World) (tag : String) : Prop :=
  (w.own t).countP (Event.submits tag) < (w.own t).countP (Event.creates tag)

omit [DecimalContext] in
/-- Only a submission sends. -/
theorem Unsent.of_step {tag : String} {c : Call} {a : c.Answer} (h : Unsent t w tag)
    (hu : Undisturbed t w w') (hs : (platform env).step t w' c a w'')
    (hc : ∀ r, c ≠ .submit r) : Unsent t w'' tag := by
  obtain ⟨time, hown, -⟩ := own_of_step hs
  have hsub : (⟨t, c, a, time, w'.store⟩ : Event).submits tag = false := by
    cases c <;> first | rfl | exact absurd rfl (hc _)
  unfold Unsent at h ⊢
  rw [hown, List.countP_cons_of_neg (by simp [hsub]), List.countP_cons, hu.own]
  omega

omit [DecimalContext] in
/-- An order just created is unsent. -/
theorem unsent_of_create {o : OrderRecord} (hw : Sane w)
    (hs : (platform env).step t w (.create o) (.ok ()) w') : Unsent t w' o.ordertag := by
  obtain ⟨time, hown, -⟩ := own_of_step hs
  have hb := hw.balanced t o.ordertag
  unfold Unsent
  rw [hown, List.countP_cons_of_neg (by simp [Event.submits]),
    List.countP_cons_of_pos (by simp [Event.creates])]
  omega

omit [DecimalContext] in
theorem Checked.later {i : String} (h : Checked t w i) (hl : Later t w w') : Checked t w' i := by
  obtain ⟨time, s, hs⟩ := h
  exact ⟨time, s, hl.seen _ hs⟩

omit [DecimalContext] in
theorem Created.later {o : OrderRecord} (h : Created t w o) (hl : Later t w w') :
    Created t w' o := by
  obtain ⟨time, s, hs⟩ := h
  exact ⟨time, s, hl.seen _ hs⟩

omit [DecimalContext] in
theorem Parent.later {signal : Signal} {parentOrderId : Option String}
    {parent : Option OrderRecord} (h : Parent t w signal parentOrderId parent)
    (hl : Later t w w') : Parent t w' signal parentOrderId parent := by
  cases h with
  | none => exact .none
  | some read hrep =>
      obtain ⟨time, s, hs⟩ := read
      exact .some ⟨time, s, hl.seen _ hs⟩ hrep

theorem Placement.grows {s s' : Store} {approval : RiskApprovedSignal} {p : Option String}
    {m : Bool} (h : Placement cfg scope s approval p m) (hs : s.Extends s') :
    Placement cfg scope s' approval p m := by
  cases h with
  | direct h => exact .direct h
  | replacement known count chased keyed => exact .replacement (hs _ known) count chased keyed

omit [DecimalContext] in
theorem submitted_target (o : OrderRecord) (r : Except PyError BrokerOrderAck) :
    (ExecutionEngine.submitted o r).1 = .open ∨ (ExecutionEngine.submitted o r).1 = .unknown ∨
      (ExecutionEngine.submitted o r).1 = .rejected := by
  unfold ExecutionEngine.submitted
  split
  · split <;> simp
  · simp
  · split <;> simp

omit [DecimalContext] in
/-- The request is of the intent alone. -/
theorem ExecutionEngine.requestOf_of_intent {o p : OrderRecord} (h : o.intent = p.intent) :
    requestOf o = requestOf p := by
  unfold requestOf
  rw [OrderRecord.instrumentId_of_intent h, OrderRecord.side_of_intent h,
    OrderRecord.orderType_of_intent h, OrderRecord.quantity_of_intent h,
    OrderRecord.limitPrice_of_intent h, OrderRecord.triggerPrice_of_intent h,
    OrderRecord.ordertag_of_intent h]

/-- **`_send` submits an order at most once.** -/
theorem safe_send {o : OrderRecord} {approval : RiskApprovedSignal} (hl : w.lock = some t)
    (hk : w.store.Knows o) (hnew : o.brokerOrderId = none ∧ o.absenceChecks = 0)
    (hchecked : Checked t w o.instrumentId) (hcreated : Created t w o)
    (hunsent : Unsent t w o.ordertag) :
    (engineContract cfg scope env).Safe t (ExecutionEngine.send cfg.engine o approval)
      (Section t w) w := by
  unfold ExecutionEngine.send
  refine safe_await (by simp) (by simp) (fun _ _ _ => trivial)
    (fun _ w' w₁ _ hu hs hl₁ => ?_) fun _ _ h => h
  refine safe_await (by simp) (by simp) (fun _ _ _ => trivial)
    (fun now w₁' w₂ _ hu₂ hs₂ hl₂ => ?_) fun _ _ h => hl₁.trans h
  have hunsent₂ := (hunsent.of_step hu hs (by simp)).of_step hu₂ hs₂ (by simp)
  have hl₀ := hl₁.trans hl₂
  have hchange : ∀ {w₃ : World} {target : OrderState} {reason : String} {b : Option String},
      Later t w w₃ → (target = .open ∨ target = .unknown ∨ target = .rejected) →
      (engineContract cfg scope env).Safe t (ExecutionEngine.change o target reason b none)
        (Section t w) w₃ :=
    fun h ht => (safe_change (h.lock hl) (h.grows _ hk) (.sent ht hnew)).mono fun _ _ h' => h.trans h'.1
  split
  · exact hchange hl₀ (by simp)
  · cases hr : ExecutionEngine.requestOf o with
    | error e => exact hchange hl₀ (submitted_target o (.error e))
    | ok r =>
        refine safe_try (by simp) (by simp) (fun w₃ _ hu₃ => ?_)
          fun ack _ _ _ _ _ hl₄ => hchange (hl₀.trans hl₄) (submitted_target o ack)
        have hl₃ := hl₀.trans hu₃.later
        refine ⟨hl₃.lock hl, o, hr, hl₃.grows _ hk, hcreated.later hl₃, hchecked.later hl₃, ?_⟩
        rw [hu₃.own]
        exact hunsent₂

/-- `_parent` reads the order it returns. -/
theorem safe_parentOf {approval : RiskApprovedSignal} {parentOrderId : Option String} :
    (engineContract cfg scope env).Safe t
      (ExecutionEngine.parentOf parentOrderId approval)
      (fun r w' => Later t w w' ∧ ∀ v, r = .ok v →
        Parent t w' approval.signal parentOrderId v) w := by
  unfold ExecutionEngine.parentOf
  cases parentOrderId with
  | none =>
      refine ⟨.refl t w, fun v hv => ?_⟩
      obtain rfl := Except.ok.inj hv
      exact .none
  | some parentId =>
      refine safe_await (by simp) (by simp) (fun _ _ _ => trivial)
        (fun v w' w₁ _ hu hs hl₁ => ?_) fun _ _ h => ⟨h, by simp⟩
      obtain ⟨time, -, hsince⟩ := sinceLock_of_step (by simp) hs
      cases v with
      | none => exact ⟨hl₁, by simp⟩
      | some p =>
          by_cases hrep : ExecutionEngine.replaceable approval.signal p
          · simp only [hrep, if_true]
            refine ⟨hl₁, fun v hv => ?_⟩
            obtain rfl := Except.ok.inj hv
            exact .some ⟨time, w'.store, by rw [hsince]; exact List.mem_cons_self ..⟩ hrep
          · simp only [hrep]
            exact ⟨hl₁, by simp⟩

/-- A replacement is sent at the price it was approved for. -/
theorem safe_price {rule : String → MarketableLimit} {signal : Signal} {marketable : Bool} :
    (engineContract cfg scope env).Safe t (MarketableLimitPricer.price rule signal marketable)
      (fun r w' => Later t w w' ∧ ∀ v, r = .ok v → marketable = false →
        v.1 = signal.limitPrice) w := by
  unfold MarketableLimitPricer.price
  refine safe_await (by simp) (by simp) (fun _ _ _ => trivial)
    (fun tick w' w₁ _ hu hs hl₁ => ?_) fun _ _ h => ⟨h, by simp⟩
  have hlegal : ∀ prices : Money × Option Money,
      (marketable = false → prices.1 = signal.limitPrice) →
      (engineContract cfg scope env).Safe t (do
        lift (MarketableLimitPricer.requireLegal signal.instrumentId tick (some prices.1))
        lift (MarketableLimitPricer.requireLegal signal.instrumentId tick prices.2)
        pure prices)
      (fun r w' => Later t w w' ∧ ∀ v, r = .ok v → marketable = false →
        v.1 = signal.limitPrice) w₁ := by
    intro prices hp
    refine safe_lift (fun _ _ => ?_) fun _ _ => ⟨hl₁, by simp⟩
    refine safe_lift (fun _ _ => ⟨hl₁, fun v hv => ?_⟩) fun _ _ => ⟨hl₁, by simp⟩
    obtain rfl := Except.ok.inj hv
    exact hp
  cases marketable with
  | false => exact hlegal (signal.limitPrice, signal.triggerPrice) fun _ => rfl
  | true =>
      cases hr : (rule signal.strategyRunId).prices signal tick with
      | error e =>
          simp only [if_true]
          exact ⟨hl₁, by simp⟩
      | ok prices =>
          simp only [if_true]
          exact hlegal prices (by simp)

/-- **`place` under the lock.** -/
theorem safe_placeUnderLock {approval : RiskApprovedSignal} {parentOrderId : Option String}
    {marketable : Bool} (hl : w.lock = some t)
    (hp : Placement cfg scope w.store approval parentOrderId marketable) :
    (engineContract cfg scope env).Safe t
      (ExecutionEngine.placeUnderLock cfg.engine approval parentOrderId marketable)
      (Section t w) w := by
  unfold ExecutionEngine.placeUnderLock
  refine safe_await (by simp) (by simp) (fun _ _ _ => trivial)
    (fun existing _ w₁ _ _ _ hl₁ => ?_) fun _ _ h => h
  cases existing with
  | some o => exact hl₁
  | none =>
      refine safe_then safe_parentOf (fun parent w₂ hl₂ hparent => ?_) fun _ _ h => hl₁.trans h
      have hl₂ := hl₁.trans hl₂
      refine safe_await (by simp) (by simp) (fun _ _ _ => trivial)
        (fun frozen w₂' w₃ _ hu₃ hs₃ hl₃ => ?_) fun _ _ h => hl₂.trans h
      obtain ⟨time, -, hsince⟩ := sinceLock_of_step (by simp) hs₃
      have hparent₃ := hparent.later hl₃
      have hl₃ := hl₂.trans hl₃
      cases frozen with
      | true => exact hl₃
      | false =>
          have hchecked : Checked t w₃ approval.signal.instrumentId :=
            ⟨time, w₂'.store, by rw [hsince]; exact List.mem_cons_self ..⟩
          refine safe_await (by simp) (by simp) (fun _ _ _ => trivial)
            (fun now _ w₄ _ _ _ hl₄ => ?_) fun _ _ h => hl₃.trans h
          split
          · exact hl₃.trans hl₄
          · refine safe_then safe_price (fun prices w₅ hl₅ hprice => ?_)
              fun _ _ h => (hl₃.trans hl₄).trans h
            obtain ⟨limit, trigger⟩ := prices
            have hl₄₅ := hl₄.trans hl₅
            refine safe_await (by simp) (by simp) (fun _ _ _ => trivial)
              (fun orderId _ w₆ _ _ _ hl₆ => ?_) fun _ _ h => (hl₃.trans hl₄₅).trans h
            have hl₃₆ := hl₄₅.trans hl₆
            refine safe_try (by simp) (by simp) (fun w₇ hw₇ hu₇ => ?_)
              fun a w₇ w₈ hw₇ hu₇ hs₈ hl₈ => ?_
            · have hl₃₇ := hl₃₆.trans hu₇.later
              refine ⟨(hl₃.trans hl₃₇).lock hl, approval, parent, parentOrderId, marketable,
                orderId, limit, trigger, now, rfl, hp.grows (hl₃.trans hl₃₇).grows, hprice,
                hparent₃.later hl₃₇, hchecked.later hl₃₇⟩
            · have hl₀ := (hl₃.trans hl₃₆).trans hl₈
              cases a with
              | ok v =>
                  obtain ⟨time₈, -, hsince₈⟩ := sinceLock_of_step (by simp) hs₈
                  refine section_trans hl₀ (safe_send (hl₀.lock hl) (knows_of_create hs₈) ⟨rfl, rfl⟩
                    (hchecked.later (hl₃₆.trans hl₈)) ⟨time₈, w₇.store, ?_⟩
                    (unsent_of_create hw₇ hs₈))
                  rw [hsince₈]
                  exact List.mem_cons_self ..
              | error e =>
                  cases e with
                  | duplicateRecord fields =>
                      refine safe_await (by simp) (by simp) (fun _ _ _ => trivial)
                        (fun existing _ w₉ _ _ _ hl₉ => ?_) fun _ _ h => hl₀.trans h
                      cases existing with
                      | none => exact hl₀.trans hl₉
                      | some o => exact hl₀.trans hl₉
                  | _ => exact hl₀

/-! ## Sections -/

/-- What an operation promises: the orders it knew are still known. -/
abbrev Grown (w : World) : Except PyError α → World → Prop := fun _ w' => w.store.Extends w'.store

/-- **The rule of the lock.** A body that keeps its section is run under
the lock. -/
theorem safe_locked {body : Program α}
    (hbody : ∀ w', w'.lock = some t → w.store.Extends w'.store →
      (engineContract cfg scope env).Safe t body (Section t w') w') :
    (engineContract cfg scope env).Safe t (ExecutionEngine.locked body) (Grown w) w := by
  unfold ExecutionEngine.locked
  refine (Contract.safe_bind _ _).mpr (Contract.safe_ask.mpr fun w' hw' hu => ?_)
  refine ⟨trivial, fun a w'' hs hw'' => ?_⟩
  have hg : Permit cfg scope t w' .acquireLock := trivial
  have hgrow := hu.grows.trans (extends_of_step hw' hg hs)
  obtain ⟨_, ha, -⟩ := platform_step hs
  obtain ⟨-, hlock, rfl⟩ := ha.lock_of_acquire
  refine (Contract.safe_bind _ _).mpr ((Contract.safe_attempt _).mpr
    ((hbody w'' hlock hgrow).mono fun r w₁ h => ?_))
  refine (Contract.safe_bind _ _).mpr (Contract.safe_ask.mpr fun w₂ hw₂ hu₂ => ?_)
  have hheld : Permit cfg scope t w₂ .releaseLock := hu₂.lock.mpr (h.lock hlock)
  refine ⟨hheld, fun b w₃ hs₃ hw₃ => ?_⟩
  have hgrow₃ := (hgrow.trans (h.trans hu₂.later).grows).trans (extends_of_step hw₂ hheld hs₃)
  cases b with
  | error e => exact hgrow₃
  | ok v => exact hgrow₃

theorem safe_place {approval : RiskApprovedSignal} {parentOrderId : Option String}
    {marketable : Bool} (hp : Placement cfg scope w.store approval parentOrderId marketable) :
    (engineContract cfg scope env).Safe t
      (ExecutionEngine.place cfg.engine approval parentOrderId marketable) (Grown w) w :=
  safe_locked fun _ hlock hgrow => safe_placeUnderLock hlock (hp.grows hgrow)

/-- **`cancel` confirms through the order book.** -/
theorem safe_revoke {p : OrderRecord} (hl : w.lock = some t) (hk : w.store.Knows p)
    (hnamed : p.brokerOrderId ≠ none) :
    (engineContract cfg scope env).Safe t (ExecutionEngine.revoke cfg.engine p)
      (Section t w) w := by
  unfold ExecutionEngine.revoke
  refine safe_then (R := fun v _ => v.intent = p.intent) (safe_change hl hk (.cancelling hnamed))
    (fun o w₁ hl₁ hi => ?_) fun _ _ h => h
  have hk₁ : w₁.store.Knows o := (hl₁.grows _ hk).of_intent hi.symm
  refine safe_await (by simp) (by simp) (fun _ _ _ => trivial)
    (fun _ _ w₂ _ _ _ hl₂ => ?_) fun _ _ h => hl₁.trans h
  have hfailed : ∀ (e : PyError) (w₃ : World), Later t w₁ w₃ →
      (engineContract cfg scope env).Safe t
        (ExecutionEngine.change o .unknown e.typeName none none) (Section t w) w₃ := by
    intro e w₃ h
    have hl₃ := hl₁.trans h
    exact (safe_change (hl₃.lock hl) (h.grows _ hk₁) .revokeFailed).mono
      fun _ _ h' => hl₃.trans h'.1
  cases hr : CancelOrderRequest.make (o.brokerOrderId.getD "") o.orderType with
  | error e => exact hfailed e w₂ hl₂
  | ok r =>
      refine safe_try (by simp) (by simp) (fun _ _ _ => trivial) fun ack _ w₃ _ _ _ hl' => ?_
      have h := hl₂.trans hl'
      cases ack with
      | error e => exact hfailed e w₃ h
      | ok _ =>
          have hl₃ := hl₁.trans h
          exact (safe_resolve (hl₃.lock hl) (h.grows _ hk₁)).mono fun _ _ h' => hl₃.trans h'.1

/-- A section over one stored order. -/
theorem safe_onStored {orderId : String} {f : OrderRecord → Program OrderRecord}
    (hf : ∀ o w', w'.lock = some t → w'.store.Knows o →
      (engineContract cfg scope env).Safe t (f o) (Section t w') w') :
    (engineContract cfg scope env).Safe t (ExecutionEngine.locked do
      match ← await (.get orderId) with
      | none => raise (.valueError "order not found")
      | some order => f order) (Grown w) w := by
  refine safe_locked fun w₁ hlock _ => ?_
  refine safe_await (by simp) (by simp) (fun _ _ _ => trivial)
    (fun v w' w₂ _ _ hs hl₂ => ?_) fun _ _ h => h
  cases v with
  | none => exact hl₂
  | some o => exact section_trans hl₂ (hf o w₂ (hl₂.lock hlock) (knows_of_get hs))

theorem safe_cancel {orderId : String} :
    (engineContract cfg scope env).Safe t (ExecutionEngine.cancel cfg.engine orderId)
      (Grown w) w := by
  refine safe_onStored fun o w₁ hl hk => ?_
  split
  · exact .refl t w₁
  · split
    · exact (safe_resolve hl hk).mono fun _ _ h => h.1
    · split
      · exact .refl t w₁
      · rename_i hnamed
        exact safe_revoke hl hk hnamed

theorem safe_refresh {orderId : String} :
    (engineContract cfg scope env).Safe t (ExecutionEngine.refresh cfg.engine orderId)
      (Grown w) w := by
  refine safe_onStored fun o w₁ hl hk => ?_
  split
  · exact .refl t w₁
  · exact (safe_resolve hl hk).mono fun _ _ h => h.1

/-- Any of the active orders may be resolved. -/
theorem safe_onActive {pick : List OrderRecord → List OrderRecord}
    (hpick : ∀ l, pick l ⊆ l) :
    (engineContract cfg scope env).Safe t (ExecutionEngine.locked do
      ExecutionEngine.resolveAll cfg.engine (pick (← await .active))) (Grown w) w := by
  refine safe_locked fun w₁ hlock _ => ?_
  refine safe_await (by simp) (by simp) (fun _ _ _ => trivial)
    (fun v w' w₂ _ _ hs hl₂ => ?_) fun _ _ h => h
  exact section_trans hl₂
    (safe_resolveAll (hl₂.lock hlock) fun o ho => knows_of_active hs o (hpick v ho))

theorem safe_recover :
    (engineContract cfg scope env).Safe t (ExecutionEngine.recover cfg.engine) (Grown w) w :=
  @safe_onActive _ _ _ _ _ _ id fun _ => List.Subset.refl _

theorem safe_resolveUnresolved :
    (engineContract cfg scope env).Safe t (ExecutionEngine.resolveUnresolved cfg.engine)
      (Grown w) w :=
  @safe_onActive _ _ _ _ _ _ (List.filter ExecutionEngine.inDoubt) fun _ =>
    List.filter_sublist.subset

/-! ## Fills -/

/-- The task has recorded the trade. -/
def Applied (t : ℕ) (w : World) (trade : BrokerTrade) : Prop :=
  ∃ p u e q time s, (⟨t, .recordFill p u e q, .ok .applied, time, s⟩ : Event) ∈ w.own t ∧
    e.brokerTradeId = trade.tradeId

/-- What processing a trade promises: the orders it knew are known, and
what it says it applied it recorded. -/
abbrev Booked (t : ℕ) (w : World) (trade : BrokerTrade) : Except PyError FillResult → World → Prop :=
  fun r w' => Later t w w' ∧ ∀ v, r = .ok v → v = .applied → Applied t w' trade

omit [DecimalContext] in
theorem Applied.of_own {trade : BrokerTrade} (h : Applied t w trade) (hs : w.own t ⊆ w'.own t) :
    Applied t w' trade := by
  obtain ⟨p, u, e, q, time, s, hmem, htrade⟩ := h
  exact ⟨p, u, e, q, time, s, hs hmem, htrade⟩

omit [DecimalContext] in
/-- A position stays the last read until the next reading. -/
theorem LastPosition.of_step {i : String} {held : Option PositionRecord} {c : Call} {a : c.Answer}
    (h : LastPosition t w i held) (hu : Undisturbed t w w')
    (hs : (platform env).step t w' c a w'')
    (hc : (∀ j, c ≠ .position j) ∧ ∀ p u e q, c ≠ .recordFill p u e q) :
    LastPosition t w'' i held := by
  obtain ⟨time, s, hfind⟩ := h
  obtain ⟨time', hown, -⟩ := own_of_step hs
  have hread : (⟨t, c, a, time', w'.store⟩ : Event).usesPosition = false := by
    cases c <;> first | rfl | exact absurd rfl (hc.1 _) | exact absurd rfl (hc.2 _ _ _ _)
  exact ⟨time, s, by rw [hown, List.find?_cons_of_neg (by simp [hread]), hu.own, hfind]⟩

omit [DecimalContext] in
theorem lastPosition_of_step {i : String} {held : Option PositionRecord}
    (hs : (platform env).step t w (.position i) (.ok held) w') : LastPosition t w' i held := by
  obtain ⟨time, hown, -⟩ := own_of_step hs
  exact ⟨time, w.store, by rw [hown, List.find?_cons_of_pos (by simp [Event.usesPosition])]⟩

/-- The position to fold into is the one read, or a flat one. -/
theorem safe_heldOrFlat {i : String} {held : Option PositionRecord} (h : LastPosition t w i held) :
    (engineContract cfg scope env).Safe t (FillProcessor.heldOrFlat cfg.fills i held)
      (fun r w' => Later t w w' ∧ ∀ v, r = .ok v → LastPosition t w' i held ∧
        ∃ flatAt, v = held.getD (.flat cfg.fills.accountId i flatAt)) w := by
  cases held with
  | some q =>
      refine ⟨.refl t w, fun v hv => ⟨h, 0, ?_⟩⟩
      obtain rfl := Except.ok.inj hv
      rfl
  | none =>
      refine safe_await (by simp) (by simp) (fun _ _ _ => trivial)
        (fun now w' w₁ _ hu hs hl₁ => ⟨hl₁, fun v hv => ?_⟩) fun _ _ h => ⟨h, by simp⟩
      obtain rfl := Except.ok.inj hv
      exact ⟨h.of_step hu hs (by simp), now, rfl⟩

/-- The order with the fill is validated before it is built. -/
theorem safe_filledOrder {p : OrderRecord} {trade : BrokerTrade} {i : String}
    {held : Option PositionRecord} (h : LastPosition t w i held) :
    (engineContract cfg scope env).Safe t (FillProcessor.filledOrder p trade)
      (fun r w' => Later t w w' ∧ ∀ v, r = .ok v → LastPosition t w' i held ∧
        OrderStateMachine.validate p.state
          (FillProcessor.targetState p (p.filledQuantity + trade.quantity)) p.filledQuantity
          (p.filledQuantity + trade.quantity) p.quantity = .ok () ∧
        ∃ at', v = FillProcessor.withFill p trade at') w := by
  refine safe_lift (fun _ hvalid => ?_) fun _ _ => ⟨.refl t w, by simp⟩
  refine safe_await (by simp) (by simp) (fun _ _ _ => trivial)
    (fun now w' w₁ _ hu hs hl₁ => ⟨hl₁, fun v hv => ?_⟩) fun _ _ h => ⟨h, by simp⟩
  obtain rfl := Except.ok.inj hv
  exact ⟨h.of_step hu hs (by simp), hvalid, now, rfl⟩

/-- **Booking a trade** records it with the position last read. -/
theorem safe_book {p : OrderRecord} {trade : BrokerTrade} (hscope : scope.trades trade)
    (hk : w.store.Knows p) (hattr : p.brokerOrderId = some trade.brokerOrderId)
    (hacc : FillProcessor.refuses p trade = false) :
    (engineContract cfg scope env).Safe t (FillProcessor.book cfg.fills p trade)
      (Booked t w trade) w := by
  unfold FillProcessor.book
  refine safe_await (by simp) (by simp) (fun _ _ _ => trivial)
    (fun now _ w₁ _ _ _ hl₁ => ?_) fun _ _ h => ⟨h, by simp⟩
  refine safe_await (by simp) (by simp) (fun _ _ _ => trivial)
    (fun id _ w₂ _ _ _ hl₂ => ?_) fun _ _ h => ⟨hl₁.trans h, by simp⟩
  have hl₂ := hl₁.trans hl₂
  refine safe_lift (fun fees hfees => ?_) fun _ _ => ⟨hl₂, by simp⟩
  refine safe_await (by simp) (by simp) (fun _ _ _ => trivial)
    (fun soFar _ w₃ _ _ _ hl₃ => ?_) fun _ _ h => ⟨hl₂.trans h, by simp⟩
  have hl₃ := hl₂.trans hl₃
  refine safe_await (by simp) (by simp) (fun _ _ _ => trivial)
    (fun held _ w₄ _ _ hs₄ hl₄ => ?_) fun _ _ h => ⟨hl₃.trans h, by simp⟩
  have hl₄ := hl₃.trans hl₄
  refine safe_then (safe_heldOrFlat (lastPosition_of_step hs₄)) (fun before w₅ hl₅ hread => ?_)
    fun _ _ h => ⟨hl₄.trans h, by simp⟩
  have hl₅ := hl₄.trans hl₅
  obtain ⟨hread, flatAt, rfl⟩ := hread
  refine safe_lift (fun q hq => ?_) fun _ _ => ⟨hl₅, by simp⟩
  refine safe_then (safe_filledOrder hread) (fun u w₆ hl₆ hu => ?_)
    fun _ _ h => ⟨hl₅.trans h, by simp⟩
  have hl₆ := hl₅.trans hl₆
  obtain ⟨hread, hvalid, filledAt, rfl⟩ := hu
  refine safe_await (by simp) (by simp) (fun w₇ _ hu₇ => ?_)
    (fun outcome w₇ w₈ _ hu₇ hs₈ hl₈ => ?_) fun _ _ h => ⟨hl₆.trans h, by simp⟩
  · obtain ⟨time, s, hfind⟩ := hread
    exact ⟨trade, id, now, fees, soFar, held, flatAt, filledAt, hscope,
      (hl₆.trans hu₇.later).grows _ hk, hattr, hacc, hfees, rfl,
      ⟨time, s, by rw [hu₇.own]; exact hfind⟩, hq, hvalid, rfl⟩
  · have hl₈ := hl₆.trans hl₈
    cases outcome with
    | duplicate =>
        refine ⟨hl₈, fun v hv happ => ?_⟩
        rw [← Except.ok.inj hv] at happ
        cases happ
    | applied =>
        obtain ⟨time, hown, -⟩ := own_of_step hs₈
        have happlied : Applied t w₈ trade :=
          ⟨_, _, _, _, time, w₇.store, by rw [hown]; exact List.mem_cons_self .., rfl⟩
        refine safe_await (by simp) (by simp) (fun _ _ _ => trivial)
          (fun _ w₉ w₁₀ _ hu₉ hs₁₀ hl₁₀ => ⟨hl₈.trans hl₁₀, fun _ _ _ => ?_⟩)
          fun _ _ h => ⟨hl₈.trans h, by simp⟩
        obtain ⟨time', hown', -⟩ := own_of_step hs₁₀
        refine happlied.of_own ?_
        rw [hown', hu₉.own]
        exact List.subset_cons_self _ _

theorem safe_attempt_trade {trade : BrokerTrade} (hscope : scope.trades trade) :
    (engineContract cfg scope env).Safe t (FillProcessor.attempt cfg.fills trade)
      (Booked t w trade) w := by
  unfold FillProcessor.attempt
  refine safe_await (by simp) (by simp) (fun _ _ _ => trivial)
    (fun known _ w₁ _ _ _ hl₁ => ?_) fun _ _ h => ⟨h, by simp⟩
  cases known with
  | true => exact ⟨hl₁, fun v hv h => by rw [← Except.ok.inj hv] at h; cases h⟩
  | false =>
      refine safe_await (by simp) (by simp) (fun _ _ _ => trivial)
        (fun order w₂' w₂ _ _ hs₂ hl₂ => ?_) fun _ _ h => ⟨hl₁.trans h, by simp⟩
      cases order with
      | none =>
          exact ⟨hl₁.trans hl₂, fun v hv h => by rw [← Except.ok.inj hv] at h; cases h⟩
      | some p =>
          obtain ⟨hb, hs'⟩ := written_of_ok hs₂ rfl
          obtain ⟨hmem, hattr, -⟩ := Store.mem_of_byBrokerOrderId (Except.ok.inj hb)
          by_cases hacc : FillProcessor.refuses p trade
          · simp only [hacc, if_true]
            exact ⟨hl₁.trans hl₂, fun v hv h => by rw [← Except.ok.inj hv] at h; cases h⟩
          · simp only [hacc]
            refine (safe_book hscope ?_ hattr (by simpa using hacc)).mono
              fun _ _ h => ⟨(hl₁.trans hl₂).trans h.1, h.2⟩
            rw [hs']
            exact Store.knows_of_mem hmem

/-- **`process` attempts a trade until the order holds still.** -/
theorem safe_attempts {trade : BrokerTrade} (hscope : scope.trades trade) (n : ℕ) :
    (engineContract cfg scope env).Safe t (FillProcessor.attempts cfg.fills trade n)
      (Booked t w trade) w := by
  induction n generalizing w with
  | zero => exact ⟨.refl t w, by simp⟩
  | succ n ih =>
      refine (Contract.safe_bind _ _).mpr ((Contract.safe_attempt _).mpr
        ((safe_attempt_trade hscope).mono fun r w₁ h => ?_))
      cases r with
      | ok v => exact h
      | error e =>
          cases e with
          | concurrentModification _ => exact ih.mono fun _ _ h' => ⟨h.1.trans h'.1, h'.2⟩
          | _ => exact ⟨h.1, by simp⟩

theorem safe_process {trade : BrokerTrade} (hscope : scope.trades trade) :
    (engineContract cfg scope env).Safe t (FillProcessor.process cfg.fills trade)
      (Booked t w trade) w :=
  safe_attempts hscope 3

theorem safe_processAll {trades : List BrokerTrade} {counts : SyncResult}
    (h : ∀ trade ∈ trades, scope.trades trade) :
    (engineContract cfg scope env).Safe t (FillSynchroniser.processAll cfg.fills trades counts)
      (Grown w) w := by
  induction trades generalizing w counts with
  | nil => exact .refl _
  | cons trade rest ih =>
      refine safe_then (R := fun _ _ => True)
        ((safe_process (h trade (List.mem_cons_self ..))).mono fun _ _ h => ⟨h.1, by simp⟩)
        (fun _ w₁ hl₁ _ => ?_) fun _ _ hl' => hl'.grows
      exact (ih fun x hx => h x (List.mem_cons_of_mem _ hx)).mono fun _ _ h => hl₁.grows.trans h

/-- **`sync` processes the trades of a book the outside delivered.** -/
theorem safe_sync (hbook : scope.Bounds env) :
    (engineContract cfg scope env).Safe t (FillSynchroniser.sync cfg.fills) (Grown w) w := by
  refine safe_await (by simp) (by simp) (fun _ _ _ => trivial)
    (fun trades w' w₁ _ _ hs hl₁ => ?_) fun _ _ h => h.grows
  obtain ⟨_, ha, -⟩ := platform_step hs
  have hall := hbook trades (ha.admits_of_outside rfl (by simp))
  exact (safe_processAll fun x hx => hall x (List.mem_insertionSort _ |>.mp hx)).mono
    fun _ _ h => hl₁.grows.trans h

/-! ## Repricing -/

/-- A part that keeps what is known is followed by what keeps it. -/
theorem grown_then {p : Program α} {f : α → Program β} {R : α → World → Prop}
    (hp : (engineContract cfg scope env).Safe t p
      (fun r w' => w.store.Extends w'.store ∧ ∀ v, r = .ok v → R v w') w)
    (hf : ∀ v w', w.store.Extends w'.store → R v w' →
      (engineContract cfg scope env).Safe t (f v) (Grown w') w') :
    (engineContract cfg scope env).Safe t (p >>= f) (Grown w) w := by
  refine (Contract.safe_bind _ _).mpr (hp.mono ?_)
  rintro (e | v) w' ⟨hg, hR⟩
  · exact hg
  · exact (hf v w' hg (hR v rfl)).mono fun _ _ h => hg.trans h

/-- The same, when nothing is known of the value. -/
theorem grown_seq {p : Program α} {f : α → Program β}
    (hp : (engineContract cfg scope env).Safe t p (Grown w) w)
    (hf : ∀ v w', w.store.Extends w'.store →
      (engineContract cfg scope env).Safe t (f v) (Grown w') w') :
    (engineContract cfg scope env).Safe t (p >>= f) (Grown w) w :=
  grown_then (R := fun _ _ => True) (hp.mono fun _ _ h => ⟨h, fun _ _ => trivial⟩)
    fun v w' h _ => hf v w' h

theorem grown_map {p : Program α} {g : α → β}
    (hp : (engineContract cfg scope env).Safe t p (Grown w) w) :
    (engineContract cfg scope env).Safe t (g <$> p) (Grown w) w :=
  grown_seq (f := fun v => pure (g v)) hp fun _ w' _ => Store.Extends.refl w'.store

/-- **An approval of a replacement is of the signal it was asked for**: the
replacement's key, at its price. -/
theorem safe_review {r : Replacement} :
    (engineContract cfg scope env).Safe t (RiskReplacementReviewer.review r)
      (fun d w' => w.store.Extends w'.store ∧ ∀ v, d = .ok v → ∀ a, v = .approved a →
        a.signalId = r.key ∧ a.signal.limitPrice = r.limitPrice) w := by
  unfold RiskReplacementReviewer.review
  refine safe_lift (fun kind _ => ?_) fun _ _ => ⟨.refl _, by simp⟩
  refine safe_await (by simp) (by simp) (fun _ _ _ => trivial)
    (fun now _ w₁ _ _ _ hl₁ => ?_) fun _ _ h => ⟨h.grows, by simp⟩
  refine safe_lift (fun signal hsignal => ?_) fun _ _ => ⟨hl₁.grows, by simp⟩
  refine safe_await (by simp) (by simp) (fun _ _ _ => trivial)
    (fun verdict _ w₂ _ _ _ hl₂ => ?_) fun _ _ h => ⟨(hl₁.trans h).grows, by simp⟩
  obtain ⟨-, -, -, -, -, -, hlimit, -⟩ := Signal.make_eq_ok hsignal
  cases verdict with
  | rejected rule reason => exact ⟨(hl₁.trans hl₂).grows, by simp⟩
  | approved approvalId approvedAt rules hrules =>
      refine ⟨(hl₁.trans hl₂).grows, fun v hv a ha => ?_⟩
      obtain rfl := RiskDecision.approved.inj ((Except.ok.inj hv).trans ha)
      exact ⟨rfl, hlimit⟩

/-- **The coordinator replaces an order within the bounds of its policy.** -/
theorem safe_replace {order cancelled : OrderRecord} {runId kind : String} {candidate : Money}
    (hk : w.store.Knows order) (hcount : order.repriceCount < cfg.policy.maxReprices)
    (hchase : RepricePolicy.chase order.chainPrice candidate ≤ cfg.policy.maxChaseBps) :
    (engineContract cfg scope env).Safe t
      (RepriceCoordinator.replace cfg order cancelled runId kind candidate) (Grown w) w := by
  unfold RepriceCoordinator.replace
  split
  · exact .refl _
  · split
    · exact .refl _
    · refine grown_then safe_review fun d w₁ hg₁ hd => ?_
      cases d with
      | rejected rejection => exact .refl _
      | approved approval =>
          obtain ⟨hkey, hlimit⟩ := hd approval rfl
          refine grown_seq (safe_place (.replacement (hg₁ _ hk) hcount ?_ hkey))
            fun _ w₂ _ => .refl _
          rw [hlimit]
          exact hchase

theorem safe_reprice (hbook : scope.Bounds env) {order : OrderRecord} {candidate : Money}
    (hk : w.store.Knows order) :
    (engineContract cfg scope env).Safe t (RepriceCoordinator.reprice cfg order candidate)
      (Grown w) w := by
  unfold RepriceCoordinator.reprice
  split
  · split
    · exact .refl _
    · refine safe_await (by simp) (by simp) (fun _ _ _ => trivial)
        (fun now _ w₁ _ _ _ hl₁ => ?_) fun _ _ h => h.grows
      refine safe_lift (fun _ hvalid => ?_) fun _ _ => hl₁.grows
      obtain ⟨-, -, hcount, -, -, hchase⟩ := RepricePolicy.validate_eq_ok.mp hvalid
      refine (grown_seq ?_ fun cancelled w₂ hg₂ => safe_replace (hg₂ _ (hl₁.grows _ hk)) hcount
        hchase).mono fun _ _ h => hl₁.grows.trans h
      unfold RepriceCoordinator.cancelConfirmed
      refine grown_seq safe_cancel fun v w₃ _ => ?_
      split
      · exact .refl _
      · exact grown_seq (safe_sync hbook) fun _ _ _ => safe_refresh
  · exact .refl _

theorem safe_visit (hbook : scope.Bounds env) {order : OrderRecord} (hk : w.store.Knows order) :
    (engineContract cfg scope env).Safe t (RepriceScheduler.visit cfg order) (Grown w) w := by
  unfold RepriceScheduler.visit
  refine safe_await (by simp) (by simp) (fun _ _ _ => trivial)
    (fun now _ w₁ _ _ _ hl₁ => ?_) fun _ _ h => h.grows
  split
  · refine safe_await (by simp) (by simp) (fun _ _ _ => trivial)
      (fun candidate _ w₂ _ _ _ hl₂ => ?_) fun _ _ h => (hl₁.trans h).grows
    have hg₂ := (hl₁.trans hl₂).grows
    cases candidate with
    | none => exact hg₂
    | some price =>
        refine (grown_map ?_).mono fun _ _ h => hg₂.trans h
        refine (Contract.safe_bind _ _).mpr ((Contract.safe_attempt _).mpr
          ((safe_reprice hbook (hg₂ _ hk)).mono fun r w₃ h => ?_))
        cases r with
        | ok v => exact h
        | error e =>
            by_cases he : e.isValueError
            · simp only [he, if_true]
              exact safe_await (by simp) (by simp) (fun _ _ _ => trivial)
                (fun _ _ w₄ _ _ _ hl₄ => h.trans hl₄.grows) fun _ _ h' => h.trans h'.grows
            · simp only [he]
              exact h
  · exact hl₁.grows

theorem safe_visitAll (hbook : scope.Bounds env) {orders : List OrderRecord}
    (hk : ∀ o ∈ orders, w.store.Knows o) :
    (engineContract cfg scope env).Safe t (RepriceScheduler.visitAll cfg orders) (Grown w) w := by
  induction orders generalizing w with
  | nil => exact .refl _
  | cons o rest ih =>
      refine grown_seq (safe_visit hbook (hk o (List.mem_cons_self ..))) fun _ w₁ hg₁ => ?_
      exact grown_seq (ih fun p hp => hg₁ _ (hk p (List.mem_cons_of_mem _ hp)))
        fun _ _ _ => .refl _

theorem safe_runOnce (hbook : scope.Bounds env) :
    (engineContract cfg scope env).Safe t (RepriceScheduler.runOnce cfg) (Grown w) w := by
  refine safe_await (by simp) (by simp) (fun _ _ _ => trivial)
    (fun orders _ w₁ _ _ hs hl₁ => ?_) fun _ _ h => h.grows
  exact (safe_visitAll hbook (knows_of_active hs)).mono fun _ _ h => hl₁.grows.trans h

/-! ## Every operation -/

/-- **Every operation within a scope keeps the contract.** -/
theorem safe_program (hbook : scope.Bounds env) {op : Op} (hop : scope.Allows op) :
    (engineContract cfg scope env).Safe t (op.program cfg) (Grown w) w := by
  cases op with
  | place approval parentOrderId marketable =>
      exact grown_seq (safe_place (.direct hop)) fun _ _ _ => .refl _
  | cancel orderId => exact grown_seq safe_cancel fun _ _ _ => .refl _
  | refresh orderId => exact grown_seq safe_refresh fun _ _ _ => .refl _
  | recover => exact grown_seq safe_recover fun _ _ _ => .refl _
  | resolveUnresolved => exact grown_seq safe_resolveUnresolved fun _ _ _ => .refl _
  | process trade =>
      exact grown_seq ((safe_process hop).mono fun _ _ h => h.1.grows) fun _ _ _ => .refl _
  | sync => exact grown_seq (safe_sync hbook) fun _ _ _ => .refl _
  | reprice orderId candidate =>
      refine grown_seq ?_ fun _ _ _ => .refl _
      refine safe_await (by simp) (by simp) (fun _ _ _ => trivial)
        (fun v _ w₁ _ _ hs hl₁ => ?_) fun _ _ h => h.grows
      cases v with
      | none => exact hl₁.grows
      | some o =>
          exact (grown_map (safe_reprice hbook (knows_of_get hs))).mono
            fun _ _ h => hl₁.grows.trans h
  | runOnce => exact grown_seq (safe_runOnce hbook) fun _ _ _ => .refl _

/-- The same of every program a run may start. -/
theorem safe_entry (hbook : scope.Bounds env) :
    ∀ p, Op.entry cfg scope.Allows p → ∀ t w, (engineContract cfg scope env).inv w →
      (engineContract cfg scope env).Safe t p (Pool.nothing t) w := by
  rintro p ⟨op, hop, rfl⟩ t w -
  exact (safe_program hbook hop).mono fun _ _ _ => trivial

end Emporos
