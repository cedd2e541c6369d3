import Emporos.Session.Worker
/-!
# The lifecycle of a session

Whatever a session is told, it asks its lifecycle only for transitions
that are legal, trades only straight after a recovery that came back
clean, and hands its strategies nothing in any other state. It ends shut
down or failed, unless one of its awaits is cancelled: a cancellation is
not caught, and leaves the state where it was.
-/

namespace Emporos

/-- A call with the state it was made in and its answer. -/
structure SessionEntry where
  state : SessionState
  call : SessionCall
  answer : Except Raised call.Value

structure SessionWorld where
  state : SessionState
  memory : SessionMemory
  trace : List SessionEntry

/-- A worker that has not started. -/
def SessionWorld.fresh : SessionWorld where
  state := .starting
  memory := ⟨false, false, none, none, none, none, none⟩
  trace := []

/-- The world after a call that is on the trace. -/
def SessionWorld.log (w : SessionWorld) (c : SessionCall) (a : Except Raised c.Value) :
    SessionWorld :=
  { w with trace := w.trace ++ [⟨w.state, c, a⟩] }

namespace SessionCall

/-- What a call may be answered. The clock, an alert and a mark do not
raise, and a listener is not awaited. -/
def Admits : (c : SessionCall) → Except Raised c.Value → Prop
  | now, a => ∃ t, a = .ok t
  | alert .., a | attempt _, a | recovered _, a => a = .ok ()
  | listeners _, a => a ≠ .error .cancelled ∧ a ≠ .error .unfinished
  | _, a => a ≠ .error .unfinished

/-- How the memory and the lifecycle answer, and how everything else may. -/
def Answers (w : SessionWorld) : (c : SessionCall) → Except Raised c.Value → SessionWorld → Prop
  | memory, a, w' => a = .ok w.memory ∧ w' = w
  | store m, a, w' => a = .ok () ∧ w' = { w with memory := m }
  | state, a, w' => a = .ok w.state ∧ w' = w
  | enter s, a, w' => a = .ok () ∧ w' = { w with state := s }
  | c, a, w' => Admits c a ∧ w' = w.log c a

/-- The call is on the trace. -/
def Logged : SessionCall → Prop
  | memory | store _ | state | enter _ => False
  | _ => True

theorem answers_of_logged {w w' : SessionWorld} {c : SessionCall} {a : Except Raised c.Value}
    (hc : c.Logged) : Answers w c a w' ↔ Admits c a ∧ w' = w.log c a := by
  cases c <;> first | exact hc.elim | exact Iff.rfl

end SessionCall

/-- Nobody else moves the worker's memory. -/
def sessionSetting : Async.Setting sessionCalls Raised SessionReport SessionWorld where
  answers := SessionCall.Answers
  others _ _ := False
  starts _ _ _ := False
  restart w := w

/-! ## What a trace shows -/

/-- What stands between a clean recovery and trading. -/
def SessionCall.Connecting : SessionCall → Prop
  | attempt target => target = .connecting ∨ target = .ready
  | now | listeners _ | connect | startHost => True
  | _ => False

/-- The last thing that happened, but for connecting, is a recovery that
came back clean. -/
def JustClean (trace : List SessionEntry) : Prop :=
  ∃ earlier e later, trace = earlier ++ e :: later ∧
    (∃ result, e.call = .recovered result ∧ result.clean) ∧ ∀ x ∈ later, x.call.Connecting

/-- What a call must find. -/
def Fine (before : List SessionEntry) (state : SessionState) : SessionCall → Prop
  | .attempt target => state.Legal target ∧ (target = .trading → JustClean before)
  | .pump => state = .trading
  | _ => True

/-- **A safe trace.** -/
def SafeTrace (trace : List SessionEntry) : Prop :=
  ∀ before e after, trace = before ++ e :: after → Fine before e.state e.call

def SessionWorld.WasCancelled (w : SessionWorld) : Prop :=
  ∃ e ∈ w.trace, e.answer = .error .cancelled

def SessionCall.isSleep : SessionCall → Bool
  | sleep _ => true
  | _ => false

/-- How often the worker has slept. -/
def sleeps (trace : List SessionEntry) : ℕ := trace.countP fun e => e.call.isSleep

/-- So many polls have been slept, and the clock was still before the
close. -/
def SessionWorld.Early (schedule : SessionSchedule) (polls : ℕ) (w : SessionWorld) : Prop :=
  polls ≤ sleeps w.trace ∧ ∃ before s s' t t', w.trace =
    before ++ [⟨s, .now, .ok t⟩, ⟨s', .now, .ok t'⟩] ∧ t < schedule.close t'

theorem safeTrace_nil : SafeTrace [] := by
  intro before e after h
  simp at h

theorem safeTrace_concat {trace : List SessionEntry} {e : SessionEntry} :
    SafeTrace (trace ++ [e]) ↔ SafeTrace trace ∧ Fine trace e.state e.call := by
  constructor
  · intro h
    exact ⟨fun before x after hx => h before x (after ++ [e]) (by simp [hx]), h trace e [] rfl⟩
  · rintro ⟨hsafe, hfine⟩ before x after hx
    rcases List.eq_nil_or_concat after with rfl | ⟨after, last, rfl⟩
    · obtain ⟨rfl, hlast⟩ := List.append_inj' hx rfl
      obtain rfl := List.singleton_inj.mp hlast
      exact hfine
    · have hx : trace ++ [e] = (before ++ x :: after) ++ [last] := by simpa using hx
      exact hsafe before x after (List.append_inj' hx rfl).1

theorem JustClean.append {trace more : List SessionEntry} (h : JustClean trace)
    (hmore : ∀ e ∈ more, e.call.Connecting) : JustClean (trace ++ more) := by
  obtain ⟨earlier, e, later, rfl, hclean, hlater⟩ := h
  refine ⟨earlier, e, later ++ more, by simp, hclean, fun x hx => ?_⟩
  exact (List.mem_append.mp hx).elim (hlater x) (hmore x)

theorem JustClean.concat {trace : List SessionEntry} {e : SessionEntry} (h : JustClean trace)
    (he : e.call.Connecting) : JustClean (trace ++ [e]) :=
  h.append fun _ hx => List.mem_singleton.mp hx ▸ he

/-- A recovery that comes back clean is the last thing on the trace. -/
theorem justClean_recovered {trace : List SessionEntry} {s : SessionState} {result : RecoveryResult}
    {a : Except Raised Unit} (h : result.clean) :
    JustClean (trace ++ [⟨s, .recovered result, a⟩]) :=
  ⟨trace, _, [], rfl, ⟨result, rfl, h⟩, by simp⟩

theorem sleeps_mono {trace trace' : List SessionEntry} (h : trace <+: trace') :
    sleeps trace ≤ sleeps trace' := h.sublist.countP_le

/-! ## The rules of a session's programs -/

def sessionRules : Async.Rules sessionSetting where
  inv w := SafeTrace w.trace
  guar _ _ := True
  guar_refl _ := trivial
  guar_trans _ _ := trivial
  others_keep _ h := h.elim

variable {α β : Type} {w w' : SessionWorld} {p : Session α} {f : α → Session β}
  {Q Q' : α → SessionWorld → Prop} {E E' : Raised → SessionWorld → Prop}

/-- Where a program that started in `w` ends: it has returned in `Q` or raised
in `E`. -/
def Ends (w : SessionWorld) (Q : α → SessionWorld → Prop) (E : Raised → SessionWorld → Prop)
    (r : Except Raised α) (w' : SessionWorld) : Prop :=
  w.trace <+: w'.trace ∧ match r with
    | .ok a => Q a w'
    | .error e => E e w'

/-- From `w` the program keeps the trace safe, and ends there. -/
def Runs (w : SessionWorld) (p : Session α) (Q : α → SessionWorld → Prop)
    (E : Raised → SessionWorld → Prop) : Prop :=
  sessionRules.Keeps p (Ends w Q E) w

theorem Runs.pure {a : α} (h : Q a w) : Runs w (pure a) Q E := ⟨List.prefix_rfl, h⟩

theorem Runs.raise {e : Raised} (h : E e w) : Runs w (Session.raise e) Q E := ⟨List.prefix_rfl, h⟩

theorem Runs.mono (h : Runs w p Q E) (hQ : ∀ a w', w.trace <+: w'.trace → Q a w' → Q' a w')
    (hE : ∀ e w', w.trace <+: w'.trace → E e w' → E' e w') : Runs w p Q' E' := by
  refine Async.Rules.Keeps.mono h fun r w' hr => ⟨hr.1, ?_⟩
  cases r with
  | ok a => exact hQ a w' hr.1 hr.2
  | error e => exact hE e w' hr.1 hr.2

/-- **Sequencing.** -/
theorem Runs.bind {Q' : β → SessionWorld → Prop} (h : Runs w p Q E)
    (hf : ∀ a w', w.trace <+: w'.trace → Q a w' → Runs w' (f a) Q' E) : Runs w (p >>= f) Q' E := by
  refine (Async.Rules.keeps_bind p f).mpr (Async.Rules.Keeps.mono h fun r w' hr => ?_)
  cases r with
  | ok a =>
      refine Async.Rules.Keeps.mono (hf a w' hr.1 hr.2) fun r' w'' hr' => ?_
      exact ⟨hr.1.trans hr'.1, hr'.2⟩
  | error e => exact hr

/-- **`try`.** -/
theorem Runs.attempt (h : Runs w p Q E) :
    Runs w (Session.attempt p) (fun r w' => match r with
      | .ok a => Q a w'
      | .error e => E e w') E' := by
  refine (Async.Rules.keeps_attempt p).mpr (Async.Rules.Keeps.mono h fun r w' hr => ?_)
  exact hr

/-- **A call on the trace.** -/
theorem Runs.await {c : SessionCall} {Q : c.Value → SessionWorld → Prop} (hc : c.Logged)
    (hfine : Fine w.trace w.state c) (hQ : ∀ a, c.Admits (.ok a) → Q a (w.log c (.ok a)))
    (hE : ∀ e, c.Admits (.error e) → E e (w.log c (.error e))) :
    Runs w (Session.await c) Q E := by
  refine Async.Rules.keeps_ask.mpr fun w' hinv hothers a w'' hanswer => ?_
  have hsame : w' = w := by
    cases hothers with
    | refl => rfl
    | tail _ hnone => exact hnone.elim
  subst hsame
  obtain ⟨hadmits, rfl⟩ := (SessionCall.answers_of_logged hc).mp hanswer
  refine ⟨safeTrace_concat.2 ⟨hinv, hfine⟩, trivial, List.prefix_append _ _, ?_⟩
  cases a with
  | ok a => exact hQ a hadmits
  | error e => exact hE e hadmits

/-! The memory and the lifecycle answer what they hold. -/

theorem runs_unlogged {c : SessionCall} {Q : c.Value → SessionWorld → Prop}
    (h : ∀ a w', SessionCall.Answers w c a w' → ∃ v, a = .ok v ∧ Q v w' ∧ w'.trace = w.trace) :
    Runs w (Session.await c) Q E := by
  refine Async.Rules.keeps_ask.mpr fun w' hinv hothers a w'' hanswer => ?_
  have hsame : w' = w := by
    cases hothers with
    | refl => rfl
    | tail _ hnone => exact hnone.elim
  subst hsame
  obtain ⟨v, rfl, hQ, htrace⟩ := h a w'' hanswer
  have hinv : SafeTrace w''.trace := htrace.symm ▸ hinv
  exact ⟨hinv, trivial, htrace ▸ List.prefix_rfl, hQ⟩

theorem Runs.memory : Runs w (Session.await .memory) (fun m w' => m = w.memory ∧ w' = w) E :=
  runs_unlogged fun _ _ h => ⟨w.memory, h.1, ⟨rfl, h.2⟩, h.2 ▸ rfl⟩

theorem Runs.state : Runs w (Session.await .state) (fun s w' => s = w.state ∧ w' = w) E :=
  runs_unlogged fun _ _ h => ⟨w.state, h.1, ⟨rfl, h.2⟩, h.2 ▸ rfl⟩

theorem Runs.store {m : SessionMemory} :
    Runs w (Session.await (.store m)) (fun _ w' => w' = { w with memory := m }) E :=
  runs_unlogged fun _ _ h => ⟨(), h.1, h.2, h.2 ▸ rfl⟩

theorem Runs.enter {s : SessionState} :
    Runs w (Session.await (.enter s)) (fun _ w' => w' = { w with state := s }) E :=
  runs_unlogged fun _ _ h => ⟨(), h.1, h.2, h.2 ▸ rfl⟩

/-- A field is changed, and nothing else. -/
theorem Runs.modify {g : SessionMemory → SessionMemory} :
    Runs w (Session.modify g) (fun _ w' => w'.state = w.state ∧ w'.trace = w.trace) E := by
  refine Runs.memory.bind fun m w' _ h => ?_
  obtain ⟨rfl, rfl⟩ := h
  exact Runs.store.mono (fun _ w' _ h => h ▸ ⟨rfl, rfl⟩) fun _ _ _ h => h

/-! ## What the parts of a session do -/

variable {schedule : SessionSchedule} {polls : ℕ}

/-- How a part of the session raises. -/
structure Fails (schedule : SessionSchedule) (polls : ℕ) (e : Raised) (w : SessionWorld) : Prop where
  unfailed : w.state ≠ .failed
  cancelled : e = .cancelled → w.WasCancelled
  unfinished : e = .unfinished → w.Early schedule polls

/-- No answer says that the model's bound is reached. -/
theorem SessionCall.Admits.ne_unfinished {c : SessionCall} {e : Raised} (h : c.Admits (.error e)) :
    e ≠ .unfinished := by
  cases c <;> simp_all [SessionCall.Admits]

theorem wasCancelled_log {c : SessionCall} {e : Raised} (h : e = .cancelled) :
    (w.log c (.error e)).WasCancelled :=
  ⟨⟨w.state, c, .error e⟩, List.mem_append_right _ (List.mem_singleton_self _), h ▸ rfl⟩

/-- A call leaves the state where it is, that of an earlier world. -/
theorem quiet_same {w₀ : SessionWorld} (c : SessionCall) (hc : c.Logged)
    (hfine : Fine w.trace w.state c) (hstate : w₀.state ≠ .failed) (hsame : w.state = w₀.state) :
    Runs w (Session.await c) (fun _ w' => w'.state = w₀.state)
      (fun e w' => w'.state = w₀.state ∧ Fails schedule polls e w') :=
  .await hc hfine (fun _ _ => hsame) fun _ hadmits => ⟨hsame, hsame ▸ hstate,
    fun h => wasCancelled_log h, fun h => absurd h hadmits.ne_unfinished⟩

theorem Runs.quiet (c : SessionCall) (hc : c.Logged) (hfine : Fine w.trace w.state c)
    (hstate : w.state ≠ .failed) :
    Runs w (Session.await c) (fun _ w' => w'.state = w.state) (Fails schedule polls) :=
  (quiet_same c hc hfine hstate rfl).mono (fun _ _ _ h => h) fun _ _ _ h => h.2

open SessionLifecycle (transition)

variable {target : SessionState} {reason : String}

/-- **A legal transition.** -/
theorem transition_runs (hlegal : w.state.Legal target) (hclean : target = .trading → JustClean w.trace)
    (hE : ∀ e w', w'.state = target → e ≠ .cancelled → e ≠ .unfinished → E e w') :
    Runs w (transition target reason)
      (fun _ w' => w'.state = target ∧
        (SessionCall.Connecting (.attempt target) → JustClean w.trace → JustClean w'.trace)) E := by
  refine Runs.bind (Q := fun _ w' => w' = w.log (.attempt target) (.ok ())) ?_ fun _ w₁ _ h₁ => ?_
  · exact .await trivial ⟨hlegal, hclean⟩ (fun _ _ => rfl) fun e h => by cases h
  subst h₁
  refine Runs.state.bind fun s w₁ _ h₁ => ?_
  obtain ⟨rfl, rfl⟩ := h₁
  have hlegal' : (w.log (.attempt target) (.ok ())).state.Legal target := hlegal
  rw [if_neg (not_not.mpr hlegal'.1), if_neg hlegal'.2]
  refine Runs.bind (Q := fun t w' => w' = (w.log (.attempt target) (.ok ())).log .now (.ok t)) ?_
    fun t w₁ _ h₁ => ?_
  · refine .await trivial trivial (fun _ _ => rfl) fun e h => ?_
    obtain ⟨t, ht⟩ := h
    cases ht
  subst h₁
  refine Runs.enter.bind fun _ w₁ _ h₁ => ?_
  subst h₁
  refine Runs.bind (Q := fun _ w' => w'.state = target ∧
    (SessionCall.Connecting (.attempt target) → JustClean w.trace → JustClean w'.trace)) ?_
    fun _ w₁ _ h₁ => .pure h₁
  refine .await trivial trivial (fun _ _ => ⟨rfl, fun hconnecting hjust => ?_⟩) fun e h => ?_
  · refine ((hjust.concat ?_).concat ?_).concat ?_
    · exact hconnecting
    · trivial
    · trivial
  · exact hE e _ rfl (fun he => h.1 (he ▸ rfl)) fun he => h.2 (he ▸ rfl)

/-- And one of a session that goes on. -/
theorem transition_goes (hlegal : w.state.Legal target) (hne : target ≠ .failed)
    (hclean : target = .trading → JustClean w.trace) :
    Runs w (transition target reason)
      (fun _ w' => w'.state = target ∧
        (SessionCall.Connecting (.attempt target) → JustClean w.trace → JustClean w'.trace))
      (Fails schedule polls) :=
  transition_runs hlegal hclean fun _ _ hstate hcancelled hunfinished =>
    ⟨hstate ▸ hne, fun h => absurd h hcancelled, fun h => absurd h hunfinished⟩

/-- **Recovery.** It leaves the state, and a clean one is the last thing on
the trace. -/
theorem recovery_runs {trigger : ReconciliationTrigger} (hstate : w.state ≠ .failed) :
    Runs w (StartupRecovery.run trigger)
      (fun result w' => w'.state = w.state ∧ (result.clean → JustClean w'.trace))
      (Fails schedule polls) := by
  have hmark (result : RecoveryResult) {w' : SessionWorld} (hsame : w'.state = w.state) :
      Runs w' (do Session.await (.recovered result); return result)
        (fun result w'' => w''.state = w.state ∧ (result.clean → JustClean w''.trace))
        (Fails schedule polls) := by
    refine Runs.bind (Q := fun _ w'' => w'' = w'.log (.recovered result) (.ok ())) ?_
      fun _ w'' _ h => .pure (h ▸ ⟨hsame, fun hclean => justClean_recovered hclean⟩)
    exact .await trivial trivial (fun _ _ => rfl) fun e h => by cases h
  unfold StartupRecovery.run
  refine Runs.bind (Runs.attempt (Q := fun _ w' => w'.state = w.state)
    (E := fun e w' => w'.state = w.state ∧ Fails schedule polls e w') ?_) fun outcome w₁ _ h₁ => ?_
  · refine (quiet_same .recoverOrders trivial trivial hstate rfl).bind fun checked w₁ _ h₁ => ?_
    refine (quiet_same .syncFills trivial trivial hstate h₁).bind fun synced w₂ _ h₂ => ?_
    exact (quiet_same (.reconcile trigger) trivial trivial hstate h₂).bind fun found w₃ _ h₃ => .pure h₃
  · cases outcome with
    | ok counts =>
        obtain ⟨checked, synced, found⟩ := counts
        simp only
        split
        · exact hmark _ h₁
        · exact hmark _ h₁
    | error e =>
        cases e with
        | exception error =>
            refine Runs.bind (Q := fun _ w' => w'.state = w.state) ?_ fun _ w₂ _ h₂ => hmark _ h₂
            exact .await trivial trivial (fun _ _ => h₁.1) fun e h => by cases h
        | cancelled => exact .raise h₁.2
        | unfinished => exact .raise h₁.2

namespace TradingWorker

theorem connectOnce_runs (hstate : w.state ≠ .failed) (hclean : JustClean w.trace) :
    Runs w connectOnce (fun _ w' => w'.state = w.state ∧ JustClean w'.trace)
      (Fails schedule polls) := by
  have hcall (c : SessionCall) (hc : c.Logged) (hconnecting : c.Connecting) {w' : SessionWorld}
      (hfine : Fine w'.trace w'.state c) (hsame : w'.state = w.state) (hjust : JustClean w'.trace) :
      Runs w' (Session.await c) (fun _ w'' => w''.state = w.state ∧ JustClean w''.trace)
        (Fails schedule polls) :=
    .await hc hfine (fun _ _ => ⟨hsame, hjust.concat hconnecting⟩) fun _ hadmits =>
      ⟨hsame ▸ hstate, fun h => wasCancelled_log h, fun h => absurd h hadmits.ne_unfinished⟩
  unfold connectOnce
  refine Runs.memory.bind fun m w₀ _ h₀ => ?_
  obtain ⟨rfl, rfl⟩ := h₀
  split
  · refine (hcall .connect trivial trivial trivial rfl hclean).bind fun _ w₁ _ h₁ => ?_
    refine (hcall .startHost trivial trivial trivial h₁.1 h₁.2).bind fun _ w₂ _ h₂ => ?_
    exact Runs.modify.mono (fun _ w₃ _ h₃ => ⟨h₃.1.trans h₂.1, h₃.2.symm ▸ h₂.2⟩) fun _ _ _ h => h
  · exact .pure ⟨rfl, hclean⟩

/-- **Trading begins**, after a recovery that came back clean. -/
theorem beginTrading_runs (hfrom : w.state = .recovering ∨ w.state = .halted)
    (hclean : JustClean w.trace) :
    Runs w beginTrading (fun _ w' => w'.state = .trading) (Fails schedule polls) := by
  have hlast {w' : SessionWorld} (hready : w'.state = .ready ∨ w'.state = .halted)
      (hjust : JustClean w'.trace) :
      Runs w' (do
        let _ ← transition .trading "recovered and reconciled"
        Session.modify fun m => { m with traded := true })
        (fun _ w'' => w''.state = .trading) (Fails schedule polls) := by
    have hlegal : w'.state.Legal .trading := by rcases hready with h | h <;> rw [h] <;> decide
    refine (transition_goes hlegal (by decide) fun _ => hjust).bind fun _ w₁ _ h₁ => ?_
    exact Runs.modify.mono (fun _ w₂ _ h₂ => h₂.1.trans h₁.1) fun _ _ _ h => h
  unfold beginTrading
  refine Runs.state.bind fun s w₀ _ h₀ => ?_
  obtain ⟨rfl, rfl⟩ := h₀
  rcases hfrom with hfrom | hfrom
  · have hnot : ¬ w₀.state = .halted := by rw [hfrom]; decide
    simp only [hnot, not_false_eq_true, if_true]
    have hlegal : w₀.state.Legal .connecting := by rw [hfrom]; decide
    refine (transition_goes hlegal (by decide) (by simp)).bind fun _ w₁ _ h₁ => ?_
    have hjust := h₁.2 (.inl rfl) hclean
    refine (connectOnce_runs (by rw [h₁.1]; decide) hjust).bind fun _ w₂ _ h₂ => ?_
    have hstate : w₂.state = .connecting := h₂.1.trans h₁.1
    have hlegal' : w₂.state.Legal .ready := by rw [hstate]; decide
    refine (transition_goes hlegal' (by decide) (by simp)).bind fun _ w₃ _ h₃ => ?_
    exact hlast (.inl h₃.1) (h₃.2 (.inr rfl) h₂.2)
  · simp only [hfrom, not_true_eq_false, if_false]
    refine (connectOnce_runs (by rw [hfrom]; decide) hclean).bind fun _ w₁ _ h₁ => ?_
    exact hlast (.inr (h₁.1.trans hfrom)) h₁.2

theorem start_runs (hfrom : w.state = .starting) :
    Runs w start (fun _ w' => w'.state = .trading ∨ w'.state = .halted) (Fails schedule polls) := by
  have hlegal : w.state.Legal .authenticating := by rw [hfrom]; decide
  refine (transition_goes hlegal (by decide) (by simp)).bind fun _ w₁ _ h₁ => ?_
  refine (Runs.quiet .authenticate trivial trivial (by rw [h₁.1]; decide)).bind fun _ w₂ _ h₂ => ?_
  have hlegal' : w₂.state.Legal .recovering := by rw [h₂, h₁.1]; decide
  refine (transition_goes hlegal' (by decide) (by simp)).bind fun _ w₃ _ h₃ => ?_
  refine (recovery_runs (by rw [h₃.1]; decide)).bind fun result w₄ _ h₄ => ?_
  refine Runs.modify.bind fun _ w₅ _ h₅ => ?_
  have hstate : w₅.state = .recovering := h₅.1.trans (h₄.1.trans h₃.1)
  split
  · have hlegal'' : w₅.state.Legal .halted := by rw [hstate]; decide
    exact (transition_goes hlegal'' (by decide) (by simp)).bind fun _ w₆ _ h₆ => .pure (.inr h₆.1)
  · rename_i hclean
    refine (beginTrading_runs (.inl hstate) ?_).mono (fun _ _ _ h => .inl h) fun _ _ _ h => h
    rw [h₅.2]
    exact h₄.2 (not_not.mp hclean)

/-- The states of a session that has started, while the market is open. -/
def OpenSession (s : SessionState) : Prop := s = .trading ∨ s = .halted

theorem OpenSession.ne_failed {s : SessionState} (h : OpenSession s) : s ≠ .failed := by
  rcases h with rfl | rfl <;> decide

theorem tryResume_runs (hfrom : w.state = .halted) :
    Runs w (tryResume schedule) (fun _ w' => OpenSession w'.state) (Fails schedule polls) := by
  have hstate : w.state ≠ .failed := by rw [hfrom]; decide
  refine (Runs.quiet .now trivial trivial hstate).bind fun now w₁ _ h₁ => ?_
  refine Runs.memory.bind fun m w₂ _ h₂ => ?_
  obtain ⟨rfl, rfl⟩ := h₂
  split
  · exact .pure (.inr (h₁.trans hfrom))
  · refine Runs.modify.bind fun _ w₃ _ h₃ => ?_
    refine (recovery_runs (by rw [h₃.1, h₁]; exact hstate)).bind fun result w₄ _ h₄ => ?_
    refine Runs.modify.bind fun _ w₅ _ h₅ => ?_
    have hhalted : w₅.state = .halted := h₅.1.trans (h₄.1.trans (h₃.1.trans (h₁.trans hfrom)))
    split
    · rename_i hclean
      refine (beginTrading_runs (.inr hhalted) ?_).mono (fun _ _ _ h => .inl h) fun _ _ _ h => h
      rw [h₅.2]
      exact h₄.2 hclean
    · exact .pure (.inr hhalted)

/-- **One poll.** The strategies are pumped in a trading session. -/
theorem poll_runs (hfrom : OpenSession w.state) :
    Runs w (poll schedule) (fun _ w' => OpenSession w'.state) (Fails schedule polls) := by
  -- what stands behind the switch: pump, the jobs, and the jobs of trading
  have hrest {w₀ : SessionWorld} (h₀ : OpenSession w₀.state) : Runs w₀ (do
      if (← Session.await .state) = .trading then Session.await .pump
      Session.await .runAlways
      if (← Session.await .state) = .trading then Session.await .runWhileTrading)
      (fun _ w' => OpenSession w'.state) (Fails schedule polls) := by
    have hjobs {w₁ : SessionWorld} (h₁ : OpenSession w₁.state) : Runs w₁ (do
        Session.await .runAlways
        if (← Session.await .state) = .trading then Session.await .runWhileTrading)
        (fun _ w' => OpenSession w'.state) (Fails schedule polls) := by
      refine (Runs.quiet .runAlways trivial trivial h₁.ne_failed).bind fun _ w₂ _ h₂ => ?_
      refine Runs.state.bind fun s w₃ _ h₃ => ?_
      obtain ⟨rfl, rfl⟩ := h₃
      have hopen : OpenSession w₃.state := h₂ ▸ h₁
      split
      · exact (Runs.quiet .runWhileTrading trivial trivial hopen.ne_failed).mono
          (fun _ _ _ h => h ▸ hopen) fun _ _ _ h => h
      · exact .pure hopen
    refine Runs.state.bind fun s w₁ _ h₁ => ?_
    obtain ⟨rfl, rfl⟩ := h₁
    split
    · rename_i htrading
      refine (Runs.quiet .pump trivial htrading h₀.ne_failed).bind fun _ w₂ _ h₂ => ?_
      exact hjobs (h₂ ▸ h₀)
    · exact hjobs h₀
  unfold poll
  refine Runs.state.bind fun s w₁ _ h₁ => ?_
  obtain ⟨rfl, rfl⟩ := h₁
  refine (Runs.quiet .switchHalted trivial trivial hfrom.ne_failed).bind fun halted w₂ _ h₂ => ?_
  split
  · rename_i hhalt
    have hlegal : w₂.state.Legal .halted := by rw [h₂, hhalt.1]; decide
    exact (transition_goes hlegal (by decide) (by simp)).bind fun _ w₃ _ h₃ => hrest (.inr h₃.1)
  · split
    · rename_i hresume
      exact (tryResume_runs (h₂.trans hresume.1)).bind fun _ w₃ _ h₃ => hrest h₃
    · exact hrest (h₂ ▸ hfrom)

/-- The clock read twice; a moment still to come is told by both. -/
theorem before_runs {moment : Timestamp → Timestamp} (hstate : w.state ≠ .failed) :
    Runs w (before moment)
      (fun b w' => w'.state = w.state ∧ (b = true → ∃ t t', t < moment t' ∧
        w'.trace = w.trace ++ [⟨w.state, .now, .ok t⟩, ⟨w.state, .now, .ok t'⟩]))
      (Fails schedule polls) := by
  have hnow {w₀ : SessionWorld} (hsame : w₀.state = w.state) : Runs w₀ (Session.await .now)
      (fun t w' => w' = w₀.log .now (.ok t)) (Fails schedule polls) :=
    .await trivial trivial (fun _ _ => rfl) fun e hadmits =>
      ⟨hsame ▸ hstate, fun h => wasCancelled_log h, fun h => absurd h hadmits.ne_unfinished⟩
  refine (hnow rfl).bind fun t w₁ _ h₁ => ?_
  subst h₁
  have hsame : (w.log .now (.ok t)).state = w.state := rfl
  refine (hnow hsame).bind fun t' w₂ _ h₂ => ?_
  subst h₂
  refine .pure ⟨rfl, fun hlt => ⟨t, t', of_decide_eq_true hlt, ?_⟩⟩
  simp [SessionWorld.log]

/-- A session out of polls has slept them all and is early. -/
theorem fails_unfinished {t t' : Timestamp} {before : List SessionEntry} {s s' : SessionState}
    (hstate : w.state ≠ .failed) (hpolls : polls ≤ sleeps w.trace)
    (htrace : w.trace = before ++ [⟨s, .now, .ok t⟩, ⟨s', .now, .ok t'⟩])
    (hlt : t < schedule.close t') : Fails schedule polls .unfinished w :=
  ⟨hstate, (fun h => by cases h), fun _ => ⟨hpolls, before, s, s', t, t', htrace, hlt⟩⟩

theorem sleep_runs {interval : Duration} (hstate : w.state ≠ .failed) :
    Runs w (Session.await (.sleep interval))
      (fun _ w' => w'.state = w.state ∧ sleeps w'.trace = sleeps w.trace + 1)
      (Fails schedule polls) :=
  .await trivial trivial (fun _ _ => ⟨rfl, by simp [SessionWorld.log, sleeps, SessionCall.isSleep]⟩)
    fun _ hadmits => ⟨hstate, fun h => wasCancelled_log h, fun h => absurd h hadmits.ne_unfinished⟩

theorem squareOff_lt_close (t : Timestamp) : schedule.squareOff t < schedule.close t := by
  have := schedule.square_off_first
  unfold SessionSchedule.squareOff SessionSchedule.close SessionSchedule.on
  unfold Timestamp Duration at *
  omega

/-- **The trading loop**, when the polls left and those slept make up the
bound. -/
theorem trade_runs (n : ℕ) (hfrom : OpenSession w.state) (hpolls : polls ≤ n + sleeps w.trace) :
    Runs w (trade schedule n) (fun _ w' => OpenSession w'.state) (Fails schedule polls) := by
  induction n generalizing w with
  | zero =>
      refine (before_runs hfrom.ne_failed).bind fun early w₁ hpre h₁ => ?_
      split
      · rename_i hearly
        obtain ⟨t, t', hlt, htrace⟩ := h₁.2 hearly
        have hslept := sleeps_mono hpre
        exact .raise (fails_unfinished (h₁.1 ▸ hfrom.ne_failed) (by omega) htrace
          (hlt.trans (squareOff_lt_close t')))
      · exact .pure (h₁.1 ▸ hfrom)
  | succ n ih =>
      refine (before_runs hfrom.ne_failed).bind fun early w₁ hpre₁ h₁ => ?_
      split
      · refine (poll_runs (h₁.1 ▸ hfrom)).bind fun _ w₂ hpre₂ h₂ => ?_
        refine (sleep_runs h₂.ne_failed).bind fun _ w₃ _ h₃ => ?_
        have hslept₁ := sleeps_mono hpre₁
        have hslept₂ := sleeps_mono hpre₂
        exact ih (h₃.1 ▸ h₂) (by omega)
      · exact .pure (h₁.1 ▸ hfrom)

theorem isFlat_runs (hstate : w.state ≠ .failed) :
    Runs w isFlat (fun _ w' => w'.state = w.state) (Fails schedule polls) := by
  refine (Runs.quiet .openPositions trivial trivial hstate).bind fun positions w₁ _ h₁ => ?_
  split
  · exact .pure h₁
  · refine (Runs.quiet .activeOrders trivial trivial (h₁ ▸ hstate)).bind fun orders w₂ _ h₂ => ?_
    exact .pure (h₂.trans h₁)

theorem notFlat_runs (hstate : w.state ≠ .failed) :
    Runs w notFlat (fun _ w' => w'.state = w.state) (Fails schedule polls) :=
  (Runs.quiet (.alert _ _) trivial trivial hstate).bind fun _ _ _ h => .pure h

/-- **The loop of the close-out.** -/
theorem untilFlat_runs (n : ℕ) (hfrom : w.state = .squaringOff) (hpolls : polls ≤ n + sleeps w.trace) :
    Runs w (untilFlat schedule n) (fun _ w' => w'.state = .squaringOff) (Fails schedule polls) := by
  have hne {w' : SessionWorld} (h : w'.state = .squaringOff) : w'.state ≠ .failed := by rw [h]; decide
  induction n generalizing w with
  | zero =>
      refine (before_runs (hne hfrom)).bind fun early w₁ hpre h₁ => ?_
      have hsquaring := h₁.1.trans hfrom
      split
      · rename_i hearly
        obtain ⟨t, t', hlt, htrace⟩ := h₁.2 hearly
        have hslept := sleeps_mono hpre
        exact .raise (fails_unfinished (hne hsquaring) (by omega) htrace hlt)
      · exact (notFlat_runs (hne hsquaring)).mono (fun _ _ _ h => h.trans hsquaring) fun _ _ _ h => h
  | succ n ih =>
      refine (before_runs (hne hfrom)).bind fun early w₁ hpre₁ h₁ => ?_
      have hsquaring := h₁.1.trans hfrom
      split
      · refine (Runs.quiet .runAlways trivial trivial (hne hsquaring)).bind fun _ w₂ hpre₂ h₂ => ?_
        have hsquaring := h₂.trans hsquaring
        refine (Runs.quiet .runWhileTrading trivial trivial (hne hsquaring)).bind
          fun _ w₃ hpre₃ h₃ => ?_
        have hsquaring := h₃.trans hsquaring
        refine (isFlat_runs (hne hsquaring)).bind fun flat w₄ hpre₄ h₄ => ?_
        have hsquaring := h₄.trans hsquaring
        split
        · exact .pure hsquaring
        · refine (sleep_runs (hne hsquaring)).bind fun _ w₅ _ h₅ => ?_
          have hslept := sleeps_mono (hpre₁.trans (hpre₂.trans (hpre₃.trans hpre₄)))
          exact ih (h₅.1.trans hsquaring) (by omega)
      · exact (notFlat_runs (hne hsquaring)).mono (fun _ _ _ h => h.trans hsquaring) fun _ _ _ h => h

theorem flatten_runs (hfrom : w.state = .trading) :
    Runs w (flatten schedule polls) (fun _ w' => w'.state = .squaringOff) (Fails schedule polls) := by
  have hlegal : w.state.Legal .squaringOff := by rw [hfrom]; decide
  have hne {w' : SessionWorld} (h : w'.state = .squaringOff) : w'.state ≠ .failed := by rw [h]; decide
  refine (transition_goes hlegal (by decide) (by simp)).bind fun _ w₁ _ h₁ => ?_
  refine (Runs.quiet .endSession trivial trivial (hne h₁.1)).bind fun _ w₂ _ h₂ => ?_
  have hsquaring := h₂.trans h₁.1
  refine (Runs.quiet (.flatten _) trivial trivial (hne hsquaring)).bind fun report w₃ _ h₃ => ?_
  refine (untilFlat_runs polls (h₃.trans hsquaring) (by omega)).bind fun flat w₄ _ h₄ => ?_
  exact .pure h₄

/-- **The session**, from the start to the shutdown. -/
theorem session_runs (hfrom : w.state = .starting) :
    Runs w (session schedule polls) (fun _ w' => w'.state = .shuttingDown) (Fails schedule polls) := by
  -- what stands behind the loops
  have hrest {w₀ : SessionWorld} (h₀ : w₀.state = .squaringOff ∨ w₀.state = .halted) :
      Runs w₀ (do
        let _ ← transition .reconciling "session over"
        let closed ← Session.await .closeOut
        Session.modify fun m => { m with closed := some closed }
        let _ ← transition .reporting "reconciled"
        Session.await .flushEvents
        let _ ← transition .shuttingDown "reported")
        (fun _ w' => w'.state = .shuttingDown) (Fails schedule polls) := by
    have hlegal : w₀.state.Legal .reconciling := by rcases h₀ with h | h <;> rw [h] <;> decide
    refine (transition_goes hlegal (by decide) (by simp)).bind fun _ w₁ _ h₁ => ?_
    refine (Runs.quiet .closeOut trivial trivial (by rw [h₁.1]; decide)).bind fun closed w₂ _ h₂ => ?_
    refine Runs.modify.bind fun _ w₃ _ h₃ => ?_
    have hlegal' : w₃.state.Legal .reporting := by rw [h₃.1, h₂, h₁.1]; decide
    refine (transition_goes hlegal' (by decide) (by simp)).bind fun _ w₄ _ h₄ => ?_
    refine (Runs.quiet .flushEvents trivial trivial (by rw [h₄.1]; decide)).bind fun _ w₅ _ h₅ => ?_
    have hlegal'' : w₅.state.Legal .shuttingDown := by rw [h₅, h₄.1]; decide
    exact (transition_goes hlegal'' (by decide) (by simp)).bind fun _ w₆ _ h₆ => .pure h₆.1
  refine (start_runs hfrom).bind fun _ w₁ _ h₁ => ?_
  refine (trade_runs polls h₁ (by omega)).bind fun _ w₂ _ h₂ => ?_
  refine Runs.state.bind fun s w₃ _ h₃ => ?_
  obtain ⟨rfl, rfl⟩ := h₃
  split
  · rename_i htrading
    refine (flatten_runs htrading).bind fun out w₄ _ h₄ => ?_
    exact Runs.modify.bind fun _ w₅ _ h₅ => hrest (.inl (h₅.1.trans h₄))
  · rename_i hnot
    exact hrest (.inr (h₂.resolve_left hnot))

/-! ## The end of a session -/

/-- Shut down or failed, or an await was cancelled. -/
def Settled (w : SessionWorld) : Prop :=
  w.state = .shuttingDown ∨ w.state = .failed ∨ w.WasCancelled

theorem Settled.log {c : SessionCall} {a : Except Raised c.Value} (h : Settled w) :
    Settled (w.log c a) := by
  rcases h with h | h | ⟨e, he, hcancelled⟩
  · exact .inl h
  · exact .inr (.inl h)
  · exact .inr (.inr ⟨e, List.mem_append_left _ he, hcancelled⟩)

/-- How the session raises once its handler has run. -/
structure Raises (schedule : SessionSchedule) (polls : ℕ) (e : Raised) (w : SessionWorld) : Prop where
  settled : e ≠ .unfinished → Settled w
  unfinished : e = .unfinished → w.Early schedule polls

/-- A call of the `finally`, which may raise but changes nothing. -/
theorem settled_call (c : SessionCall) (hc : c.Logged) (hfine : Fine w.trace w.state c)
    (h : Settled w) :
    Runs w (Session.await c) (fun _ w' => Settled w') fun e w' => e ≠ .unfinished ∧ Settled w' :=
  .await hc hfine (fun _ _ => h.log) fun _ hadmits => ⟨hadmits.ne_unfinished, h.log⟩

theorem report_runs {finalState : SessionState} {failure : String} (h : Settled w) :
    Runs w (report finalState failure) (fun _ w' => Settled w') E :=
  Runs.memory.bind fun _ _ _ hm => .pure (hm.2 ▸ h)

/-- **The handler.** It fails the session. -/
theorem fail_runs {error : PyError} (hstate : w.state ≠ .failed) :
    Runs w (fail error) (fun _ w' => Settled w') (Raises schedule polls) := by
  refine Runs.bind (Q := fun _ w' => w'.state = w.state) ?_ fun _ w₁ _ h₁ => ?_
  · exact .await trivial trivial (fun _ _ => rfl) fun _ h => by cases h
  have hlegal : w₁.state.Legal .failed := ⟨.inl rfl, h₁.symm ▸ hstate⟩
  refine (transition_runs hlegal (by simp) fun e w' h _ hne =>
    ⟨fun _ => .inr (.inl h), fun he => absurd he hne⟩).bind fun _ w₂ _ h₂ => ?_
  exact report_runs (.inr (.inl h₂.1))

theorem guarded_runs (hfrom : w.state = .starting) :
    Runs w (guarded schedule polls) (fun _ w' => Settled w') (Raises schedule polls) := by
  refine (session_runs hfrom).attempt.bind fun outcome w₁ _ h₁ => ?_
  cases outcome with
  | ok _ => exact .pure (.inl h₁)
  | error e =>
      cases e with
      | exception error => exact (fail_runs h₁.unfailed).bind fun _ _ _ h => .pure h
      | cancelled => exact .raise ⟨fun _ => .inr (.inr (h₁.cancelled rfl)), (fun h => by cases h)⟩
      | unfinished => exact .raise ⟨fun h => absurd rfl h, h₁.unfinished⟩

theorem shutdown_runs (h : Settled w) :
    Runs w shutdown (fun _ w' => Settled w') fun e w' => e ≠ .unfinished ∧ Settled w' := by
  refine (settled_call .shutdownHost trivial trivial h).attempt.bind fun outcome w₁ _ h₁ => ?_
  cases outcome with
  | ok _ => exact (settled_call .closeVenue trivial trivial h₁).bind fun _ _ _ h₂ => .pure h₂
  | error e =>
      exact (settled_call .closeVenue trivial trivial h₁.2).bind fun _ _ _ h₂ => .raise ⟨h₁.1, h₂⟩

/-- **The whole session**: it ends settled, or out of polls. -/
theorem runSession_runs (hfrom : w.state = .starting) :
    Runs w (runSession schedule polls) (fun _ w' => Settled w') (Raises schedule polls) := by
  have hfinally {w' : SessionWorld} (h : Settled w') {last : Session SessionReport}
      (hlast : ∀ w₂, Settled w₂ → Runs w₂ last (fun _ w => Settled w)
        fun e w => e ≠ .unfinished ∧ Settled w) : Runs w' (do
        shutdown
        Session.await .flushEvents
        last)
        (fun _ w' => Settled w') (Raises schedule polls) := by
    refine Runs.mono (Q := fun _ w' => Settled w')
      (E := fun e w' => e ≠ .unfinished ∧ Settled w') ?_ (fun _ _ _ h => h)
      fun e _ _ h => ⟨fun _ => h.2, fun he => absurd he h.1⟩
    refine (shutdown_runs h).bind fun _ w₁ _ h₁ => ?_
    exact (settled_call .flushEvents trivial trivial h₁).bind fun _ w₂ _ h₂ => hlast w₂ h₂
  refine (guarded_runs hfrom).attempt.bind fun outcome w₁ _ h₁ => ?_
  cases outcome with
  | ok result =>
      refine hfinally h₁ fun w₂ h₂ => ?_
      cases result with
      | some failed => exact .pure h₂
      | none => exact Runs.state.bind fun _ _ _ hs => report_runs (hs.2 ▸ h₂)
  | error e =>
      cases e with
      | exception error =>
          exact hfinally (h₁.settled (by simp)) fun w₂ h₂ => .raise ⟨by simp, h₂⟩
      | cancelled => exact hfinally (h₁.settled (by simp)) fun w₂ h₂ => .raise ⟨by simp, h₂⟩
      | unfinished => exact .raise h₁

/-! ## Runs -/

open Async (Solo)

/-- **A session's lifecycle is safe.** In every state a session reaches,
whatever it is told, its trace is safe; and once it has ended it is shut
down or failed, or one of its awaits was cancelled. It runs out of polls
only while the clock is before the close. -/
theorem session_orderly {s : Solo sessionCalls Raised SessionReport SessionWorld}
    (hrun : Solo.Reach sessionSetting ⟨.fresh, some (runSession schedule polls)⟩ s) :
    SafeTrace s.world.trace ∧ ∀ r, s.job = some (.done r) →
      (r ≠ .error .unfinished → Settled s.world) ∧
      (r = .error .unfinished → s.world.Early schedule polls) := by
  have hkeeps : Runs .fresh (runSession schedule polls) (fun _ w' => Settled w')
      (Raises schedule polls) := runSession_runs rfl
  have hsound : Solo.Sound sessionRules
      (Ends .fresh (fun _ w' => Settled w') (Raises schedule polls))
      ⟨.fresh, some (runSession schedule polls)⟩ :=
    ⟨safeTrace_nil, fun p hp => Option.some.inj hp ▸ hkeeps⟩
  obtain ⟨⟨hsafe, hjob⟩, -⟩ := Solo.Reach.sound (S := sessionSetting) (R := sessionRules)
    (fun _ h => h.elim) (fun h => h.elim) (fun h => ⟨h, trivial⟩) hsound hrun
  refine ⟨hsafe, fun r hr => ?_⟩
  obtain ⟨-, hend⟩ := hjob _ hr
  cases r with
  | ok report => exact ⟨fun _ => hend, (fun h => by cases h)⟩
  | error e => exact ⟨fun h => hend.settled fun he => h (he ▸ rfl),
      fun h => hend.unfinished (Except.error.inj h)⟩

/-! ## Two sessions -/

theorem sampleSquareOff_first : 54000 * Timestamp.second < 55800 * Timestamp.second := by decide

theorem sampleIntervals_pos : 0 < Timestamp.second ∧ 0 < 30 * Timestamp.second := by decide

/-- Square-off at three in the afternoon in India, and the close half an hour
later. -/
def sampleSchedule : SessionSchedule where
  squareOffAt := 54000 * Timestamp.second
  closeAt := 55800 * Timestamp.second
  pollInterval := Timestamp.second
  resumeRetry := 30 * Timestamp.second
  square_off_first := sampleSquareOff_first
  intervals_pos := sampleIntervals_pos

/-- Everything goes well, and it is past the close once the worker has
slept; the sleep may be cancelled. -/
def sampleAnswer (cancelled : Bool) (w : SessionWorld) : (c : SessionCall) → Except Raised c.Value
  | .memory => .ok w.memory
  | .state => .ok w.state
  | .now => .ok (if sleeps w.trace = 0 then 0 else 40000 * Timestamp.second)
  | .recoverOrders | .syncFills | .reconcile _ => .ok (0 : ℕ)
  | .switchHalted => .ok false
  | .flatten _ => .ok ⟨[], [], []⟩
  | .openPositions | .activeOrders => .ok []
  | .closeOut => .ok ⟨0, none, none⟩
  | .sleep _ => if cancelled then .error .cancelled else .ok ()
  | .store _ | .enter _ | .attempt _ | .recovered _ | .listeners _ | .alert .. | .authenticate
  | .connect | .closeVenue | .startHost | .pump | .endSession | .shutdownHost | .runAlways
  | .runWhileTrading | .flushEvents => .ok ()

def sampleReply (cancelled : Bool) (w : SessionWorld) (c : SessionCall) :
    Except Raised c.Value × SessionWorld :=
  (sampleAnswer cancelled w c, match c with
    | .memory | .state => w
    | .store m => { w with memory := m }
    | .enter s => { w with state := s }
    | c => w.log c (sampleAnswer cancelled w c))

theorem answers_sampleReply (cancelled : Bool) (w : SessionWorld) (c : SessionCall) :
    SessionCall.Answers w c (sampleReply cancelled w c).1 (sampleReply cancelled w c).2 := by
  cases c with
  | sleep interval =>
      refine ⟨?_, rfl⟩
      cases cancelled <;> simp [SessionCall.Admits, sampleReply, sampleAnswer]
  | _ => simp [SessionCall.Answers, SessionCall.Admits, sampleReply, sampleAnswer]

/-- The session after a hundred calls. -/
def sampleSession (cancelled : Bool) : Solo sessionCalls Raised SessionReport SessionWorld :=
  Solo.advance (sampleReply cancelled) (fun _ => true) 100
    ⟨.fresh, some (runSession sampleSchedule 1)⟩

theorem reach_sampleSession (cancelled : Bool) :
    Solo.Reach sessionSetting ⟨.fresh, some (runSession sampleSchedule 1)⟩
      (sampleSession cancelled) :=
  .of_restrict (Solo.reach_advance (answers_sampleReply cancelled) 100 _)

theorem session_orderly_sample : SafeTrace (sampleSession false).world.trace :=
  (session_orderly (reach_sampleSession false)).1

/-- **A cancellation.** The first sleep of a trading session is cancelled;
the session ends, and its state is still trading. -/
theorem cancelled_session_trades : ∃ s : Solo sessionCalls Raised SessionReport SessionWorld,
    Solo.Reach sessionSetting ⟨.fresh, some (runSession sampleSchedule 1)⟩ s ∧
      s.job.any (fun p => p.ended.isSome) ∧ s.world.state = .trading :=
  ⟨sampleSession true, reach_sampleSession true, by decide, by decide⟩

end TradingWorker

end Emporos
