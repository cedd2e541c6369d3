import Emporos.Execution.Submission
import Emporos.Session.Replacement
/-!
# The route of a signal

A signal goes through risk and then to execution, under an id the caller
may choose. A second call for the same id finds the first one's order by
its key, but only after a review of its own, which judges the signal as if
it were new: it gets the order back exactly if that review approves.

What the ledger answers is given; stamping a quote never stops a signal and
is left out, and so are the alerts.
-/

namespace Emporos

open Async Program

/-- What became of one signal. -/
inductive Submission
  | placed (signalId : String) (order : OrderRecord)
  | rejected (signalId : String) (rejection : RiskRejection)
  /-- With what execution raised. -/
  | refused (signalId : String) (refusal : PyError)

namespace Submission

def signalId : Submission → String
  | placed signalId _ | rejected signalId _ | refused signalId _ => signalId

/-- The submission came back with the order, in whatever state. -/
def Returns (o : OrderRecord) : Submission → Prop
  | placed _ x => x.intent = o.intent
  | rejected .. | refused .. => False

end Submission

/-- An `ExecutionRefusedError`: nothing was sent to the broker. -/
def PyError.isRefusal : PyError → Bool
  | instrumentFrozen _ | approvalExpired _ | invalidReplacement _ | invalidOrderPrice .. => true
  | valueError _ | concurrentModification _ | duplicateRecord _ | broker .. | other _ => false

/-- What the signal ledger answers one call. -/
structure LedgerAnswers where
  recorded : Except PyError Unit
  linked : Except PyError Unit

variable [DecimalContext]

namespace GatedExecutionSink

/-- Send a signal through both gates. -/
def submitAs (cfg : EngineSettings) (ledger : LedgerAnswers) (signal : Signal) (signalId : String) :
    Program Submission := do
  lift ledger.recorded
  match ← await (.review signal signalId) with
  | .rejected rule reason => pure (.rejected signalId { signal, signalId, rule, reason })
  | .approved approvalId approvedAt rulesPassed passed_ne_nil =>
      match ← (ExecutionEngine.place cfg
        { signal, signalId, approvalId, approvedAt, rulesPassed, passed_ne_nil } none true).attempt with
      | .error e => if e.isRefusal then pure (.refused signalId e) else raise e
      | .ok order => do
          lift ledger.linked
          pure (.placed signalId order)

end GatedExecutionSink

/-- What a process does: an operation of the execution layer, or a signal
that is sent through both gates. -/
inductive Job
  | op (op : Op)
  | submitAs (ledger : LedgerAnswers) (signal : Signal) (signalId : String)

def Job.program (cfg : Settings) : Job → Program (Option Submission)
  | op o => do
      o.program cfg
      pure none
  | submitAs ledger signal signalId => do
      let submission ← GatedExecutionSink.submitAs cfg.engine ledger signal signalId
      pure (some submission)

/-- The pools that any such jobs reach. -/
def JobRun (cfg : Settings) (admits : (c : Call) → c.Answer → Prop)
    (s : Pool calls PyError (Option Submission) World) : Prop :=
  Pool.Reachable (platform (cfg.engine.environment admits)) (fun p => ∃ job, p = Job.program cfg job)
    (Pool.idle World.start 0) s

omit [DecimalContext] in
/-- Risk reviews by these rules, whatever it reads. -/
def RiskEngine.reviews (rules : List RiskRule) (hrules : rules ≠ []) :
    (c : Call) → c.Answer → Prop
  | .review signal signalId, a =>
      ∃ ctx, a = (RiskEngine.review rules hrules ctx signal signalId).map RiskDecision.verdict
  | _, _ => True

omit [DecimalContext] in
/-- Risk said `v` of the signal of this id. -/
def Event.Reviewed (signal : Signal) (signalId : String) (v : RiskVerdict) (e : Event) : Prop :=
  ∃ task time store, e = ⟨task, .review signal signalId, .ok v, time, store⟩

omit [DecimalContext] in
def RiskVerdict.isApproved : RiskVerdict → Bool
  | approved .. => true
  | rejected .. => false

omit [DecimalContext] in
theorem RiskEngine.approves_iff_isApproved {rules : List RiskRule} {hrules : rules ≠ []}
    {ctx : RiskEngine.Context} {signal : Signal} {signalId : String} {v : RiskVerdict}
    (h : (RiskEngine.review rules hrules ctx signal signalId).map RiskDecision.verdict = .ok v) :
    v.isApproved ↔ RiskEngine.approves (RiskEngine.review rules hrules ctx signal signalId) := by
  cases hreview : RiskEngine.review rules hrules ctx signal signalId with
  | error e =>
      rw [hreview] at h
      cases h
  | ok decision =>
      rw [hreview] at h
      obtain rfl := Except.ok.inj h
      cases decision with
      | approved approval => exact Iff.rfl
      | rejected rejection => exact Iff.rfl

/-- What a call found out about the order of its signal: the task was told a
verdict, and if an order of the signal was stored then, it has that order
after an approval and a rejection else. -/
def Told (admits : (c : Call) → c.Answer → Prop) (account : String) (t : ℕ) (w : World)
    (submission : Submission) : Prop :=
  ∃ e ∈ w.own t, ∃ signal v, e.Reviewed signal submission.signalId v ∧
    admits (.review signal submission.signalId) (.ok v) ∧ e.store.Extends w.store ∧
    ∀ o, e.store.Knows o → o.accountId = some account →
      o.idempotencyKey = account ++ ":" ++ submission.signalId →
      if v.isApproved then ∃ x, submission = .placed submission.signalId x ∧ w.store.Knows x ∧
        x.idempotencyKey = o.idempotencyKey
      else ∃ rejection, submission = .rejected submission.signalId rejection

variable {cfg : Settings} {admits : (c : Call) → c.Answer → Prop} {t : ℕ} {w w' : World}

section Safe

variable {scope : Scope} {env : Environment} {α : Type}

omit [DecimalContext] in
/-- A task makes calls, at least. -/
theorem only_any (p : Program α) : p.Only fun _ => True := by
  induction p with
  | done r => trivial
  | call c k ih => exact ⟨trivial, ih⟩

/-- **The key comes first.** A placement whose key is taken finds the order
of it, or the journal fails. -/
theorem safe_place_known {approval : RiskApprovedSignal} {parentOrderId : Option String}
    {marketable : Bool} {o : OrderRecord} (hk : w.store.Knows o)
    (howner : o.accountId = some cfg.engine.accountId)
    (hkey : o.idempotencyKey = ExecutionEngine.idempotencyKey cfg.engine approval) :
    (engineContract cfg scope (cfg.engine.environment admits)).Safe t
      (ExecutionEngine.place cfg.engine approval parentOrderId marketable)
      (fun r w' => (∃ x, r = .ok x ∧ w'.store.Knows x ∧ x.idempotencyKey = o.idempotencyKey) ∨
        ∃ name, r = .error (.other name)) w := by
  unfold ExecutionEngine.place ExecutionEngine.locked
  refine (Contract.safe_bind _ _).mpr (Contract.safe_ask.mpr fun w₁ hw₁ hu₁ =>
    ⟨trivial, fun a w₂ hs₂ hw₂ => ?_⟩)
  have hacquire : Permit cfg scope t w₁ .acquireLock := trivial
  have hk₂ := (hu₁.grows.trans (extends_of_step hw₁ hacquire hs₂)) o hk
  obtain ⟨_, ha, -⟩ := platform_step hs₂
  obtain ⟨-, hlock, rfl⟩ := ha.lock_of_acquire
  refine (Contract.safe_bind _ _).mpr ((Contract.safe_attempt _).mpr ?_)
  -- what is left of the section gives the lock back
  have hrelease {r : Except PyError OrderRecord} {w₄ : World} (hl : w₄.lock = some t)
      (hr : (∃ x, r = .ok x ∧ w₄.store.Knows x ∧ x.idempotencyKey = o.idempotencyKey) ∨
        ∃ name, r = .error (.other name)) :
      (engineContract cfg scope (cfg.engine.environment admits)).Safe t
        (await .releaseLock >>= fun _ => lift r)
        (fun r w' => (∃ x, r = .ok x ∧ w'.store.Knows x ∧ x.idempotencyKey = o.idempotencyKey) ∨
          ∃ name, r = .error (.other name)) w₄ := by
    refine (Contract.safe_bind _ _).mpr (Contract.safe_ask.mpr fun w₅ hw₅ hu₅ => ?_)
    have hheld : Permit cfg scope t w₅ .releaseLock := hu₅.lock.mpr hl
    refine ⟨hheld, fun b w₆ hs₆ hw₆ => ?_⟩
    obtain ⟨_, hb, -⟩ := platform_step hs₆
    obtain ⟨-, rfl⟩ := hb.lock_of_release
    refine hr.imp_left ?_
    rintro ⟨x, hx, hknows, hkey⟩
    exact ⟨x, hx, (hu₅.grows.trans (extends_of_step hw₅ hheld hs₆)) x hknows, hkey⟩
  unfold ExecutionEngine.placeUnderLock
  refine (Contract.safe_bind _ _).mpr (Contract.safe_ask.mpr fun w₃ hw₃ hu₃ =>
    ⟨trivial, fun a w₄ hs₄ hw₄ => ?_⟩)
  obtain ⟨_, ha, -⟩ := platform_step hs₄
  obtain ⟨hl₄, ⟨rfl, hstore⟩ | ⟨⟨name, rfl⟩, -⟩⟩ := ha.of_serve rfl
  · have hlock₄ : w₄.lock = some t := hl₄.trans (hu₃.lock.mpr hlock)
    obtain ⟨y, hy, hyo⟩ := hu₃.grows o hk₂
    have hykey := OrderRecord.idempotencyKey_of_intent hyo
    have hyowner := OrderRecord.accountId_of_intent hyo
    cases hfound : w₃.store.byKey cfg.engine.accountId
        (ExecutionEngine.idempotencyKey cfg.engine approval) with
    | none =>
        have := List.find?_eq_none.mp hfound y hy
        simp [hykey, hyowner, hkey, howner] at this
    | some x =>
        have hx := List.mem_of_find?_eq_some hfound
        have hxkey : x.idempotencyKey = ExecutionEngine.idempotencyKey cfg.engine approval ∧
            x.accountId = some cfg.engine.accountId := by
          simpa using List.find?_some hfound
        exact hrelease hlock₄ (.inl ⟨x, rfl, hstore ▸ Store.knows_of_mem hx, hxkey.1.trans hkey.symm⟩)
  · exact hrelease (hl₄.trans (hu₃.lock.mpr hlock)) (.inr ⟨name, rfl⟩)

/-- What a task has asked and known stays so. -/
theorem safe_remembered {p : Program α} {Q : Except PyError α → World → Prop} {e : Event}
    {known : Store} (h : (engineContract cfg scope env).Safe t p Q w) (he : e ∈ w.own t)
    (hknown : known.Extends w.store) : (engineContract cfg scope env).Safe t p
      (fun r w' => Q r w' ∧ e ∈ w'.own t ∧ known.Extends w'.store) w := by
  refine h.frame (F := fun w => e ∈ w.own t ∧ known.Extends w.store) ⟨he, hknown⟩ (only_any p) ?_ ?_
  · rintro w₁ w₂ hu ⟨he, hknown⟩
    exact ⟨hu.own ▸ he, hknown.trans hu.grows⟩
  · rintro w₁ c a w₂ hw hg hs - ⟨he, hknown⟩
    obtain ⟨_, hown, -⟩ := own_of_step hs
    exact ⟨hown ▸ List.mem_cons_of_mem _ he, hknown.trans (extends_of_step hw hg hs)⟩

/-- **What a submission comes back with.** -/
theorem safe_submitAs (ledger : LedgerAnswers) (signal : Signal) (signalId : String) :
    (engineContract cfg Scope.all (cfg.engine.environment admits)).Safe t
      (GatedExecutionSink.submitAs cfg.engine ledger signal signalId)
      (fun r w' => ∀ submission, r = .ok submission →
        Told admits cfg.engine.accountId t w' submission) w := by
  refine safe_lift (fun _ _ => ?_) fun e _ submission h => nomatch h
  refine (Contract.safe_bind _ _).mpr (Contract.safe_ask.mpr fun w₁ hw₁ hu₁ =>
    ⟨trivial, fun a w₂ hs₂ hw₂ => ?_⟩)
  have hreview : Permit cfg Scope.all t w₁ (.review signal signalId) := trivial
  have hgrow := extends_of_step hw₁ hreview hs₂
  obtain ⟨time, hown, -⟩ := own_of_step hs₂
  obtain ⟨_, hanswer, -⟩ := platform_step hs₂
  have hadmitted : admits (.review signal signalId) a :=
    hanswer.admits_of_outside rfl ⟨nofun, nofun, nofun⟩
  have he : (⟨t, .review signal signalId, a, time, w₁.store⟩ : Event) ∈ w₂.own t :=
    hown ▸ List.mem_cons_self
  cases a with
  | error e => exact fun submission h => nomatch h
  | ok v =>
      have hreviewed : Event.Reviewed signal signalId v
          ⟨t, .review signal signalId, .ok v, time, w₁.store⟩ := ⟨t, time, w₁.store, rfl⟩
      cases v with
      | rejected rule reason =>
          rintro submission h
          obtain rfl := Except.ok.inj h
          exact ⟨_, he, signal, _, hreviewed, hadmitted, hgrow, fun o _ _ _ => ⟨_, rfl⟩⟩
      | approved approvalId approvedAt rulesPassed passed_ne_nil =>
          let approval : RiskApprovedSignal :=
            { signal, signalId, approvalId, approvedAt, rulesPassed, passed_ne_nil }
          refine (Contract.safe_bind _ _).mpr ((Contract.safe_attempt _).mpr ?_)
          by_cases hknown : ∃ o, w₁.store.Knows o ∧ o.accountId = some cfg.engine.accountId ∧
              o.idempotencyKey = cfg.engine.accountId ++ ":" ++ signalId
          · -- the placement finds the order of the signal
            obtain ⟨o, hk, howner, hkey⟩ := hknown
            have hplace : (engineContract cfg Scope.all (cfg.engine.environment admits)).Safe t
                (ExecutionEngine.place cfg.engine approval none true) _ w₂ :=
              safe_place_known (hgrow o hk) howner hkey
            refine (safe_remembered hplace he hgrow).mono ?_
            rintro r w₃ ⟨⟨x, rfl, hx, hxkey⟩ | ⟨name, rfl⟩, he₃, hgrow₃⟩
            · refine safe_lift (fun _ _ submission h => ?_) fun e _ submission h => nomatch h
              obtain rfl := Except.ok.inj h
              refine ⟨_, he₃, signal, _, hreviewed, hadmitted, hgrow₃, fun o' _ _ hkey' =>
                ⟨x, rfl, hx, ?_⟩⟩
              exact hxkey.trans (hkey.trans hkey'.symm)
            · exact fun submission h => nomatch h
          · -- no order of the signal was there to be found
            have hnone (submission : Submission) (hid : submission.signalId = signalId) {w₃ : World}
                (he₃ : (⟨t, .review signal signalId, .ok (.approved approvalId approvedAt rulesPassed
                  passed_ne_nil), time, w₁.store⟩ : Event) ∈ w₃.own t)
                (hgrow₃ : w₁.store.Extends w₃.store) :
                Told admits cfg.engine.accountId t w₃ submission := by
              subst hid
              refine ⟨_, he₃, signal, _, hreviewed, hadmitted, hgrow₃, fun o hk howner hkey => ?_⟩
              exact absurd ⟨o, hk, howner, hkey⟩ hknown
            have hdirect : Placement cfg Scope.all w₂.store approval none true := .direct trivial
            have hplace : (engineContract cfg Scope.all (cfg.engine.environment admits)).Safe t
                (ExecutionEngine.place cfg.engine approval none true) _ w₂ := safe_place hdirect
            refine (safe_remembered hplace he hgrow).mono ?_
            rintro (e | x) w₃ ⟨-, he₃, hgrow₃⟩
            · change (engineContract cfg Scope.all _).Safe t (if e.isRefusal then _ else _) _ w₃
              split
              · intro submission h
                obtain rfl := Except.ok.inj h
                exact hnone _ rfl he₃ hgrow₃
              · exact fun submission h => nomatch h
            · refine safe_lift (fun _ _ submission h => ?_) fun e _ submission h => nomatch h
              obtain rfl := Except.ok.inj h
              exact hnone _ rfl he₃ hgrow₃

/-- What a job promises at its end. -/
def promise (admits : (c : Call) → c.Answer → Prop) (account : String) (t : ℕ)
    (r : Except PyError (Option Submission)) (w : World) : Prop :=
  ∀ submission, r = .ok (some submission) → Told admits account t w submission

theorem safe_job (job : Job) :
    (engineContract cfg Scope.all (cfg.engine.environment admits)).Safe t (job.program cfg)
      (promise admits cfg.engine.accountId t) w := by
  cases job with
  | op o =>
      have hop : Scope.all.Allows o := by cases o <;> trivial
      refine (Contract.safe_bind _ _).mpr ((safe_program (fun _ _ _ _ => trivial) hop).mono ?_)
      rintro (e | _) w' - submission h
      · cases h
      · cases h
  | submitAs ledger signal signalId =>
      refine (Contract.safe_bind _ _).mpr ((safe_submitAs ledger signal signalId).mono ?_)
      rintro (e | submission) w' h submission' h'
      · cases h'
      · obtain rfl := Option.some.inj (Except.ok.inj h')
        exact h submission rfl

omit [DecimalContext] in
theorem Told.mono {account : String} {submission : Submission} (h : Told admits account t w submission)
    (hu : Undisturbed t w w') : Told admits account t w' submission := by
  obtain ⟨e, he, signal, v, hv, hadmitted, hgrow, htold⟩ := h
  refine ⟨e, hu.own ▸ he, signal, v, hv, hadmitted, hgrow.trans hu.grows, fun o hk howner hkey => ?_⟩
  have := htold o hk howner hkey
  split_ifs at this ⊢ with happroved
  · obtain ⟨x, hx, hknows, hxkey⟩ := this
    exact ⟨x, hx, hu.grows x hknows, hxkey⟩
  · exact this

end Safe

variable {s : Pool calls PyError (Option Submission) World}

theorem JobRun.running (hr : JobRun cfg admits s) : Running cfg Scope.all admits s :=
  ⟨_, fun _ ⟨job, hp⟩ _ _ _ => hp ▸ (safe_job job).mono fun _ _ _ => trivial, hr⟩

theorem JobRun.told (hr : JobRun cfg admits s) {submission : Submission}
    (ht : s.task t = some (.done (.ok (some submission)))) :
    Told admits cfg.engine.accountId t s.world submission := by
  have hsound : s.Sound (engineContract cfg Scope.all _) (promise admits cfg.engine.accountId) :=
    Pool.Reachable.sound (fun hu h submission hr => (h submission hr).mono hu)
      (fun p ⟨job, hp⟩ _ _ _ => hp ▸ safe_job job) (.idle sane_start) hr
  exact hsound.kept ht submission rfl

omit [DecimalContext] in
/-- A signal has one order, at most. -/
theorem Registered.orders_le_one {account : String} {s : Store} (h : Registered account s)
    (signalId : String) : (s.orders.filter fun o => o.signalId = some signalId).length ≤ 1 := by
  have hcount := List.nodup_iff_count_le_one.mp h.keys (account ++ ":" ++ signalId)
  rw [List.count_eq_countP, List.countP_map, Store.intents, List.countP_map] at hcount
  rw [← List.countP_eq_length_filter]
  refine (List.countP_mono_left fun o ho hsignal => ?_).trans hcount
  obtain ⟨so, hso, hkey⟩ := (h.keyed _ (List.mem_map_of_mem ho)).key
  have hsignal : o.signalId = some signalId := by simpa using hsignal
  have hsame : so = signalId := Option.some.inj (hso.symm.trans hsignal)
  simpa [hsame] using hkey

/-- **When a replayed command comes back with its order.** In every run a
signal id has one order and one submission to the broker at most; and a
call that was reviewed when the order was stored returns it exactly if every
rule allows the signal in what that review read. -/
theorem replayed_iff (cfg : Settings) (rules : List RiskRule) (hrules : rules ≠ [])
    (s : Pool calls PyError (Option Submission) World)
    (hr : JobRun cfg (RiskEngine.reviews rules hrules) s) :
    (∀ signalId, (s.world.store.orders.filter fun o => o.signalId = some signalId).length ≤ 1 ∧
      (s.world.trace.filter (Event.submitsFor cfg.engine.accountId signalId
        s.world.store.orders)).length ≤ 1) ∧
    ∀ t submission, s.task t = some (.done (.ok (some submission))) →
      ∃ e ∈ s.world.own t, ∃ signal decision ctx, e.Reviewed signal submission.signalId
          (RiskDecision.verdict decision) ∧
        RiskEngine.review rules hrules ctx signal submission.signalId = .ok decision ∧
        ∀ o ∈ e.store.orders, o.signalId = some submission.signalId →
          (submission.Returns o ↔ ∃ snapshot, ctx.snapshot = .ok snapshot ∧
            ∀ rule ∈ rules, RiskEngine.Allows rule signal snapshot) := by
  have hreg := hr.running.registered
  refine ⟨fun signalId => ⟨hreg.orders_le_one signalId,
    hr.running.submitsFor_le_one signalId⟩, fun t submission ht => ?_⟩
  obtain ⟨e, he, signal, v, hv, ⟨ctx, hreview⟩, hgrow, htold⟩ := hr.told ht
  have happroves := (RiskEngine.approves_iff_isApproved hreview.symm).trans RiskEngine.approves_review
  obtain ⟨decision, hdecision, rfl⟩ := exists_of_map hreview.symm
  refine ⟨e, he, signal, decision, ctx, hv, hdecision, fun o ho hsignal => ?_⟩
  rw [← happroves]
  have hknown := hgrow o (Store.knows_of_mem ho)
  obtain ⟨hkeyed, so, hso, hkey⟩ := hreg.keyed _ (Store.knows_iff.mp hknown)
  obtain rfl : so = submission.signalId := Option.some.inj (hso.symm.trans hsignal)
  have htold := htold o (Store.knows_of_mem ho) hkeyed hkey
  cases happroved : (RiskDecision.verdict decision).isApproved with
  | true =>
      rw [if_pos happroved] at htold
      obtain ⟨x, hx, hxknown, hxkey⟩ := htold
      rw [hx]
      simp only [iff_true]
      exact List.inj_on_of_nodup_map hreg.keys (Store.knows_iff.mp hxknown)
        (Store.knows_iff.mp hknown) hxkey
  | false =>
      rw [if_neg (by simp [happroved])] at htold
      obtain ⟨rejection, hrejected⟩ := htold
      rw [hrejected]
      simp [Submission.Returns]

omit [DecimalContext]

/-! ## One command, twice -/

namespace Sample

/-- The standard rules, in a session that is open all day. -/
def standardRules : List RiskRule := @StandardRuleSet.rules Decimal.standard Sources.sampleLimits allDay

theorem standardRules_ne_nil : standardRules ≠ [] := @rules_ne_nil Decimal.standard _ _

/-- Risk judges by the standard rules, against the orders the journal holds
at work; every `lapse` a call is made. -/
def reviewing (lapse : Duration) : Script where
  clock w := lapse * w.trace.length
  outside w c :=
    match c with
    | .submit r => .ok ⟨"B", some r.clientTag⟩
    | .newUlid => .ok ("N" ++ toString w.trace.length)
    | .tickSize _ => .ok ⟨1⟩
    | .acquireOrders => .ok ()
    | .review signal signalId =>
        (RiskEngine.review standardRules standardRules_ne_nil
          { snapshot := @Sources.snapshot Decimal.standard
              { Sources.sample (Sources.sampleMarks (some ⟨100⟩)) with
                now := lapse * w.trace.length
                active := .ok (w.store.active "A") } signal
            record := .ok ()
            approvalId := "P"
            approvedAt := lapse * w.trace.length } signal signalId).map RiskDecision.verdict
    | _ => .error (.other "unscripted")

theorem reviewing_reviews (lapse : Duration) (w : World) (c : Call) :
    RiskEngine.reviews standardRules standardRules_ne_nil c ((reviewing lapse).outside w c) := by
  cases c with
  | review signal signalId => exact ⟨_, rfl⟩
  | _ => trivial

/-- The command to buy ten of `I`, and the ledger that takes it. -/
def command : Job := .submitAs ⟨.ok (), .ok ()⟩ (.sample .buy 10 ten_pos) "manual-1"

/-- The command is given, and replayed when it is done. -/
def twice (lapse : Duration) : Pool calls PyError (Option Submission) World :=
  Pool.play ((reviewing lapse).respond "A") (fun w => { w with lock := none })
    (@Job.program Decimal.standard settings) [.start command, .run 0 60, .start command, .run 1 60]
    (Pool.idle World.start 0)

theorem twice_run (lapse : Duration) :
    @JobRun Decimal.standard settings (RiskEngine.reviews standardRules standardRules_ne_nil)
      (twice lapse) :=
  Pool.Reachable.play (Script.respond_within (reviewing_reviews lapse)) (fun job => ⟨job, rfl⟩) .refl _

/-- How the submission of a task ended: the tag of its order, or the rule
that rejected it. -/
def ending (s : Pool calls PyError (Option Submission) World) (t : ℕ) : Option String :=
  match (s.task t).bind Task.ended with
  | some (.ok (some (.placed _ order))) => some order.ordertag
  | some (.ok (some (.rejected _ rejection))) => some rejection.rule
  | _ => none

end Sample

open Sample

/-- A second between the calls, and the replay finds the order. -/
theorem replayed_sample :
    ending (twice Timestamp.second) 1 = some "N6" ∧
    ((twice Timestamp.second).world.store.orders.filter fun o =>
      o.signalId = some "manual-1").length ≤ 1 :=
  ⟨by decide +kernel,
    ((@replayed_iff Decimal.standard settings standardRules standardRules_ne_nil _
      (twice_run Timestamp.second)).1 "manual-1").1⟩

/-- **The order stands in its own way.** The first call places the order, and
the replay is rejected over it. -/
theorem command_rejected :
    @JobRun Decimal.standard settings (RiskEngine.reviews standardRules standardRules_ne_nil)
      (twice 0) ∧
    ending (twice 0) 0 = some "N6" ∧
    (twice 0).world.store.orders.map (fun o => (o.ordertag, o.signalId)) =
      [("N6", some "manual-1")] ∧
    ending (twice 0) 1 = some "DuplicateOrderGuard" :=
  ⟨twice_run 0, by decide +kernel, by decide +kernel, by decide +kernel⟩

end Emporos
