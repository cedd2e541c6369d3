import Emporos.Execution.Scripts
import Emporos.Strategies.Config
/-!
# One reprice policy for a session

A session folds the settings of its strategies into one policy, with the
shortest of their waits and the most of their tries. A pass of the scheduler
visits the active orders; whatever it is answered, it goes on to cancel and
replace an order only within that policy. So a strategy that would wait
longer than another, or try less often, is repriced by the other's settings.
-/

namespace Emporos

open Async

/-! ## The policy -/

namespace ExecutionSettings

theorem waits_ne_nil (configs : List ExecutionSettings) (h : configs ≠ []) :
    configs.map repriceAfterSeconds ≠ [] := fun hnil => h (List.map_eq_nil_iff.mp hnil)

theorem tries_ne_nil (configs : List ExecutionSettings) (h : configs ≠ []) :
    configs.map maxReprices ≠ [] := fun hnil => h (List.map_eq_nil_iff.mp hnil)

/-- The shortest wait, in seconds. -/
def shortestWait (configs : List ExecutionSettings) (h : configs ≠ []) : ℕ :=
  (configs.map repriceAfterSeconds).min (waits_ne_nil configs h)

def mostTries (configs : List ExecutionSettings) (h : configs ≠ []) : ℕ :=
  (configs.map maxReprices).max (tries_ne_nil configs h)

variable {configs : List ExecutionSettings} {c : ExecutionSettings}

theorem shortestWait_le (h : configs ≠ []) (hc : c ∈ configs) :
    shortestWait configs h ≤ c.repriceAfterSeconds :=
  List.min_le_of_mem (List.mem_map_of_mem hc)

theorem le_mostTries (h : configs ≠ []) (hc : c ∈ configs) : c.maxReprices ≤ mostTries configs h :=
  List.le_max_of_mem (List.mem_map_of_mem hc)

theorem exists_shortestWait (h : configs ≠ []) :
    ∃ c ∈ configs, c.repriceAfterSeconds = shortestWait configs h :=
  List.mem_map.mp (List.min_mem (waits_ne_nil configs h))

theorem exists_mostTries (h : configs ≠ []) : ∃ c ∈ configs, c.maxReprices = mostTries configs h :=
  List.mem_map.mp (List.max_mem (tries_ne_nil configs h))

theorem shortestWait_pos (configs : List ExecutionSettings) (h : configs ≠ []) :
    (0 : Duration) < shortestWait configs h * Timestamp.second := by
  obtain ⟨c, -, hc⟩ := exists_shortestWait h
  have hpos : 0 < shortestWait configs h := hc ▸ c.seconds_pos
  exact mul_pos (Int.natCast_pos.mpr hpos) Timestamp.second_pos

end ExecutionSettings

namespace RepricePolicy

theorem noStrategies_pos : (0 : Duration) < 30 * Timestamp.second := by decide

theorem noStrategies_nonneg : (0 : Decimal) ≤ 20 := by norm_num

theorem session_nonneg : (0 : Decimal) ≤ 50 := by norm_num

/-- `_reprice_policy`: one policy for the session. A `timedelta` has at most
a thousand million days, less one second. -/
def ofSession (configs : List ExecutionSettings) : Except PyError RepricePolicy :=
  if h : configs = [] then .ok ⟨30 * Timestamp.second, 3, 20, noStrategies_pos, noStrategies_nonneg⟩
  else if 86399999999999 < ExecutionSettings.shortestWait configs h then
    .error (.other "OverflowError")
  else
    .ok ⟨ExecutionSettings.shortestWait configs h * Timestamp.second,
      ExecutionSettings.mostTries configs h, 50, ExecutionSettings.shortestWait_pos configs h,
      session_nonneg⟩

theorem ofSession_ok {configs : List ExecutionSettings} {policy : RepricePolicy} (h : configs ≠ [])
    (hpolicy : ofSession configs = .ok policy) :
    policy.after = ExecutionSettings.shortestWait configs h * Timestamp.second ∧
      policy.maxReprices = ExecutionSettings.mostTries configs h := by
  unfold ofSession at hpolicy
  rw [dif_neg h] at hpolicy
  split at hpolicy
  · cases hpolicy
  · obtain rfl := Except.ok.inj hpolicy
    exact ⟨rfl, rfl⟩

end RepricePolicy

/-! ## A pass -/

/-- A call that was made, and what it was answered. -/
structure Asked where
  call : Call
  answer : call.Answer

/-- What every call is answered, after those before it. -/
abbrev Answering := List Asked → (c : Call) → c.Answer

namespace Answering

variable (answers : Answering) {α β : Type}

def handle (c : Call) (log : List Asked) : c.Answer × List Asked :=
  (answers log c, log ++ [⟨c, answers log c⟩])

/-- The calls a program makes. -/
def asked : Program α → List Asked → List Asked
  | .done _, _ => []
  | .call c k, log => ⟨c, answers log c⟩ :: asked (k (answers log c)) (log ++ [⟨c, answers log c⟩])

/-- A run of a program adds its calls to those before it. -/
theorem exec_snd (p : Program α) (log : List Asked) :
    (Task.exec answers.handle p log).2 = log ++ answers.asked p log := by
  induction p generalizing log with
  | done r => exact (List.append_nil log).symm
  | call c k ih =>
      rw [Task.exec_call, handle, ih, asked, List.append_assoc]
      rfl

/-- A sequence makes the calls of its first part, and goes on unless that
raised. -/
theorem asked_bind (p : Program α) (f : α → Program β) (log : List Asked) :
    answers.asked (p >>= f) log = answers.asked p log ++
      match (Task.exec answers.handle p log).1 with
      | .ok a => answers.asked (f a) (log ++ answers.asked p log)
      | .error _ => [] := by
  induction p generalizing log with
  | done r => cases r <;> simp [asked]
  | call c k ih => simp only [Task.call_bind, asked, ih, Task.exec_call, handle, List.cons_append, List.append_assoc,
      List.nil_append]

/-- An awaited call that is answered. -/
theorem asked_await_ok {c : Call} {f : c.Value → Program β} {log : List Asked} {v : c.Value}
    (h : answers log c = .ok v) :
    answers.asked (Program.await c >>= f) log = ⟨c, .ok v⟩ :: answers.asked (f v) (log ++ [⟨c, .ok v⟩]) := by
  change ⟨c, answers log c⟩ :: answers.asked ((Task.done (answers log c) : Program c.Value) >>= f) _ = _
  rw [h, Task.done_ok_bind]

theorem asked_await_error {c : Call} {f : c.Value → Program β} {log : List Asked} {e : PyError}
    (h : answers log c = .error e) :
    answers.asked (Program.await c >>= f) log = [⟨c, .error e⟩] := by
  change ⟨c, answers log c⟩ :: answers.asked ((Task.done (answers log c) : Program c.Value) >>= f) _ = _
  rw [h, Task.done_error_bind]
  rfl

theorem asked_bind_pure (p : Program α) (f : α → β) (log : List Asked) :
    answers.asked (p >>= fun a => pure (f a)) log = answers.asked p log := by
  rw [asked_bind]
  split <;> simp [asked]

theorem asked_attempt (p : Program α) (log : List Asked) :
    answers.asked p.attempt log = answers.asked p log := by
  induction p generalizing log with
  | done r => rfl
  | call c k ih => simp only [Task.attempt_call, asked, ih]

end Answering

namespace RepriceScheduler

variable [DecimalContext] (cfg : Settings) (answers : Answering)

/-- The visits of a pass, each with the calls it makes; an exception that the
scheduler does not catch ends the pass. -/
def visitsOf : List OrderRecord → List Asked → List (OrderRecord × List Asked)
  | [], _ => []
  | order :: rest, log =>
      let calls := answers.asked (visit cfg order) log
      match (Task.exec answers.handle (visit cfg order) log).1 with
      | .ok _ => (order, calls) :: visitsOf rest (log ++ calls)
      | .error _ => [(order, calls)]

/-- The visits of `run_once`. -/
def visits : List (OrderRecord × List Asked) :=
  match answers [] .active with
  | .ok orders => visitsOf cfg answers orders [⟨.active, .ok orders⟩]
  | .error _ => []

theorem asked_visitAll (orders : List OrderRecord) (log : List Asked) :
    answers.asked (visitAll cfg orders) log = (visitsOf cfg answers orders log).flatMap Prod.snd := by
  induction orders generalizing log with
  | nil => rfl
  | cons order rest ih =>
      rw [visitAll, Answering.asked_bind, visitsOf]
      cases (Task.exec answers.handle (visit cfg order) log).1 with
      | error e => simp
      | ok outcome =>
          simp only [List.flatMap_cons]
          rw [← ih]
          exact congrArg _ (answers.asked_bind_pure _ (fun others => outcome.toList ++ others) _)

/-- **A pass is its visits**: the calls of `run_once` are theirs. -/
theorem asked_runOnce : answers.asked (runOnce cfg) [] =
    ⟨.active, answers [] .active⟩ :: (visits cfg answers).flatMap Prod.snd := by
  have hfirst : answers.asked (runOnce cfg) [] = ⟨.active, answers [] .active⟩ ::
      answers.asked ((Task.done (answers [] .active) : Program (List OrderRecord)) >>= visitAll cfg)
        [⟨.active, answers [] .active⟩] := rfl
  rw [hfirst, visits]
  cases hactive : answers [] .active with
  | error e => rfl
  | ok orders => simp only [Task.done_ok_bind, asked_visitAll]

/-- The coordinator goes on to cancel and replace the order of a visit: it
read the clock, the policy let the price pass, and it took the engine's
lock. -/
def RepricedAt (order : OrderRecord) (now : Timestamp) (calls : List Asked) : Prop :=
  ∃ start candidate rest, calls = ⟨.now, start⟩ :: ⟨.candidate order, .ok (some candidate)⟩ ::
    ⟨.now, .ok now⟩ :: ⟨.acquireLock, .ok ()⟩ :: rest

variable {cfg answers} {order : OrderRecord} {log rest : List Asked} {candidate : Money}
  {now : Timestamp}

/-- What follows an attempt of the coordinator is an alert, if anything. -/
theorem asked_repriceOne : ∃ later, answers.asked (repriceOne cfg order candidate) log =
    answers.asked (RepriceCoordinator.reprice cfg order candidate) log ++ later ∧
      ∀ first behind, later = first :: behind → first.call = .raiseAlert order.id := by
  unfold repriceOne
  rw [Answering.asked_bind, Answering.asked_attempt, Task.exec_attempt]
  refine ⟨_, rfl, fun first behind hlater => ?_⟩
  split at hlater
  · rename_i outcome _
    cases outcome with
    | ok result => cases hlater
    | error e =>
        dsimp only at hlater
        split at hlater
        · obtain ⟨rfl, -⟩ := List.cons.inj hlater
          rfl
        · cases hlater
  · cases hlater

/-- The coordinator takes the engine's lock only for what the policy lets
pass. -/
theorem validated_of_asked {locked : Call.Answer .acquireLock}
    (h : answers.asked (RepriceCoordinator.reprice cfg order candidate) log =
      ⟨.now, .ok now⟩ :: ⟨.acquireLock, locked⟩ :: rest) :
    cfg.policy.validate order order.repriceCount order.chainPrice candidate (now - order.createdAt) =
      .ok () := by
  unfold RepriceCoordinator.reprice at h
  split at h
  · split at h
    · cases h
    · cases hnow : answers log .now with
      | error e =>
          rw [answers.asked_await_error hnow] at h
          cases h
      | ok n =>
          rw [answers.asked_await_ok hnow, List.cons.injEq] at h
          obtain ⟨hread, h⟩ := h
          obtain rfl : n = now := by
            have := eq_of_heq (Asked.mk.inj hread).2
            exact Except.ok.inj this
          cases hvalid : cfg.policy.validate order order.repriceCount order.chainPrice candidate
              (n - order.createdAt) with
          | ok => rfl
          | error e =>
              rw [hvalid] at h
              cases h
  · cases h

/-- Where the policy lets an order pass, the coordinator goes on to the
engine's lock. -/
theorem asked_reprice {runId kind : String} (hrun : order.strategyRunId = some runId)
    (hkind : order.signalKind = some kind) (hnamed : ¬ (runId = "" ∨ kind = ""))
    (hnow : answers log .now = .ok now)
    (hlock : answers (log ++ [⟨.now, .ok now⟩]) .acquireLock = .ok ())
    (hvalid : cfg.policy.validate order order.repriceCount order.chainPrice candidate
      (now - order.createdAt) = .ok ()) :
    ∃ rest, answers.asked (RepriceCoordinator.reprice cfg order candidate) log =
      ⟨.now, .ok now⟩ :: ⟨.acquireLock, .ok ()⟩ :: rest := by
  simp only [RepriceCoordinator.reprice, hrun, hkind, if_neg hnamed]
  rw [answers.asked_await_ok hnow, hvalid, Program.lift_ok_bind, ← hlock]
  exact ⟨_, rfl⟩

theorem policy_of_repriced (h : RepricedAt order now (answers.asked (visit cfg order) log)) :
    cfg.policy.after ≤ now - order.createdAt ∧ order.repriceCount < cfg.policy.maxReprices := by
  obtain ⟨start, candidate, rest, hcalls⟩ := h
  unfold visit at hcalls
  cases hstart : answers log .now with
  | error e =>
      rw [answers.asked_await_error hstart] at hcalls
      cases hcalls
  | ok first =>
      rw [answers.asked_await_ok hstart, List.cons.injEq] at hcalls
      obtain ⟨-, hcalls⟩ := hcalls
      split at hcalls
      · rename_i hdue
        cases hcandidate : answers (log ++ [⟨.now, .ok first⟩]) (.candidate order) with
        | error e =>
            rw [answers.asked_await_error hcandidate] at hcalls
            cases hcalls
        | ok price =>
            rw [answers.asked_await_ok hcandidate, List.cons.injEq] at hcalls
            obtain ⟨hprice, hcalls⟩ := hcalls
            cases price with
            | none => cases hcalls
            | some price =>
                obtain ⟨later, hone, hlater⟩ := @asked_repriceOne _ cfg answers order
                  (log ++ [⟨.now, .ok first⟩] ++ [⟨.candidate order, .ok (some price)⟩]) price
                have hcalls := hone.symm.trans ((answers.asked_bind_pure _ some _).symm.trans hcalls)
                cases hmade : answers.asked (RepriceCoordinator.reprice cfg order price)
                    (log ++ [⟨.now, .ok first⟩] ++ [⟨.candidate order, .ok (some price)⟩]) with
                | nil =>
                    rw [hmade, List.nil_append] at hcalls
                    cases hlater _ _ hcalls
                | cons x made =>
                    cases made with
                    | nil =>
                        rw [hmade] at hcalls
                        obtain ⟨-, hcalls⟩ := List.cons.inj hcalls
                        cases hlater _ _ hcalls
                    | cons y made =>
                        rw [hmade] at hcalls
                        obtain ⟨hx, hrest⟩ := List.cons.inj hcalls
                        obtain ⟨hy, -⟩ := List.cons.inj hrest
                        rw [hx, hy] at hmade
                        have hvalid := RepricePolicy.validate_eq_ok.mp (validated_of_asked hmade)
                        exact ⟨hvalid.2.1, hvalid.2.2.1⟩
      · cases hcalls

theorem policy_of_visitsOf {orders : List OrderRecord} {calls : List Asked}
    (h : (order, calls) ∈ visitsOf cfg answers orders log) (hrepriced : RepricedAt order now calls) :
    cfg.policy.after ≤ now - order.createdAt ∧ order.repriceCount < cfg.policy.maxReprices := by
  induction orders generalizing log with
  | nil => cases h
  | cons first others ih =>
      unfold visitsOf at h
      dsimp only at h
      split at h
      · rcases List.mem_cons.mp h with h | h
        · obtain ⟨rfl, rfl⟩ := Prod.mk.inj h
          exact policy_of_repriced hrepriced
        · exact ih h
      · obtain ⟨rfl, rfl⟩ := Prod.mk.inj (List.mem_singleton.mp h)
        exact policy_of_repriced hrepriced

/-- **A pass reprices within its policy**, whatever it is answered. -/
theorem policy_of_visits {calls : List Asked} (h : (order, calls) ∈ visits cfg answers)
    (hrepriced : RepricedAt order now calls) :
    cfg.policy.after ≤ now - order.createdAt ∧ order.repriceCount < cfg.policy.maxReprices := by
  unfold visits at h
  split at h
  · exact policy_of_visitsOf h hrepriced
  · cases h

end RepriceScheduler

/-! ## The strategies of a session -/

/-- A strategy's run, and the settings for its orders. -/
structure SessionRun where
  runId : String
  execution : ExecutionSettings
  named : runId ≠ ""

/-- No pass reprices an order of a strategy earlier, or more often, than the
strategy's own settings say. -/
def KeepsToSettings [DecimalContext] (cfg : Settings) (session : List SessionRun) : Prop :=
  ∀ answers order calls now, (order, calls) ∈ RepriceScheduler.visits cfg answers →
    RepriceScheduler.RepricedAt order now calls →
    ∀ run ∈ session, order.strategyRunId = some run.runId →
      run.execution.repriceAfterSeconds * Timestamp.second ≤ now - order.createdAt ∧
        order.repriceCount < run.execution.maxReprices

/-- The strategies are repriced alike. -/
def SessionRun.Alike (a b : SessionRun) : Prop :=
  a.execution.repriceAfterSeconds = b.execution.repriceAfterSeconds ∧
    a.execution.maxReprices = b.execution.maxReprices

namespace SessionRun

/-- A resting order of a run, repriced so often. -/
def restingOrder (runId : String) (count : ℕ) : OrderRecord where
  id := "O"
  strategyRunId := some runId
  signalId := some "S"
  signalKind := some "ENTRY"
  parentOrderId := none
  repriceCount := count
  absenceChecks := 0
  originalLimitPrice := some ⟨100⟩
  idempotencyKey := "K"
  ordertag := "T"
  instrumentId := "I"
  side := .buy
  orderType := .limit
  quantity := 10
  limitPrice := ⟨100⟩
  triggerPrice := none
  state := .open
  sessionDate := 0
  brokerOrderId := some "B"
  filledQuantity := 0
  createdAt := 0
  updatedAt := 0
  accountId := some "A"
  averagePrice := none
  statusMessage := ""

/-- The order is the only active one, the time is `now`, and the market is
where the order is. -/
def answersOf (order : OrderRecord) (now : Timestamp) : Answering := fun _ c =>
  match c with
  | .active => .ok [order]
  | .now => .ok now
  | .candidate _ => .ok (some ⟨100⟩)
  | .acquireLock => .ok ()
  | .releaseLock => .ok ()
  | .get _ => .ok (some order)
  | _ => .error (.other "ConnectionError")

variable [DecimalContext] {cfg : Settings} {runId : String} {count : ℕ}

theorem chase_self {price : Money} : RepricePolicy.chase price price = 0 := by
  simp [RepricePolicy.chase, Decimal.sub, Decimal.abs, Decimal.div, Decimal.mul, DecimalContext.round_zero]

omit [DecimalContext] in
theorem restingPrice_pos : Money.zero < ⟨100⟩ := by simp [Money.lt_iff, Money.zero]

/-- The policy lets the order pass once its wait is over. -/
theorem validate_restingOrder (hcount : count < cfg.policy.maxReprices) :
    cfg.policy.validate (restingOrder runId count) count (restingOrder runId count).chainPrice ⟨100⟩
      (cfg.policy.after - 0) = .ok () :=
  RepricePolicy.validate_eq_ok.mpr ⟨rfl, by simp, hcount, restingPrice_pos, restingPrice_pos,
    chase_self.le.trans cfg.policy.chase_nonneg⟩

/-- **An order is repriced** as soon as the policy allows. -/
theorem exists_repriced (hnamed : runId ≠ "") (hcount : count < cfg.policy.maxReprices) :
    ∃ calls, (restingOrder runId count, calls) ∈
        RepriceScheduler.visits cfg (answersOf (restingOrder runId count) cfg.policy.after) ∧
      RepriceScheduler.RepricedAt (restingOrder runId count) cfg.policy.after calls := by
  let order := restingOrder runId count
  let answers := answersOf order cfg.policy.after
  have hdue : RepriceScheduler.due cfg.policy order cfg.policy.after = true := by
    simp [RepriceScheduler.due, order, restingOrder, hcount]
  refine ⟨answers.asked (RepriceScheduler.visit cfg order) [⟨.active, .ok [order]⟩], ?_, ?_⟩
  · change (order, _) ∈ RepriceScheduler.visitsOf cfg answers [order] [⟨.active, .ok [order]⟩]
    unfold RepriceScheduler.visitsOf
    dsimp only
    split <;> exact List.mem_cons_self ..
  · have hnow (log : List Asked) : answers log .now = .ok cfg.policy.after := rfl
    have hcandidate (log : List Asked) : answers log (.candidate order) = .ok (some ⟨100⟩) := rfl
    unfold RepriceScheduler.visit
    rw [answers.asked_await_ok (hnow _), if_pos hdue, answers.asked_await_ok (hcandidate _)]
    obtain ⟨later, hone, -⟩ := @RepriceScheduler.asked_repriceOne _ cfg answers order
      ([⟨.active, .ok [order]⟩] ++ [⟨.now, .ok cfg.policy.after⟩] ++ [⟨.candidate order, .ok (some ⟨100⟩)⟩])
      ⟨100⟩
    have hsignal : ¬ (runId = "" ∨ "ENTRY" = "") := not_or.mpr ⟨hnamed, by decide⟩
    have hrun : order.strategyRunId = some runId := rfl
    obtain ⟨rest, hreprice⟩ := RepriceScheduler.asked_reprice hrun rfl hsignal (hnow _) rfl
      (validate_restingOrder hcount)
    refine ⟨.ok cfg.policy.after, ⟨100⟩, rest ++ later, ?_⟩
    have hmapped := (answers.asked_bind_pure (RepriceScheduler.repriceOne cfg order ⟨100⟩) some _).trans hone
    rw [hreprice] at hmapped
    exact congrArg _ (congrArg _ hmapped)

end SessionRun

/-! ## The rule -/

variable [DecimalContext]

namespace SessionRun

omit [DecimalContext]

theorem halfMinute_pos : 0 < 30 := by decide

theorem fiveMinutes_pos : 0 < 300 := by decide

theorem noBuffer_nonneg : 0 ≤ (ExactDecimal.ofNat 0).value := by decide

theorem quick_named : "quick" ≠ "" := by decide

theorem patient_named : "patient" ≠ "" := by decide

/-- A strategy repriced after half a minute, three times. -/
def quick : SessionRun :=
  ⟨"quick", ⟨ExactDecimal.ofNat 0, 30, 3, noBuffer_nonneg, halfMinute_pos⟩, quick_named⟩

/-- A strategy repriced after five minutes, once. -/
def patient : SessionRun :=
  ⟨"patient", ⟨ExactDecimal.ofNat 0, 300, 1, noBuffer_nonneg, fiveMinutes_pos⟩, patient_named⟩

theorem quickWait_pos : (0 : Duration) < 30 * Timestamp.second := by decide

/-- A session with the shorter wait and the more tries. -/
def quickSettings : Settings :=
  { Sample.settings with policy := ⟨30 * Timestamp.second, 3, 50, quickWait_pos, RepricePolicy.session_nonneg⟩ }

end SessionRun

end Emporos
