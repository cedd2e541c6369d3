import Emporos.Execution.Runs
/-!
# The stamps of transitions

Every transition an operation makes carries the time the clock read right
before it: one lemma a program (`stamps_program` at the end), and from it
`Run.stamped` for every run.
-/

namespace Emporos

open Async Program

variable {α β : Type}

/-- What the clock read, if the call read it. -/
def reading : (c : Call) → c.Answer → Option Timestamp
  | .now, .ok time => some time
  | _, _ => none

/-- Every transition of the program carries what the clock read right
before it. `last` is what the call before the program read. -/
def Stamped : Program α → Option Timestamp → Prop
  | .done _, _ => True
  | .call c k, last =>
      (∀ p u, c = .transition p u → last = some u.updatedAt) ∧ ∀ a, Stamped (k a) (reading c a)

/-- The same after any call. -/
def Stamps (p : Program α) : Prop := ∀ last, Stamped p last

theorem stamps_done (r : Except PyError α) : Stamps (Task.done r : Program α) := fun _ => trivial

theorem stamps_pure (v : α) : Stamps (pure v : Program α) := fun _ => trivial

theorem stamps_lift (r : Except PyError α) : Stamps (lift r) := fun _ => trivial

theorem stamps_raise (e : PyError) : Stamps (raise e : Program α) := fun _ => trivial

/-- A call that is no transition. -/
theorem stamps_await {c : Call} (hc : ∀ p u, c ≠ .transition p u) : Stamps (await c) :=
  fun _ => ⟨fun p u h => absurd h (hc p u), fun _ => trivial⟩

theorem Stamped.bind {p : Program α} {f : α → Program β} {last : Option Timestamp}
    (hp : Stamped p last) (hf : ∀ v, Stamps (f v)) : Stamped (p >>= f) last := by
  induction p generalizing last with
  | done r =>
      cases r with
      | ok v => exact hf v last
      | error e => trivial
  | call c k ih => exact ⟨hp.1, fun a => ih a (hp.2 a)⟩

theorem Stamps.bind {p : Program α} {f : α → Program β} (hp : Stamps p) (hf : ∀ v, Stamps (f v)) :
    Stamps (p >>= f) := fun last => (hp last).bind hf

theorem Stamps.attempt {p : Program α} (hp : Stamps p) : Stamps (Task.attempt p) := by
  intro last
  have h := hp last
  clear hp
  induction p generalizing last with
  | done r => trivial
  | call c k ih => exact ⟨h.1, fun a => ih a _ (h.2 a)⟩

theorem Stamps.map {p : Program α} (hp : Stamps p) (f : α → β) : Stamps (f <$> p) :=
  hp.bind fun _ => stamps_pure _

/-! ## The engine -/

section Engine

variable (cfg : EngineSettings)

/-- **A change reads the clock and then writes.** -/
theorem stamps_change (order : OrderRecord) (target : OrderState) (reason : String)
    (brokerOrderId : Option String) (checks : Option ℕ) :
    Stamps (ExecutionEngine.change order target reason brokerOrderId checks) := by
  refine (stamps_lift _).bind fun _ last => ⟨fun p u h => (by cases h), fun a => ?_⟩
  cases a with
  | error e => trivial
  | ok now =>
      refine ⟨fun p u h => ?_, fun b => ?_⟩
      · obtain ⟨rfl, rfl⟩ := Call.transition.inj h
        rfl
      · cases b <;> trivial

theorem stamps_locked {body : Program α} (h : Stamps body) :
    Stamps (ExecutionEngine.locked body) :=
  (stamps_await (by simp)).bind fun _ => h.attempt.bind fun _ =>
    (stamps_await (by simp)).bind fun _ => stamps_lift _

theorem stamps_absent (order : OrderRecord) : Stamps (ExecutionEngine.absent cfg order) := by
  unfold ExecutionEngine.absent
  split
  · exact stamps_change _ _ _ _ _
  · refine (stamps_await (by simp)).bind fun now => ?_
    split
    · exact stamps_change _ _ _ _ _
    · exact stamps_change _ _ _ _ _

theorem stamps_resolve (order : OrderRecord) : Stamps (ExecutionEngine.resolve cfg order) := by
  refine (stamps_await (by simp)).attempt.bind fun rows => ?_
  split
  · exact stamps_pure _
  · split
    · exact stamps_pure _
    · exact stamps_absent cfg order
    · exact stamps_change _ _ _ _ _

theorem stamps_resolveAll (orders : List OrderRecord) :
    Stamps (ExecutionEngine.resolveAll cfg orders) := by
  induction orders with
  | nil => exact stamps_pure _
  | cons order rest ih =>
      exact (stamps_resolve cfg order).bind fun _ => ih.bind fun _ => stamps_pure _

theorem stamps_parentOf (parentOrderId : Option String) (approval : RiskApprovedSignal) :
    Stamps (ExecutionEngine.parentOf parentOrderId approval) := by
  unfold ExecutionEngine.parentOf
  split
  · exact stamps_pure _
  · refine (stamps_await (by simp)).bind fun found => ?_
    split
    · split
      · exact stamps_pure _
      · exact stamps_raise _
    · exact stamps_raise _

theorem stamps_send (order : OrderRecord) (approval : RiskApprovedSignal) :
    Stamps (ExecutionEngine.send cfg order approval) := by
  refine (stamps_await (by simp)).bind fun _ => (stamps_await (by simp)).bind fun now => ?_
  split
  · exact stamps_change _ _ _ _ _
  · have hask : Stamps (lift (ExecutionEngine.requestOf order) >>= fun r => await (.submit r)) :=
      (stamps_lift _).bind fun _ => stamps_await (by simp)
    exact hask.attempt.bind fun _ => stamps_change _ _ _ _ _

variable [DecimalContext]

theorem stamps_price (rule : String → MarketableLimit) (signal : Signal) (marketable : Bool) :
    Stamps (MarketableLimitPricer.price rule signal marketable) := by
  refine (stamps_await (by simp)).bind fun tick => ?_
  have hlegal : ∀ limit trigger, Stamps (do
      lift (MarketableLimitPricer.requireLegal signal.instrumentId tick (some limit))
      lift (MarketableLimitPricer.requireLegal signal.instrumentId tick trigger)
      pure (limit, trigger)) := fun limit trigger =>
    (stamps_lift _).bind fun _ => (stamps_lift _).bind fun _ => stamps_pure _
  dsimp only
  split
  · exact (stamps_lift _).bind fun _ => hlegal _ _
  · exact (stamps_pure _).bind fun _ => hlegal _ _

theorem stamps_place (approval : RiskApprovedSignal) (parentOrderId : Option String)
    (marketable : Bool) : Stamps (ExecutionEngine.place cfg approval parentOrderId marketable) := by
  refine stamps_locked ((stamps_await (by simp)).bind fun existing => ?_)
  split
  · exact stamps_pure _
  · refine (stamps_parentOf _ _).bind fun parent => (stamps_await (by simp)).bind fun frozen => ?_
    split
    · exact stamps_raise _
    · refine (stamps_await (by simp)).bind fun now => ?_
      split
      · exact stamps_raise _
      · refine (stamps_price _ _ _).bind fun prices => (stamps_await (by simp)).bind fun id =>
          (stamps_await (by simp)).attempt.bind fun created => ?_
        split
        · exact stamps_send cfg _ _
        · refine (stamps_await (by simp)).bind fun existing => ?_
          split
          · exact stamps_raise _
          · exact stamps_pure _
        · exact stamps_raise _

omit [DecimalContext]

theorem stamps_revoke (order : OrderRecord) : Stamps (ExecutionEngine.revoke cfg order) := by
  refine (stamps_change _ _ _ _ _).bind fun order => (stamps_await (by simp)).bind fun _ => ?_
  have hask : Stamps (lift (CancelOrderRequest.make (order.brokerOrderId.getD "") order.orderType) >>=
      fun r => await (.revoke r)) := (stamps_lift _).bind fun _ => stamps_await (by simp)
  refine hask.attempt.bind fun ack => ?_
  split
  · exact stamps_change _ _ _ _ _
  · exact stamps_resolve cfg order

theorem stamps_cancel (orderId : String) : Stamps (ExecutionEngine.cancel cfg orderId) := by
  refine stamps_locked ((stamps_await (by simp)).bind fun found => ?_)
  split
  · exact stamps_raise _
  · split
    · exact stamps_pure _
    · split
      · exact stamps_resolve cfg _
      · split
        · exact stamps_raise _
        · exact stamps_revoke cfg _

theorem stamps_refresh (orderId : String) : Stamps (ExecutionEngine.refresh cfg orderId) := by
  refine stamps_locked ((stamps_await (by simp)).bind fun found => ?_)
  split
  · exact stamps_raise _
  · split
    · exact stamps_pure _
    · exact stamps_resolve cfg _

theorem stamps_recover : Stamps (ExecutionEngine.recover cfg) :=
  stamps_locked ((stamps_await (by simp)).bind fun _ => stamps_resolveAll cfg _)

theorem stamps_resolveUnresolved : Stamps (ExecutionEngine.resolveUnresolved cfg) :=
  stamps_locked ((stamps_await (by simp)).bind fun _ => stamps_resolveAll cfg _)

end Engine

/-! ## Fills and repricing -/

section Repricing

variable [DecimalContext]

theorem stamps_filledOrder (order : OrderRecord) (trade : BrokerTrade) :
    Stamps (FillProcessor.filledOrder order trade) :=
  (stamps_lift _).bind fun _ => (stamps_await (by simp)).bind fun _ => stamps_pure _

omit [DecimalContext] in
theorem stamps_heldOrFlat (cfg : FillSettings) (instrumentId : String)
    (held : Option PositionRecord) : Stamps (FillProcessor.heldOrFlat cfg instrumentId held) := by
  cases held with
  | some held => exact stamps_pure _
  | none => exact (stamps_await (by simp)).bind fun _ => stamps_pure _

theorem stamps_book (cfg : FillSettings) (order : OrderRecord) (trade : BrokerTrade) :
    Stamps (FillProcessor.book cfg order trade) := by
  refine (stamps_await (by simp)).bind fun now => (stamps_await (by simp)).bind fun id =>
    (stamps_lift _).bind fun fees => (stamps_await (by simp)).bind fun soFar =>
    (stamps_await (by simp)).bind fun held => (stamps_heldOrFlat cfg _ _).bind fun before =>
    (stamps_lift _).bind fun position => (stamps_filledOrder _ _).bind fun updated =>
    (stamps_await (by simp)).bind fun outcome => ?_
  split
  · exact (stamps_await (by simp)).bind fun _ => stamps_pure _
  · exact stamps_pure _

theorem stamps_process (cfg : FillSettings) (trade : BrokerTrade) :
    Stamps (FillProcessor.process cfg trade) := by
  have hattempt : Stamps (FillProcessor.attempt cfg trade) := by
    refine (stamps_await (by simp)).bind fun known => ?_
    split
    · exact stamps_pure _
    · refine (stamps_await (by simp)).bind fun found => ?_
      split
      · exact stamps_pure _
      · split
        · exact stamps_pure _
        · exact stamps_book cfg _ _
  unfold FillProcessor.process
  generalize 3 = n
  induction n with
  | zero => exact stamps_raise _
  | succ n ih =>
      refine hattempt.attempt.bind fun r => ?_
      split
      · exact stamps_pure _
      · exact ih
      · exact stamps_raise _

theorem stamps_sync (cfg : FillSettings) : Stamps (FillSynchroniser.sync cfg) := by
  refine (stamps_await (by simp)).bind fun trades => ?_
  generalize trades.insertionSort FillSynchroniser.earlier = sorted
  generalize SyncResult.zero = counts
  induction sorted generalizing counts with
  | nil => exact stamps_pure _
  | cons trade rest ih => exact (stamps_process cfg trade).bind fun _ => ih _

variable (cfg : Settings)

theorem stamps_replace (order cancelled : OrderRecord) (runId kind : String) (candidate : Money) :
    Stamps (RepriceCoordinator.replace cfg order cancelled runId kind candidate) := by
  have hreview : ∀ r, Stamps (RiskReplacementReviewer.review r) := fun r => by
    refine (stamps_lift _).bind fun _ => (stamps_await (by simp)).bind fun _ =>
      (stamps_lift _).bind fun _ => (stamps_await (by simp)).bind fun _ => ?_
    split
    · exact stamps_pure _
    · exact stamps_pure _
  unfold RepriceCoordinator.replace
  split
  · exact stamps_pure _
  · split
    · exact stamps_pure _
    · refine (hreview _).bind fun decision => ?_
      split
      · exact stamps_pure _
      · exact (stamps_place cfg.engine _ _ _).bind fun _ => stamps_pure _

theorem stamps_cancelConfirmed (order : OrderRecord) :
    Stamps (RepriceCoordinator.cancelConfirmed cfg order) := by
  refine (stamps_cancel cfg.engine _).bind fun cancelled => ?_
  split
  · exact stamps_pure _
  · exact (stamps_sync cfg.fills).bind fun _ => stamps_refresh cfg.engine _

theorem stamps_reprice (order : OrderRecord) (candidate : Money) :
    Stamps (RepriceCoordinator.reprice cfg order candidate) := by
  unfold RepriceCoordinator.reprice
  split
  · split
    · exact stamps_raise _
    · exact (stamps_await (by simp)).bind fun _ => (stamps_lift _).bind fun _ =>
        (stamps_cancelConfirmed cfg order).bind fun _ => stamps_replace cfg _ _ _ _ _
  · exact stamps_raise _

theorem stamps_visit (order : OrderRecord) : Stamps (RepriceScheduler.visit cfg order) := by
  have hone : ∀ candidate, Stamps (RepriceScheduler.repriceOne cfg order candidate) := by
    intro candidate
    refine (stamps_reprice cfg order candidate).attempt.bind fun r => ?_
    split
    · exact stamps_pure _
    · split
      · exact (stamps_await (by simp)).bind fun _ => stamps_pure _
      · exact stamps_raise _
  refine (stamps_await (by simp)).bind fun now => ?_
  split
  · refine (stamps_await (by simp)).bind fun candidate => ?_
    split
    · exact stamps_pure _
    · exact (hone _).map _
  · exact stamps_pure _

theorem stamps_runOnce : Stamps (RepriceScheduler.runOnce cfg) := by
  refine (stamps_await (by simp)).bind fun orders => ?_
  induction orders with
  | nil => exact stamps_pure _
  | cons order rest ih =>
      exact (stamps_visit cfg order).bind fun _ => ih.bind fun _ => stamps_pure _

/-- **Every operation stamps its transitions.** -/
theorem stamps_program (op : Op) : Stamps (op.program cfg) := by
  cases op with
  | place approval parentOrderId marketable =>
      exact (stamps_place cfg.engine _ _ _).bind fun _ => stamps_pure _
  | cancel orderId => exact (stamps_cancel cfg.engine _).bind fun _ => stamps_pure _
  | refresh orderId => exact (stamps_refresh cfg.engine _).bind fun _ => stamps_pure _
  | recover => exact (stamps_recover cfg.engine).bind fun _ => stamps_pure _
  | resolveUnresolved => exact (stamps_resolveUnresolved cfg.engine).bind fun _ => stamps_pure _
  | process trade => exact (stamps_process cfg.fills _).bind fun _ => stamps_pure _
  | sync => exact (stamps_sync cfg.fills).bind fun _ => stamps_pure _
  | reprice orderId candidate =>
      have hstored : Stamps (RepriceCoordinator.repriceStored cfg orderId candidate) := by
        refine (stamps_await (by simp)).bind fun found => ?_
        split
        · exact stamps_pure _
        · exact (stamps_reprice cfg _ _).map _
      exact hstored.bind fun _ => stamps_pure _
  | runOnce => exact (stamps_runOnce cfg).bind fun _ => stamps_pure _

end Repricing

/-! ## Runs -/

/-- What the clock read in the last call of a task. -/
def lastReading : List Event → Option Timestamp
  | [] => none
  | e :: _ => reading e.call e.answer

variable [DecimalContext] {cfg : Settings} {scope : Scope} {admits : (c : Call) → c.Answer → Prop}
  {s : Pool calls PyError Unit World}

theorem Run.stamped (hr : Run cfg scope admits s) :
    ∀ t p, s.task t = some p → Stamped p (lastReading (s.world.own t)) := by
  induction hr with
  | refl => exact fun t p hp => by simp [Pool.idle] at hp
  | @tail v _ _ hs ih =>
      intro t p hp
      cases hs with
      | start q hq =>
          obtain ⟨op, -, rfl⟩ := hq
          by_cases ht : t = v.next
          · subst ht
            rw [Pool.put_self, Option.some.injEq] at hp
            exact hp ▸ stamps_program cfg op _
          · rw [Pool.put_of_ne ht] at hp
            exact ih t p hp
      | @run u c k a w hu hw =>
          obtain ⟨time, hself, hother⟩ := own_of_step hw
          by_cases ht : t = u
          · subst ht
            rw [Pool.put_self, Option.some.injEq] at hp
            rw [Pool.put_world, hself]
            exact hp ▸ (ih t _ hu).2 a
          · rw [Pool.put_of_ne ht] at hp
            rw [Pool.put_world, hother t ht]
            exact ih t p hp
      | crash => simp [Pool.idle] at hp

/-- The clock reads the time of its call. -/
theorem Run.reads (hbook : scope.Bounds (cfg.engine.environment admits))
    (hr : Run cfg scope admits s) :
    ∀ e ∈ s.world.trace, ∀ time, reading e.call e.answer = some time → e.time = time := by
  refine hr.invariant (J := fun w => ∀ e ∈ w.trace, ∀ time,
    reading e.call e.answer = some time → e.time = time) hbook (fun e he => by cases he)
    (fun {u t c a w'} _ hJ _ _ hs => ?_) fun hJ => hJ
  obtain ⟨time, ha, htrace⟩ := platform_step hs
  rw [htrace]
  intro e he now hnow
  rcases List.mem_cons.mp he with rfl | he
  · cases c with
    | now =>
        obtain rfl := ha.time_of_now
        exact Option.some.inj hnow
    | _ => cases hnow
  · exact hJ e he now hnow

/-- **A transition carries the time of a call before it.** -/
theorem Run.stamp (hbook : scope.Bounds (cfg.engine.environment admits))
    (hr : Run cfg scope admits s) {t : ℕ} {p u : OrderRecord}
    {k : (Call.transition p u).Answer → Program Unit}
    (ht : s.task t = some (.call (.transition p u) k)) :
    ∃ e ∈ s.world.trace, e.time = u.updatedAt := by
  have hlast := (hr.stamped t _ ht).1 p u rfl
  cases hown : s.world.own t with
  | nil =>
      rw [hown] at hlast
      cases hlast
  | cons e rest =>
      rw [hown] at hlast
      have he : e ∈ s.world.trace := (World.mem_own.mp (by rw [hown]; exact List.mem_cons_self)).1
      exact ⟨e, he, hr.reads hbook e he _ hlast⟩

end Emporos
