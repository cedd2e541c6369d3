import Emporos.Execution.Engine
/-!
# What a placement submits

A rule for every request a program submits, whatever its calls are answered
with: one lemma a way to build a program, and from them what `place` does.
-/

namespace Emporos

open Async Program

section Submits

variable {α β : Type}

/-- The tick size, where it is asked for, is `tick`. -/
def OnTicks (tick : Money) : (c : Call) → c.Answer → Prop
  | .tickSize _, .ok t => t = tick
  | _, _ => True

/-- Every request the program submits is one of `P`, and what it returns
one of `Q`, whatever its calls are answered with but the tick size. -/
def Submits (tick : Money) (P : PlaceOrderRequest → Prop) (Q : α → Prop) : Program α → Prop
  | .done r => ∀ v, r = .ok v → Q v
  | .call c k => (∀ r, c = .submit r → P r) ∧ ∀ a, OnTicks tick c a → Submits tick P Q (k a)

variable {tick : Money} {P P' : PlaceOrderRequest → Prop} {Q Q' : α → Prop} {R : β → Prop}

theorem submits_pure {v : α} (h : Q v) : Submits tick P Q (pure v : Program α) := fun _ hv =>
  Except.ok.inj hv ▸ h

theorem submits_raise (e : PyError) : Submits tick P Q (raise e : Program α) := fun _ hv =>
  nomatch hv

theorem submits_lift {r : Except PyError α} (h : ∀ v, r = .ok v → Q v) :
    Submits tick P Q (lift r) := h

/-- A call that is no submission. -/
theorem submits_await {c : Call} (hc : ∀ r, c ≠ .submit r) :
    Submits tick P (fun _ => True) (await c) :=
  ⟨fun r h => absurd h (hc r), fun _ _ _ _ => trivial⟩

theorem Submits.bind {p : Program α} {f : α → Program β} (hp : Submits tick P Q p)
    (hf : ∀ v, Q v → Submits tick P R (f v)) : Submits tick P R (p >>= f) := by
  induction p with
  | done r =>
      cases r with
      | ok v => exact hf v (hp v rfl)
      | error e => exact submits_raise e
  | call c k ih => exact ⟨hp.1, fun a ha => ih a (hp.2 a ha)⟩

theorem Submits.attempt {p : Program α} (hp : Submits tick P Q p) :
    Submits tick P (fun _ => True) p.attempt := by
  induction p with
  | done r => exact fun _ _ => trivial
  | call c k ih => exact ⟨hp.1, fun a ha => ih a (hp.2 a ha)⟩

theorem Submits.mono {p : Program α} (hp : Submits tick P Q p) (hP : ∀ r, P r → P' r)
    (hQ : ∀ v, Q v → Q' v) : Submits tick P' Q' p := by
  induction p with
  | done r => exact fun v hv => hQ v (hp v hv)
  | call c k ih => exact ⟨fun r hr => hP r (hp.1 r hr), fun a ha => ih a (hp.2 a ha)⟩

end Submits

namespace ExecutionEngine

variable {cfg : EngineSettings} {tick : Money} {approval : RiskApprovedSignal} {marketable : Bool}
  {P : PlaceOrderRequest → Prop}

theorem submits_locked {α : Type} {body : Program α} {Q : α → Prop} (h : Submits tick P Q body) :
    Submits tick P (fun _ => True) (locked body) :=
  (submits_await (by simp)).bind fun _ _ => h.attempt.bind fun _ _ =>
    (submits_await (by simp)).bind fun _ _ => submits_lift fun _ _ => trivial

theorem submits_change (order : OrderRecord) (target : OrderState) (reason : String)
    (brokerOrderId : Option String) (checks : Option ℕ) :
    Submits tick P (fun _ => True) (change order target reason brokerOrderId checks) :=
  (submits_lift fun _ _ => trivial).bind fun _ _ => (submits_await (by simp)).bind fun _ _ =>
    (submits_await (by simp)).bind fun _ _ => submits_pure trivial

/-- An order is submitted at its own limit price. -/
theorem submits_send {order : OrderRecord} (h : ∀ r, requestOf order = .ok r → P r) :
    Submits tick P (fun _ => True) (send cfg order approval) := by
  refine (submits_await (by simp)).bind fun _ _ => (submits_await (by simp)).bind fun now _ => ?_
  split
  · exact submits_change _ _ _ _ _
  · have hask : Submits tick P (fun _ => True)
        (lift (requestOf order) >>= fun r => await (.submit r)) :=
      (submits_lift h).bind fun r hr =>
        ⟨fun r' hr' => Call.submit.inj hr' ▸ hr, fun _ _ _ _ => trivial⟩
    exact hask.attempt.bind fun _ _ => submits_change _ _ _ _ _

theorem submits_parentOf (parentOrderId : Option String) :
    Submits tick P (fun _ => True) (parentOf parentOrderId approval) := by
  unfold parentOf
  split
  · exact submits_pure trivial
  · refine (submits_await (by simp)).bind fun found _ => ?_
    split
    · split
      · exact submits_pure trivial
      · exact submits_raise _
    · exact submits_raise _

variable [DecimalContext]

/-- The limit of a signal: priced to the market, or its own. -/
def Limit (rule : MarketableLimit) (signal : Signal) (tick : Money) (marketable : Bool)
    (limit : Money) : Prop :=
  if marketable then ∃ trigger, rule.prices signal tick = .ok (limit, trigger)
  else limit = signal.limitPrice

theorem submits_price (rule : String → MarketableLimit) (signal : Signal) :
    Submits tick P (fun prices => Limit (rule signal.strategyRunId) signal tick marketable prices.1)
      (MarketableLimitPricer.price rule signal marketable) := by
  have hlegal (t limit : Money) (trigger : Option Money)
      (h : Limit (rule signal.strategyRunId) signal tick marketable limit) :
      Submits tick P
        (fun prices => Limit (rule signal.strategyRunId) signal tick marketable prices.1) (do
          lift (MarketableLimitPricer.requireLegal signal.instrumentId t (some limit))
          lift (MarketableLimitPricer.requireLegal signal.instrumentId t trigger)
          pure (limit, trigger)) :=
    (submits_lift fun _ _ => trivial).bind fun _ _ => (submits_lift fun _ _ => trivial).bind
      fun _ _ => submits_pure h
  have hticked : Submits tick P (· = tick) (await (.tickSize signal.instrumentId)) := by
    refine ⟨fun r h => (nomatch h), fun a ha v hv => ?_⟩
    subst hv
    exact ha
  refine hticked.bind fun t ht => ?_
  subst ht
  dsimp only
  cases marketable with
  | true => exact (submits_lift fun v hv => hv).bind fun prices h => hlegal _ _ _ ⟨_, h⟩
  | false =>
      have hown : Submits t P (fun prices => Limit (rule signal.strategyRunId) signal t false prices.1)
          (pure (signal.limitPrice, signal.triggerPrice)) := submits_pure rfl
      exact hown.bind fun prices h => hlegal _ _ _ h

/-- **The price a placement sends**: the limit its signal was priced at. -/
theorem submits_place (parentOrderId : Option String) :
    Submits tick (fun r => Limit (cfg.rule approval.signal.strategyRunId) approval.signal tick
      marketable r.price) (fun _ => True) (place cfg approval parentOrderId marketable) := by
  refine submits_locked (Q := fun _ => True) ((submits_await (by simp)).bind fun existing _ => ?_)
  split
  · exact submits_pure trivial
  · refine (submits_parentOf _).bind fun parent _ => (submits_await (by simp)).bind fun frozen _ => ?_
    split
    · exact submits_raise _
    · refine (submits_await (by simp)).bind fun now _ => ?_
      split
      · exact submits_raise _
      · refine (submits_price _ _).bind fun prices hprices => (submits_await (by simp)).bind
          fun id _ => (submits_await (by simp)).attempt.bind fun created _ => ?_
        split
        · refine submits_send fun r hr => ?_
          rw [PlaceOrderRequest.price_of_make hr]
          exact hprices
        · refine (submits_await (by simp)).bind fun existing _ => ?_
          split
          · exact submits_raise _
          · exact submits_pure trivial
        · exact submits_raise _

end ExecutionEngine

end Emporos
