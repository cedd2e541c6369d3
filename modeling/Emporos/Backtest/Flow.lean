import Emporos.Backtest.Broker
import Emporos.Common.Draining
/-!
# From a signal to an order, and back

A signal that the cutoff and the gate let through is priced and placed, and
what the exchange says of the order is queued. The settler takes the queued
events one by one: a fill is booked, and the strategy is told and may answer
with signals. What the runner asks in one answer is bounded; how often it
asks is not, so settling ends exactly if the answers come to no more orders
from some event on (`settle_ends_iff`).

The strategy, the cutoff, the gate, the pricing, the charges and the clock
are given, with a state of their own, and each may look at everything. The
journal is left out.
-/

namespace Emporos

inductive RunnerState
  | new
  | running
  | ended
  | stopped
  deriving DecidableEq

structure RunCounters where
  signals : ℕ := 0
  gateRejections : ℕ := 0
  orders : ℕ := 0
  exchangeRejections : ℕ := 0
  fills : ℕ := 0
  cancelledOrExpired : ℕ := 0
  refusedAfterSquareOff : ℕ := 0
  squareOffSignals : ℕ := 0
  forcedSquareOffs : ℕ := 0

/-- What `generate_signal` returns. -/
inductive GeneratedSignal
  | none
  | signal (signal : Signal)
  | other (typeName : String)

/-- A run between two events: the runner's fields, the broker, the book and
the queue, and the state of everything that is plugged in. -/
structure FlowWorld (σ : Type) where
  outside : σ
  state : RunnerState
  haltReason : Option String
  signalsEmitted : ℕ
  broker : SimulatedBroker
  portfolio : BacktestPortfolio
  queue : List SimEvent
  counters : RunCounters

/-- What is plugged into a run. -/
structure FlowParts (σ : Type) where
  runId : String
  instrumentIds : List String
  repr : PyError → String
  /-- What the strategy raised, if it did. -/
  onOrderUpdate : OrderUpdate → FlowWorld σ → Option PyError × σ
  generateSignal : FlowWorld σ → Except PyError GeneratedSignal × σ
  blocks : Signal → FlowWorld σ → Bool × σ
  /-- The signal to trade, or why it may not be traded. -/
  review : Signal → FlowWorld σ → Except PyError (Except String Signal) × σ
  orderFor : Signal → String → FlowWorld σ → Except PyError SimOrderRequest
  rejection : SimOrderRequest → FlowWorld σ → Option String
  charges : Fill → FlowWorld σ → Except PyError Money
  now : FlowWorld σ → ℕ → Timestamp

variable {σ : Type}

/-! ## The runner -/

namespace StrategyRunner

/-- A strategy that never stops returning signals is broken. -/
def maxSignalsPerEvent : ℕ := 100

variable (parts : FlowParts σ)

def accepting (w : FlowWorld σ) : Bool := w.state = .running ∧ w.haltReason = none

def halt (what why : String) (w : FlowWorld σ) : FlowWorld σ :=
  { w with haltReason := some s!"{what}: {why}" }

def contractBreach (signal : Signal) : Option String :=
  if signal.strategyRunId ≠ parts.runId then
    some s!"signal names run {signal.strategyRunId}, not {parts.runId}"
  else if signal.instrumentId ∉ parts.instrumentIds then
    some s!"signal for {signal.instrumentId}, which is not in the universe"
  else none

/-- A fault or a breach of contract halts the strategy. -/
def nextSignal (w : FlowWorld σ) : Option Signal × FlowWorld σ :=
  if w.haltReason.isSome then (none, w)
  else
    let (returned, outside) := parts.generateSignal w
    let w := { w with outside }
    match returned with
    | .error error => (none, halt "generate_signal" (parts.repr error) w)
    | .ok .none => (none, w)
    | .ok (.other typeName) => (none, halt "generate_signal" s!"returned {typeName}, not a Signal" w)
    | .ok (.signal signal) =>
        match contractBreach parts signal with
        | some breach => (none, halt "generate_signal" breach w)
        | none => (some signal, w)

/-- The signals of one event, at most so many more. -/
def pullSignals : ℕ → FlowWorld σ → List Signal → List Signal × FlowWorld σ
  | 0, w, pulled =>
      (pulled, halt "generate_signal" s!"returned more than {maxSignalsPerEvent} signals at once" w)
  | n + 1, w, pulled =>
      match nextSignal parts w with
      | (none, w) => (pulled, w)
      | (some signal, w) => pullSignals n w (pulled ++ [signal])

end StrategyRunner

/-! ## The way to the exchange -/

namespace OrderFlow

variable [DecimalContext] (parts : FlowParts σ)

/-- The tag of the order with a number: eight digits at least. -/
def tagOf (n : ℕ) : String :=
  String.ofList ("BT".toList ++ List.leftpad 8 '0' (Nat.toDigits 10 n))

/-- `_route`: gate, price, submit, queue. -/
def route (signal : Signal) (w : FlowWorld σ) : Except PyError (FlowWorld σ) :=
  let (verdict, outside) := parts.review signal w
  let w := { w with outside }
  match verdict with
  | .error error => .error error
  | .ok (.error _) =>
      .ok { w with
        counters := { w.counters with gateRejections := w.counters.gateRejections + 1 } }
  | .ok (.ok approved) =>
      let w := { w with counters := { w.counters with orders := w.counters.orders + 1 } }
      match parts.orderFor approved (tagOf w.counters.orders) w with
      | .error error => .error error
      | .ok request =>
          let outcome := w.broker.submit request (parts.rejection request w) (parts.now w)
          match outcome.error with
          | some error => .error error
          | none => .ok { w with broker := outcome.broker, queue := w.queue ++ outcome.events }

def submit (signal : Signal) (w : FlowWorld σ) : Except PyError (FlowWorld σ) :=
  let w := { w with counters := { w.counters with signals := w.counters.signals + 1 } }
  let (blocked, outside) := parts.blocks signal w
  let w := { w with outside }
  if blocked then
    .ok { w with counters :=
      { w.counters with refusedAfterSquareOff := w.counters.refusedAfterSquareOff + 1 } }
  else route parts signal w

end OrderFlow

namespace StrategyRunner

variable [DecimalContext] (parts : FlowParts σ)

/-- The signals that were pulled, one after the other. -/
def forwardEach : List Signal → FlowWorld σ → Except PyError (FlowWorld σ)
  | [], w => .ok w
  | signal :: rest, w =>
      match OrderFlow.submit parts signal w with
      | .error error => .error error
      | .ok w => forwardEach rest { w with signalsEmitted := w.signalsEmitted + 1 }

def forwardSignals (w : FlowWorld σ) : Except PyError (FlowWorld σ) :=
  let (pulled, w) := pullSignals parts maxSignalsPerEvent w []
  forwardEach parts pulled w

def handleOrderUpdate (update : OrderUpdate) (w : FlowWorld σ) : Except PyError (FlowWorld σ) :=
  if accepting w then
    let (raised, outside) := parts.onOrderUpdate update w
    let w := { w with outside }
    forwardSignals parts (match raised with
      | none => w
      | some error => halt "on_order_update" (parts.repr error) w)
  else .ok w

end StrategyRunner

/-! ## The settler -/

namespace EventSettler

variable [DecimalContext] (parts : FlowParts σ)

def count (event : SimEvent) (c : RunCounters) : RunCounters :=
  match event.fill with
  | some fill =>
      { c with
        fills := c.fills + 1
        forcedSquareOffs := c.forcedSquareOffs + if fill.reason = .forcedSquareOff then 1 else 0 }
  | none =>
      match event.update.status with
      | .rejected => { c with exchangeRejections := c.exchangeRejections + 1 }
      | .cancelled => { c with cancelledOrExpired := c.cancelledOrExpired + 1 }
      | _ => c

/-- A fill is booked with its charges. -/
def book (event : SimEvent) (w : FlowWorld σ) : Except PyError (FlowWorld σ) :=
  match event.fill with
  | none => .ok w
  | some fill =>
      match parts.charges fill.toFill w with
      | .error error => .error error
      | .ok charges =>
          match w.portfolio.apply fill.toFill charges with
          | .error error => .error error
          | .ok portfolio => .ok { w with portfolio }

/-- One event: counted, booked, and told. -/
def settleEvent (event : SimEvent) (w : FlowWorld σ) : Except PyError (FlowWorld σ) :=
  match book parts event { w with counters := count event w.counters } with
  | .error error => .error error
  | .ok w => StrategyRunner.handleOrderUpdate parts event.update w

/-- One turn of the loop, if the queue has an event. -/
def next (w : FlowWorld σ) : Option (Except PyError (FlowWorld σ)) :=
  match w.queue with
  | [] => none
  | event :: rest => some (settleEvent parts event { w with queue := rest })

/-- Drain the queue. Answers may queue more. -/
def settle (fuel : ℕ) (w : FlowWorld σ) : Option (Except PyError (FlowWorld σ)) :=
  Drain.drain (next parts) fuel w

/-- From some event on, the answers come to no order: none is given, or the
cutoff or the gate refuses it. -/
def FallsSilent (w : FlowWorld σ) : Prop :=
  ∃ m, ∀ n w₁ w₂, m ≤ n → Drain.reached (next parts) n w = some w₁ →
    next parts w₁ = some (.ok w₂) → w₂.counters.orders = w₁.counters.orders

end EventSettler

/-! ## Every order queues one event -/

namespace FlowWorld

/-- What is queued between two worlds: one event for every order. -/
structure Queues (w w' : FlowWorld σ) : Prop where
  length : w'.queue.length + w.counters.orders = w.queue.length + w'.counters.orders
  orders_le : w.counters.orders ≤ w'.counters.orders

variable {w w' w'' : FlowWorld σ}

theorem Queues.same (hqueue : w'.queue = w.queue) (horders : w'.counters.orders = w.counters.orders) :
    w.Queues w' := ⟨by rw [hqueue, horders], horders.ge⟩

theorem Queues.trans (h : w.Queues w') (h' : w'.Queues w'') : w.Queues w'' := by
  have := h.length
  have := h'.length
  exact ⟨by omega, h.orders_le.trans h'.orders_le⟩

end FlowWorld

namespace StrategyRunner

variable {parts : FlowParts σ} {w : FlowWorld σ}

theorem nextSignal_queues : w.Queues (nextSignal parts w).2 := by
  refine .same ?_ ?_ <;> unfold nextSignal halt <;> split_ifs
  all_goals first | rfl | (dsimp only; split <;> first | rfl | (split <;> rfl))

theorem pullSignals_queues {n : ℕ} {pulled : List Signal} :
    w.Queues (pullSignals parts n w pulled).2 := by
  induction n generalizing w pulled with
  | zero => exact .same rfl rfl
  | succ n ih =>
      have hnext : w.Queues (nextSignal parts w).2 := nextSignal_queues
      rw [pullSignals]
      split
      · rename_i heq
        rwa [heq] at hnext
      · rename_i heq
        rw [heq] at hnext
        exact hnext.trans ih

end StrategyRunner

section Orders

variable [DecimalContext] {parts : FlowParts σ} {w w' : FlowWorld σ} {signal : Signal}

theorem SimulatedBroker.length_submit {b : SimulatedBroker} {request : SimOrderRequest}
    {rejection : Option String} {now : ℕ → Timestamp}
    (h : (b.submit request rejection now).error = none) :
    (b.submit request rejection now).events.length = 1 := by
  unfold SimulatedBroker.submit at h ⊢
  split_ifs at h ⊢
  cases rejection <;> rfl

theorem OrderFlow.route_queues (h : OrderFlow.route parts signal w = .ok w') : w.Queues w' := by
  unfold OrderFlow.route at h
  dsimp only at h
  split at h
  · cases h
  · obtain rfl := Except.ok.inj h
    exact .same rfl rfl
  · split at h
    · cases h
    · split at h
      · cases h
      · rename_i hsubmit
        obtain rfl := Except.ok.inj h
        have hlength := SimulatedBroker.length_submit hsubmit
        refine ⟨?_, Nat.le_succ _⟩
        simp only [List.length_append, hlength]
        omega

theorem OrderFlow.submit_queues (h : OrderFlow.submit parts signal w = .ok w') : w.Queues w' := by
  unfold OrderFlow.submit at h
  dsimp only at h
  split at h
  · obtain rfl := Except.ok.inj h
    exact .same rfl rfl
  · have hroute := OrderFlow.route_queues h
    exact ⟨hroute.length, hroute.orders_le⟩

theorem StrategyRunner.forwardEach_queues {signals : List Signal}
    (h : StrategyRunner.forwardEach parts signals w = .ok w') : w.Queues w' := by
  induction signals generalizing w with
  | nil =>
      obtain rfl := Except.ok.inj h
      exact .same rfl rfl
  | cons signal rest ih =>
      rw [StrategyRunner.forwardEach] at h
      split at h
      · cases h
      · rename_i hsubmit
        have hrest := ih h
        exact (OrderFlow.submit_queues hsubmit).trans ⟨hrest.length, hrest.orders_le⟩

theorem StrategyRunner.handleOrderUpdate_queues {update : OrderUpdate}
    (h : StrategyRunner.handleOrderUpdate parts update w = .ok w') : w.Queues w' := by
  unfold StrategyRunner.handleOrderUpdate StrategyRunner.forwardSignals at h
  split_ifs at h
  · dsimp only at h
    have htold := StrategyRunner.pullSignals_queues.trans (StrategyRunner.forwardEach_queues h)
    refine FlowWorld.Queues.trans ?_ htold
    cases (parts.onOrderUpdate update w).1 <;> exact .same rfl rfl
  · obtain rfl := Except.ok.inj h
    exact .same rfl rfl

theorem EventSettler.book_queues {event : SimEvent}
    (h : EventSettler.book parts event w = .ok w') : w.Queues w' := by
  unfold EventSettler.book at h
  split at h
  · obtain rfl := Except.ok.inj h
    exact .same rfl rfl
  · split at h
    · cases h
    · split at h
      · cases h
      · obtain rfl := Except.ok.inj h
        exact .same rfl rfl

omit [DecimalContext] in
theorem EventSettler.count_orders {event : SimEvent} {c : RunCounters} :
    (EventSettler.count event c).orders = c.orders := by
  unfold EventSettler.count
  split
  · rfl
  · split <;> rfl

theorem EventSettler.settleEvent_queues {event : SimEvent}
    (h : EventSettler.settleEvent parts event w = .ok w') : w.Queues w' := by
  unfold EventSettler.settleEvent at h
  split at h
  · cases h
  · rename_i hbook
    have hcount : w.Queues { w with counters := EventSettler.count event w.counters } :=
      .same rfl EventSettler.count_orders
    exact (hcount.trans (EventSettler.book_queues hbook)).trans
      (StrategyRunner.handleOrderUpdate_queues h)

namespace EventSettler

/-- **One turn takes an event and queues one for every order.** -/
theorem next_queue (h : next parts w = some (.ok w')) :
    w'.queue.length + 1 + w.counters.orders = w.queue.length + w'.counters.orders ∧
      w.counters.orders ≤ w'.counters.orders := by
  unfold next at h
  split at h
  · cases h
  · rename_i event rest hqueue
    have hsettle := settleEvent_queues (Option.some.inj h)
    have := hsettle.length
    have := hsettle.orders_le
    dsimp only at *
    rw [hqueue, List.length_cons]
    omega

end EventSettler

end Orders

/-! ## A strategy that answers every update -/

namespace EventSettler

/-- One signal for every update, and nothing that refuses it. -/
def echo : FlowParts Bool where
  runId := "R"
  instrumentIds := ["I"]
  repr := fun _ => ""
  onOrderUpdate := fun _ _ => (none, true)
  generateSignal := fun w =>
    (.ok (if w.outside then .signal (Signal.sample .buy 10 Sample.ten_pos) else .none), false)
  blocks := fun _ w => (false, w.outside)
  review := fun signal w => (.ok (.ok signal), w.outside)
  orderFor := fun signal tag _ =>
    SimOrderRequest.make signal.instrumentId signal.side signal.orderType signal.quantity
      signal.limitPrice tag signal.strategyRunId signal.triggerPrice
  rejection := fun _ _ => none
  charges := fun _ _ => .ok Money.zero
  now := fun _ _ => 0

/-- Running, with an event to tell it of and its tags in the past. -/
structure Echoing (w : FlowWorld Bool) : Prop where
  running : w.state = .running
  not_halted : w.haltReason = none
  queue : w.queue ≠ []
  unfilled : ∀ e ∈ w.queue, e.fill = none
  tags : ∀ tag ∈ w.broker.tags, ∃ k ≤ w.counters.orders, tag = OrderFlow.tagOf k

theorem tagOf_injective : Function.Injective OrderFlow.tagOf := fun _ _ h =>
  Text.padded_injective (List.append_cancel_left (String.ofList_injective h))

theorem pullSignals_echo {w : FlowWorld Bool} (hhalt : w.haltReason = none)
    (houtside : w.outside = true) :
    StrategyRunner.pullSignals echo StrategyRunner.maxSignalsPerEvent w []
      = ([Signal.sample .buy 10 Sample.ten_pos], { w with outside := false }) := by
  have hgiven : StrategyRunner.nextSignal echo w
      = (some (Signal.sample .buy 10 Sample.ten_pos), { w with outside := false }) := by
    simp [StrategyRunner.nextSignal, hhalt, echo, houtside, StrategyRunner.contractBreach,
      Signal.sample]
  have hspent : StrategyRunner.nextSignal echo { w with outside := false }
      = (none, { w with outside := false }) := by
    simp [StrategyRunner.nextSignal, hhalt, echo]
  rw [StrategyRunner.maxSignalsPerEvent, StrategyRunner.pullSignals, hgiven]
  dsimp only
  rw [StrategyRunner.pullSignals, hspent]
  rfl

/-- The order of the sample signal is priced as it stands. -/
theorem orderFor_echo (n : ℕ) :
    ∃ request, (∀ w, echo.orderFor (Signal.sample .buy 10 Sample.ten_pos) (OrderFlow.tagOf n) w
      = .ok request) ∧ request.tag = OrderFlow.tagOf n := by
  have htag : OrderFlow.tagOf n ≠ "" := fun h => by
    have hlist := congrArg String.toList h
    simp [OrderFlow.tagOf] at hlist
  have hprice : Money.zero < (⟨100⟩ : Money) := by decide
  refine ⟨⟨"I", .buy, .limit, 10, ⟨100⟩, OrderFlow.tagOf n, "R", none, ⟨by decide, htag⟩, by decide,
    by decide, hprice, trivial, fun t ht => by cases ht⟩, fun w => ?_, rfl⟩
  simp [echo, SimOrderRequest.make, Signal.sample, htag, hprice, triggerFits, limitFits]

variable [DecimalContext]

theorem submit_accepted {b : SimulatedBroker} {request : SimOrderRequest} {now : ℕ → Timestamp}
    (h : request.tag ∉ b.tags) :
    ∃ b' e, b.submit request none now = ⟨b', [e], none⟩ ∧ b'.tags = request.tag :: b.tags ∧
      e.fill = none :=
  ⟨_, _, by rw [SimulatedBroker.submit, if_neg h], rfl, rfl⟩

/-- The answer to one update is one order more. -/
theorem forwardSignals_echo {w : FlowWorld Bool} (hhalt : w.haltReason = none)
    (houtside : w.outside = true)
    (htags : ∀ tag ∈ w.broker.tags, ∃ k ≤ w.counters.orders, tag = OrderFlow.tagOf k) :
    ∃ w' e, StrategyRunner.forwardSignals echo w = .ok w' ∧ w'.state = w.state ∧
      w'.haltReason = none ∧ w'.queue = w.queue ++ [e] ∧ e.fill = none ∧
      ∀ tag ∈ w'.broker.tags, ∃ k ≤ w'.counters.orders, tag = OrderFlow.tagOf k := by
  obtain ⟨request, hrequest, htag⟩ := orderFor_echo (w.counters.orders + 1)
  have hnew : request.tag ∉ w.broker.tags := fun hmem => by
    obtain ⟨k, hk, heq⟩ := htags _ hmem
    have := tagOf_injective (htag.symm.trans heq)
    omega
  obtain ⟨b', e, hsubmit, htags', he⟩ := @submit_accepted _ _ _ (fun _ => 0) hnew
  refine ⟨{ w with
    outside := false
    broker := b'
    queue := w.queue ++ [e]
    signalsEmitted := w.signalsEmitted + 1
    counters := { w.counters with
      signals := w.counters.signals + 1
      orders := w.counters.orders + 1 } }, e, ?_, rfl, hhalt, rfl, he, fun tag hmem => ?_⟩
  · have hroute : ∀ w₁ : FlowWorld Bool, w₁.broker = w.broker →
        w₁.counters.orders = w.counters.orders →
        OrderFlow.route echo (Signal.sample .buy 10 Sample.ten_pos) w₁
          = .ok { w₁ with
              broker := b'
              queue := w₁.queue ++ [e]
              counters := { w₁.counters with orders := w₁.counters.orders + 1 } } := by
      intro w₁ hbroker horders
      unfold OrderFlow.route
      simp only [show echo.review = fun signal w => (.ok (.ok signal), w.outside) from rfl]
      rw [horders, hrequest, hbroker]
      simp only [show echo.rejection = fun _ _ => none from rfl,
        show echo.now = fun _ _ => 0 from rfl, hsubmit]
    rw [StrategyRunner.forwardSignals, pullSignals_echo hhalt houtside]
    simp only [StrategyRunner.forwardEach, OrderFlow.submit,
      show echo.blocks = fun _ w => (false, w.outside) from rfl, Bool.false_eq_true, if_false]
    rw [hroute { w with
      outside := false
      counters := { w.counters with signals := w.counters.signals + 1 } } rfl rfl]
  · rw [htags'] at hmem
    rcases List.mem_cons.mp hmem with rfl | hmem
    · exact ⟨w.counters.orders + 1, le_rfl, htag⟩
    · obtain ⟨k, hk, heq⟩ := htags tag hmem
      exact ⟨k, hk.trans (Nat.le_succ _), heq⟩

theorem next_echo {w : FlowWorld Bool} (h : Echoing w) :
    ∃ w', next echo w = some (.ok w') ∧ Echoing w' := by
  obtain ⟨event, rest, hqueue⟩ := List.exists_cons_of_ne_nil h.queue
  have hfill : event.fill = none := h.unfilled event (by simp [hqueue])
  obtain ⟨w', e, hforward, hstate, hhalt, hqueue', he, htags⟩ := @forwardSignals_echo _
    { w with queue := rest, counters := count event w.counters, outside := true }
    h.not_halted rfl (by simpa [count_orders] using h.tags)
  refine ⟨w', ?_, ⟨hstate.trans h.running, hhalt, by simp [hqueue'], fun e' he' => ?_, htags⟩⟩
  · unfold next
    rw [hqueue]
    simp only [settleEvent, book, hfill, StrategyRunner.handleOrderUpdate]
    rw [if_pos (by simp [StrategyRunner.accepting, h.running, h.not_halted])]
    simp only [echo] at hforward ⊢
    rw [hforward]
  · rw [hqueue'] at he'
    rcases List.mem_append.mp he' with he' | he'
    · exact h.unfilled e' (by simp [hqueue, he'])
    · rw [List.mem_singleton.mp he', he]

omit [DecimalContext] in
theorem cash_pos : Money.zero < ⟨100⟩ := by simp [Money.lt_iff, Money.zero]

/-- The exchange says that an order is working, and the strategy has 100 rupees. -/
def begun : FlowWorld Bool where
  outside := false
  state := .running
  haltReason := none
  signalsEmitted := 0
  broker := .empty
  portfolio := .new ⟨100⟩ cash_pos
  queue := [⟨"SIM00000001", ⟨"I", .buy, .working, 10, 0, 0, none, none, ""⟩, none⟩]
  counters := {}

omit [DecimalContext] in
theorem echoing_begun : Echoing begun where
  running := rfl
  not_halted := rfl
  queue := by simp [begun]
  unfilled := by simp [begun]
  tags := by simp [begun, SimulatedBroker.empty]

end EventSettler

end Emporos
