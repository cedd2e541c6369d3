import Emporos.Common.Recording
import Emporos.Paper.Chronicle
import Emporos.Paper.Policies
/-!
# The conduct of the simulated exchange

A run is a list of commands, ticks and restarts; a restart is a new exchange
with orders put back. `Conducted` is what every run keeps: who may fill on a
tick, at what price and for how much, and how the events and the trades of
an order are numbered.
-/

namespace Emporos

inductive ExchangeCall
  | submit (request : PlaceOrderRequest) (ulid : String) (now : Timestamp)
      (rejectReason : Option String)
  | cancel (orderId : String) (now : Timestamp)
  | amend (orderId : String) (now : Timestamp) (quantity : ℕ) (price : Money)
      (triggerPrice : Option Money)
  | onTick (tick : Tick) (now : Timestamp)
  /-- A new exchange, and the orders that were persisted. -/
  | restart (items : List RestoredOrder) (now : Timestamp)

/-- What a call comes to. -/
structure ExchangeOutcome where
  exchange : SimulatedExchange
  events : List ExchangeEvent
  error : Option PyError

/-- A call of a run, and what it came to. -/
structure ExchangeStep where
  before : SimulatedExchange
  call : ExchangeCall
  outcome : ExchangeOutcome

namespace SimulatedExchange

/-- A command that was refused changes nothing. -/
def settle (x : SimulatedExchange) : Except PyError (SimulatedExchange × ExchangeEvent) → ExchangeOutcome
  | .ok (x', e) => ⟨x', [e], none⟩
  | .error e => ⟨x, [], some e⟩

variable [DecimalContext]

def call (P : ExchangePolicies) (x : SimulatedExchange) : ExchangeCall → ExchangeOutcome
  | .submit request ulid now rejectReason => x.settle (.ok (x.submit P request ulid now rejectReason))
  | .cancel orderId now => x.settle (x.cancel orderId now)
  | .amend orderId now quantity price triggerPrice =>
      x.settle (x.amend orderId now quantity price triggerPrice)
  | .onTick tick now =>
      match x.onTick P tick now with
      | (x', .ok events) => ⟨x', events, none⟩
      | (x', .error e) => ⟨x', [], some e⟩
  | .restart items now =>
      match empty.restore items now with
      | .ok x' => ⟨x', [], none⟩
      | .error e => ⟨x, [], some e⟩

/-- The steps of a run. -/
def trace (P : ExchangePolicies) : SimulatedExchange → List ExchangeCall → List ExchangeStep :=
  Recording.steps (fun x c => ⟨x, c, x.call P c⟩) (·.outcome.exchange)

end SimulatedExchange

/-- The item is of the order, as it was persisted: its moment may have lost
digits. -/
def RestoredOrder.IsOf (item : RestoredOrder) (o : SimulatedOrder) : Prop :=
  item.seq = o.seq ∧ item.trades = o.trades ∧
    { item.order with updatedAt := o.order.updatedAt } = o.order

instance (item : RestoredOrder) (o : SimulatedOrder) : Decidable (item.IsOf o) :=
  inferInstanceAs (Decidable (_ ∧ _ ∧ _))

namespace ExchangeCall

/-- The ULID a call takes. -/
def ulid : ExchangeCall → Option String
  | submit _ ulid _ _ => some ulid
  | cancel .. | amend .. | onTick .. | restart .. => none

/-- What is put back on a new exchange are orders of the one before it, each
once. -/
def PutsBack (x : SimulatedExchange) : ExchangeCall → Prop
  | restart items _ => (items.map (·.order.brokerOrderId)).Nodup ∧
      ∀ item ∈ items, ∃ o ∈ x.orders, item.IsOf o
  | submit .. | cancel .. | amend .. | onTick .. => True

instance (x : SimulatedExchange) : (call : ExchangeCall) → Decidable (call.PutsBack x)
  | restart _ _ => inferInstanceAs (Decidable (_ ∧ _))
  | submit .. | cancel .. | amend .. | onTick .. => inferInstanceAs (Decidable True)

end ExchangeCall

namespace ExchangeStep

variable (step : ExchangeStep)

def events : List ExchangeEvent := step.outcome.events

def after : SimulatedExchange := step.outcome.exchange

def trades : List BrokerTrade := step.events.filterMap (·.trade)

/-- A restart puts back orders of the exchange before it, each once. -/
def PutsBack : Prop := step.call.PutsBack step.before

instance : Decidable step.PutsBack := inferInstanceAs (Decidable (step.call.PutsBack step.before))

/-- The call that puts an order on the exchange, with the moment it is live
from: the latency after its submission, or that of a restart. -/
def Enters (P : ExchangePolicies) (orderId : String) (live : Timestamp) : Prop :=
  match step.call with
  | .submit _ ulid now _ => orderId = "PAPER" ++ ulid ∧ live = now + P.latency
  | .restart items now => live = now ∧ ∃ item ∈ items, item.order.brokerOrderId = orderId
  | .cancel .. | .amend .. | .onTick .. => False

def IsRestart : Prop := ∃ items now, step.call = .restart items now

end ExchangeStep

namespace ExchangeEvent

/-- The events of an order. -/
def ofOrder (orderId : String) (events : List ExchangeEvent) : List ExchangeEvent :=
  events.filter fun e => e.order.brokerOrderId = orderId

variable {orderId : String} {events events' : List ExchangeEvent} {e : ExchangeEvent}

@[simp] theorem ofOrder_nil : ofOrder orderId [] = [] := rfl

@[simp] theorem ofOrder_append :
    ofOrder orderId (events ++ events') = ofOrder orderId events ++ ofOrder orderId events' :=
  List.filter_append ..

theorem ofOrder_cons_of_ne (h : e.order.brokerOrderId ≠ orderId) :
    ofOrder orderId (e :: events) = ofOrder orderId events :=
  List.filter_cons_of_neg (by simpa using h)

theorem ofOrder_cons_of_eq (h : e.order.brokerOrderId = orderId) :
    ofOrder orderId (e :: events) = e :: ofOrder orderId events :=
  List.filter_cons_of_pos (by simpa using h)

theorem ofOrder_eq_nil : ofOrder orderId events = [] ↔ ∀ e ∈ events, e.order.brokerOrderId ≠ orderId := by
  rw [ofOrder, List.filter_eq_nil_iff]
  exact forall₂_congr fun e _ => by simp

end ExchangeEvent

/-- The events of steps. -/
def eventsOf (steps : List ExchangeStep) : List ExchangeEvent := steps.flatMap (·.events)

/-- Over: nothing is done to the order any more. -/
def BrokerOrderStatus.IsTerminal : BrokerOrderStatus → Prop
  | filled | cancelled | rejected => True
  | pending | «open» | triggerPending | partiallyFilled | unrecognised => False

/-- **What every run keeps.** -/
structure Conducted [DecimalContext] (P : ExchangePolicies) (steps : List ExchangeStep) : Prop where
  /-- Ticks alone fill, and none that is out of order. -/
  ticks : ∀ step ∈ steps, step.trades ≠ [] → ∃ tick now, step.call = .onTick tick now ∧
    tick.outOfOrder = false
  /-- A tick fills an order that is not waiting for its trigger, for no more
  than it wants, at a price no worse than the limit in force; it was received
  once the order was live. -/
  eligible : ∀ earlier step later tick now, steps = earlier ++ step :: later →
    step.call = .onTick tick now → ∀ t ∈ step.trades, ∃ o ∈ step.before.orders,
      o.id = t.brokerOrderId ∧ ¬ o.awaitingTrigger ∧ (t.quantity : ℤ) ≤ o.remaining ∧
      (∃ limit, o.order.price = some limit ∧ o.order.side.Within limit t.price) ∧
      ∃ first entry rest live, earlier = first ++ entry :: rest ∧ entry.Enters P o.id live ∧
        (∀ s ∈ rest, ¬ s.IsRestart) ∧ live ≤ tick.receivedTs
  /-- The trades of a tick are within its budget, and go to the orders in
  the order they were placed. -/
  budget : ∀ step ∈ steps, ∀ tick now, step.call = .onTick tick now → ∀ n,
    P.budget (step.before.tape.sincePrevious tick).2 = some n →
      ((step.trades.map (·.quantity)).sum : ℤ) ≤ n
  priority : ∀ step ∈ steps, ∀ tick now, step.call = .onTick tick now → ∀ t,
    t ∈ step.trades ↔ step.before.Dealt P tick now t
  quantity : ∀ step ∈ steps, ∀ o ∈ step.after.orders, o.order.filledQuantity ≤ o.order.quantity
  /-- The events of an order are numbered from one. -/
  numbered : ∀ orderId, (ExchangeEvent.ofOrder orderId (eventsOf steps)).map (·.seq) =
    List.range' 1 (ExchangeEvent.ofOrder orderId (eventsOf steps)).length
  terminal : ∀ earlier step later, steps = earlier ++ step :: later → ∀ o ∈ step.after.orders,
    o.order.status.IsTerminal → ∀ s ∈ later, (∀ e ∈ s.events, e.order.brokerOrderId ≠ o.id) ∧
      ∀ o' ∈ s.after.orders, o'.id = o.id → o'.order.status = o.order.status
  trade_ids : (((eventsOf steps).filterMap (·.trade)).map (·.tradeId)).Nodup

/-! ## What a step makes of an order -/

/-- What an order of the book after a step is: as it was, working and
changed by its one event, or new. -/
inductive Fate (P : ExchangePolicies) (step : ExchangeStep) (o' : SimulatedOrder) : Prop
  | kept {o : SimulatedOrder} : o ∈ step.before.orders → o'.id = o.id → o'.seq = o.seq →
      o'.trades = o.trades → o'.order.status = o.order.status →
      ExchangeEvent.ofOrder o.id step.events = [] →
      (¬ step.IsRestart ∧ o'.liveFrom = o.liveFrom ∨ step.Enters P o.id o'.liveFrom) → Fate P step o'
  | moved {o : SimulatedOrder} {e : ExchangeEvent} {now : Timestamp} : o ∈ step.before.orders →
      ¬ step.IsRestart → o.isWorking → o.Reports o' now e →
      ExchangeEvent.ofOrder o.id step.events = [e] → Fate P step o'
  | opened {e : ExchangeEvent} {ulid : String} : step.call.ulid = some ulid → o'.id = "PAPER" ++ ulid →
      o'.seq = 1 → o'.trades = 0 → step.Enters P o'.id o'.liveFrom →
      ExchangeEvent.ofOrder o'.id step.events = [e] → e.seq = 1 → e.trade = none → Fate P step o'

/-- What every step of a run is. -/
structure Proper (P : ExchangePolicies) (step : ExchangeStep) : Prop where
  sound : ∀ o ∈ step.after.orders, o.Sound
  nodup : (step.after.orders.map (·.id)).Nodup
  fate : ∀ o ∈ step.after.orders, Fate P step o
  known : ∀ e ∈ step.events, e.order.brokerOrderId ∈ step.after.orders.map (·.id)

namespace SimulatedExchange

variable {x x' : SimulatedExchange} {o o' : SimulatedOrder} {orders orders' : List SimulatedOrder}
  {events : List ExchangeEvent} {e : ExchangeEvent} {now : Timestamp} {orderId : String}

theorem id_of_reports (h : o.Reports o' now e) : e.order.brokerOrderId = o.id :=
  (congrArg (·.brokerOrderId) h.order_eq).trans h.id_eq

theorem Sweep.map_id (h : Sweep now orders orders' events) :
    orders'.map (·.id) = orders.map (·.id) := by
  induction h with
  | nil => rfl
  | same _ ih => rw [List.map_cons, List.map_cons, ih]
  | event hreports _ ih => rw [List.map_cons, List.map_cons, ih, hreports.id_eq]

theorem Sweep.known (h : Sweep now orders orders' events) :
    ∀ e ∈ events, ∃ o ∈ orders, o.id = e.order.brokerOrderId := by
  induction h with
  | nil => simp
  | same _ ih =>
      intro e he
      obtain ⟨o, ho, hid⟩ := ih e he
      exact ⟨o, List.mem_cons_of_mem _ ho, hid⟩
  | event hreports _ ih =>
      intro e he
      rcases List.mem_cons.mp he with rfl | he
      · exact ⟨_, List.mem_cons_self .., (id_of_reports hreports).symm⟩
      · obtain ⟨o, ho, hid⟩ := ih e he
        exact ⟨o, List.mem_cons_of_mem _ ho, hid⟩

/-- Where ids are distinct, an order has at most one event of a sweep. -/
theorem Sweep.each (h : Sweep now orders orders' events) (hnd : (orders.map (·.id)).Nodup) :
    ∀ o' ∈ orders', ∃ o ∈ orders, (o' = o ∧ ExchangeEvent.ofOrder o.id events = []) ∨
      ∃ e, ExchangeEvent.ofOrder o.id events = [e] ∧ o.Reports o' now e := by
  induction h with
  | nil => simp
  | @same o rest rest' events hrest ih =>
      obtain ⟨hother, hnd⟩ := List.nodup_cons.mp hnd
      intro o' ho'
      rcases List.mem_cons.mp ho' with rfl | ho'
      · refine ⟨o', List.mem_cons_self .., .inl ⟨rfl, ?_⟩⟩
        refine ExchangeEvent.ofOrder_eq_nil.2 fun e he hid => hother ?_
        obtain ⟨p, hp, hpid⟩ := hrest.known e he
        exact List.mem_map.mpr ⟨p, hp, hpid.trans hid⟩
      · obtain ⟨p, hp, hspec⟩ := ih hnd o' ho'
        exact ⟨p, List.mem_cons_of_mem _ hp, hspec⟩
  | @event o p e rest rest' events hreports hrest ih =>
      obtain ⟨hother, hnd⟩ := List.nodup_cons.mp hnd
      have hid := id_of_reports hreports
      intro o' ho'
      rcases List.mem_cons.mp ho' with rfl | ho'
      · refine ⟨o, List.mem_cons_self .., .inr ⟨e, ?_, hreports⟩⟩
        rw [ExchangeEvent.ofOrder_cons_of_eq hid, ExchangeEvent.ofOrder_eq_nil.2]
        intro e he hid
        obtain ⟨q, hq, hqid⟩ := hrest.known e he
        exact hother (List.mem_map.mpr ⟨q, hq, hqid.trans hid⟩)
      · obtain ⟨q, hq, hcase⟩ := ih hnd o' ho'
        have hne : e.order.brokerOrderId ≠ q.id := by
          intro heq
          exact hother (List.mem_map.mpr ⟨q, hq, heq.symm.trans hid⟩)
        rw [← @ExchangeEvent.ofOrder_cons_of_ne _ events _ hne] at hcase
        exact ⟨q, List.mem_cons_of_mem _ hq, hcase⟩

variable {P : ExchangePolicies} {step : ExchangeStep}

/-- **A step that sweeps the book**, with events of working orders. -/
theorem Sweep.proper (h : Sweep now step.before.orders step.after.orders step.events)
    (hnd : (step.before.orders.map (·.id)).Nodup) (hsound : ∀ o ∈ step.after.orders, o.Sound)
    (hworking : ∀ e ∈ step.events, ∀ o ∈ step.before.orders, e.order.brokerOrderId = o.id → o.isWorking)
    (hrestart : ¬ step.IsRestart) : Proper P step where
  sound := hsound
  nodup := h.map_id ▸ hnd
  fate := by
    intro o' ho'
    obtain ⟨o, ho, ⟨rfl, hnone⟩ | ⟨e, hone, hreports⟩⟩ := h.each hnd o' ho'
    · exact .kept ho rfl rfl rfl rfl hnone (.inl ⟨hrestart, rfl⟩)
    · have he : e ∈ step.events := List.mem_of_mem_filter (hone ▸ List.mem_singleton_self e)
      exact .moved ho hrestart (hworking e he o ho (id_of_reports hreports)) hreports hone
  known := by
    intro e he
    obtain ⟨o, ho, hid⟩ := h.known e he
    rw [h.map_id, ← hid]
    exact List.mem_map_of_mem ho

theorem requireWorking_ok {action : String} (h : o.requireWorking action = .ok ()) : o.isWorking := by
  unfold SimulatedOrder.requireWorking at h
  split at h
  · assumption
  · cases h

/-- Only an order that is working is cancelled. -/
theorem working_of_cancel (h : x.cancel orderId now = .ok (x', e)) :
    ∃ o ∈ x.orders, o.isWorking ∧ e.order.brokerOrderId = o.id := by
  obtain ⟨o, hfind, h⟩ := exists_of_bind h
  obtain ⟨⟨o', e'⟩, hcancelled, h⟩ := exists_of_bind h
  obtain ⟨rfl, rfl⟩ := Prod.mk.inj (Except.ok.inj h)
  have hid := id_of_reports (SimulatedOrder.reports_cancelled hcancelled)
  obtain ⟨⟨⟩, hworking, -⟩ := exists_of_bind hcancelled
  exact ⟨o, mem_of_find hfind, requireWorking_ok hworking, hid⟩

/-- Only an order that is working is amended. -/
theorem working_of_amend {quantity : ℕ} {price : Money} {trigger : Option Money}
    (h : x.amend orderId now quantity price trigger = .ok (x', e)) :
    ∃ o ∈ x.orders, o.isWorking ∧ e.order.brokerOrderId = o.id := by
  obtain ⟨o, hfind, h⟩ := exists_of_bind h
  obtain ⟨⟨o', e'⟩, hamended, h⟩ := exists_of_bind h
  obtain ⟨rfl, rfl⟩ := Prod.mk.inj (Except.ok.inj h)
  have hid := id_of_reports (SimulatedOrder.reports_amended hamended)
  obtain ⟨⟨⟩, hworking, -⟩ := exists_of_bind hamended
  exact ⟨o, mem_of_find hfind, requireWorking_ok hworking, hid⟩

variable [DecimalContext] {tick : Tick}

/-- A tick moves orders that are working. -/
theorem visit_working {budget budget' : Option ℤ} (h : visit P tick now budget o = .ok (o', budget', some e)) :
    o.isWorking := by
  unfold visit at h
  split at h
  · cases h
  · rename_i heligible
    exact (not_not.mp heligible).1

theorem matchAll_working {budget : Option ℤ}
    (h : matchAll P tick now budget orders = (orders', .ok events)) :
    ∀ e ∈ events, ∃ o ∈ orders, o.isWorking ∧ e.order.brokerOrderId = o.id := by
  induction orders generalizing budget orders' events with
  | nil =>
      obtain ⟨rfl, hnone⟩ := Prod.mk.inj h
      obtain rfl := Except.ok.inj hnone
      simp
  | cons o rest ih =>
      obtain ⟨o', left, made, rest', later, hvisit, hrest, rfl, rfl⟩ := matchAll_cons_ok h
      intro e he
      rcases List.mem_append.mp he with he | he
      · obtain rfl := Option.mem_toList.mp he
        rcases visit_reports hvisit with ⟨-, hnone⟩ | ⟨e, hmade, hreports⟩
        · cases hnone
        · obtain rfl := Option.some.inj hmade
          exact ⟨o, List.mem_cons_self .., visit_working hvisit, id_of_reports hreports⟩
      · obtain ⟨p, hp, hspec⟩ := ih hrest e he
        exact ⟨p, List.mem_cons_of_mem _ hp, hspec⟩

theorem working_of_onTick (h : x.onTick P tick now = (x', .ok events)) :
    ∀ e ∈ events, ∃ o ∈ x.orders, o.isWorking ∧ e.order.brokerOrderId = o.id := by
  rcases onTick_ok h with ⟨-, -, rfl⟩ | ⟨-, hmatch⟩
  · simp
  · exact matchAll_working hmatch

/-! ## Every step is proper -/

variable (P) in
omit [DecimalContext] in
/-- A command on an order of the book. -/
theorem proper_of_settle {call : ExchangeCall} {result : Except PyError (SimulatedExchange × ExchangeEvent)}
    (hsound : ∀ o ∈ x.orders, o.Sound) (hnd : (x.orders.map (·.id)).Nodup)
    (hrestart : ¬ ExchangeStep.IsRestart ⟨x, call, x.settle result⟩)
    (hchange : ∀ x' e, result = .ok (x', e) → BookChange none x x')
    (hsweep : ∀ x' e, result = .ok (x', e) → Sweep now x.orders x'.orders [e])
    (hworking : ∀ x' e, result = .ok (x', e) →
      ∃ o ∈ x.orders, o.isWorking ∧ e.order.brokerOrderId = o.id) :
    Proper P ⟨x, call, x.settle result⟩ := by
  cases hresult : result with
  | error error =>
      have hkept : Sweep now x.orders x.orders [] := .refl _
      refine Sweep.proper hkept hnd hsound (fun e he => ?_) (hresult ▸ hrestart)
      simp [ExchangeStep.events, settle] at he
  | ok moved =>
      obtain ⟨x', e⟩ := moved
      have hcarried := (hchange x' e hresult).carried hnd fun u hu => by cases hu
      refine (hsweep x' e hresult).proper hnd (fun o' ho' => ?_) ?_ (hresult ▸ hrestart)
      · rcases hcarried.from_old o' ho' with ⟨o, ho, -, -, hkeeps⟩ | ⟨u, hu, -⟩
        · exact hkeeps (hsound o ho)
        · cases hu
      · intro e' he' o ho hid
        obtain rfl := List.mem_singleton.mp he'
        obtain ⟨p, hp, hpworking, hpid⟩ := hworking x' e' hresult
        exact Table.eq_of_key hnd ho hp (hid.symm.trans hpid) ▸ hpworking

variable (P) in
omit [DecimalContext] in
theorem submit_opened (x : SimulatedExchange) (request : PlaceOrderRequest) (ulid : String)
    (now : Timestamp) (rejectReason : Option String) :
    ∃ o e, x.submit P request ulid now rejectReason = (x.put o, e) ∧ o.id = "PAPER" ++ ulid ∧ o.Sound ∧
      o.seq = 1 ∧ o.trades = 0 ∧ o.liveFrom = now + P.latency ∧ e.order = o.order ∧ e.seq = 1 ∧
      e.trade = none := by
  cases rejectReason with
  | none => exact ⟨_, _, rfl, rfl, ⟨rfl, Nat.zero_le _⟩, rfl, rfl, rfl, rfl, rfl, rfl⟩
  | some reason => exact ⟨_, _, rfl, rfl, ⟨rfl, Nat.zero_le _⟩, rfl, rfl, rfl, rfl, rfl, rfl⟩

variable (P) in
/-- A new order is behind the others. -/
theorem proper_of_submit (request : PlaceOrderRequest) (ulid : String) (rejectReason : Option String)
    (hsound : ∀ o ∈ x.orders, o.Sound) (hnd : (x.orders.map (·.id)).Nodup) :
    Proper P ⟨x, .submit request ulid now rejectReason,
      x.call P (.submit request ulid now rejectReason)⟩ := by
  obtain ⟨o, e, hsubmit, hid, hopened, hseq, htrades, hlive, horder, hone, hnone⟩ :=
    submit_opened P x request ulid now rejectReason
  have hcall : x.call P (.submit request ulid now rejectReason) = ⟨x.put o, [e], none⟩ := by
    simp only [SimulatedExchange.call, hsubmit, settle]
  have heid : e.order.brokerOrderId = o.id := congrArg (·.brokerOrderId) horder
  rw [hcall]
  refine ⟨fun p hp => ?_, Table.nodup_upsert hnd, fun p hp => ?_, fun e' he' => ?_⟩
  · rcases Table.mem_upsert.mp hp with rfl | ⟨hp, -⟩
    · exact hopened
    · exact hsound p hp
  · rcases Table.mem_upsert.mp hp with rfl | ⟨hp, hne⟩
    · exact .opened rfl hid hseq htrades ⟨hid, hlive⟩ (ExchangeEvent.ofOrder_cons_of_eq heid) hone hnone
    · refine .kept hp rfl rfl rfl rfl ?_ (.inl ⟨?_, rfl⟩)
      · exact ExchangeEvent.ofOrder_cons_of_ne fun h => hne (h.symm.trans heid)
      · rintro ⟨items, now, h⟩
        cases h
  · obtain rfl := List.mem_singleton.mp he'
    exact List.mem_map.mpr ⟨o, Table.mem_upsert_self, heid.symm⟩

omit [DecimalContext] in
/-- Orders put back, each once, are on a book of their own. -/
theorem restore_orders {items : List RestoredOrder} (now : Timestamp)
    (hnd : (items.map (·.order.brokerOrderId)).Nodup) :
    ∃ x', empty.restore items now = .ok x' ∧
      x'.orders = items.map fun item => ⟨item.order, item.seq, now, item.trades⟩ := by
  refine ⟨_, rfl, ?_⟩
  have hkeys : (([] ++ items.map fun item : RestoredOrder =>
      (⟨item.order, item.seq, now, item.trades⟩ : SimulatedOrder)).map SimulatedOrder.id).Nodup := by
    rw [List.nil_append, List.map_map]
    exact hnd
  have hall := Table.foldl_upsert_of_nodup hkeys
  rwa [List.foldl_map] at hall

omit [DecimalContext] in
/-- An item of an order is sound with it. -/
theorem sound_of_isOf {item : RestoredOrder} (h : item.IsOf o) (hsound : o.Sound) :
    SimulatedOrder.Sound ⟨item.order, item.seq, now, item.trades⟩ := by
  obtain ⟨-, -, horder⟩ := h
  refine ⟨?_, ?_⟩
  · have := hsound.priced
    rwa [← horder] at this
  · have := hsound.filled_le
    rwa [← horder] at this

variable (P) in
theorem proper_of_restart {items : List RestoredOrder} (hsound : ∀ o ∈ x.orders, o.Sound)
    (hback : ExchangeStep.PutsBack ⟨x, .restart items now, x.call P (.restart items now)⟩) :
    Proper P ⟨x, .restart items now, x.call P (.restart items now)⟩ := by
  obtain ⟨hnd, hof⟩ := hback
  obtain ⟨x', hrestore, horders⟩ := restore_orders now hnd
  have hcall : x.call P (.restart items now) = ⟨x', [], none⟩ := by
    simp only [SimulatedExchange.call, hrestore]
  have hitem {p : SimulatedOrder} (hp : p ∈ x'.orders) :
      ∃ item ∈ items, ∃ o ∈ x.orders, item.IsOf o ∧ p = ⟨item.order, item.seq, now, item.trades⟩ := by
    rw [horders] at hp
    obtain ⟨item, hmem, rfl⟩ := List.mem_map.mp hp
    obtain ⟨o, ho, his⟩ := hof item hmem
    exact ⟨item, hmem, o, ho, his, rfl⟩
  rw [hcall]
  refine ⟨fun p hp => ?_, ?_, fun p hp => ?_, fun e he => by cases he⟩
  · obtain ⟨item, -, o, ho, his, rfl⟩ := hitem hp
    exact sound_of_isOf his (hsound o ho)
  · change (x'.orders.map _).Nodup
    rw [horders, List.map_map]
    exact hnd
  · obtain ⟨item, hmem, o, ho, his, rfl⟩ := hitem hp
    have hid : item.order.brokerOrderId = o.id := congrArg (·.brokerOrderId) his.2.2
    have hstatus : item.order.status = o.order.status := congrArg (·.status) his.2.2
    exact .kept ho hid his.1 his.2.1 hstatus rfl (.inr ⟨rfl, item, hmem, hid⟩)

/-- **Every step is proper.** -/
theorem proper_of_call (call : ExchangeCall) (hsound : ∀ o ∈ x.orders, o.Sound)
    (hnd : (x.orders.map (·.id)).Nodup)
    (hback : ExchangeStep.PutsBack ⟨x, call, x.call P call⟩) : Proper P ⟨x, call, x.call P call⟩ := by
  cases call with
  | submit request ulid now rejectReason =>
      exact proper_of_submit P request ulid rejectReason hsound hnd
  | cancel orderId now =>
      refine proper_of_settle P hsound hnd ?_ (fun _ _ h => (cancel_change h).1)
        (fun _ _ h => sweep_cancel hnd h) fun _ _ h => working_of_cancel h
      rintro ⟨items, now, h⟩
      cases h
  | amend orderId now quantity price triggerPrice =>
      refine proper_of_settle P hsound hnd ?_ (fun _ _ h => (amend_change h).1)
        (fun _ _ h => sweep_amend hnd h) fun _ _ h => working_of_amend h
      rintro ⟨items, now, h⟩
      cases h
  | onTick tick now =>
      obtain ⟨x', events, hon, hticked⟩ := onTick_ticked P tick now hsound hnd
      have hcall : x.call P (.onTick tick now) = ⟨x', events, none⟩ := by
        simp only [SimulatedExchange.call, hon]
      rw [hcall]
      refine (onTick_sweep hon).proper hnd hticked.sound ?_ ?_
      · intro e he o ho hid
        obtain ⟨p, hp, hworking, hpid⟩ := working_of_onTick hon e he
        exact Table.eq_of_key hnd ho hp (hid.symm.trans hpid) ▸ hworking
      · rintro ⟨items, now, h⟩
        cases h
  | restart items now => exact proper_of_restart P hsound hback

end SimulatedExchange

end Emporos
