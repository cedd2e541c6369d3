import Emporos.Core.Text
import Emporos.Paper.Conduct
/-!
# What a run of the exchange has registered

`Enrolled` is kept by every step: the events so far number the orders and
their trades, an order that was over stays over, and each order of the book
is live from a moment that a submission or the last restart gave it.
-/

namespace Emporos

/-! ## The numbers of an order -/

/-- An order's events so far are numbered to `seq`, and its trades to
`trades`. -/
structure ExchangeEvent.Recorded (events : List ExchangeEvent) (orderId : String) (seq trades : ℕ) :
    Prop where
  seqs : (ofOrder orderId events).map (·.seq) = List.range' 1 seq
  trade_ids : ((ofOrder orderId events).filterMap (·.trade)).map (·.tradeId) =
    (List.range trades).map fun n => s!"{orderId}-{n + 1}"

namespace ExchangeEvent

variable {events later : List ExchangeEvent} {orderId : String} {seq trades : ℕ} {e : ExchangeEvent}

theorem recorded_nil (h : ofOrder orderId events = []) : Recorded events orderId 0 0 :=
  ⟨by rw [h]; rfl, by rw [h]; rfl⟩

theorem Recorded.append (h : Recorded events orderId seq trades) (hnone : ofOrder orderId later = []) :
    Recorded (events ++ later) orderId seq trades := by
  refine ⟨?_, ?_⟩ <;> rw [ofOrder_append, hnone, List.append_nil]
  · exact h.seqs
  · exact h.trade_ids

/-- The next event of an order. -/
theorem Recorded.next {o o' : SimulatedOrder} {now : Timestamp} (h : Recorded events o.id o.seq o.trades)
    (hreports : o.Reports o' now e) (hone : ofOrder o.id later = [e]) :
    Recorded (events ++ later) o'.id o'.seq o'.trades := by
  have hseq : e.seq = 1 + o.seq := by
    rw [hreports.seq_eq, hreports.next, Nat.add_comm]
  rw [hreports.id_eq]
  refine ⟨?_, ?_⟩
  · rw [ofOrder_append, hone, List.map_append, h.seqs, hreports.next, List.range'_concat, mul_comm]
    simp [hseq]
  · rw [ofOrder_append, hone, List.filterMap_append, List.map_append, h.trade_ids]
    cases htrade : e.trade with
    | none => simp [hreports.untraded htrade, htrade]
    | some t =>
        obtain ⟨hcount, hid, -⟩ := hreports.traded t htrade
        rw [hcount, List.range_succ, List.map_append, List.filterMap_cons_some htrade]
        simp [hid]

/-- The first event of an order. -/
theorem recorded_first (hnone : ofOrder orderId events = []) (hone : ofOrder orderId later = [e])
    (hseq : e.seq = 1) (htrade : e.trade = none) : Recorded (events ++ later) orderId 1 0 := by
  refine ⟨?_, ?_⟩ <;> rw [ofOrder_append, hnone, hone]
  · simp [hseq]
  · simp [htrade]

end ExchangeEvent

/-! ## The invariant -/

/-- The ids the submissions of the steps took. -/
def Minted (steps : List ExchangeStep) (orderId : String) : Prop :=
  ∃ u ∈ steps.filterMap (·.call.ulid), orderId = "PAPER" ++ u

/-- The order entered with the moment it is live from, and no restart came
after. -/
def LiveSince (P : ExchangePolicies) (steps : List ExchangeStep) (orderId : String) (live : Timestamp) :
    Prop :=
  ∃ first entry rest, steps = first ++ entry :: rest ∧ entry.Enters P orderId live ∧
    ∀ s ∈ rest, ¬ s.IsRestart

structure Enrolled (P : ExchangePolicies) (steps : List ExchangeStep) (x : SimulatedExchange) :
    Prop where
  sound : ∀ o ∈ x.orders, o.Sound
  nodup : (x.orders.map (·.id)).Nodup
  recorded : ∀ o ∈ x.orders, ExchangeEvent.Recorded (eventsOf steps) o.id o.seq o.trades
  numbered : ∀ orderId, ∃ seq trades, ExchangeEvent.Recorded (eventsOf steps) orderId seq trades
  live : ∀ o ∈ x.orders, LiveSince P steps o.id o.liveFrom
  minted : ∀ o ∈ x.orders, Minted steps o.id
  known : ∀ s ∈ steps, (∀ o ∈ s.after.orders, Minted steps o.id) ∧
    ∀ e ∈ s.events, Minted steps e.order.brokerOrderId
  closed : ∀ s ∈ steps, ∀ o ∈ s.after.orders, o.order.status.IsTerminal →
    ∀ o' ∈ x.orders, o'.id = o.id → o'.order.status = o.order.status

namespace Enrolled

variable {P : ExchangePolicies} {steps : List ExchangeStep} {step : ExchangeStep} {x : SimulatedExchange}
  {o o' : SimulatedOrder} {orderId : String} {moment : Timestamp}

theorem eventsOf_concat : eventsOf (steps ++ [step]) = eventsOf steps ++ step.events := by
  simp [eventsOf]

theorem minted_concat (h : Minted steps orderId) : Minted (steps ++ [step]) orderId := by
  obtain ⟨u, hu, rfl⟩ := h
  exact ⟨u, by rw [List.filterMap_append]; exact List.mem_append_left _ hu, rfl⟩

theorem minted_of_ulid {u : String} (h : step.call.ulid = some u) :
    Minted (steps ++ [step]) ("PAPER" ++ u) := by
  refine ⟨u, ?_, rfl⟩
  rw [List.filterMap_append]
  exact List.mem_append_right _ (by simp [h])

theorem liveSince_concat (h : LiveSince P steps orderId moment) (hrestart : ¬ step.IsRestart) :
    LiveSince P (steps ++ [step]) orderId moment := by
  obtain ⟨first, entry, rest, rfl, henters, hrest⟩ := h
  refine ⟨first, entry, rest ++ [step], by simp, henters, fun s hs => ?_⟩
  rcases List.mem_append.mp hs with hs | hs
  · exact hrest s hs
  · exact List.mem_singleton.mp hs ▸ hrestart

theorem liveSince_of_enters (h : step.Enters P orderId moment) :
    LiveSince P (steps ++ [step]) orderId moment :=
  ⟨steps, step, [], rfl, h, by simp⟩

/-- An order of another id has no events. -/
theorem ofOrder_eq_nil (h : Enrolled P steps x) (hnew : ¬ Minted steps orderId) :
    ExchangeEvent.ofOrder orderId (eventsOf steps) = [] := by
  refine ExchangeEvent.ofOrder_eq_nil.mpr fun e he hid => hnew ?_
  obtain ⟨s, hs, he⟩ := List.mem_flatMap.mp he
  exact hid ▸ (h.known s hs).2 e he

theorem not_working_of_terminal (h : o.order.status.IsTerminal) : ¬ o.isWorking := by
  unfold SimulatedOrder.isWorking
  cases hstatus : o.order.status <;> simp_all [BrokerOrderStatus.IsTerminal]

theorem initial : Enrolled P [] .empty where
  sound := by simp [SimulatedExchange.empty]
  nodup := by simp [SimulatedExchange.empty]
  recorded := by simp [SimulatedExchange.empty]
  numbered := fun _ => ⟨0, 0, ExchangeEvent.recorded_nil rfl⟩
  live := by simp [SimulatedExchange.empty]
  minted := by simp [SimulatedExchange.empty]
  known := by simp
  closed := by simp

section Step

variable (h : Enrolled P steps step.before) (hp : Proper P step)
  (hfresh : ∀ u, step.call.ulid = some u → ¬ Minted steps ("PAPER" ++ u))

include h hfresh in
theorem recorded_of_fate (hfate : Fate P step o') :
    ExchangeEvent.Recorded (eventsOf (steps ++ [step])) o'.id o'.seq o'.trades := by
  rw [eventsOf_concat]
  cases hfate with
  | kept ho hid hseq htrades _ hnone _ =>
      rw [hid, hseq, htrades]
      exact (h.recorded _ ho).append hnone
  | moved ho _ _ hreports hone => exact (h.recorded _ ho).next hreports hone
  | opened hulid hid hseq htrades _ hone hfirst hnone =>
      have hnew : ExchangeEvent.ofOrder o'.id (eventsOf steps) = [] :=
        h.ofOrder_eq_nil (hid ▸ hfresh _ hulid)
      rw [hseq, htrades]
      exact ExchangeEvent.recorded_first hnew hone hfirst hnone

include h in
theorem live_of_fate (hfate : Fate P step o') : LiveSince P (steps ++ [step]) o'.id o'.liveFrom := by
  cases hfate with
  | kept ho hid _ _ _ _ hlive =>
      rcases hlive with ⟨hrestart, hlive⟩ | henters
      · rw [hid, hlive]
        exact liveSince_concat (h.live _ ho) hrestart
      · exact hid ▸ liveSince_of_enters henters
  | moved ho hrestart _ hreports _ =>
      rw [hreports.id_eq, hreports.live_eq]
      exact liveSince_concat (h.live _ ho) hrestart
  | opened _ _ _ _ henters _ _ _ => exact liveSince_of_enters henters

include h in
theorem minted_of_fate (hfate : Fate P step o') : Minted (steps ++ [step]) o'.id := by
  cases hfate with
  | kept ho hid _ _ _ _ _ => exact hid ▸ minted_concat (h.minted _ ho)
  | moved ho _ _ hreports _ => exact hreports.id_eq ▸ minted_concat (h.minted _ ho)
  | opened hulid hid _ _ _ _ _ _ => exact hid ▸ minted_of_ulid hulid

include h hfresh in
/-- **What was over stays over**, and has no event of the step. -/
theorem closed_of_fate (hfate : Fate P step o') {s : ExchangeStep} (hs : s ∈ steps)
    (ho : o ∈ s.after.orders) (hterminal : o.order.status.IsTerminal) (hid : o'.id = o.id) :
    o'.order.status = o.order.status ∧ ExchangeEvent.ofOrder o.id step.events = [] := by
  cases hfate with
  | @kept p hp hpid _ _ hstatus hnone _ =>
      have hsame : p.id = o.id := hpid.symm.trans hid
      exact ⟨hstatus.trans (h.closed s hs o ho hterminal p hp hsame), hsame ▸ hnone⟩
  | @moved p e now hp _ hworking hreports _ =>
      have hstatus := h.closed s hs o ho hterminal p hp (hreports.id_eq.symm.trans hid)
      exact absurd hworking (not_working_of_terminal (hstatus ▸ hterminal))
  | opened hulid hnew _ _ _ _ _ _ =>
      refine absurd ((h.known s hs).1 o ho) ?_
      rw [← hid, hnew]
      exact hfresh _ hulid

include h hp hfresh in
/-- **One step.** -/
theorem advance : Enrolled P (steps ++ [step]) step.after where
  sound := hp.sound
  nodup := hp.nodup
  recorded := fun o ho => h.recorded_of_fate hfresh (hp.fate o ho)
  numbered := by
    intro orderId
    by_cases hid : orderId ∈ step.after.orders.map (·.id)
    · obtain ⟨o, ho, rfl⟩ := List.mem_map.mp hid
      exact ⟨o.seq, o.trades, h.recorded_of_fate hfresh (hp.fate o ho)⟩
    · obtain ⟨seq, trades, hrecorded⟩ := h.numbered orderId
      rw [eventsOf_concat]
      refine ⟨seq, trades, hrecorded.append (ExchangeEvent.ofOrder_eq_nil.2 fun e he heid => hid ?_)⟩
      exact heid ▸ hp.known e he
  live := fun o ho => h.live_of_fate (hp.fate o ho)
  minted := fun o ho => h.minted_of_fate (hp.fate o ho)
  known := by
    intro s hs
    rcases List.mem_append.mp hs with hs | hs
    · obtain ⟨horders, hevents⟩ := h.known s hs
      exact ⟨fun o ho => minted_concat (horders o ho), fun e he => minted_concat (hevents e he)⟩
    · obtain rfl := List.mem_singleton.mp hs
      refine ⟨fun o ho => h.minted_of_fate (hp.fate o ho), fun e he => ?_⟩
      obtain ⟨o, ho, hid⟩ := List.mem_map.mp (hp.known e he)
      exact hid ▸ h.minted_of_fate (hp.fate o ho)
  closed := by
    intro s hs o ho hterminal o' ho' hid
    rcases List.mem_append.mp hs with hs | hs
    · exact (h.closed_of_fate hfresh (hp.fate o' ho') hs ho hterminal hid).1
    · obtain rfl := List.mem_singleton.mp hs
      rw [Table.eq_of_key hp.nodup ho' ho hid]

end Step

end Enrolled

namespace SimulatedExchange

variable [DecimalContext] {P : ExchangePolicies} {x x' : SimulatedExchange} {tick : Tick} {now : Timestamp}
  {calls : List ExchangeCall} {earlier later steps : List ExchangeStep} {step : ExchangeStep}
  {o : SimulatedOrder} {t : BrokerTrade}

/-! ## One tick -/

/-- A tick trades within its budget. -/
theorem onTick_spent {events : List ExchangeEvent} {left : ℤ} (hsound : ∀ o ∈ x.orders, o.Sound)
    (hon : x.onTick P tick now = (x', .ok events))
    (hbudget : P.budget (x.tape.sincePrevious tick).2 = some left) (hleft : 0 ≤ left) :
    (((events.filterMap (·.trade)).map (·.quantity)).sum : ℤ) ≤ left := by
  rcases onTick_ok hon with ⟨-, -, rfl⟩ | ⟨-, hmatch⟩
  · simpa using hleft
  · obtain ⟨orders', events', hmatch', hturns⟩ := matchAll_turns P tick now
      (P.budget (x.tape.sincePrevious tick).2) hsound
    rw [hmatch] at hmatch'
    obtain rfl := Except.ok.inj (Prod.mk.inj hmatch').2
    exact hturns.spent hbudget hleft

/-- Only a tick that is in order trades. -/
theorem ticks_of_trades (hsound : ∀ o ∈ x.orders, o.Sound) (hnd : (x.orders.map (·.id)).Nodup)
    {call : ExchangeCall} (h : ExchangeStep.trades ⟨x, call, x.call P call⟩ ≠ []) :
    ∃ tick now, call = .onTick tick now ∧ tick.outOfOrder = false := by
  have hsettled {result : Except PyError (SimulatedExchange × ExchangeEvent)}
      (hnone : ∀ x' e, result = .ok (x', e) → e.trade = none) :
      (x.settle result).events.filterMap (·.trade) = [] := by
    cases hresult : result with
    | error error => rfl
    | ok moved => simp [settle, hnone moved.1 moved.2 hresult]
  cases call with
  | submit request ulid now rejectReason =>
      refine absurd (hsettled fun x' e hresult => ?_) h
      obtain rfl := congrArg Prod.snd (Except.ok.inj hresult)
      exact (submit_change x P request ulid now rejectReason).2
  | cancel orderId now => exact absurd (hsettled fun x' e hresult => (cancel_change hresult).2) h
  | amend orderId now quantity price triggerPrice =>
      exact absurd (hsettled fun x' e hresult => (amend_change hresult).2) h
  | onTick tick now =>
      obtain ⟨x', events, hon, hticked⟩ := onTick_ticked P tick now hsound hnd
      have htrades : ExchangeStep.trades ⟨x, .onTick tick now, x.call P (.onTick tick now)⟩ =
          events.filterMap (·.trade) := by
        simp only [ExchangeStep.trades, ExchangeStep.events, SimulatedExchange.call, hon]
      rw [htrades] at h
      obtain ⟨t, ht⟩ := List.exists_mem_of_ne_nil _ h
      exact ⟨tick, now, rfl, ((hticked.mem_trades t).mp ht).1⟩
  | restart items now =>
      refine absurd ?_ h
      simp only [ExchangeStep.trades, ExchangeStep.events, SimulatedExchange.call]
      split <;> rfl

/-! ## Runs -/

variable (P) in
/-- The steps so far, and the exchange after them, of a run of new ids that
restarts with its own orders. -/
def Held (steps : List ExchangeStep) (x : SimulatedExchange) : Prop :=
  (steps.filterMap (·.call.ulid)).Nodup → (∀ step ∈ steps, step.PutsBack) → Enrolled P steps x

omit [DecimalContext] in
theorem not_minted {u : String} (hids : ((steps ++ [step]).filterMap (·.call.ulid)).Nodup)
    (hu : step.call.ulid = some u) : ¬ Minted steps ("PAPER" ++ u) := by
  rintro ⟨v, hv, hsame⟩
  obtain rfl := (String.append_right_inj "PAPER").mp hsame
  rw [List.filterMap_append, List.nodup_append] at hids
  exact hids.2.2 u hv u (by simp [hu]) rfl

variable (P) in
theorem Held.next (h : Held P steps x) (call : ExchangeCall) :
    Held P (steps ++ [⟨x, call, x.call P call⟩]) (x.call P call).exchange := by
  intro hids hback
  have hprefix : (steps.filterMap (·.call.ulid)).Nodup := by
    rw [List.filterMap_append] at hids
    exact (List.nodup_append.mp hids).1
  have hregistered := h hprefix fun s hs => hback s (List.mem_append_left _ hs)
  have hproper := proper_of_call call hregistered.sound hregistered.nodup
    (hback ⟨x, call, x.call P call⟩ (by simp))
  exact Enrolled.advance hregistered hproper fun u hu => not_minted hids hu

/-- What holds at a step of a run. -/
structure Reached (P : ExchangePolicies) (earlier : List ExchangeStep) (step : ExchangeStep) : Prop where
  outcome_eq : step.outcome = step.before.call P step.call
  registered : Enrolled P earlier step.before
  proper : Proper P step
  fresh : ∀ u, step.call.ulid = some u → ¬ Minted earlier ("PAPER" ++ u)

theorem reached (hids : (calls.filterMap ExchangeCall.ulid).Nodup)
    (hback : ∀ step ∈ trace P empty calls, step.PutsBack)
    (hsplit : trace P empty calls = earlier ++ step :: later) : Reached P earlier step := by
  have hstart : Held P [] empty := fun _ _ => Enrolled.initial
  obtain ⟨x, call, rest, hheld, rfl, -⟩ :=
    Recording.steps_split hstart (fun _ _ call h => h.next P call) hsplit
  rw [List.nil_append] at hheld
  have hcalls : (trace P empty calls).map (·.call) = calls := Recording.map_steps fun _ _ => rfl
  have hulids : ((trace P empty calls).filterMap (·.call.ulid)).Nodup := by
    rw [← hcalls, List.filterMap_map] at hids
    exact hids
  rw [hsplit] at hulids hback
  have hsub : List.Sublist (earlier ++ [⟨x, call, x.call P call⟩])
      (earlier ++ ⟨x, call, x.call P call⟩ :: later) :=
    (List.singleton_sublist.mpr (List.mem_cons_self ..)).append_left earlier
  have hupto := hulids.sublist (hsub.filterMap _)
  have hregistered : Enrolled P earlier x := by
    refine hheld ?_ fun s hs => hback s (List.mem_append_left _ hs)
    rw [List.filterMap_append] at hupto
    exact (List.nodup_append.mp hupto).1
  refine ⟨rfl, hregistered, ?_, fun u hu => not_minted hupto hu⟩
  exact proper_of_call call hregistered.sound hregistered.nodup (hback _ (by simp))

theorem registered_end (hids : (calls.filterMap ExchangeCall.ulid).Nodup)
    (hback : ∀ step ∈ trace P empty calls, step.PutsBack) :
    ∃ x, Enrolled P (trace P empty calls) x := by
  have hcalls : (trace P empty calls).map (·.call) = calls := Recording.map_steps fun _ _ => rfl
  have hstart : Held P [] empty := fun _ _ => Enrolled.initial
  have hend : ∃ x, Held P ([] ++ trace P empty calls) x :=
    Recording.steps_end hstart fun _ _ call h => h.next P call
  obtain ⟨x, hheld⟩ := hend
  refine ⟨x, hheld ?_ hback⟩
  rw [← hcalls, List.filterMap_map] at hids
  exact hids

/-- What a tick comes to. -/
theorem Reached.onTick (h : Reached P earlier step) (hcall : step.call = .onTick tick now) :
    ∃ x' events, step.before.onTick P tick now = (x', .ok events) ∧
      step.trades = events.filterMap (·.trade) ∧
      Ticked P tick now step.before x' (events.filterMap (·.trade)) := by
  obtain ⟨x', events, hon, hticked⟩ :=
    onTick_ticked P tick now h.registered.sound h.registered.nodup
  refine ⟨x', events, hon, ?_, hticked⟩
  rw [ExchangeStep.trades, ExchangeStep.events, h.outcome_eq, hcall]
  simp only [SimulatedExchange.call, hon]

/-- An order that is over, later in a run. -/
theorem Reached.terminal (h : Reached P earlier step) {s : ExchangeStep} (hs : s ∈ earlier)
    (ho : o ∈ s.after.orders) (hterminal : o.order.status.IsTerminal) :
    (∀ e ∈ step.events, e.order.brokerOrderId ≠ o.id) ∧
      ∀ o' ∈ step.after.orders, o'.id = o.id → o'.order.status = o.order.status := by
  have hclosed {o' : SimulatedOrder} (ho' : o' ∈ step.after.orders) (hid : o'.id = o.id) :=
    h.registered.closed_of_fate h.fresh (h.proper.fate o' ho') hs ho hterminal hid
  refine ⟨fun e he hid => ?_, fun o' ho' hid => (hclosed ho' hid).1⟩
  obtain ⟨o', ho', hid'⟩ := List.mem_map.mp (h.proper.known e he)
  exact ExchangeEvent.ofOrder_eq_nil.1 (hclosed ho' (hid'.trans hid)).2 e he hid

omit [DecimalContext] in
/-- **No trade id comes twice.** -/
theorem trade_ids_nodup (h : Enrolled P steps x) :
    (((eventsOf steps).filterMap (·.trade)).map (·.tradeId)).Nodup := by
  have hnamed : ∀ e ∈ eventsOf steps, ∀ t, e.trade = some t →
      ∃ n : ℕ, t.tradeId = s!"{e.order.brokerOrderId}-{n}" := by
    intro e he t ht
    obtain ⟨seq, trades, hrecorded⟩ := h.numbered e.order.brokerOrderId
    have hmem : t.tradeId ∈ ((ExchangeEvent.ofOrder e.order.brokerOrderId (eventsOf steps)).filterMap
        (·.trade)).map (·.tradeId) :=
      List.mem_map_of_mem (List.mem_filterMap.mpr ⟨e, List.mem_filter.mpr ⟨he, by simp⟩, ht⟩)
    rw [hrecorded.trade_ids] at hmem
    obtain ⟨n, -, hn⟩ := List.mem_map.mp hmem
    exact ⟨n + 1, hn.symm⟩
  rw [List.Nodup, List.pairwise_map, List.pairwise_filterMap]
  refine @Table.pairwise_of_key _ _ _ (fun e : ExchangeEvent => e.order.brokerOrderId) _ _
    (fun orderId => ?_) ?_
  · obtain ⟨seq, trades, hrecorded⟩ := h.numbered orderId
    have hnd : (((ExchangeEvent.ofOrder orderId (eventsOf steps)).filterMap (·.trade)).map
        (·.tradeId)).Nodup := by
      rw [hrecorded.trade_ids]
      refine List.nodup_range.map fun m n hmn => ?_
      have := (Text.numbered_inj hmn).2
      omega
    rwa [List.Nodup, List.pairwise_map, List.pairwise_filterMap] at hnd
  · intro e he f hf hne t ht u hu hsame
    obtain ⟨m, hm⟩ := hnamed e he t ht
    obtain ⟨n, hn⟩ := hnamed f hf u hu
    exact hne (Text.numbered_inj (hm.symm.trans (hsame.trans hn))).1

end SimulatedExchange

namespace FillPolicies

variable [DecimalContext] [Decimal.Lawful] [Decimal.Positive] {policies : FillPolicies} {tick : Tick}
  {now : Timestamp} {o : SimulatedOrder}

/-- An offer is made to an order that is live and not waiting, at a price no
worse than its limit. -/
theorem offer_within {price : Money} (h : o.offer policies.exchange tick = some price) :
    SimulatedExchange.Eligible tick o ∧ ¬ o.awaitingTrigger ∧
      ∃ limit, o.order.price = some limit ∧ o.order.side.Within limit price := by
  unfold SimulatedOrder.offer at h
  split at h
  · rename_i hopen
    refine ⟨hopen.1, hopen.2, ?_⟩
    cases hlimit : o.order.price with
    | none => simp [SimulatedOrder.view, hlimit, Except.toOption] at h
    | some limit =>
        refine ⟨limit, rfl, ?_⟩
        simp only [SimulatedOrder.view, hlimit, Except.toOption, Option.bind_some, exchange,
          Paper.limitFill] at h
        split at h
        · obtain rfl := Option.some.inj h
          exact policies.pricing.within ⟨o.order.side, limit, o.remaining, o.order.triggerPrice⟩ tick.ltp
        · cases h
  · cases h

end FillPolicies

namespace SimulatedExchange

variable [DecimalContext] [Decimal.Lawful] [Decimal.Positive]

/-- **The exchange is disciplined.** Every run of submissions, cancellations,
amendments, ticks and restarts, with any policies there are. -/
theorem conducted (policies : FillPolicies) (calls : List ExchangeCall)
    (hids : (calls.filterMap ExchangeCall.ulid).Nodup)
    (hback : ∀ step ∈ trace policies.exchange empty calls, step.PutsBack) :
    Conducted policies.exchange (trace policies.exchange empty calls) := by
  have hreached {earlier later : List ExchangeStep} {step : ExchangeStep}
      (hsplit : trace policies.exchange empty calls = earlier ++ step :: later) :=
    reached hids hback hsplit
  have hmem {step : ExchangeStep} (hstep : step ∈ trace policies.exchange empty calls) :
      ∃ earlier, Reached policies.exchange earlier step := by
    obtain ⟨earlier, later, hsplit⟩ := List.append_of_mem hstep
    exact ⟨earlier, hreached hsplit⟩
  obtain ⟨x, hend⟩ := registered_end hids hback
  refine ⟨?_, ?_, ?_, ?_, ?_, ?_, ?_, trade_ids_nodup hend⟩
  · intro step hstep htrades
    obtain ⟨earlier, h⟩ := hmem hstep
    refine ticks_of_trades (P := policies.exchange) h.registered.sound h.registered.nodup ?_
    rwa [← h.outcome_eq]
  · intro earlier step later tick now hsplit hcall t ht
    have h := hreached hsplit
    obtain ⟨x', events, -, htrades, hticked⟩ := h.onTick hcall
    rw [htrades] at ht
    obtain ⟨-, ahead, o, behind, price, quantity, hpos, horders, hoffer, hquantity, rfl⟩ :=
      (hticked.mem_trades t).mp ht
    have ho : o ∈ step.before.orders := horders ▸ List.mem_append_right _ (List.mem_cons_self ..)
    obtain ⟨heligible, hwaits, hlimit⟩ := FillPolicies.offer_within hoffer
    obtain ⟨first, entry, rest, rfl, henters, hrest⟩ := h.registered.live o ho
    refine ⟨o, ho, rfl, hwaits, ?_, hlimit, first, entry, rest, o.liveFrom, rfl, henters, hrest,
      heligible.2.2⟩
    exact hquantity.trans_le (share_le _ _)
  · intro step hstep tick now hcall left hbudget
    obtain ⟨earlier, h⟩ := hmem hstep
    obtain ⟨x', events, hon, htrades, -⟩ := h.onTick hcall
    rw [htrades]
    exact onTick_spent h.registered.sound hon hbudget (policies.liquidity.budget_nonneg _ hbudget)
  · intro step hstep tick now hcall t
    obtain ⟨earlier, h⟩ := hmem hstep
    obtain ⟨x', events, -, htrades, hticked⟩ := h.onTick hcall
    rw [htrades]
    exact hticked.mem_trades t
  · intro step hstep o ho
    obtain ⟨earlier, h⟩ := hmem hstep
    exact (h.proper.sound o ho).filled_le
  · intro orderId
    obtain ⟨seq, trades, hrecorded⟩ := hend.numbered orderId
    have hlength := congrArg List.length hrecorded.seqs
    rw [List.length_map, List.length_range'] at hlength
    rw [hrecorded.seqs, hlength]
  · intro earlier step later hsplit o ho hterminal s hs
    obtain ⟨middle, rest, rfl⟩ := List.append_of_mem hs
    have hlater : trace policies.exchange empty calls = (earlier ++ step :: middle) ++ s :: rest := by
      rw [hsplit, List.append_assoc, List.cons_append]
    have h := hreached hlater
    exact h.terminal (by simp) ho hterminal

end SimulatedExchange

namespace SimulatedExchange

namespace Sample

theorem fiveShares_pos : 0 < 5 := by decide

theorem noLatency_nonneg : (0 : Duration) ≤ 0 := by decide

theorem limitPrice_pos : Money.zero < ⟨100⟩ := by simp [Money.lt_iff, Money.zero]

theorem tag_fits : isClientTag "T1" := by decide

/-- A market in which each tick has five for the account. -/
def fiveATick : FillPolicies where
  crossing := .touch
  pricing := .atLimit
  liquidity := .capped 5 fiveShares_pos
  trigger := .stop
  latency := 0
  latency_nonneg := noLatency_nonneg

/-- A purchase of ten at 100. -/
def purchase : PlaceOrderRequest :=
  ⟨"BSE:1", .buy, .limit, 10, ⟨100⟩, "T1", none, Sample.ten_pos, limitPrice_pos, trivial, tag_fits⟩

/-- A tick at the limit. -/
def tickAt (moment : Timestamp) : ExchangeCall :=
  .onTick ⟨"BSE:1", moment, moment, ⟨100⟩, 0, none, false, limitPrice_pos⟩ moment

def beforeRestart : List ExchangeCall :=
  [.submit purchase "A" 0 none, .submit purchase "B" 0 none, tickAt 1000,
    .amend "PAPERA" 1500 8 ⟨100⟩ none, tickAt 2000]

/-- A restart after two partial fills, and a tick. -/
def restarted : List ExchangeCall :=
  let steps := @trace Decimal.standard (@FillPolicies.exchange Decimal.standard fiveATick) empty beforeRestart
  beforeRestart ++
    [.restart ((steps.getLast?.map fun s => s.after.orders.map SimulatedOrder.restored).getD []) 3000,
      tickAt 4000]

end Sample

theorem conducted_sample :
    @Conducted Decimal.standard (@FillPolicies.exchange Decimal.standard Sample.fiveATick)
    (@trace Decimal.standard (@FillPolicies.exchange Decimal.standard Sample.fiveATick) empty
      Sample.restarted) :=
  @conducted Decimal.standard Decimal.lawful_standard Decimal.positive_standard Sample.fiveATick
    Sample.restarted (by decide +kernel) (by decide +kernel)

end SimulatedExchange

end Emporos
