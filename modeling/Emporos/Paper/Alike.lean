import Emporos.Paper.Chronicle
/-!
# Brokers that are alike

What a tick trades depends on the moments an order carries only through its
latency. Two books that are alike but for their moments, with every latency
behind them, trade the same on a tick whose budget does not read the tape,
and stay alike.
-/

namespace Emporos

namespace SimulatedOrder

/-- The order but for its moments. -/
def timeless (o : SimulatedOrder) : SimulatedOrder :=
  { o with order := { o.order with updatedAt := 0 }, liveFrom := 0 }

/-- The order with other moments. -/
def retimed (o : SimulatedOrder) (updatedAt liveFrom : Timestamp) : SimulatedOrder :=
  { o with order := { o.order with updatedAt }, liveFrom }

variable {o o' : SimulatedOrder} {updatedAt live now : Timestamp}

theorem exists_retimed (h : o.timeless = o'.timeless) :
    ∃ updatedAt live, o' = o.retimed updatedAt live := by
  refine ⟨o'.order.updatedAt, o'.liveFrom, ?_⟩
  obtain ⟨⟨order, average, updated⟩, seq, live, trades⟩ := o
  obtain ⟨⟨order', average', updated'⟩, seq', live', trades'⟩ := o'
  simp only [timeless, mk.injEq, PaperOrder.mk.injEq, and_true, true_and] at h
  obtain ⟨⟨rfl, rfl⟩, rfl, rfl⟩ := h
  rfl

@[simp] theorem timeless_retimed : (o.retimed updatedAt live).timeless = o.timeless := rfl

/-- What is compared of a change: the order but for its moments, and the
event. -/
def seen {α : Type} (r : SimulatedOrder × α) : SimulatedOrder × α := (r.1.timeless, r.2)

theorem triggered_retimed :
    ((o.retimed updatedAt live).triggered now).map seen = (o.triggered now).map seen := by
  unfold triggered requireWorking
  by_cases hworking : o.isWorking
  · have hworking' : (o.retimed updatedAt live).isWorking := hworking
    rw [if_pos hworking, if_pos hworking', ok_bind, ok_bind]
    rfl
  · have hworking' : ¬ (o.retimed updatedAt live).isWorking := hworking
    rw [if_neg hworking, if_neg hworking', error_bind, error_bind]
    rfl

theorem filled_retimed [DecimalContext] {quantity : ℤ} {price : Money} :
    ((o.retimed updatedAt live).filled now quantity price).map seen =
      (o.filled now quantity price).map seen := by
  unfold filled requireWorking
  by_cases hworking : o.isWorking
  · have hworking' : (o.retimed updatedAt live).isWorking := hworking
    rw [if_pos hworking, if_pos hworking', ok_bind, ok_bind]
    by_cases hquantity : 0 < quantity ∧ quantity ≤ o.remaining
    · have hquantity' : 0 < quantity ∧ quantity ≤ (o.retimed updatedAt live).remaining := hquantity
      rw [dif_pos hquantity, dif_pos hquantity']
      rfl
    · have hquantity' : ¬ (0 < quantity ∧ quantity ≤ (o.retimed updatedAt live).remaining) := hquantity
      rw [dif_neg hquantity, dif_neg hquantity']
  · have hworking' : ¬ (o.retimed updatedAt live).isWorking := hworking
    rw [if_neg hworking, if_neg hworking', error_bind, error_bind]
    rfl

end SimulatedOrder

namespace SimulatedExchange

open SimulatedOrder (seen)

variable [DecimalContext] {P : ExchangePolicies} {tick : Tick} {now updatedAt live : Timestamp}
  {budget : Option ℤ} {o o' : SimulatedOrder} {orders orders' : List SimulatedOrder}

omit [DecimalContext] in
/-- Steps that are seen alike go on alike. -/
theorem map_bind_seen {α β : Type} {x y : Except PyError (SimulatedOrder × α)} {g : α → β}
    (h : x.map seen = y.map seen) :
    (x >>= fun r => pure (f := Except PyError) (r.1, g r.2)).map seen =
      (y >>= fun r => pure (r.1, g r.2)).map seen := by
  cases x with
  | error e =>
      cases y with
      | error e' =>
          obtain rfl := Except.error.inj h
          rfl
      | ok r' => cases h
  | ok r =>
      cases y with
      | error e' => cases h
      | ok r' =>
          have heq : seen r = seen r' := Except.ok.inj h
          obtain ⟨htimeless, hsecond⟩ := Prod.mk.inj heq
          change Except.ok (r.1.timeless, g r.2) = Except.ok (r'.1.timeless, g r'.2)
          rw [htimeless, hsecond]

variable (P now budget updatedAt) in
/-- **One order's turn**, with other moments behind the tick's. -/
theorem visit_retimed (hlive : o.liveFrom ≤ tick.receivedTs) (hlive' : live ≤ tick.receivedTs) :
    (visit P tick now budget (o.retimed updatedAt live)).map seen =
      (visit P tick now budget o).map seen := by
  have heligible : Eligible tick (o.retimed updatedAt live) ↔ Eligible tick o :=
    and_congr_right fun _ => and_congr_right fun _ => iff_of_true hlive' hlive
  unfold visit
  by_cases he : Eligible tick o
  · rw [if_neg (not_not.mpr he), if_neg (not_not.mpr (heligible.mpr he))]
    have hview : (o.retimed updatedAt live).view = o.view := rfl
    rw [hview]
    by_cases hwaits : o.awaitingTrigger
    · have hwaits' : (o.retimed updatedAt live).awaitingTrigger := hwaits
      rw [if_pos hwaits, if_pos hwaits']
      cases o.view with
      | error e => rfl
      | ok view =>
          simp only [ok_bind]
          split
          · exact map_bind_seen (g := fun e => (budget, some e)) SimulatedOrder.triggered_retimed
          · rfl
    · have hwaits' : ¬ (o.retimed updatedAt live).awaitingTrigger := hwaits
      rw [if_neg hwaits, if_neg hwaits']
      cases o.view with
      | error e => rfl
      | ok view =>
          simp only [ok_bind]
          cases P.executionPrice view tick with
          | none => rfl
          | some price =>
              simp only
              split
              · rfl
              · exact map_bind_seen (g := fun e => (budget.map (· - share budget view.remaining), some e))
                  SimulatedOrder.filled_retimed
  · have he' : ¬ Eligible tick (o.retimed updatedAt live) := fun h => he (heligible.mp h)
    rw [if_pos he, if_pos he']
    rfl

variable (P now budget) in
/-- The turns of a book. -/
theorem matchAll_timeless (h : orders.map SimulatedOrder.timeless = orders'.map SimulatedOrder.timeless)
    (hlive : ∀ o ∈ orders, o.liveFrom ≤ tick.receivedTs)
    (hlive' : ∀ o ∈ orders', o.liveFrom ≤ tick.receivedTs) :
    (matchAll P tick now budget orders).1.map SimulatedOrder.timeless =
        (matchAll P tick now budget orders').1.map SimulatedOrder.timeless ∧
      (matchAll P tick now budget orders).2 = (matchAll P tick now budget orders').2 := by
  induction orders generalizing orders' budget with
  | nil =>
      obtain rfl := List.map_eq_nil_iff.mp h.symm
      exact ⟨rfl, rfl⟩
  | cons o rest ih =>
      obtain ⟨o', rest', rfl, ho, hrest⟩ := List.map_eq_cons_iff.mp h.symm
      obtain ⟨updated, live, rfl⟩ := SimulatedOrder.exists_retimed ho.symm
      have hbehind : live ≤ tick.receivedTs := hlive' _ (List.mem_cons_self ..)
      have hvisit := visit_retimed P now updated budget (hlive o (List.mem_cons_self ..)) hbehind
      cases hv : visit P tick now budget o with
      | error e =>
          cases hv' : visit P tick now budget (o.retimed updated live) with
          | error e' =>
              rw [hv, hv'] at hvisit
              obtain rfl := Except.error.inj hvisit
              simp only [matchAll, hv, hv', List.map_cons, SimulatedOrder.timeless_retimed, hrest, and_self]
          | ok r' =>
              rw [hv, hv'] at hvisit
              cases hvisit
      | ok r =>
          cases hv' : visit P tick now budget (o.retimed updated live) with
          | error e' =>
              rw [hv, hv'] at hvisit
              cases hvisit
          | ok r' =>
              rw [hv, hv'] at hvisit
              obtain ⟨p, left, made⟩ := r
              obtain ⟨p', left', made'⟩ := r'
              have heq : seen (p', left', made') = seen (p, left, made) := Except.ok.inj hvisit
              obtain ⟨hp, hsecond⟩ := Prod.mk.inj heq
              obtain ⟨rfl, rfl⟩ := Prod.mk.inj hsecond
              have hnext : (matchAll P tick now left' rest).1.map SimulatedOrder.timeless =
                    (matchAll P tick now left' rest').1.map SimulatedOrder.timeless ∧
                  (matchAll P tick now left' rest).2 = (matchAll P tick now left' rest').2 :=
                ih left' hrest.symm (fun y hy => hlive y (List.mem_cons_of_mem _ hy))
                  fun y hy => hlive' y (List.mem_cons_of_mem _ hy)
              obtain ⟨horders, hevents⟩ := hnext
              simp only [matchAll, hv, hv', List.map_cons, hp, horders, hevents, and_self]

theorem onTick_of_inOrder {x : SimulatedExchange} (h : ¬ tick.outOfOrder = true) :
    x.onTick P tick now =
      (⟨(matchAll P tick now (P.budget (x.tape.sincePrevious tick).2) x.orders).1,
        (x.tape.sincePrevious tick).1⟩,
        (matchAll P tick now (P.budget (x.tape.sincePrevious tick).2) x.orders).2) := by
  unfold onTick
  rw [if_neg h]

/-- A tick changes no latency. -/
theorem liveFrom_of_matchAll :
    (matchAll P tick now budget orders).1.map (·.liveFrom) = orders.map (·.liveFrom) := by
  induction orders generalizing budget with
  | nil => rfl
  | cons o rest ih =>
      unfold matchAll
      cases hv : visit P tick now budget o with
      | error e => rfl
      | ok r =>
          obtain ⟨p, left, made⟩ := r
          have hp : p.liveFrom = o.liveFrom := by
            rcases visit_reports hv with ⟨rfl, -⟩ | ⟨e, -, hreports⟩
            · rfl
            · exact hreports.live_eq
          simp only [List.map_cons, hp, ih]

end SimulatedExchange

namespace PaperBroker

variable [DecimalContext] {settings : PaperSettings} {s s' : PaperBroker} {now : Timestamp}

/-- The orders are alike but for their moments, and the accounts but for
their trades. -/
structure Alike (s s' : PaperBroker) : Prop where
  orders : s.exchange.orders.map SimulatedOrder.timeless =
    s'.exchange.orders.map SimulatedOrder.timeless
  positions : s.account.positions = s'.account.positions

/-- The latency of every order is behind a moment. -/
def Live (s : PaperBroker) (moment : Timestamp) : Prop :=
  ∀ o ∈ s.exchange.orders, o.liveFrom ≤ moment

variable (settings now) in
/-- The events of a tick, booked by two brokers that are alike: the same
trades. -/
theorem applyEvents_alike (h : s.account.positions = s'.account.positions) (events : List ExchangeEvent) :
    (applyEvents settings now s events).1.exchange = s.exchange ∧
      (applyEvents settings now s' events).1.exchange = s'.exchange ∧
      (applyEvents settings now s events).1.account.positions =
        (applyEvents settings now s' events).1.account.positions ∧
      ∃ dealt, (applyEvents settings now s events).1.account.trades = s.account.trades ++ dealt ∧
        (applyEvents settings now s' events).1.account.trades = s'.account.trades ++ dealt := by
  induction events generalizing s s' with
  | nil => exact ⟨rfl, rfl, h, [], by simp [applyEvents], by simp [applyEvents]⟩
  | cons e rest ih =>
      cases htrade : e.trade with
      | none =>
          obtain ⟨s₁, hs₁, hx, haccount⟩ := applyEvent_of_none settings s now htrade
          obtain ⟨s₁', hs₁', hx', haccount'⟩ := applyEvent_of_none settings s' now htrade
          have hnext : s₁.account.positions = s₁'.account.positions := by rw [haccount, haccount', h]
          simpa only [applyEvents, hs₁, hs₁', hx, hx', haccount, haccount'] using ih hnext
      | some t =>
          by_cases hcharges : settings.costs.Charges t
          · obtain ⟨fees, hfees, hnonneg⟩ := hcharges
            have happly (s : PaperBroker) : ∃ s₁, s.applyEvent settings now e = .ok s₁ ∧
                s₁.exchange = s.exchange ∧ s₁.account.trades = s.account.trades ++ [t] ∧
                s₁.account.positions =
                  Table.upsert (·.instrumentId) (s.account.after t fees) s.account.positions := by
              refine ⟨s.booked settings now e t fees
                { s.account with
                  positions := Table.upsert (·.instrumentId) (s.account.after t fees) s.account.positions
                  trades := s.account.trades ++ [t] }, ?_, rfl, rfl, rfl⟩
              unfold applyEvent PaperAccount.apply
              rw [htrade]
              simp only [hfees, ok_bind, if_neg hnonneg]
              rfl
            obtain ⟨s₁, hs₁, hx, htrades, hpositions⟩ := happly s
            obtain ⟨s₁', hs₁', hx', htrades', hpositions'⟩ := happly s'
            have hafter : s.account.after t fees = s'.account.after t fees := by
              unfold PaperAccount.after PaperAccount.position
              rw [h]
            have hnext : s₁.account.positions = s₁'.account.positions := by
              rw [hpositions, hpositions', hafter, h]
            obtain ⟨hlast, hlast', hpos, dealt, hdealt, hdealt'⟩ := ih hnext
            simp only [applyEvents, hs₁, hs₁']
            refine ⟨hlast.trans hx, hlast'.trans hx', hpos, t :: dealt, ?_, ?_⟩
            · rw [hdealt, htrades, List.append_assoc, List.singleton_append]
            · rw [hdealt', htrades', List.append_assoc, List.singleton_append]
          · -- both refuse the trade and lose the events behind it
            obtain ⟨error, herror⟩ := applyEvent_of_not_charges s now htrade hcharges
            obtain ⟨error', herror'⟩ := applyEvent_of_not_charges s' now htrade hcharges
            simp only [applyEvents, herror, herror']
            exact ⟨trivial, trivial, h, [], by simp, by simp⟩

variable (settings now) in
/-- **A tick that is behind every latency** trades the same on both, and
they stay alike. -/
theorem Alike.tick (h : s.Alike s') {tick : Tick}
    (hbudget : ∀ v v', settings.policies.budget v = settings.policies.budget v')
    (hlive : s.Live tick.receivedTs) (hlive' : s'.Live tick.receivedTs) :
    (s.onSourceTick settings now tick).Alike (s'.onSourceTick settings now tick) ∧
      ∃ dealt, (s.onSourceTick settings now tick).account.trades = s.account.trades ++ dealt ∧
        (s'.onSourceTick settings now tick).account.trades = s'.account.trades ++ dealt := by
  have hobserve (s : PaperBroker) :
      (s.observe tick).exchange = s.exchange ∧ (s.observe tick).account = s.account := by
    unfold observe
    split <;> exact ⟨rfl, rfl⟩
  have hexchange : ∃ x x' outcome, s.exchange.onTick settings.policies tick now = (x, outcome) ∧
      s'.exchange.onTick settings.policies tick now = (x', outcome) ∧
      x.orders.map SimulatedOrder.timeless = x'.orders.map SimulatedOrder.timeless := by
    by_cases hlate : tick.outOfOrder = true
    · unfold SimulatedExchange.onTick
      rw [if_pos hlate, if_pos hlate]
      exact ⟨_, _, _, rfl, rfl, h.orders⟩
    · rw [SimulatedExchange.onTick_of_inOrder hlate, SimulatedExchange.onTick_of_inOrder hlate,
        hbudget (s.exchange.tape.sincePrevious tick).2 (s'.exchange.tape.sincePrevious tick).2]
      obtain ⟨hmatched, hevents⟩ := SimulatedExchange.matchAll_timeless settings.policies now
        (settings.policies.budget (s'.exchange.tape.sincePrevious tick).2) h.orders hlive hlive'
      exact ⟨_, _, _, rfl, by rw [hevents], hmatched⟩
  obtain ⟨x, x', outcome, hx, hx', horders⟩ := hexchange
  have hstart : ({ s.observe tick with exchange := x } : PaperBroker).account.positions =
      ({ s'.observe tick with exchange := x' } : PaperBroker).account.positions := by
    simp only [(hobserve s).2, (hobserve s').2, h.positions]
  cases outcome with
  | error error =>
      simp only [onSourceTick, (hobserve s).1, (hobserve s').1, hx, hx']
      refine ⟨⟨horders, hstart⟩, [], ?_, ?_⟩
      · simp [(hobserve s).2]
      · simp [(hobserve s').2]
  | ok events =>
      simp only [onSourceTick, (hobserve s).1, (hobserve s').1, hx, hx']
      obtain ⟨hlast, hlast', hpositions, dealt, hdealt, hdealt'⟩ :=
        applyEvents_alike settings now hstart events
      refine ⟨⟨by rw [hlast, hlast']; exact horders, hpositions⟩, dealt, ?_, ?_⟩
      · simpa only [(hobserve s).2] using hdealt
      · simpa only [(hobserve s').2] using hdealt'

variable (settings now) in
theorem liveFrom_of_onTick (x : SimulatedExchange) (tick : Tick) :
    (x.onTick settings.policies tick now).1.orders.map (·.liveFrom) = x.orders.map (·.liveFrom) := by
  by_cases hlate : tick.outOfOrder = true
  · unfold SimulatedExchange.onTick
    rw [if_pos hlate]
  · rw [SimulatedExchange.onTick_of_inOrder hlate]
    exact SimulatedExchange.liveFrom_of_matchAll

variable (settings now) in
/-- Latencies stay behind what they are behind. -/
theorem Live.tick {moment : Timestamp} (h : s.Live moment) (tick : Tick) :
    (s.onSourceTick settings now tick).Live moment := by
  have hobserve : (s.observe tick).exchange = s.exchange := by
    unfold observe
    split <;> rfl
  have hkept : (s.onSourceTick settings now tick).exchange.orders.map (·.liveFrom) =
      s.exchange.orders.map (·.liveFrom) := by
    cases hon : s.exchange.onTick settings.policies tick now with
    | mk x outcome =>
        simp only [onSourceTick, hobserve, hon]
        have hx : x.orders.map (·.liveFrom) = s.exchange.orders.map (·.liveFrom) := by
          have hkept := liveFrom_of_onTick settings now s.exchange tick
          rwa [hon] at hkept
        cases outcome with
        | error error => exact hx
        | ok events =>
            obtain ⟨-, -, -, hexchange, -⟩ := applyEvents_books settings
              { s.observe tick with exchange := x } now events
            rw [hexchange, hx]
  intro o ho
  have hmem : o.liveFrom ∈ s.exchange.orders.map (·.liveFrom) := hkept ▸ List.mem_map_of_mem ho
  obtain ⟨o', ho', heq⟩ := List.mem_map.mp hmem
  exact heq ▸ h o' ho'

/-- The broker after ticks, each at a moment of the clock. -/
def ticks (settings : PaperSettings) (s : PaperBroker) (later : List (Timestamp × Tick)) : PaperBroker :=
  s.run settings (later.map fun t => .tick t.1 t.2)

/-- The fills the ticks make. -/
def fillsOf (settings : PaperSettings) (s : PaperBroker) (later : List (Timestamp × Tick)) :
    List BrokerTrade :=
  (s.ticks settings later).account.trades.drop s.account.trades.length

/-- **Ticks that are behind every latency** make the same fills on both. -/
theorem Alike.fillsOf_eq (h : s.Alike s') {later : List (Timestamp × Tick)}
    (hbudget : ∀ v v', settings.policies.budget v = settings.policies.budget v')
    (hlive : ∀ t ∈ later, s.Live t.2.receivedTs ∧ s'.Live t.2.receivedTs) :
    s.fillsOf settings later = s'.fillsOf settings later := by
  have hdealt : ∃ dealt, (s.ticks settings later).account.trades = s.account.trades ++ dealt ∧
      (s'.ticks settings later).account.trades = s'.account.trades ++ dealt := by
    induction later generalizing s s' with
    | nil => exact ⟨[], by simp [ticks, run], by simp [ticks, run]⟩
    | cons t rest ih =>
        obtain ⟨hfirst, hfirst'⟩ := hlive t (List.mem_cons_self ..)
        obtain ⟨hnext, dealt, hdealt, hdealt'⟩ := h.tick settings t.1 hbudget hfirst hfirst'
        obtain ⟨more, hmore, hmore'⟩ := ih hnext fun u hu =>
          ⟨(hlive u (List.mem_cons_of_mem _ hu)).1.tick settings t.1 t.2,
            (hlive u (List.mem_cons_of_mem _ hu)).2.tick settings t.1 t.2⟩
        refine ⟨dealt ++ more, ?_, ?_⟩
        · rw [← List.append_assoc, ← hdealt, ← hmore]
          rfl
        · rw [← List.append_assoc, ← hdealt', ← hmore']
          rfl
  obtain ⟨dealt, hs, hs'⟩ := hdealt
  rw [fillsOf, fillsOf, hs, hs', List.drop_left, List.drop_left]

end PaperBroker

end Emporos
