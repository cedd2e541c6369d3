import Emporos.Backtest.Effects
import Emporos.Backtest.Session
/-!
# Nothing is held overnight

What the strategy answers is orders, and orders fill at a later bar only. So
behind the session's own square-off every position has a fill of its whole
quantity in the queue, and nothing that is still settled adds to one. Once
the strategy has had the end of its session it hears no more, and what
expires then stays closed: the session ends flat, with no order open and
nothing queued (`flat_overnight`).
-/

namespace Emporos

open Timestamp

variable {σ : Type}

/-! ## What is owed -/

namespace SimFill

/-- The shares, negative for a sale. -/
def signed (fill : SimFill) : ℤ := fill.toFill.trade.signed

theorem signed_eq {fill : SimFill} :
    fill.signed = if fill.side = .buy then (fill.quantity : ℤ) else -fill.quantity := by
  unfold signed BrokerTrade.signed
  cases h : fill.side with
  | buy => simp [Fill.trade, h]
  | sell => simp [Fill.trade, h]

/-- What fills move of an instrument. -/
def moved (instrumentId : String) (fills : List SimFill) : ℤ :=
  (fills.map fun fill => if fill.instrumentId = instrumentId then fill.signed else 0).sum

@[simp] theorem moved_nil {i : String} : moved i [] = 0 := rfl

@[simp] theorem moved_append {i : String} {fills fills' : List SimFill} :
    moved i (fills ++ fills') = moved i fills + moved i fills' := by simp [moved]

@[simp] theorem moved_cons {i : String} {fill : SimFill} {fills : List SimFill} :
    moved i (fill :: fills) = (if fill.instrumentId = i then fill.signed else 0) + moved i fills := by
  simp [moved]

end SimFill

@[simp] theorem SimEvent.fills_append {events events' : List SimEvent} :
    SimEvent.fills (events ++ events') = SimEvent.fills events ++ SimEvent.fills events' :=
  List.filterMap_append ..

namespace BacktestPortfolio

/-- What it holds of an instrument. -/
def net (p : BacktestPortfolio) (instrumentId : String) : ℤ :=
  ((p.account.position instrumentId).map (·.netQuantity)).getD 0

/-- It has one position for an instrument. -/
def Keyed (p : BacktestPortfolio) : Prop := (p.account.positions.map (·.instrumentId)).Nodup

variable {p p' : BacktestPortfolio} {i : String}

theorem openPositions_eq_nil (hp : p.Keyed) (h : ∀ i, p.net i = 0) : p.openPositions = [] := by
  rw [openPositions, List.map_eq_nil_iff, List.filter_eq_nil_iff]
  intro s hs
  have hlookup : p.account.position s.instrumentId = some s := Table.lookup_of_mem hp hs
  have hnet := h s.instrumentId
  rw [net, hlookup] at hnet
  simpa using hnet

/-- What the open positions come to in an instrument is what is held. -/
theorem sum_openPositions (hp : p.Keyed) :
    (p.openPositions.map fun x => if x.instrumentId = i then x.netQuantity else 0).sum = p.net i := by
  rw [openPositions, net, PaperAccount.position]
  unfold Keyed at hp
  generalize p.account.positions = rows at hp
  induction rows with
  | nil => rfl
  | cons s rest ih =>
      rw [List.map_cons, List.nodup_cons] at hp
      have hrest := ih hp.2
      by_cases hi : s.instrumentId = i
      · -- no other position is of the instrument
        have hnone : Table.lookup (·.instrumentId) i rest = none := by
          refine Table.lookup_eq_none.2 fun x hx heq => hp.1 ?_
          exact List.mem_map.2 ⟨x, hx, heq.trans hi.symm⟩
        rw [hnone] at hrest
        have hself : Table.lookup (·.instrumentId) i (s :: rest) = some s := by
          simp [Table.lookup, hi]
        rw [hself]
        by_cases hzero : s.netQuantity = 0
        · rw [List.filter_cons_of_neg (by simpa using hzero), hrest]
          simp [hzero]
        · rw [List.filter_cons_of_pos (by simpa using hzero), List.map_cons, List.map_cons,
            List.sum_cons, hrest]
          simp [hi]
      · have hself : Table.lookup (·.instrumentId) i (s :: rest) =
            Table.lookup (·.instrumentId) i rest := by simp [Table.lookup, hi]
        rw [hself, ← hrest]
        by_cases hzero : s.netQuantity = 0
        · rw [List.filter_cons_of_neg (by simpa using hzero)]
        · rw [List.filter_cons_of_pos (by simpa using hzero), List.map_cons, List.map_cons,
            List.sum_cons, if_neg hi, zero_add]

variable [DecimalContext]

/-- A fill moves what is held of its instrument. -/
theorem net_apply {fill : SimFill} {charges : Money} (h : p.apply fill.toFill charges = .ok p') :
    p'.net i = p.net i + (if fill.instrumentId = i then fill.signed else 0) ∧ (p.Keyed → p'.Keyed) := by
  unfold apply at h
  split at h
  · cases h
  · rename_i account haccount
    obtain rfl := Except.ok.inj h
    unfold PaperAccount.apply at haccount
    split at haccount
    · cases haccount
    · obtain rfl := Except.ok.inj haccount
      refine ⟨?_, Table.nodup_upsert⟩
      have hkey : (p.account.after fill.toFill.trade charges).instrumentId = fill.instrumentId := rfl
      rw [net, PaperAccount.position, Table.lookup_upsert, hkey]
      by_cases hi : i = fill.instrumentId
      · subst hi
        rw [if_pos rfl, if_pos rfl, net, PaperAccount.after]
        change ((p.account.position fill.instrumentId).getD _).netQuantity + fill.signed = _
        cases p.account.position fill.instrumentId <;> rfl
      · rw [if_neg hi, if_neg (Ne.symm hi), add_zero]
        rfl

end BacktestPortfolio

namespace FlowWorld

/-- What is held of an instrument once the queue is settled. -/
def owed (w : FlowWorld σ) (i : String) : ℤ :=
  w.portfolio.net i + SimFill.moved i (SimEvent.fills w.queue)

/-- The book and the positions are in order. -/
structure Kept (w : FlowWorld σ) : Prop where
  broker : w.broker.Sound
  keyed : w.portfolio.Keyed

/-- What an answer does: it may place orders, and what is said of them is
queued. -/
structure Answers (w w' : FlowWorld σ) : Prop where
  portfolio : w'.portfolio = w.portfolio
  state : w'.state = w.state
  sound : w.broker.Sound → w'.broker.Sound
  queued : ∃ events, w'.queue = w.queue ++ events ∧ SimEvent.fills events = []

variable {w w' w'' : FlowWorld σ}

theorem Answers.same (hportfolio : w'.portfolio = w.portfolio) (hstate : w'.state = w.state)
    (hbroker : w'.broker = w.broker) (hqueue : w'.queue = w.queue) : w.Answers w' :=
  ⟨hportfolio, hstate, fun h => hbroker ▸ h, [], by rw [hqueue, List.append_nil], rfl⟩

theorem Answers.trans (h : w.Answers w') (h' : w'.Answers w'') : w.Answers w'' := by
  obtain ⟨events, hqueue, hfills⟩ := h.queued
  obtain ⟨events', hqueue', hfills'⟩ := h'.queued
  refine ⟨h'.portfolio.trans h.portfolio, h'.state.trans h.state, fun hs => h'.sound (h.sound hs),
    events ++ events', ?_, ?_⟩
  · rw [hqueue', hqueue, List.append_assoc]
  · rw [SimEvent.fills_append, hfills, hfills']
    rfl

theorem Answers.owed_eq (h : w.Answers w') (i : String) : w'.owed i = w.owed i := by
  obtain ⟨events, hqueue, hfills⟩ := h.queued
  rw [owed, owed, h.portfolio, hqueue, SimEvent.fills_append, hfills, List.append_nil]

theorem Answers.kept (h : w.Answers w') (hw : w.Kept) : w'.Kept :=
  ⟨h.sound hw.broker, by rw [BacktestPortfolio.Keyed, h.portfolio]; exact hw.keyed⟩

end FlowWorld

/-! ## Answers -/

namespace StrategyRunner

variable {parts : FlowParts σ} {w : FlowWorld σ}

theorem nextSignal_answers : w.Answers (nextSignal parts w).2 := by
  unfold nextSignal
  repeat' split
  all_goals exact .same rfl rfl rfl rfl

theorem pullSignals_answers {n : ℕ} {pulled : List Signal} :
    w.Answers (pullSignals parts n w pulled).2 := by
  induction n generalizing w pulled with
  | zero => exact .same rfl rfl rfl rfl
  | succ n ih =>
      rw [pullSignals]
      have hnext := @nextSignal_answers _ parts w
      split
      · rename_i heq
        rw [heq] at hnext
        exact hnext
      · rename_i heq
        rw [heq] at hnext
        exact hnext.trans ih

end StrategyRunner

section Answers

variable [DecimalContext] {parts : FlowParts σ} {w w' : FlowWorld σ} {signal : Signal}

theorem SimulatedBroker.fills_submit {b : SimulatedBroker} {request : SimOrderRequest}
    {rejection : Option String} {now : ℕ → Timestamp} :
    SimEvent.fills (b.submit request rejection now).events = [] := by
  unfold SimulatedBroker.submit
  split_ifs
  · rfl
  · cases rejection <;> rfl

theorem OrderFlow.route_answers (h : OrderFlow.route parts signal w = .ok w') : w.Answers w' := by
  unfold OrderFlow.route at h
  dsimp only at h
  split at h
  · cases h
  · obtain rfl := Except.ok.inj h
    exact .same rfl rfl rfl rfl
  · split at h
    · cases h
    · split at h
      · cases h
      · obtain rfl := Except.ok.inj h
        refine ⟨rfl, rfl, fun hs => ?_, _, rfl, SimulatedBroker.fills_submit⟩
        exact (SimulatedBroker.submit_effect hs : SimulatedBroker.Effect (fun _ _ => False) _ _ _).sound

theorem OrderFlow.submit_answers (h : OrderFlow.submit parts signal w = .ok w') : w.Answers w' := by
  unfold OrderFlow.submit at h
  dsimp only at h
  split at h
  · obtain rfl := Except.ok.inj h
    exact .same rfl rfl rfl rfl
  · have hroute := OrderFlow.route_answers h
    exact ⟨hroute.portfolio, hroute.state, hroute.sound, hroute.queued⟩

namespace StrategyRunner

theorem forwardEach_answers {signals : List Signal} (h : forwardEach parts signals w = .ok w') :
    w.Answers w' := by
  induction signals generalizing w with
  | nil =>
      obtain rfl := Except.ok.inj h
      exact .same rfl rfl rfl rfl
  | cons signal rest ih =>
      rw [forwardEach] at h
      split at h
      · cases h
      · rename_i hsubmit
        have hrest := ih h
        exact (OrderFlow.submit_answers hsubmit).trans
          ⟨hrest.portfolio, hrest.state, hrest.sound, hrest.queued⟩

theorem forwardSignals_answers (h : forwardSignals parts w = .ok w') : w.Answers w' := by
  unfold forwardSignals at h
  dsimp only at h
  exact pullSignals_answers.trans (forwardEach_answers h)

theorem handleOrderUpdate_answers {update : OrderUpdate}
    (h : handleOrderUpdate parts update w = .ok w') : w.Answers w' := by
  unfold handleOrderUpdate at h
  split_ifs at h
  · refine FlowWorld.Answers.trans ?_ (forwardSignals_answers h)
    cases (parts.onOrderUpdate update w).1 <;> exact .same rfl rfl rfl rfl
  · obtain rfl := Except.ok.inj h
    exact .same rfl rfl rfl rfl

end StrategyRunner

/-! ## Settling -/

namespace EventSettler

/-- **One event settled.** What is owed stays what it was. -/
theorem next_spec (h : next parts w = some (.ok w')) (hw : w.Kept) :
    w'.Kept ∧ w'.state = w.state ∧ ∀ i, w'.owed i = w.owed i := by
  unfold next at h
  split at h
  · cases h
  · rename_i event rest hqueue
    have hsettle := Option.some.inj h
    unfold settleEvent at hsettle
    split at hsettle
    · cases hsettle
    · rename_i booked hbook
      have hanswers := StrategyRunner.handleOrderUpdate_answers hsettle
      -- the fill leaves the queue, and is booked
      have hbooked : booked.Kept ∧ booked.state = w.state ∧ ∀ i, booked.owed i = w.owed i := by
        unfold book at hbook
        split at hbook
        · rename_i hnone
          obtain rfl := Except.ok.inj hbook
          refine ⟨⟨hw.broker, hw.keyed⟩, rfl, fun i => ?_⟩
          change w.portfolio.net i + SimFill.moved i (SimEvent.fills rest) = _
          rw [FlowWorld.owed, hqueue, SimEvent.fills, SimEvent.fills, List.filterMap_cons_none hnone]
        · rename_i fill hfill
          split at hbook
          · cases hbook
          · split at hbook
            · cases hbook
            · rename_i portfolio happly
              obtain rfl := Except.ok.inj hbook
              refine ⟨⟨hw.broker, (BacktestPortfolio.net_apply (i := "") happly).2 hw.keyed⟩, rfl,
                fun i => ?_⟩
              change portfolio.net i + SimFill.moved i (SimEvent.fills rest) = _
              rw [(BacktestPortfolio.net_apply happly).1, FlowWorld.owed, hqueue, SimEvent.fills,
                SimEvent.fills, List.filterMap_cons_some hfill, SimFill.moved_cons, add_assoc]
      exact ⟨hanswers.kept hbooked.1, hanswers.state.trans hbooked.2.1,
        fun i => (hanswers.owed_eq i).trans (hbooked.2.2 i)⟩

/-- Where the strategy hears no more, an event places nothing. -/
theorem next_quiet (h : next parts w = some (.ok w')) (hstate : w.state ≠ .running) :
    w'.broker = w.broker := by
  unfold next at h
  split at h
  · cases h
  · have hsettle := Option.some.inj h
    unfold settleEvent at hsettle
    split at hsettle
    · cases hsettle
    · rename_i booked hbook
      have hbooked : booked.state = w.state ∧ booked.broker = w.broker := by
        unfold book at hbook
        split at hbook
        · obtain rfl := Except.ok.inj hbook
          exact ⟨rfl, rfl⟩
        · split at hbook
          · cases hbook
          · split at hbook
            · cases hbook
            · obtain rfl := Except.ok.inj hbook
              exact ⟨rfl, rfl⟩
      have hdeaf : StrategyRunner.accepting booked = false := by
        simp [StrategyRunner.accepting, hbooked.1, hstate]
      unfold StrategyRunner.handleOrderUpdate at hsettle
      rw [hdeaf] at hsettle
      obtain rfl := Except.ok.inj hsettle
      exact hbooked.2

/-- **The queue settled.** -/
theorem settle_spec {fuel : ℕ} (h : settle parts fuel w = some (.ok w')) (hw : w.Kept) :
    w'.Kept ∧ w'.state = w.state ∧ w'.queue = [] ∧ (∀ i, w'.owed i = w.owed i) ∧
      (w.state ≠ .running → w'.broker = w.broker) := by
  unfold settle at h
  induction fuel generalizing w with
  | zero =>
      rw [Drain.drain] at h
      split at h
      · rename_i hnone
        obtain rfl := Except.ok.inj (Option.some.inj h)
        refine ⟨hw, rfl, ?_, fun _ => rfl, fun _ => rfl⟩
        unfold next at hnone
        split at hnone
        · assumption
        · cases hnone
      · cases h
      · cases h
  | succ fuel ih =>
      rw [Drain.drain] at h
      split at h
      · rename_i hnone
        obtain rfl := Except.ok.inj (Option.some.inj h)
        refine ⟨hw, rfl, ?_, fun _ => rfl, fun _ => rfl⟩
        unfold next at hnone
        split at hnone
        · assumption
        · cases hnone
      · cases h
      · rename_i w₁ hnext
        obtain ⟨hkept, hstate, howed⟩ := next_spec hnext hw
        obtain ⟨hkept', hstate', hempty, howed', hquiet⟩ := ih h hkept
        refine ⟨hkept', hstate'.trans hstate, hempty, fun i => (howed' i).trans (howed i), fun hs => ?_⟩
        exact (hquiet (hstate ▸ hs)).trans (next_quiet hnext hs)

end EventSettler

end Answers

/-! ## The steps of a run -/

namespace ReplayWorld

variable {w w' : ReplayWorld σ} {outcome : BrokerOutcome}

/-- The exchange's events are queued behind what is. -/
theorem of_queued (h : (w.queued outcome).Returns w') :
    w'.flow.broker = outcome.broker ∧ w'.flow.queue = w.flow.queue ++ outcome.events ∧
      w'.flow.portfolio = w.flow.portfolio ∧ w'.flow.state = w.flow.state ∧ w'.pending = w.pending := by
  unfold queued at h
  split at h
  · cases Turn.returns_of.1 h
  · obtain rfl := Turn.returns_pure.1 h
    exact ⟨rfl, rfl, rfl, rfl, rfl⟩

theorem error_of_queued (h : (w.queued outcome).Returns w') : outcome.error = none := by
  unfold queued at h
  split at h
  · cases Turn.returns_of.1 h
  · assumption

theorem kept_of_queued (h : (w.queued outcome).Returns w') (hw : w.flow.Kept)
    (hsound : outcome.broker.Sound) : w'.flow.Kept := by
  obtain ⟨hbroker, -, hportfolio, -⟩ := of_queued h
  refine ⟨hbroker ▸ hsound, ?_⟩
  rw [BacktestPortfolio.Keyed, hportfolio]
  exact hw.keyed

end ReplayWorld

section Runs

variable [DecimalContext] {plugs : EnginePlugs σ} {fuel : ℕ} {w w' : ReplayWorld σ} {bar : Candle}
  {j : String}

namespace StrategyRunner

omit [DecimalContext] in
theorem guarded_answers {what : String} {ran : Option PyError × σ} {flow : FlowWorld σ} :
    flow.Answers (guarded plugs what ran flow) := by
  unfold guarded
  cases ran.1 <;> exact .same rfl rfl rfl rfl

/-- What a handler leaves, with the signals behind it. -/
theorem told_answers {what : String} {ran : Option PyError × σ} {flow flow' : FlowWorld σ}
    {parts : FlowParts σ} (h : forwardSignals parts (guarded plugs what ran flow) = .ok flow') :
    flow.Answers flow' := guarded_answers.trans (forwardSignals_answers h)

omit [DecimalContext] in
theorem kept_start (h : (start plugs w).Returns w') (hw : w.flow.Kept) : w'.flow.Kept := by
  unfold start at h
  split at h
  · obtain rfl := Turn.returns_pure.1 h
    exact guarded_answers.kept ⟨hw.broker, hw.keyed⟩
  · cases Turn.returns_of.1 h

theorem kept_handle (h : (handle plugs bar w).Returns w') (hw : w.flow.Kept) : w'.flow.Kept := by
  unfold handle at h
  split at h
  · dsimp only at h
    split at h
    · obtain rfl := Turn.returns_pure.1 h
      exact hw
    · obtain ⟨flow, hflow, hw'⟩ := Turn.returns_bind.1 h
      obtain rfl := Turn.returns_pure.1 hw'
      have hanswers : w.flow.Answers flow := told_answers (Turn.returns_of.1 hflow)
      exact hanswers.kept hw
  · obtain rfl := Turn.returns_pure.1 h
    exact hw

/-- **The end of the strategy's session.** It hears no more. -/
theorem endSession_spec (h : (endSession plugs w).Returns w') (hw : w.flow.Kept) :
    w'.flow.Kept ∧ w'.flow.state ≠ .running ∧ ∀ i, w'.flow.owed i = w.flow.owed i := by
  unfold endSession at h
  split at h
  · dsimp only at h
    split at h
    · obtain rfl := Turn.returns_pure.1 h
      exact ⟨⟨hw.broker, hw.keyed⟩, nofun, fun _ => rfl⟩
    · obtain ⟨flow, hflow, hw'⟩ := Turn.returns_bind.1 h
      obtain rfl := Turn.returns_pure.1 hw'
      have hanswers := told_answers (Turn.returns_of.1 hflow)
      refine ⟨hanswers.kept ⟨hw.broker, hw.keyed⟩, ?_, hanswers.owed_eq⟩
      rw [hanswers.state]
      nofun
  · rename_i hstate
    obtain rfl := Turn.returns_pure.1 h
    exact ⟨hw, hstate, fun _ => rfl⟩

omit [DecimalContext] in
theorem kept_beginSession (hw : w.flow.Kept) : (beginSession w).flow.Kept := by
  unfold beginSession
  split
  · exact ⟨hw.broker, hw.keyed⟩
  · exact hw

end StrategyRunner

namespace BacktestSession

/-- **The queue settled**, of a run. -/
theorem settle_spec (h : (settle plugs fuel w).Returns w') (hw : w.flow.Kept) :
    w'.flow.Kept ∧ w'.flow.queue = [] ∧ (∀ i, w'.flow.owed i = w.flow.owed i) ∧
      w'.flow.state = w.flow.state ∧
      (w.flow.state ≠ .running → w'.flow.broker = w.flow.broker) := by
  obtain ⟨flow, hflow, hw'⟩ := Turn.returns_bind.1 h
  obtain rfl := Turn.returns_pure.1 hw'
  obtain ⟨hkept, hstate, hempty, howed, hquiet⟩ := EventSettler.settle_spec hflow hw
  exact ⟨hkept, hempty, howed, hstate, hquiet⟩

/-- Everything that rests expires. -/
theorem expire_spec (h : (expire w).Returns w') (hw : w.flow.Kept) :
    w'.flow.Kept ∧ (∀ i, w'.flow.owed i = w.flow.owed i) ∧ w'.flow.state = w.flow.state ∧
      ∀ o ∈ w'.flow.broker.orders, o.isOpen = false := by
  obtain ⟨hbroker, hqueue, hportfolio, hstate, -⟩ := ReplayWorld.of_queued h
  have heffect : SimulatedBroker.Effect (fun _ _ => False) w.flow.broker
      (w.flow.broker.expireOpenOrders fun _ => w.clock).broker _ :=
    SimulatedBroker.expireOpenOrders_effect hw.broker
  have hsound := heffect.sound
  have hfills : SimEvent.fills (w.flow.broker.expireOpenOrders fun _ => w.clock).events = [] :=
    (SimulatedBroker.expireEach_spec hw.broker rfl).2.2
  refine ⟨ReplayWorld.kept_of_queued h hw hsound, fun i => ?_, hstate, fun o ho => ?_⟩
  · rw [FlowWorld.owed, FlowWorld.owed, hportfolio, hqueue, SimEvent.fills_append, hfills,
      List.append_nil]
  · exact SimulatedBroker.closed_of_expireOpenOrders hw.broker (hbroker ▸ ho)

/-- The broker's own fill closes what it is told to. -/
theorem fills_squareOff {b : SimulatedBroker} {i runId : String} {n : ℤ} {price : Money}
    {now : ℕ → Timestamp}
    (h : (b.squareOff i (SessionSquareOff.closingSide n) n.natAbs price runId now).error = none) :
    SimFill.moved j (SimEvent.fills
      (b.squareOff i (SessionSquareOff.closingSide n) n.natAbs price runId now).events) =
      if i = j then -n else 0 := by
  unfold SimulatedBroker.squareOff at h ⊢
  split at h
  · cases h
  · rename_i request hrequest
    have hmade : request.instrumentId = i ∧ request.side = SessionSquareOff.closingSide n ∧
        request.quantity = n.natAbs := by
      unfold SimOrderRequest.make at hrequest
      split_ifs at hrequest
      obtain rfl := Except.ok.inj hrequest
      exact ⟨rfl, rfl, rfl⟩
    obtain ⟨hinstrument, hside, hquantity⟩ := hmade
    change SimFill.moved j [SimulatedBroker.record _ _ _ _ _ _ _] = _
    rw [SimFill.moved_cons, SimFill.moved_nil, add_zero]
    have hsigned : SimFill.signed (SimulatedBroker.record (b.register (b.newOrder request (now 0)))
        (b.newOrder request (now 0)) request.quantity request.quantity_pos price .forcedSquareOff
        (now 1)) = -n := by
      rw [SimFill.signed_eq]
      change (if request.side = .buy then (request.quantity : ℤ) else -request.quantity) = -n
      rw [hside, hquantity, SessionSquareOff.closingSide]
      by_cases hn : 0 < n
      · simp [hn]
        omega
      · simp [hn]
        omega
    change (if request.instrumentId = j then _ else _) = _
    rw [hinstrument, hsigned]

/-- **The square-off, position by position.** What is open is owed back. -/
theorem squareOffEach_spec {positions : List Position} (h : (squareOffEach plugs positions w).Returns w')
    (hw : w.flow.Kept) : w'.flow.Kept ∧ w'.flow.state = w.flow.state ∧ w'.pending = w.pending ∧
      ∀ i, w'.flow.owed i = w.flow.owed i -
        (positions.map fun x => if x.instrumentId = i then x.netQuantity else 0).sum := by
  induction positions generalizing w with
  | nil =>
      obtain rfl := Turn.returns_pure.1 h
      exact ⟨hw, rfl, rfl, fun i => by simp⟩
  | cons position rest ih =>
      obtain ⟨last, -, h⟩ := Turn.returns_bind.1 h
      obtain ⟨price, -, h⟩ := Turn.returns_bind.1 h
      obtain ⟨w₁, hclosed, h⟩ := Turn.returns_bind.1 h
      have herror := ReplayWorld.error_of_queued hclosed
      obtain ⟨hbroker, hqueue, hportfolio, hstate, hpending⟩ := ReplayWorld.of_queued hclosed
      have hkept := ReplayWorld.kept_of_queued hclosed hw
        (SimulatedBroker.squareOff_effect hw.broker : SimulatedBroker.Effect (fun _ _ => False) _ _ _).sound
      obtain ⟨hkept', hstate', hpending', howed⟩ := ih h hkept
      refine ⟨hkept', hstate'.trans hstate, hpending'.trans hpending, fun i => ?_⟩
      rw [howed, FlowWorld.owed, hportfolio, hqueue, SimEvent.fills_append, SimFill.moved_append,
        fills_squareOff herror, FlowWorld.owed, List.map_cons, List.sum_cons]
      split_ifs <;> omega

/-- **The exchange's end of the day.** Nothing is held, whatever the strategy
answers. -/
theorem sessionEnding_spec (h : (sessionEnding plugs fuel w).Returns w') (hw : w.flow.Kept) :
    w'.flow.Kept ∧ ∀ i, w'.flow.owed i = 0 := by
  obtain ⟨w₁, hsettled, h⟩ := Turn.returns_bind.1 h
  obtain ⟨hkept₁, -⟩ := settle_spec hsettled hw
  obtain ⟨w₂, hexpired, h⟩ := Turn.returns_bind.1 h
  obtain ⟨hkept₂, -⟩ := expire_spec hexpired hkept₁
  obtain ⟨w₃, hsettled₃, h⟩ := Turn.returns_bind.1 h
  obtain ⟨hkept₃, hempty₃, -⟩ := settle_spec hsettled₃ hkept₂
  obtain ⟨w₄, hclosed, h⟩ := Turn.returns_bind.1 h
  obtain ⟨hkept₄, -, -, howed₄⟩ := squareOffEach_spec hclosed hkept₃
  obtain ⟨hkept₅, -, howed₅, -⟩ := settle_spec h hkept₄
  refine ⟨hkept₅, fun i => ?_⟩
  -- behind the settling before it, what is owed is what is held
  rw [howed₅, howed₄, FlowWorld.owed, hempty₃, BacktestPortfolio.sum_openPositions hkept₃.keyed]
  simp [SimEvent.fills]

/-- **The session closed.** What the strategy sent at its end expires, and
the strategy does not hear of it. -/
theorem sessionClosed_spec (h : (sessionClosed plugs fuel w).Returns w') (hw : w.flow.Kept)
    (hstate : w.flow.state ≠ .running) :
    w'.flow.Kept ∧ w'.flow.queue = [] ∧ (∀ i, w'.flow.owed i = w.flow.owed i) ∧
      (∀ o ∈ w'.flow.broker.orders, o.isOpen = false) ∧ w'.pending = none := by
  obtain ⟨w₁, hsettled, h⟩ := Turn.returns_bind.1 h
  obtain ⟨hkept₁, -, howed₁, hstate₁, -⟩ := settle_spec hsettled hw
  obtain ⟨w₂, hexpired, h⟩ := Turn.returns_bind.1 h
  obtain ⟨hkept₂, howed₂, hstate₂, hclosed⟩ := expire_spec hexpired hkept₁
  obtain ⟨w₃, hsettled₃, h⟩ := Turn.returns_bind.1 h
  obtain ⟨hkept₃, hempty₃, howed₃, -, hquiet⟩ := settle_spec hsettled₃ hkept₂
  have hbroker := hquiet (by rw [hstate₂, hstate₁]; exact hstate)
  have howed : ∀ i, w₃.flow.owed i = w.flow.owed i := fun i =>
    ((howed₃ i).trans (howed₂ i)).trans (howed₁ i)
  have hnone : ∀ o ∈ w₃.flow.broker.orders, o.isOpen = false := by rwa [hbroker]
  split at h
  · obtain rfl := Turn.returns_pure.1 h
    exact ⟨hkept₃, hempty₃, howed, hnone, rfl⟩
  · rename_i hpending
    obtain rfl := Turn.returns_pure.1 h
    exact ⟨hkept₃, hempty₃, howed, hnone, hpending⟩

end BacktestSession

/-- What a session leaves to the next. -/
structure ReplayWorld.Overnight (w : ReplayWorld σ) : Prop where
  flat : w.flow.portfolio.openPositions = []
  closed : ∀ o ∈ w.flow.broker.orders, o.isOpen = false
  resting : w.flow.broker.resting = []
  settled : w.flow.queue = []
  pending : w.pending = none

namespace BarReplay

theorem closeDay_spec (h : (closeDay plugs fuel w).Returns w') (hw : w.flow.Kept) :
    w'.flow.Kept ∧ w'.Overnight := by
  obtain ⟨w₁, hending, h⟩ := Turn.returns_bind.1 h
  obtain ⟨hkept₁, howed₁⟩ := BacktestSession.sessionEnding_spec hending hw
  obtain ⟨w₂, hended, h⟩ := Turn.returns_bind.1 h
  obtain ⟨hkept₂, hstate, howed₂⟩ := StrategyRunner.endSession_spec hended hkept₁
  obtain ⟨hkept, hempty, howed, hclosed, hpending⟩ :=
    BacktestSession.sessionClosed_spec h hkept₂ hstate
  refine ⟨hkept, BacktestPortfolio.openPositions_eq_nil hkept.keyed fun i => ?_, hclosed, ?_, hempty,
    hpending⟩
  · -- with nothing queued, what is owed is what is held
    have hzero : w'.flow.owed i = 0 := by rw [howed, howed₂, howed₁]
    rw [FlowWorld.owed, hempty] at hzero
    simpa [SimEvent.fills] using hzero
  · rw [hkept.broker.resting, List.filter_eq_nil_iff.2 fun o ho => by simp [hclosed o ho]]
    rfl

end BarReplay

/-! ## Every state of a run is in order -/

namespace BacktestSession

theorem kept_cancelEach {ids : List String} (h : (cancelEach ids w).Returns w') (hw : w.flow.Kept) :
    w'.flow.Kept := by
  induction ids generalizing w with
  | nil =>
      obtain rfl := Turn.returns_pure.1 h
      exact hw
  | cons id rest ih =>
      obtain ⟨w₁, hcancelled, h⟩ := Turn.returns_bind.1 h
      exact ih h (ReplayWorld.kept_of_queued hcancelled hw
        (SimulatedBroker.cancel_effect hw.broker : SimulatedBroker.Effect (fun _ _ => False) _ _ _).sound)

theorem kept_squareOffIfDue (h : (squareOffIfDue plugs fuel bar w).Returns w') (hw : w.flow.Kept) :
    w'.flow.Kept := by
  unfold squareOffIfDue at h
  dsimp only at h
  split at h
  · obtain ⟨exit, -, h⟩ := Turn.returns_bind.1 h
    obtain ⟨w₁, hcancelled, h⟩ := Turn.returns_bind.1 h
    have hkept₁ := kept_cancelEach hcancelled hw
    obtain ⟨w₂, hsubmitted, h⟩ := Turn.returns_bind.1 h
    obtain ⟨flow, hflow, hw₂⟩ := Turn.returns_bind.1 hsubmitted
    obtain rfl := Turn.returns_pure.1 hw₂
    have hanswers := OrderFlow.route_answers (Turn.returns_of.1 hflow)
    exact (settle_spec h (hanswers.kept ⟨hkept₁.broker, hkept₁.keyed⟩)).1
  · obtain rfl := Turn.returns_pure.1 h
    exact hw

theorem flow_pointBefore : (pointBefore bar w).flow = w.flow := by
  unfold pointBefore
  split
  · split <;> rfl
  · rfl

theorem kept_beforeBar (h : (beforeBar plugs fuel bar w).Returns w') (hw : w.flow.Kept) :
    w'.flow.Kept := by
  obtain ⟨w₁, hsettled, h⟩ := Turn.returns_bind.1 h
  have hkept₁ := (settle_spec hsettled (by rw [flow_pointBefore]; exact hw)).1
  obtain ⟨w₂, hmatched, h⟩ := Turn.returns_bind.1 h
  have hkept₂ := ReplayWorld.kept_of_queued hmatched hkept₁
    (SimulatedBroker.matchBar_effect hkept₁.broker).sound
  obtain ⟨w₃, hsettled₃, h⟩ := Turn.returns_bind.1 h
  have hkept₃ := (settle_spec hsettled₃ hkept₂).1
  exact kept_squareOffIfDue h ⟨hkept₃.broker, hkept₃.keyed⟩

end BacktestSession

namespace BarReplay

variable {day : Option ℤ} {s s' : Option ℤ × ReplayWorld σ} {bars : List Candle}

theorem closeSession_spec (h : (closeSession plugs fuel w).Returns w') (hw : w.flow.Kept) :
    w'.flow.Kept ∧ w'.Overnight := by
  obtain ⟨w₁, hclosed, h⟩ := Turn.returns_bind.1 h
  obtain rfl := Turn.returns_pure.1 h
  obtain ⟨hkept, hover⟩ := closeDay_spec hclosed hw
  refine ⟨StrategyRunner.kept_beginSession hkept, ?_⟩
  unfold StrategyRunner.beginSession
  split
  · exact ⟨hover.flat, hover.closed, hover.resting, hover.settled, hover.pending⟩
  · exact hover

theorem kept_handleBar (h : (handleBar plugs fuel bar day w).Returns s') (hw : w.flow.Kept) :
    s'.2.flow.Kept := by
  obtain ⟨w₁, hclosed, h⟩ := Turn.returns_bind.1 h
  have hkept₁ : w₁.flow.Kept := by
    unfold changeDay at hclosed
    split at hclosed
    · exact (closeSession_spec hclosed hw).1
    · obtain rfl := Turn.returns_pure.1 hclosed
      exact hw
  obtain ⟨w₂, hbefore, h⟩ := Turn.returns_bind.1 h
  have hkept₂ := BacktestSession.kept_beforeBar hbefore hkept₁
  obtain ⟨w₃, hhandled, h⟩ := Turn.returns_bind.1 h
  obtain rfl := Turn.returns_pure.1 h
  exact StrategyRunner.kept_handle hhandled hkept₂

theorem day_handleBar (h : (handleBar plugs fuel bar day w).Returns s') :
    s'.1 = some (sessionDate bar.ts) := by
  obtain ⟨w₁, -, h⟩ := Turn.returns_bind.1 h
  obtain ⟨w₂, -, h⟩ := Turn.returns_bind.1 h
  obtain ⟨w₃, -, h⟩ := Turn.returns_bind.1 h
  obtain rfl := Turn.returns_pure.1 h
  rfl

/-- Behind a bar there is a day. -/
theorem day_handleBars {rest : List Candle} (h : (handleBars plugs fuel (bar :: rest) s).Returns s') :
    s'.1.isSome := by
  induction rest generalizing s bar with
  | nil =>
      obtain ⟨s₁, hbar, h⟩ := Turn.returns_bind.1 h
      obtain rfl := Turn.returns_pure.1 h
      rw [day_handleBar hbar]
      rfl
  | cons next rest ih =>
      obtain ⟨s₁, -, h⟩ := Turn.returns_bind.1 h
      exact ih h

theorem kept_handleBars (h : (handleBars plugs fuel bars s).Returns s') (hs : s.2.flow.Kept) :
    s'.2.flow.Kept := by
  induction bars generalizing s with
  | nil =>
      obtain rfl := Turn.returns_pure.1 h
      exact hs
  | cons bar rest ih =>
      obtain ⟨s₁, hbar, h⟩ := Turn.returns_bind.1 h
      exact ih h (kept_handleBar hbar hs)

end BarReplay

namespace BacktestEngine

variable {spec : BacktestSpec} {reader : CandleReader} {outside : σ} {bars : List Candle}
  {day : Option ℤ}

omit [DecimalContext] in
theorem kept_prepare : (prepare spec reader outside).flow.Kept :=
  ⟨SimulatedBroker.sound_empty, List.nodup_nil⟩

theorem kept_reach (h : (reach plugs fuel spec reader outside bars).Returns (day, w)) :
    w.flow.Kept := by
  obtain ⟨w₁, hstart, h⟩ := Turn.returns_bind.1 h
  exact BarReplay.kept_handleBars h (StrategyRunner.kept_start hstart kept_prepare)

omit [DecimalContext] in
/-- A run that has only started holds nothing. -/
theorem overnight_start (h : (StrategyRunner.start plugs (prepare spec reader outside)).Returns w) :
    w.Overnight := by
  unfold StrategyRunner.start at h
  split at h
  · obtain rfl := Turn.returns_pure.1 h
    unfold StrategyRunner.guarded
    cases (plugs.onInitialize _ _).1 <;>
      exact ⟨rfl, fun o ho => (List.not_mem_nil ho).elim, rfl, rfl, rfl⟩
  · cases Turn.returns_of.1 h

/-- **Nothing is held overnight.** Wherever in a run a session is closed,
the book is flat, every order has ended and nothing is queued; so it is when
a run returns, whatever the feed served. -/
theorem flat_overnight (plugs : EnginePlugs σ) (fuel : ℕ) (spec : BacktestSpec) (reader : CandleReader)
    (outside : σ) :
    (∀ bars day w w', (reach plugs fuel spec reader outside bars).Returns (day, w) →
      (BarReplay.closeDay plugs fuel w).Returns w' → w'.Overnight) ∧
    ∀ fed w, (BarReplay.run plugs fuel fed (prepare spec reader outside)).Returns w → w.Overnight := by
  refine ⟨fun bars day w w' h hclose => (BarReplay.closeDay_spec hclose (kept_reach h)).2,
    fun fed w h => ?_⟩
  obtain ⟨w₁, hstart, h⟩ := Turn.returns_bind.1 h
  obtain ⟨⟨last, w₂⟩, hbars, h⟩ := Turn.returns_bind.1 h
  have hkept := BarReplay.kept_handleBars hbars (StrategyRunner.kept_start hstart kept_prepare)
  dsimp only at h
  split at h
  · cases Turn.returns_of.1 h
  · split at h
    · exact (BarReplay.closeSession_spec h hkept).2
    · -- no bar was served
      rename_i hnone
      obtain rfl := Turn.returns_pure.1 h
      cases hserved : fed.1 with
      | nil =>
          rw [hserved] at hbars
          cases Turn.returns_pure.1 hbars
          exact overnight_start hstart
      | cons bar rest =>
          rw [hserved] at hbars
          exact absurd (BarReplay.day_handleBars hbars) hnone

end BacktestEngine

end Runs

/-! ## A position that the broker closes -/

namespace BacktestEngine

namespace OneBuyer

theorem price_le : (⟨100⟩ : Money) ≤ ⟨100⟩ := le_rfl

/-- A minute of a session, at a hundred. -/
def bar (n : ℕ) : Candle :=
  ⟨"I", .m1, 20454 * day + (225 + n) * minute, ⟨100⟩, ⟨100⟩, ⟨100⟩, ⟨100⟩, 50, false, price_le, price_le,
    price_le, price_le⟩

theorem fraction_pos : (0 : Decimal) < 1 / 10 := by norm_num

theorem fraction_le : (1 / 10 : Decimal) ≤ 1 := by norm_num

/-- A strategy that buys ten once; a bar fills five. -/
def plugs : EnginePlugs Bool where
  runId := "R"
  instrumentIds := ["I"]
  repr _ := ""
  onInitialize _ w := (none, w.outside)
  onMarketData _ _ w := (none, w.outside)
  onOrderUpdate _ _ w := (none, w.outside)
  onSessionEnd _ w := (none, w.outside)
  generateSignal _ w :=
    (if w.outside then .ok .none else .ok (.signal (Signal.sample .buy 10 Sample.ten_pos)), true)
  review signal _ w := (.ok (.ok signal), w.outside)
  orderFor signal tag _ _ := SimOrderRequest.make signal.instrumentId signal.side signal.orderType
    signal.quantity signal.limitPrice tag signal.strategyRunId none
  rejection _ _ _ := none
  charges _ _ _ := .ok Money.zero
  model := ⟨.touch, .atLimit, ⟨1 / 10, fraction_pos, fraction_le⟩, .touch⟩
  squareOffAt := 55800 * second
  penalty := 0

theorem cash_pos : Money.zero < ⟨10000⟩ := by decide

theorem day_pos : 0 < day := by decide

def spec : BacktestSpec where
  feed := ClosedBarFeed.NewYear.hourly
  startingCash := ⟨10000⟩
  warmupBars := 0
  warmupLookback := day
  maxBars := 10
  cash_pos := cash_pos
  lookback_pos := day_pos
  maxBars_pos := Nat.succ_pos 9

def reader : CandleReader := fun _ _ _ _ => []

/-- What a turn returns, if it does, passes a test. -/
def passes {α : Type} (x : Turn α) (test : α → Bool) : Bool :=
  match x.run with
  | some (.ok a) => test a
  | _ => false

theorem exists_of_passes {α : Type} {x : Turn α} {test : α → Bool} (h : passes x test = true) :
    ∃ a, x.Returns a ∧ test a = true := by
  unfold passes at h
  split at h
  · rename_i a ha
    exact ⟨a, ha, h⟩
  · cases h

/-- Two bars of one session. -/
def sampleRun : Turn (ReplayWorld Bool) :=
  @BarReplay.run _ Decimal.standard plugs 5 ([bar 0, bar 1], none) (prepare spec reader false)

end OneBuyer

open OneBuyer in
/-- Five of ten shares are bought at the second bar; the broker sells them, and
the rest of the order expires. -/
theorem flat_overnight_sample : ∃ w, sampleRun.Returns w ∧ (w.flow.counters.fills = 2 ∧
    w.flow.counters.forcedSquareOffs = 1 ∧ w.flow.counters.cancelledOrExpired = 1) ∧ w.Overnight := by
  have hrun : passes sampleRun (fun w => decide (w.flow.counters.fills = 2 ∧
      w.flow.counters.forcedSquareOffs = 1 ∧ w.flow.counters.cancelledOrExpired = 1)) = true := by
    decide +kernel
  obtain ⟨w, hw, hcounts⟩ := exists_of_passes hrun
  exact ⟨w, hw, of_decide_eq_true hcounts,
    (@flat_overnight _ Decimal.standard plugs 5 spec reader false).2 _ w hw⟩

end BacktestEngine

end Emporos
