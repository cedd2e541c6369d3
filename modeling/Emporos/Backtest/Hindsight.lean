import Emporos.Backtest.Overnight
/-!
# No hindsight

Two stores that agree on the bars closed by a moment are run side by side.
The feeds serve the same bars until then, and the worlds are the same but
for what the histories hold that has not closed, which nothing of the run
can read. So the two runs are the same until the last of those bars was
handled (`no_hindsight`), the days of the whole window being loaded before
the run notwithstanding, as long as a history has room for them.
-/

namespace Emporos

open Timestamp ClosedBarHistory

/-- The stores have the same bars that closed by a moment. -/
def CandleStore.AgreeUntil (t : Timestamp) (a b : CandleStore) : Prop :=
  ∀ i tf, closedBy t (a.bars i tf) = closedBy t (b.bars i tf)

variable {σ : Type} {t : Timestamp} {a b : CandleStore} {i : String} {tf : Timeframe} {bar : Candle}

theorem CandleStore.mem_of_mem (store : CandleStore) (h : bar ∈ store.bars i tf) :
    bar ∈ store.bars bar.instrumentId bar.timeframe := by
  rw [store.of_instrument i tf bar h, store.of_timeframe i tf bar h]
  exact h

theorem CandleStore.AgreeUntil.mem_iff (h : a.AgreeUntil t b) (hclosed : bar.closesAt ≤ t) :
    bar ∈ a.bars i tf ↔ bar ∈ b.bars i tf := by
  have hsame := h i tf
  have hmem : ∀ store : CandleStore,
      bar ∈ closedBy t (store.bars i tf) ↔ bar ∈ store.bars i tf := fun store => by
    rw [closedBy, List.mem_filter]
    exact and_iff_left (decide_eq_true hclosed)
  rw [← hmem a, ← hmem b, hsame]

/-- What has closed of a range is read alike. -/
theorem CandleStore.AgreeUntil.closedBy_getRange (h : a.AgreeUntil t b) {start stop : Timestamp} :
    closedBy t (a.getRange i tf start stop) = closedBy t (b.getRange i tf start stop) := by
  have hcomm : ∀ store : CandleStore, closedBy t (store.getRange i tf start stop) =
      (closedBy t (store.bars i tf)).filter fun c => start ≤ c.ts ∧ c.ts < stop := fun store => by
    rw [closedBy, CandleSource.getRange, closedBy, List.filter_filter, List.filter_filter]
    exact List.filter_congr fun c _ => Bool.and_comm ..
  rw [hcomm a, hcomm b, h i tf]

/-! ## Two runs -/

namespace Turn

variable {α β : Type}

/-- The two come to the same, but for a relation between what they
return. -/
def Alike (R : α → α → Prop) (x y : Turn α) : Prop :=
  match x.run, y.run with
  | none, none => True
  | some (.error e), some (.error e') => e = e'
  | some (.ok r), some (.ok r') => R r r'
  | _, _ => False

variable {R : α → α → Prop} {S : β → β → Prop} {x y : Turn α} {f g : α → Turn β}

theorem alike_pure {r r' : α} (h : R r r') : Alike R (pure r) (pure r') := h

theorem alike_refl (x : Turn α) : Alike (· = ·) x x := by
  unfold Alike
  cases x.run with
  | none => trivial
  | some r => cases r <;> rfl

theorem alike_bind (h : Alike R x y) (hk : ∀ r r', R r r' → Alike S (f r) (g r')) :
    Alike S (x >>= f) (y >>= g) := by
  unfold Alike at h
  unfold Alike
  change match x.run.bind fun r => ExceptT.bindCont f r, y.run.bind fun r => ExceptT.bindCont g r with
    | none, none => True
    | some (.error e), some (.error e') => e = e'
    | some (.ok r), some (.ok r') => S r r'
    | _, _ => False
  cases hx : x.run with
  | none =>
      cases hy : y.run with
      | none => trivial
      | some r => rw [hx, hy] at h; exact h.elim
  | some r =>
      cases hy : y.run with
      | none => rw [hx, hy] at h; cases r <;> exact h.elim
      | some r' =>
          rw [hx, hy] at h
          cases r with
          | error e =>
              cases r' with
              | error e' => exact h
              | ok r' => exact h.elim
          | ok r =>
              cases r' with
              | error e' => exact h.elim
              | ok r' => exact hk r r' h

/-- What does not see the difference comes out the same. -/
theorem map_eq_of_alike {f : α → β} (h : Alike R x y) (hf : ∀ r r', R r r' → f r = f r') :
    f <$> x = f <$> y := by
  unfold Alike at h
  change ExceptT.mk (x.run >>= fun r => _) = ExceptT.mk (y.run >>= fun r => _)
  cases hx : x.run with
  | none =>
      cases hy : y.run with
      | none => rfl
      | some r => rw [hx, hy] at h; exact h.elim
  | some r =>
      cases hy : y.run with
      | none => rw [hx, hy] at h; cases r <;> exact h.elim
      | some r' =>
          rw [hx, hy] at h
          cases r with
          | error e =>
              cases r' with
              | error e' => exact congrArg (fun e => ExceptT.mk (some (Except.error e))) h
              | ok r' => exact h.elim
          | ok r =>
              cases r' with
              | error e' => exact h.elim
              | ok r' => exact congrArg (fun c => ExceptT.mk (some (Except.ok c))) (hf r r' h)

end Turn

/-- What a run shows of itself until a moment: all but the bars it holds
that have not closed by then. -/
structure Shown (σ : Type) where
  flow : FlowWorld σ
  clock : Timestamp
  planned : List (ℤ × String)
  pending : Option Timestamp
  curve : List CurvePoint
  unclosedSkipped : ℕ
  bars : Timestamp → String → Timeframe → ℤ → List Candle

/-- A reading of the history is one at a time until then. -/
def ReplayWorld.until (t : Timestamp) (w : ReplayWorld σ) : Shown σ where
  flow := w.flow
  clock := w.clock
  planned := w.planned
  pending := w.pending
  curve := w.curve
  unclosedSkipped := w.unclosedSkipped
  bars now i tf limit := if now ≤ t then w.history.bars now i tf limit else []

/-- There is room for the days of every instrument. -/
def CandleStore.Fits (store : CandleStore) (maxBars : ℕ) : Prop :=
  ∀ i, (store.bars i .d1).length ≤ maxBars

/-- Two histories of bars of two stores that hold the same closed bars, and
the same bars but for days. -/
structure Held (t : Timestamp) (a b : CandleStore) (h h' : ClosedBarHistory) : Prop where
  maxBars : h'.maxBars = h.maxBars
  left : h.Drawn a.bars
  right : h'.Drawn b.bars
  closed : ∀ i tf, closedBy t (h.series i tf) = closedBy t (h'.series i tf)
  same : ∀ i tf, tf ≠ .d1 → h.series i tf = h'.series i tf
  fits : a.Fits h.maxBars
  fits' : b.Fits h.maxBars

/-- Two runs that nothing shows the difference of until a moment. -/
structure Alike (t : Timestamp) (a b : CandleStore) (w w' : ReplayWorld σ) : Prop where
  flow : w'.flow = w.flow
  clock : w'.clock = w.clock
  planned : w'.planned = w.planned
  pending : w'.pending = w.pending
  curve : w'.curve = w.curve
  unclosedSkipped : w'.unclosedSkipped = w.unclosedSkipped
  history : Held t a b w.history w'.history
  by_then : w.clock ≤ t

theorem Held.bars_eq {h h' : ClosedBarHistory} (hheld : Held t a b h h') {now : Timestamp}
    (hnow : now ≤ t) : h.bars now = h'.bars now := by
  funext i tf limit
  have hcut : ∀ series, closedBy now series = closedBy now (closedBy t series) := fun _ =>
    (closedBy_closedBy hnow).symm
  rw [ClosedBarHistory.bars, ClosedBarHistory.bars, hcut, hcut (h'.series i tf), hheld.closed i tf]

theorem Held.record {h h' : ClosedBarHistory} (hheld : Held t a b h h') (hagree : a.AgreeUntil t b)
    (hbar : bar ∈ a.bars bar.instrumentId bar.timeframe) (hclosed : bar.closesAt ≤ t) :
    Held t a b (h.record bar) (h'.record bar) := by
  have hbar' := (hagree.mem_iff hclosed).1 hbar
  have hsame : ∀ i tf, tf ≠ .d1 → (h.record bar).series i tf = (h'.record bar).series i tf :=
    fun i tf htf => by
      change (if _ then newest h.maxBars (insertBar bar (h.series i tf)) else h.series i tf) =
        if _ then newest h'.maxBars (insertBar bar (h'.series i tf)) else h'.series i tf
      rw [hheld.same i tf htf, hheld.maxBars]
  refine ⟨hheld.maxBars, hheld.left.record hbar, hheld.right.record hbar', fun i tf => ?_, hsame,
    hheld.fits, hheld.fits'⟩
  by_cases htf : tf = .d1
  · subst htf
    rw [closedBy_record hheld.left hbar (hheld.fits i), closedBy_record hheld.right hbar'
      (hheld.maxBars ▸ hheld.fits' i), hheld.closed i .d1]
  · rw [hsame i tf htf]

namespace Alike

variable {w w' : ReplayWorld σ}

theorem sight_eq (h : Alike t a b w w') : w'.sight = w.sight := by
  rw [ReplayWorld.sight, ReplayWorld.sight, h.clock, h.history.bars_eq h.by_then]

theorem until_eq (h : Alike t a b w w') : w.until t = w'.until t := by
  rw [ReplayWorld.until, ReplayWorld.until, h.flow, h.clock, h.planned, h.pending, h.curve,
    h.unclosedSkipped]
  congr 1
  funext now i tf limit
  split_ifs with hnow
  · rw [h.history.bars_eq hnow]
  · rfl

/-- The same change to both. -/
theorem withFlow (h : Alike t a b w w') (flow : FlowWorld σ) :
    Alike t a b { w with flow } { w' with flow } :=
  ⟨rfl, h.clock, h.planned, h.pending, h.curve, h.unclosedSkipped, h.history, h.by_then⟩

theorem withPlanned (h : Alike t a b w w') (planned : List (ℤ × String)) :
    Alike t a b { w with planned } { w' with planned } :=
  ⟨h.flow, h.clock, rfl, h.pending, h.curve, h.unclosedSkipped, h.history, h.by_then⟩

theorem withPending (h : Alike t a b w w') (pending : Option Timestamp) :
    Alike t a b { w with pending } { w' with pending } :=
  ⟨h.flow, h.clock, h.planned, rfl, h.curve, h.unclosedSkipped, h.history, h.by_then⟩

theorem syncTo (h : Alike t a b w w') {moment : Timestamp} (hmoment : moment ≤ t) :
    Alike t a b (w.syncTo moment) (w'.syncTo moment) :=
  ⟨h.flow, congrArg (max · moment) h.clock, h.planned, h.pending, h.curve, h.unclosedSkipped, h.history,
    max_le h.by_then hmoment⟩

theorem queued (h : Alike t a b w w') (outcome : BrokerOutcome) :
    Turn.Alike (Alike t a b) (w.queued outcome) (w'.queued outcome) := by
  unfold ReplayWorld.queued
  cases outcome.error with
  | some error => exact rfl
  | none =>
      rw [h.flow]
      exact Turn.alike_pure (h.withFlow _)

end Alike

section Runs

variable [DecimalContext] {plugs : EnginePlugs σ} {fuel : ℕ} {w w' : ReplayWorld σ}

namespace StrategyRunner

omit [DecimalContext] in
theorem partsAt_alike (h : Alike t a b w w') : partsAt plugs w' = partsAt plugs w := by
  rw [partsAt, partsAt, h.sight_eq, h.planned]

omit [DecimalContext] in
/-- What is done to the flow alone is done to both. -/
theorem flowed_alike (h : Alike t a b w w') (x : Turn (FlowWorld σ)) :
    Turn.Alike (Alike t a b) (do let flow ← x; pure { w with flow })
      (do let flow ← x; pure { w' with flow }) := by
  refine Turn.alike_bind (Turn.alike_refl x) fun flow flow' hflow => ?_
  subst hflow
  exact Turn.alike_pure (h.withFlow flow)

omit [DecimalContext] in
theorem start_alike (h : Alike t a b w w') :
    Turn.Alike (Alike t a b) (start plugs w) (start plugs w') := by
  unfold start
  rw [h.flow, h.sight_eq]
  split_ifs
  · exact Turn.alike_pure (h.withFlow _)
  · exact rfl

theorem endSession_alike (h : Alike t a b w w') :
    Turn.Alike (Alike t a b) (endSession plugs w) (endSession plugs w') := by
  unfold endSession
  rw [h.flow, h.sight_eq, partsAt_alike h]
  split_ifs
  · dsimp only
    split_ifs
    · exact Turn.alike_pure (h.withFlow _)
    · exact flowed_alike h _
  · exact Turn.alike_pure h

omit [DecimalContext] in
theorem beginSession_alike (h : Alike t a b w w') :
    Alike t a b (beginSession w) (beginSession w') := by
  unfold beginSession
  rw [h.flow]
  split_ifs
  · exact h.withFlow _
  · exact h

theorem deliver_alike (h : Alike t a b w w') {bar : Candle} :
    Turn.Alike (Alike t a b) (deliver plugs bar w) (deliver plugs bar w') := by
  unfold deliver
  rw [h.flow, h.sight_eq, partsAt_alike h]
  exact flowed_alike h _

/-- **The bar is handed over**, and recorded. -/
theorem handle_alike (h : Alike t a b w w') (hagree : a.AgreeUntil t b) {bar : Candle}
    (hbar : bar ∈ a.bars bar.instrumentId bar.timeframe) (hclosed : bar.closesAt ≤ t) :
    Turn.Alike (Alike t a b) (handle plugs bar w) (handle plugs bar w') := by
  unfold handle
  rw [h.flow]
  split_ifs
  · dsimp only
    have hsync := h.syncTo hclosed
    rw [hsync.clock]
    split_ifs
    · refine Turn.alike_pure ?_
      exact ⟨hsync.flow, rfl, hsync.planned, hsync.pending, hsync.curve,
        congrArg (· + 1) hsync.unclosedSkipped, hsync.history, hsync.by_then⟩
    · refine deliver_alike ?_
      exact ⟨hsync.flow, rfl, hsync.planned, hsync.pending, hsync.curve, hsync.unclosedSkipped,
        hsync.history.record hagree hbar hclosed, hsync.by_then⟩
  · exact Turn.alike_pure h

end StrategyRunner

namespace BacktestSession

theorem settle_alike (h : Alike t a b w w') :
    Turn.Alike (Alike t a b) (settle plugs fuel w) (settle plugs fuel w') := by
  unfold settle
  rw [h.flow, StrategyRunner.partsAt_alike h]
  exact StrategyRunner.flowed_alike h _

theorem cancelEach_alike {ids : List String} (h : Alike t a b w w') :
    Turn.Alike (Alike t a b) (cancelEach ids w) (cancelEach ids w') := by
  induction ids generalizing w w' with
  | nil => exact Turn.alike_pure h
  | cons id rest ih =>
      rw [cancelEach, cancelEach, h.flow, h.clock]
      exact Turn.alike_bind (h.queued _) fun _ _ hr => ih hr

theorem submitSystem_alike {signal : Signal} (h : Alike t a b w w') :
    Turn.Alike (Alike t a b) (submitSystem plugs signal w) (submitSystem plugs signal w') := by
  unfold submitSystem
  rw [h.flow, StrategyRunner.partsAt_alike h]
  exact StrategyRunner.flowed_alike h _

theorem squareOffIfDue_alike {bar : Candle} (h : Alike t a b w w') :
    Turn.Alike (Alike t a b) (squareOffIfDue plugs fuel bar w) (squareOffIfDue plugs fuel bar w') := by
  unfold squareOffIfDue
  rw [h.flow, h.planned]
  dsimp only
  split_ifs
  · refine Turn.alike_bind (Turn.alike_refl _) fun exit exit' hexit => ?_
    subst hexit
    refine Turn.alike_bind (cancelEach_alike ((h.withFlow w.flow).withPlanned _)) fun _ _ hr => ?_
    exact Turn.alike_bind (submitSystem_alike hr) fun _ _ hr => settle_alike hr
  · exact Turn.alike_pure h

theorem recordPoint_alike {moment : Timestamp} (h : Alike t a b w w') :
    Alike t a b (recordPoint moment w) (recordPoint moment w') := by
  unfold recordPoint
  rw [h.flow, h.curve]
  exact ⟨rfl, h.clock, h.planned, rfl, rfl, h.unclosedSkipped, h.history, h.by_then⟩

theorem pointBefore_alike {bar : Candle} (h : Alike t a b w w') :
    Alike t a b (pointBefore bar w) (pointBefore bar w') := by
  unfold pointBefore
  rw [h.pending]
  split
  · split_ifs
    · exact recordPoint_alike h
    · exact h
  · exact h

theorem beforeBar_alike {bar : Candle} (h : Alike t a b w w') :
    Turn.Alike (Alike t a b) (beforeBar plugs fuel bar w) (beforeBar plugs fuel bar w') := by
  unfold beforeBar
  refine Turn.alike_bind (settle_alike (pointBefore_alike h)) fun w₁ w₁' h₁ => ?_
  rw [h₁.flow, h₁.clock]
  refine Turn.alike_bind (h₁.queued _) fun w₂ w₂' h₂ => ?_
  refine Turn.alike_bind (settle_alike h₂) fun w₃ w₃' h₃ => ?_
  rw [h₃.flow]
  exact squareOffIfDue_alike ((h₃.withFlow _).withPending _)

theorem expire_alike (h : Alike t a b w w') :
    Turn.Alike (Alike t a b) (expire w) (expire w') := by
  unfold expire
  rw [h.flow, h.clock]
  exact h.queued _

theorem squareOffEach_alike {positions : List Position} (h : Alike t a b w w') :
    Turn.Alike (Alike t a b) (squareOffEach plugs positions w) (squareOffEach plugs positions w') := by
  induction positions generalizing w w' with
  | nil => exact Turn.alike_pure h
  | cons position rest ih =>
      rw [squareOffEach, squareOffEach, h.flow, h.clock]
      refine Turn.alike_bind (Turn.alike_refl _) fun last last' hlast => ?_
      subst hlast
      refine Turn.alike_bind (Turn.alike_refl _) fun price price' hprice => ?_
      subst hprice
      exact Turn.alike_bind (h.queued _) fun _ _ hr => ih hr

theorem sessionEnding_alike (h : Alike t a b w w') :
    Turn.Alike (Alike t a b) (sessionEnding plugs fuel w) (sessionEnding plugs fuel w') := by
  unfold sessionEnding
  refine Turn.alike_bind (settle_alike h) fun w₁ w₁' h₁ => ?_
  refine Turn.alike_bind (expire_alike h₁) fun w₂ w₂' h₂ => ?_
  refine Turn.alike_bind (settle_alike h₂) fun w₃ w₃' h₃ => ?_
  rw [h₃.flow]
  exact Turn.alike_bind (squareOffEach_alike h₃) fun _ _ hr => settle_alike hr

theorem sessionClosed_alike (h : Alike t a b w w') :
    Turn.Alike (Alike t a b) (sessionClosed plugs fuel w) (sessionClosed plugs fuel w') := by
  unfold sessionClosed
  refine Turn.alike_bind (settle_alike h) fun w₁ w₁' h₁ => ?_
  refine Turn.alike_bind (expire_alike h₁) fun w₂ w₂' h₂ => ?_
  refine Turn.alike_bind (settle_alike h₂) fun w₃ w₃' h₃ => ?_
  rw [h₃.pending]
  split
  · exact Turn.alike_pure (recordPoint_alike h₃)
  · exact Turn.alike_pure h₃

end BacktestSession

namespace BarReplay

theorem closeSession_alike (h : Alike t a b w w') :
    Turn.Alike (Alike t a b) (closeSession plugs fuel w) (closeSession plugs fuel w') := by
  refine Turn.alike_bind ?_ fun _ _ hr => Turn.alike_pure (StrategyRunner.beginSession_alike hr)
  refine Turn.alike_bind (BacktestSession.sessionEnding_alike h) fun w₁ w₁' h₁ => ?_
  exact Turn.alike_bind (StrategyRunner.endSession_alike h₁) fun _ _ hr =>
    BacktestSession.sessionClosed_alike hr

theorem changeDay_alike {bar : Candle} {day : Option ℤ} (h : Alike t a b w w') :
    Turn.Alike (Alike t a b) (changeDay plugs fuel bar day w) (changeDay plugs fuel bar day w') := by
  unfold changeDay
  split_ifs
  · exact closeSession_alike h
  · exact Turn.alike_pure h

/-- **One bar**, that both stores have and that closed by then. -/
theorem handleBar_alike {bar : Candle} {day : Option ℤ} (h : Alike t a b w w')
    (hagree : a.AgreeUntil t b) (hbar : bar ∈ a.bars bar.instrumentId bar.timeframe)
    (hclosed : bar.closesAt ≤ t) :
    Turn.Alike (fun s s' => s'.1 = s.1 ∧ Alike t a b s.2 s'.2) (handleBar plugs fuel bar day w)
      (handleBar plugs fuel bar day w') := by
  refine Turn.alike_bind (changeDay_alike h) fun w₁ w₁' h₁ => ?_
  refine Turn.alike_bind (BacktestSession.beforeBar_alike (h₁.syncTo hclosed)) fun w₂ w₂' h₂ => ?_
  exact Turn.alike_bind (StrategyRunner.handle_alike h₂ hagree hbar hclosed) fun _ _ hr =>
    Turn.alike_pure ⟨rfl, hr⟩

/-- **Bars that both stores have.** -/
theorem handleBars_alike {bars : List Candle} {s s' : Option ℤ × ReplayWorld σ} (hday : s'.1 = s.1)
    (h : Alike t a b s.2 s'.2) (hagree : a.AgreeUntil t b)
    (hbars : ∀ bar ∈ bars, bar ∈ a.bars bar.instrumentId bar.timeframe ∧ bar.closesAt ≤ t) :
    Turn.Alike (fun s s' => s'.1 = s.1 ∧ Alike t a b s.2 s'.2) (handleBars plugs fuel bars s)
      (handleBars plugs fuel bars s') := by
  induction bars generalizing s s' with
  | nil => exact Turn.alike_pure ⟨hday, h⟩
  | cons bar rest ih =>
      obtain ⟨hbar, hclosed⟩ := hbars bar (List.mem_cons_self ..)
      obtain ⟨day, w⟩ := s
      obtain ⟨day', w'⟩ := s'
      subst hday
      refine Turn.alike_bind (handleBar_alike h hagree hbar hclosed) fun _ _ hr => ?_
      exact ih hr.1 hr.2 fun bar hbar => hbars bar (List.mem_cons_of_mem _ hbar)

end BarReplay

end Runs

/-! ## Before the first bar -/

namespace BacktestEngine

variable {spec : BacktestSpec}

theorem warm_eq (hagree : a.AgreeUntil t b) (hstart : spec.feed.window.start ≤ t) (i : String) :
    WarmupLoader.warm spec a.getRange i = WarmupLoader.warm spec b.getRange i := by
  unfold WarmupLoader.warm
  dsimp only
  rw [← closedBy_closedBy hstart, hagree.closedBy_getRange, closedBy_closedBy hstart]

theorem load_eq (hagree : a.AgreeUntil t b) (hstart : spec.feed.window.start ≤ t) :
    WarmupLoader.load spec a.getRange = WarmupLoader.load spec b.getRange := by
  unfold WarmupLoader.load
  rw [funext (warm_eq hagree hstart)]

theorem mem_load {store : CandleStore} (h : bar ∈ WarmupLoader.load spec store.getRange) :
    bar ∈ store.bars bar.instrumentId bar.timeframe := by
  unfold WarmupLoader.load at h
  split at h
  · cases h
  · obtain ⟨i, -, hwarm⟩ := List.mem_flatMap.1 ((List.mem_insertionSort _).1 h)
    have hclosed := (List.mem_insertionSort _).1 (newest_sublist.subset hwarm)
    exact store.mem_of_mem (CandleSource.mem_getRange.1 (List.mem_of_mem_filter hclosed)).1

theorem closedBy_dailyBars (hagree : a.AgreeUntil t b) :
    closedBy t (dailyBars spec a.getRange) = closedBy t (dailyBars spec b.getRange) := by
  unfold dailyBars
  rw [closedBy, closedBy, List.filter_flatMap, List.filter_flatMap]
  congr 1
  funext i
  exact hagree.closedBy_getRange

theorem mem_dailyBars {store : CandleStore} (h : bar ∈ dailyBars spec store.getRange) :
    bar ∈ store.bars bar.instrumentId bar.timeframe ∧ bar.timeframe = .d1 := by
  obtain ⟨i, -, hbar⟩ := List.mem_flatMap.1 h
  have hmem := (CandleSource.mem_getRange.1 hbar).1
  exact ⟨store.mem_of_mem hmem, store.of_timeframe i .d1 bar hmem⟩

/-- **What is read before the run.** The days to come are among it, and do
not show. -/
theorem prepare_alike {outside : σ} (hagree : a.AgreeUntil t b) (hstart : spec.feed.window.start ≤ t)
    (ha : a.Fits spec.maxBars) (hb : b.Fits spec.maxBars) :
    Alike t a b (prepare spec a.getRange outside) (prepare spec b.getRange outside) := by
  have hnew : ∀ store : CandleStore, (ClosedBarHistory.new spec.maxBars).Drawn store.bars := fun _ =>
    ⟨fun _ _ => ⟨.nil, fun _ hb => (List.not_mem_nil hb).elim⟩, fun _ _ _ hb => (List.not_mem_nil hb).elim⟩
  have hread : ∀ store : CandleStore, ∀ bar ∈ WarmupLoader.load spec store.getRange ++
      dailyBars spec store.getRange, bar ∈ store.bars bar.instrumentId bar.timeframe :=
    fun store bar hbar => (List.mem_append.1 hbar).elim mem_load fun h => (mem_dailyBars h).1
  have hsame : ∀ i tf, tf ≠ .d1 →
      (prepare spec a.getRange outside).history.series i tf =
        (prepare spec b.getRange outside).history.series i tf := fun i tf htf => by
    change ((ClosedBarHistory.new spec.maxBars).recordAll _).series i tf =
      ((ClosedBarHistory.new spec.maxBars).recordAll _).series i tf
    have hother : ∀ store : CandleStore, ∀ bar ∈ dailyBars spec store.getRange, bar.timeframe ≠ tf :=
      fun store bar hbar => (mem_dailyBars hbar).2 ▸ htf.symm
    rw [recordAll_append, recordAll_append, series_recordAll_of_ne (hother a),
      series_recordAll_of_ne (hother b), load_eq hagree hstart]
  refine ⟨rfl, rfl, rfl, rfl, rfl, rfl, ⟨?_, (hnew a).recordAll (hread a), (hnew b).recordAll (hread b),
    fun i tf => ?_, hsame, ?_, ?_⟩, hstart⟩
  · exact (maxBars_recordAll ..).trans (maxBars_recordAll ..).symm
  · by_cases htf : tf = .d1
    · subst htf
      change closedBy t (((ClosedBarHistory.new spec.maxBars).recordAll _).series i .d1) =
        closedBy t (((ClosedBarHistory.new spec.maxBars).recordAll _).series i .d1)
      rw [closedBy_recordAll (hnew a) (hread a) (ha i), closedBy_recordAll (hnew b) (hread b) (hb i),
        load_eq hagree hstart, closedBy_append, closedBy_append, closedBy_dailyBars hagree]
    · rw [hsame i tf htf]
  · exact (maxBars_recordAll (ClosedBarHistory.new spec.maxBars) _).symm ▸ ha
  · exact (maxBars_recordAll (ClosedBarHistory.new spec.maxBars) _).symm ▸ hb

/-! ## What the feeds serve until then -/

/-- Where an ordered list passes a moment. -/
theorem exists_prefix {feed : ClosedBarFeed} {served : List Candle} (t : Timestamp)
    (hordered : served.Pairwise feed.Before) (htf : ∀ bar ∈ served, bar.timeframe = feed.timeframe) :
    ∃ seen rest, served = seen ++ rest ∧ (∀ bar ∈ seen, bar.closesAt ≤ t) ∧
      ∀ bar ∈ rest, t < bar.closesAt := by
  induction served with
  | nil => exact ⟨[], [], rfl, fun _ h => (List.not_mem_nil h).elim, fun _ h => (List.not_mem_nil h).elim⟩
  | cons first served ih =>
      obtain ⟨hfirst, hserved⟩ := List.pairwise_cons.1 hordered
      obtain hclosed | hopen := le_or_gt first.closesAt t
      · obtain ⟨seen, rest, rfl, hseen, hrest⟩ := ih hserved fun bar hbar =>
          htf bar (List.mem_cons_of_mem _ hbar)
        exact ⟨first :: seen, rest, rfl, List.forall_mem_cons.2 ⟨hclosed, hseen⟩, hrest⟩
      · -- the bars behind the first close no earlier
        refine ⟨[], first :: served, rfl, fun _ h => (List.not_mem_nil h).elim,
          List.forall_mem_cons.2 ⟨hopen, fun bar hbar => ?_⟩⟩
        have hbefore := hfirst bar hbar
        have htf₁ := htf first (List.mem_cons_self ..)
        have htf₂ := htf bar (List.mem_cons_of_mem _ hbar)
        rw [Candle.closesAt, htf₁] at hopen
        rw [Candle.closesAt, htf₂]
        simp only [ClosedBarFeed.Before, Timestamp] at *
        omega

/-- **The feeds serve the same bars until then.** -/
theorem exists_seen {feed : ClosedBarFeed} (hagree : a.AgreeUntil t b) (ha : feed.Serves a)
    (hb : feed.Serves b) : ∃ seen rest rest', feed.iterate a.getRange false = (seen ++ rest, none) ∧
      feed.iterate b.getRange false = (seen ++ rest', none) ∧
      (∀ bar ∈ seen, bar ∈ a.bars bar.instrumentId bar.timeframe ∧ bar.closesAt ≤ t) ∧
      ∀ bar ∈ rest ++ rest', t < bar.closesAt := by
  obtain ⟨served, hserved, hordered, hmem⟩ := ha
  obtain ⟨served', hserved', hordered', hmem'⟩ := hb
  have htf : ∀ (store : CandleStore) (bar : Candle), feed.Wanted store bar →
      bar.timeframe = feed.timeframe := fun store bar hbar => store.of_timeframe _ _ _ hbar.2.1
  obtain ⟨seen, rest, rfl, hseen, hrest⟩ := exists_prefix t hordered fun bar hbar =>
    htf a bar ((hmem bar).1 hbar)
  obtain ⟨seen', rest', rfl, hseen', hrest'⟩ := exists_prefix t hordered' fun bar hbar =>
    htf b bar ((hmem' bar).1 hbar)
  have hsplit : ∀ {l l' : List Candle}, (∀ bar ∈ l, bar.closesAt ≤ t) → (∀ bar ∈ l', t < bar.closesAt) →
      ∀ bar, bar ∈ l ↔ bar ∈ l ++ l' ∧ bar.closesAt ≤ t := fun hl hl' bar =>
    ⟨fun h => ⟨List.mem_append_left _ h, hl bar h⟩, fun ⟨h, hclosed⟩ =>
      (List.mem_append.1 h).resolve_right fun h => (hl' bar h).not_ge hclosed⟩
  have hsame : seen' = seen := by
    refine ClosedBarFeed.served_unique feed (List.pairwise_append.1 hordered').1
      (List.pairwise_append.1 hordered).1 fun bar => ?_
    rw [hsplit hseen hrest, hsplit hseen' hrest', hmem, hmem']
    refine and_congr_left fun hclosed => ?_
    rw [ClosedBarFeed.Wanted, ClosedBarFeed.Wanted, hagree.mem_iff hclosed]
  subst hsame
  refine ⟨seen', rest, rest', hserved, hserved', fun bar hbar => ⟨?_, hseen bar hbar⟩, fun bar hbar =>
    (List.mem_append.1 hbar).elim (hrest bar) (hrest' bar)⟩
  exact a.mem_of_mem ((hmem bar).1 (List.mem_append_left _ hbar)).2.1

/-- **No hindsight.** Two runs over stores that agree on the bars closed by a
moment are served the same bars until then, and once these were handled are
the same in everything they show: the orders, fills and cancels at the
exchange, the portfolio and its curve, the strategy, and every answer of the
history until then. -/
theorem no_hindsight [DecimalContext] (plugs : EnginePlugs σ) (fuel : ℕ) (spec : BacktestSpec)
    (outside : σ) (t : Timestamp) (a b : CandleStore) (hagree : a.AgreeUntil t b)
    (hstart : spec.feed.window.start ≤ t) (ha : spec.feed.Serves a) (hb : spec.feed.Serves b)
    (hfits : a.Fits spec.maxBars) (hfits' : b.Fits spec.maxBars) :
    ∃ seen rest rest', spec.feed.iterate a.getRange false = (seen ++ rest, none) ∧
      spec.feed.iterate b.getRange false = (seen ++ rest', none) ∧
      (∀ bar ∈ seen, bar.closesAt ≤ t) ∧ (∀ bar ∈ rest ++ rest', t < bar.closesAt) ∧
      (fun s => (s.1, s.2.until t)) <$> reach plugs fuel spec a.getRange outside seen =
        (fun s => (s.1, s.2.until t)) <$> reach plugs fuel spec b.getRange outside seen := by
  obtain ⟨seen, rest, rest', hserved, hserved', hseen, hrest⟩ := exists_seen hagree ha hb
  refine ⟨seen, rest, rest', hserved, hserved', fun bar hbar => (hseen bar hbar).2, hrest, ?_⟩
  refine Turn.map_eq_of_alike (Turn.alike_bind (StrategyRunner.start_alike
    (prepare_alike hagree hstart hfits hfits')) fun w w' hw =>
      BarReplay.handleBars_alike rfl hw hagree hseen) fun s s' hs => ?_
  rw [hs.1, hs.2.until_eq]

end BacktestEngine

/-! Two stores of one bar more and less. -/

namespace BacktestEngine

namespace OneBuyer

theorem dear_le : (⟨120⟩ : Money) ≤ ⟨120⟩ := le_rfl

/-- A bar that only one of the stores has. -/
def later : Candle :=
  ⟨"NSE:RELIANCE", .m5, 20454 * day + 230 * minute, ⟨120⟩, ⟨120⟩, ⟨120⟩, ⟨120⟩, 1, false, dear_le, dear_le,
    dear_le, dear_le⟩

def bars (i : String) (tf : Timeframe) : List Candle :=
  if i = later.instrumentId ∧ tf = later.timeframe then [ClosedBarFeed.NewYear.bar, later] else []

theorem oldest_first (i : String) (tf : Timeframe) : (bars i tf).Pairwise (·.ts < ·.ts) := by
  unfold bars
  split_ifs
  · decide
  · exact .nil

theorem of_key {i : String} {tf : Timeframe} {c : Candle} (h : c ∈ bars i tf) :
    c.instrumentId = i ∧ c.timeframe = tf ∧ c.closesAt ≤ latest := by
  unfold bars at h
  split_ifs at h with hkey
  · obtain ⟨rfl, rfl⟩ := hkey
    revert c
    decide
  · cases h

def twoBars : CandleStore :=
  ⟨⟨bars, oldest_first, fun _ _ _ h => (of_key h).1⟩, fun _ _ _ h => (of_key h).2.1⟩

theorem agree : ClosedBarFeed.NewYear.oneBar.AgreeUntil (20454 * day + 230 * minute) twoBars := by
  intro i tf
  change closedBy _ (ClosedBarFeed.NewYear.bars i tf) = closedBy _ (bars i tf)
  unfold ClosedBarFeed.NewYear.bars bars
  change closedBy _ (if i = later.instrumentId ∧ tf = later.timeframe then _ else _) = _
  split_ifs
  · decide
  · rfl

theorem twoBars_serves : ClosedBarFeed.NewYear.hourly.Serves twoBars :=
  ClosedBarFeed.serves_iff_inCalendar.2 ⟨by decide, fun _ _ _ hbar _ _ => (of_key hbar).2.2⟩

theorem start_le : spec.feed.window.start ≤ 20454 * day + 230 * minute := by decide

theorem oneBar_fits : ClosedBarFeed.NewYear.oneBar.Fits 10 := fun i => by
  change (ClosedBarFeed.NewYear.bars i .d1).length ≤ 10
  unfold ClosedBarFeed.NewYear.bars
  split_ifs <;> decide

theorem twoBars_fits : twoBars.Fits 10 := fun i => by
  change (bars i .d1).length ≤ 10
  unfold bars
  split_ifs <;> decide

end OneBuyer

open OneBuyer in
/-- The second bar of the one store does not show until it closes. -/
theorem no_hindsight_sample : ∃ seen rest rest',
    spec.feed.iterate ClosedBarFeed.NewYear.oneBar.getRange false = (seen ++ rest, none) ∧
      spec.feed.iterate twoBars.getRange false = (seen ++ rest', none) ∧
      (∀ bar ∈ seen, bar.closesAt ≤ 20454 * day + 230 * minute) ∧
      (∀ bar ∈ rest ++ rest', 20454 * day + 230 * minute < bar.closesAt) ∧
      (fun s => (s.1, s.2.until (20454 * day + 230 * minute))) <$>
          @reach _ Decimal.standard plugs 5 spec ClosedBarFeed.NewYear.oneBar.getRange false seen =
        (fun s => (s.1, s.2.until (20454 * day + 230 * minute))) <$>
          @reach _ Decimal.standard plugs 5 spec twoBars.getRange false seen :=
  @no_hindsight _ Decimal.standard plugs 5 spec false _ _ _ agree start_le
    ClosedBarFeed.NewYear.hourly_serves twoBars_serves oneBar_fits twoBars_fits

end BacktestEngine

end Emporos
