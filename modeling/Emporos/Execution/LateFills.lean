import Emporos.Execution.Alone
/-!
# Late fills

A fill that the broker reports after its order has come to an end is still
a fact. Of a cancelled order it is booked; of a rejected one it is refused
by a check made for transitions, and the exception ends the loop over the
trade book.
-/

namespace Emporos

open Async

namespace FillProcessor

variable {s : Store} {account : String} {o : OrderRecord} {trade : BrokerTrade}

/-- **Which fills the machine lets through.** A trade that fits a row of
the books always has a state to go to, unless the order was rejected. -/
theorem validate_filled (hb : o.Booked account) (haccepted : refuses o trade = false) :
    OrderStateMachine.validate o.state (targetState o (o.filledQuantity + trade.quantity))
      o.filledQuantity (o.filledQuantity + trade.quantity) o.quantity = .ok () ↔
    o.state ≠ .rejected := by
  obtain ⟨-, -, hle⟩ := refuses_eq_false.1 haccepted
  have hpos := trade.quantity_pos
  obtain ⟨-, hfull, -, -⟩ := hb.fits
  rw [OrderStateMachine.validate_eq_ok]
  constructor
  · rintro ⟨-, -, -, -, -, hzero⟩ hrejected
    have htarget : targetState o (o.filledQuantity + trade.quantity) = .rejected := by
      simp [targetState, hrejected, OrderState.terminal]
    have := hzero (Or.inr (Or.inr htarget))
    omega
  · intro hlive
    refine ⟨by omega, ?_⟩
    unfold targetState OrderStateMachine.Fits
    split_ifs with hterm hall hcancel
    · -- a fill after the end: only a cancelled order still has something left
      have hne : o.state ≠ .filled := fun hf => by have := hfull hf; omega
      cases hs : o.state <;> simp_all [OrderState.terminal, OrderState.allowedFrom]
    · refine ⟨?_, by simp [hall]⟩
      cases hs : o.state <;> simp_all [OrderState.terminal, OrderState.allowedFrom, OrderState.follows]
    · rw [hcancel]
      exact ⟨by simp [OrderState.allowedFrom], hle, by simp⟩
    · refine ⟨?_, hle, by simp, fun _ => by omega, by simp⟩
      cases hs : o.state <;> simp_all [OrderState.terminal, OrderState.allowedFrom, OrderState.follows]

/-- The trade has a price, and its charges can be told. -/
def Payable (charges : BrokerTrade → Except PyError Money) (trade : BrokerTrade) : Prop :=
  Money.zero < trade.price ∧ ∃ fees, charges trade = .ok fees ∧ ¬ fees < Money.zero

/-- The order, its fills and nothing else moved, by the trade. -/
structure Applied [DecimalContext] (s : Store) (o : OrderRecord) (trade : BrokerTrade)
    (s' : Store) : Prop where
  orders : ∃ now, s'.orders = Table.replace (·.id) (withFill o trade now).stored s.orders
  executions : ∃ e, s'.executions = s.executions ++ [e] ∧ e.brokerTradeId = trade.tradeId ∧
    e.orderId = o.id ∧ e.quantity = trade.quantity

end FillProcessor

/-- What the rest of the process owes the fill processor: an id no
execution has, and listeners that return. -/
structure Script.Obliging (y : Script) : Prop where
  ulid : ∀ w, ∃ id, y.outside w .newUlid = .ok id ∧ ∀ e ∈ w.store.executions, e.id ≠ id
  listened : ∀ w o e, y.outside w (.onFill o e) = .ok ()

namespace FillProcessor

variable [DecimalContext] {cfg : FillSettings} {y : Script} {t : ℕ} {w : World}
  {o : OrderRecord} {trade : BrokerTrade}

omit [DecimalContext] in
/-- The position a fill is folded into is of its instrument, whether it is
held or flat. -/
theorem ends_heldOrFlat {i : String} {held : Option PositionRecord}
    (hheld : ∀ p ∈ held, p.Booked cfg.accountId ∧ p.instrumentId = i) :
    Task.Ends (y.handle cfg.accountId t) (heldOrFlat cfg i held) (fun r w' => ∃ before,
      r = .ok before ∧ before.instrumentId = i ∧ before.accountId = cfg.accountId ∧
        before.id = cfg.accountId ++ ":" ++ before.instrumentId ∧ w'.store = w.store) w := by
  cases held with
  | none => exact ⟨_, rfl, rfl, rfl, rfl, rfl⟩
  | some p =>
      obtain ⟨hp, hi⟩ := hheld p rfl
      exact ⟨p, rfl, hi, hp.owner, hp.key, rfl⟩

/-- The trade can be booked on the order: it is payable, and the order was
not rejected. -/
def Bookable (charges : BrokerTrade → Except PyError Money) (o : OrderRecord)
    (trade : BrokerTrade) : Prop :=
  Payable charges trade ∧ o.state ≠ .rejected

/-- **A trade that can be booked is booked**, and any other raises and
changes nothing. -/
theorem ends_book (hs : w.store.Sound cfg.accountId) (hy : y.Obliging) (ho : o ∈ w.store.orders)
    (hnew : w.store.hasExecution trade.tradeId = false) (haccepted : refuses o trade = false) :
    Task.Ends (y.handle cfg.accountId t) (book cfg o trade) (fun r w' =>
      (Bookable cfg.charges o trade ∧ r = .ok .applied ∧ Applied w.store o trade w'.store ∧
        w'.store.Sound cfg.accountId) ∨
      (¬ Bookable cfg.charges o trade ∧ (∃ e, r = .error e) ∧ w'.store = w.store)) w := by
  have hvalid := validate_filled (hs.books.orders o ho) haccepted
  unfold book
  simp only [Task.ends_bind]
  refine Script.ends_now fun w₁ hw₁ => ?_
  obtain ⟨id, hid, hfresh⟩ := hy.ulid w₁
  refine Script.ends_outside rfl (by simp) hid fun w₂ hw₂ => ?_
  simp only [Program.lift, Task.ends_lift]
  cases hcharges : cfg.charges trade with
  | error e =>
      refine Or.inr ⟨fun hb => ?_, ⟨e, rfl⟩, hw₂.trans hw₁⟩
      obtain ⟨⟨-, fees, hfees, -⟩, -⟩ := hb
      rw [hcharges] at hfees
      cases hfees
  | ok fees =>
  refine Script.ends_served rfl fun w₃ hw₃ => ?_
  refine Script.ends_served rfl fun w₄ hw₄ => ?_
  have hread : w₃.store = w.store := hw₃.trans (hw₂.trans hw₁)
  refine (ends_heldOrFlat fun p hp => ?_).mono ?_
  · rw [hread] at hp
    obtain ⟨hmem, hof⟩ := Store.mem_of_position hp
    exact ⟨hs.books.positions p hmem, hof⟩
  rintro _ w₅ ⟨before, rfl, hbi, hba, hbid, hw₅⟩
  have hkept : w₅.store = w.store := hw₅.trans (hw₄.trans hread)
  -- what is written is computed from the store as it was at the start
  generalize he : executionOf cfg o trade id (y.clock w) fees
    (w₂.store.fillsThisSession cfg.accountId o.sessionDate) = e
  have howner : e.accountId = some cfg.accountId := by rw [← he]; rfl
  have hcalculated : (∃ q, PositionCalculator.apply before e = .ok q) ↔
      Payable cfg.charges trade := by
    rw [PositionCalculator.apply_isOk, ← he]
    constructor
    · rintro ⟨-, -, -, hprice, hfees⟩
      exact ⟨hprice, fees, hcharges, hfees⟩
    · rintro ⟨hprice, fees', hfees', hle⟩
      obtain rfl := Except.ok.inj (hcharges.symm.trans hfees')
      exact ⟨hbi.symm, congrArg some hba.symm, trade.quantity_pos, hprice, hle⟩
  simp only [Program.lift, filledOrder, Task.ends_bind, Task.ends_lift]
  cases hq : PositionCalculator.apply before e with
  | error err =>
      refine Or.inr ⟨fun hb => ?_, ⟨err, rfl⟩, hkept⟩
      obtain ⟨q, hok⟩ := hcalculated.2 hb.1
      rw [hq] at hok
      cases hok
  | ok q =>
  have hpay := hcalculated.1 ⟨q, hq⟩
  dsimp only
  cases hv : OrderStateMachine.validate o.state (targetState o (o.filledQuantity + trade.quantity))
      o.filledQuantity (o.filledQuantity + trade.quantity) o.quantity with
  | error err =>
      refine Or.inr ⟨fun hb => ?_, ⟨err, rfl⟩, hkept⟩
      rw [hvalid.2 hb.2] at hv
      cases hv
  | ok =>
  refine Script.ends_now fun w₆ hw₆ => ?_
  have hstore : w₆.store = w.store := hw₆.trans hkept
  have hfirst : ∀ x ∈ w.store.executions, x.id ≠ e.id ∧ x.brokerTradeId ≠ e.brokerTradeId := by
    intro x hx
    have hx' := List.any_eq_false.1 hnew x hx
    rw [decide_eq_true_eq] at hx'
    rw [← he]
    exact ⟨hfresh x (hw₁ ▸ hx), hx'⟩
  obtain ⟨seq, -, hrecord⟩ := hs.recordFill_eq (u := withFill o trade (y.clock w₅)) ho rfl
    howner hfirst (PositionCalculator.booked_of_apply ⟨hba, hbid⟩ hq)
  simp only [Task.pure_eq, Task.ends_done]
  refine Script.ends_recordFill (hstore ▸ hrecord) fun w₇ hw₇ => ?_
  simp only [Task.ends_bind]
  refine Script.ends_outside rfl (by simp) (hy.listened _ _ _) fun w₈ hw₈ => ?_
  have hend := hw₈.trans hw₇
  rw [hstore] at hend
  simp only [Task.ends_done]
  have hcur := Store.Sound.current ho
  have hbooks : Books cfg.accountId w₈.store := by
    rw [hend]
    exact hs.books.filled hcur rfl ((hs.books.orders o ho).withFill hcur haccepted
      (OrderStateMachine.validate_eq_ok.1 hv).2.2)
      (PositionCalculator.execution_booked_of_apply howner hq)
      (PositionCalculator.booked_of_apply ⟨hba, hbid⟩ hq) (by rw [← he]; rfl)
      (by rw [← he]; rfl) hfirst
  refine Or.inl ⟨⟨hpay, hvalid.1 hv⟩, trivial, ⟨⟨y.clock w₅, by rw [hend]⟩, e.stored, by rw [hend],
    ?_⟩, hs.of_replace (u := withFill o trade (y.clock w₅)) ho rfl (by rw [hend]) hbooks⟩
  rw [← he]
  exact ⟨rfl, rfl, rfl⟩

/-- The trade is new and fits the order it names, and cannot be booked on
it. -/
def Stuck (cfg : FillSettings) (s : Store) (trade : BrokerTrade) : Prop :=
  s.hasExecution trade.tradeId = false ∧
    ∃ o, s.byBrokerOrderId cfg.accountId trade.brokerOrderId = some o ∧
      refuses o trade = false ∧ ¬ Bookable cfg.charges o trade

/-- What becomes of a trade. -/
structure Processed (cfg : FillSettings) (s : Store) (trade : BrokerTrade)
    (r : Except PyError FillResult) (s' : Store) : Prop where
  sound : s'.Sound cfg.accountId
  stuck : Stuck cfg s trade → (∃ e, r = .error e) ∧ s' = s
  free : ¬ Stuck cfg s trade → ∃ result, r = .ok result
  booked : ∀ o, s.hasExecution trade.tradeId = false →
    s.byBrokerOrderId cfg.accountId trade.brokerOrderId = some o → refuses o trade = false →
    Bookable cfg.charges o trade → r = .ok .applied ∧ Applied s o trade s'

/-- A trade that is not written leaves the store. -/
theorem Processed.of_same {result : FillResult} {s s' : Store} (hs : s.Sound cfg.accountId)
    (hs' : s' = s) (hfree : ∀ o, s.hasExecution trade.tradeId = false →
      s.byBrokerOrderId cfg.accountId trade.brokerOrderId = some o → refuses o trade = true) :
    Processed cfg s trade (.ok result) s' where
  sound := hs' ▸ hs
  stuck := by
    rintro ⟨hnew, o, ho, haccepted, -⟩
    rw [hfree o hnew ho] at haccepted
    cases haccepted
  free := fun _ => ⟨result, rfl⟩
  booked := by
    intro o hnew ho haccepted
    rw [hfree o hnew ho] at haccepted
    cases haccepted

/-- **One attempt.** -/
theorem ends_attempt (hs : w.store.Sound cfg.accountId) (hy : y.Obliging) :
    Task.Ends (y.handle cfg.accountId t) (attempt cfg trade)
      (fun r w' => Processed cfg w.store trade r w'.store) w := by
  unfold attempt
  simp only [Task.ends_bind]
  refine Script.ends_served rfl fun w₁ hw₁ => ?_
  dsimp only
  by_cases hnew : w.store.hasExecution trade.tradeId
  · rw [if_pos hnew]
    exact .of_same hs hw₁ fun o hfresh => by rw [hnew] at hfresh; cases hfresh
  · rw [Bool.not_eq_true] at hnew
    rw [if_neg (by simp [hnew])]
    simp only [Task.ends_bind]
    refine Script.ends_served rfl fun w₂ hw₂ => ?_
    have hstore : w₂.store = w.store := hw₂.trans hw₁
    rw [hw₁]
    dsimp only
    cases ho : w.store.byBrokerOrderId cfg.accountId trade.brokerOrderId with
    | none => exact .of_same hs hstore fun o _ hsome => by rw [ho] at hsome; cases hsome
    | some o =>
        dsimp only
        by_cases haccepted : refuses o trade
        · rw [if_pos haccepted]
          refine .of_same hs hstore fun o' _ hsome => ?_
          obtain rfl := Option.some.inj (ho.symm.trans hsome)
          exact haccepted
        · rw [Bool.not_eq_true] at haccepted
          rw [if_neg (by simp [haccepted])]
          have hread := Store.mem_of_byBrokerOrderId ho
          refine (ends_book (hstore ▸ hs) hy (hstore ▸ hread.1) (hstore ▸ hnew) haccepted).mono ?_
          rw [hstore]
          rintro r w₃ (⟨hcan, rfl, happlied, hsound⟩ | ⟨hcannot, hraised, hsame⟩)
          · refine ⟨hsound, ?_, fun _ => ⟨_, rfl⟩, ?_⟩
            · rintro ⟨-, o', ho', -, hstuck⟩
              obtain rfl := Option.some.inj (ho.symm.trans ho')
              exact absurd hcan hstuck
            · intro o' _ ho' _ _
              obtain rfl := Option.some.inj (ho.symm.trans ho')
              exact ⟨rfl, happlied⟩
          · refine ⟨hsame ▸ hs, fun _ => ⟨hraised, hsame⟩, ?_, ?_⟩
            · exact fun hfree => absurd ⟨hnew, o, ho, haccepted, hcannot⟩ hfree
            · intro o' _ ho' _ hcan
              obtain rfl := Option.some.inj (ho.symm.trans ho')
              exact absurd hcan hcannot

/-- However often it is tried, a stuck trade stays stuck. -/
theorem ends_attempts_of_stuck (hs : w.store.Sound cfg.accountId) (hy : y.Obliging)
    (hstuck : Stuck cfg w.store trade) (n : ℕ) :
    Task.Ends (y.handle cfg.accountId t) (attempts cfg trade n)
      (fun r w' => (∃ e, r = .error e) ∧ w'.store = w.store) w := by
  induction n generalizing w with
  | zero => exact ⟨⟨_, rfl⟩, rfl⟩
  | succ n ih =>
      rw [attempts, Task.ends_bind, Task.ends_attempt]
      refine (ends_attempt hs hy).mono fun r w₁ hr => ?_
      obtain ⟨⟨e, rfl⟩, hw₁⟩ := hr.stuck hstuck
      dsimp only
      split
      · rename_i heq
        cases heq
      · refine (ih (hw₁ ▸ hs) (hw₁ ▸ hstuck)).mono fun r w₂ h => ?_
        exact ⟨h.1, h.2.trans hw₁⟩
      · exact ⟨⟨_, rfl⟩, hw₁⟩

/-- **What becomes of a trade** that is processed alone. -/
theorem ends_process (trade : BrokerTrade) (hs : w.store.Sound cfg.accountId) (hy : y.Obliging) :
    Task.Ends (y.handle cfg.accountId t) (process cfg trade)
      (fun r w' => Processed cfg w.store trade r w'.store) w := by
  by_cases hstuck : Stuck cfg w.store trade
  · refine (ends_attempts_of_stuck hs hy hstuck 3).mono fun r w' h => ?_
    obtain ⟨hraised, hsame⟩ := h
    refine ⟨hsame ▸ hs, fun _ => ⟨hraised, hsame⟩, fun hfree => absurd hstuck hfree, ?_⟩
    intro o hnew ho haccepted hcan
    obtain ⟨-, o', ho', -, hcannot⟩ := hstuck
    obtain rfl := Option.some.inj (ho.symm.trans ho')
    exact absurd hcan hcannot
  · unfold process
    rw [attempts, Task.ends_bind, Task.ends_attempt]
    refine (ends_attempt hs hy).mono fun r w₁ hr => ?_
    obtain ⟨result, rfl⟩ := hr.free hstuck
    exact hr

/-- A trade is processed unless it is stuck. -/
theorem returns_process (hs : w.store.Sound cfg.accountId) (hy : y.Obliging) :
    Task.Returns (y.handle cfg.accountId t) (process cfg trade) w ↔
      ¬ Stuck cfg w.store trade := by
  have hp := ends_process (t := t) trade hs hy
  constructor
  · rintro ⟨result, hok⟩ hstuck
    obtain ⟨⟨e, he⟩, -⟩ := Processed.stuck hp hstuck
    rw [hok] at he
    cases he
  · exact Processed.free hp

end FillProcessor

namespace FillSynchroniser

variable [DecimalContext] {cfg : FillSettings} {y : Script} {t : ℕ} {w : World}

/-- How many trades a result counts. -/
def total (counts : SyncResult) : ℕ :=
  counts.applied + counts.duplicates + counts.unattributed + counts.refused

omit [DecimalContext] in
theorem total_count (counts : SyncResult) (r : FillResult) :
    total (counts.count r) = total counts + 1 := by
  cases r <;> simp only [total, SyncResult.count] <;> omega

/-- **The loop returns if every trade does when its turn comes.** -/
theorem returns_processAll {l : List BrokerTrade} (counts : SyncResult) :
    Task.Returns (y.handle cfg.accountId t) (processAll cfg l counts) w ↔
      ∀ p ∈ Task.turns (y.handle cfg.accountId t) (FillProcessor.process cfg) l w,
        Task.Returns (y.handle cfg.accountId t) (FillProcessor.process cfg p.1) p.2 := by
  induction l generalizing counts w with
  | nil => simp [processAll]
  | cons trade rest ih =>
      rw [processAll, Task.returns_bind, Task.turns_cons, List.forall_mem_cons]
      simp only [ih]
      exact ⟨fun ⟨result, hok, hrest⟩ => ⟨⟨result, hok⟩, hrest⟩,
        fun ⟨⟨result, hok⟩, hrest⟩ => ⟨result, hok, hrest⟩⟩

/-- A loop that returns has counted every trade. -/
theorem total_processAll {l : List BrokerTrade} {counts : SyncResult} {w' : World}
    {counts' : SyncResult}
    (h : (processAll cfg l counts).exec (y.handle cfg.accountId t) w = (.ok counts', w')) :
    total counts' = total counts + l.length := by
  induction l generalizing counts w with
  | nil =>
      obtain ⟨hcounts, -⟩ := Prod.mk.inj h
      obtain rfl := Except.ok.inj hcounts
      rfl
  | cons trade rest ih =>
      rw [processAll, Task.exec_bind] at h
      rcases hp : (FillProcessor.process cfg trade).exec (y.handle cfg.accountId t) w with ⟨e | r, w₁⟩
      · rw [hp] at h
        cases h
      · rw [hp] at h
        rw [ih h, total_count, List.length_cons]
        omega

/-- A synchronisation is reading the book and processing its trades. -/
theorem ends_sync {book : List BrokerTrade} (hbook : y.outside w .tradeBook = .ok book)
    {Q : Except PyError SyncResult → World → Prop} :
    Task.Ends (y.handle cfg.accountId t) (sync cfg) Q w ↔
      Task.Ends (y.handle cfg.accountId t) (processAll cfg (book.insertionSort earlier)
        SyncResult.zero) Q (y.handle cfg.accountId t .tradeBook w).2 := by
  have hanswer : (Program.await .tradeBook).exec (y.handle cfg.accountId t) w =
      (.ok book, (y.handle cfg.accountId t .tradeBook w).2) := Prod.ext hbook rfl
  unfold sync Task.Ends
  rw [Task.exec_bind, hanswer]

/-- **A synchronisation processes its whole book** unless a trade is stuck
when its turn comes. -/
theorem ends_sync_iff {book : List BrokerTrade} (hs : w.store.Sound cfg.accountId)
    (hy : y.Obliging) (hbook : y.outside w .tradeBook = .ok book) :
    Task.Ends (y.handle cfg.accountId t) (sync cfg)
      (fun r _ => ∃ counts, r = .ok counts ∧ total counts = book.length) w ↔
    ∀ p ∈ Task.turns (y.handle cfg.accountId t) (FillProcessor.process cfg)
        (book.insertionSort earlier) (y.handle cfg.accountId t .tradeBook w).2,
      ¬ FillProcessor.Stuck cfg p.2.store p.1 := by
  have hsound : ∀ p ∈ Task.turns (y.handle cfg.accountId t) (FillProcessor.process cfg)
      (book.insertionSort earlier) (y.handle cfg.accountId t .tradeBook w).2,
      p.2.store.Sound cfg.accountId := by
    intro p hp
    obtain ⟨-, hsound⟩ := Task.turns_invariant (J := fun _ w => w.store.Sound cfg.accountId)
      (fun trade _ w hw => (FillProcessor.ends_process trade hw hy).sound) hs hp
    exact hsound
  have hturns := @returns_processAll _ cfg y t
    (w := (y.handle cfg.accountId t .tradeBook w).2) (l := book.insertionSort earlier) .zero
  rw [ends_sync hbook]
  constructor
  · rintro ⟨counts, hok, -⟩ p hp
    exact (FillProcessor.returns_process (hsound p hp) hy).1 (hturns.1 ⟨counts, hok⟩ p hp)
  · intro hfree
    obtain ⟨counts, hok⟩ := hturns.2 fun p hp =>
      (FillProcessor.returns_process (hsound p hp) hy).2 (hfree p hp)
    refine ⟨counts, hok, ?_⟩
    rw [total_processAll (Prod.ext hok rfl), List.length_insertionSort]
    exact Nat.zero_add _

end FillSynchroniser

/-! ## Late fills -/

namespace FillProcessor

variable [DecimalContext] {cfg : Settings} {admits : (c : Call) → c.Answer → Prop} {y : Script}
  {r : Pool calls PyError Unit World} {s s' : Store} {o : OrderRecord} {trade : BrokerTrade}

/-- The fill is in the ledger and in the order, whose state is kept. -/
structure Recorded (s : Store) (o : OrderRecord) (trade : BrokerTrade) (s' : Store) : Prop where
  execution : ∃ e, s'.executions = s.executions ++ [e] ∧ e.brokerTradeId = trade.tradeId ∧
    e.orderId = o.id ∧ e.quantity = trade.quantity
  order : ∃ row ∈ s'.orders, row.id = o.id ∧ row.state = o.state ∧
    row.filledQuantity = o.filledQuantity + trade.quantity

theorem Applied.recorded (h : Applied s o trade s') (ho : o ∈ s.orders) (hend : o.state.terminal) :
    Recorded s o trade s' := by
  refine ⟨h.executions, ?_⟩
  obtain ⟨now, horders⟩ := h.orders
  refine ⟨(withFill o trade now).stored, ?_, rfl, ?_, rfl⟩
  · rw [horders]
    exact Table.row_mem_replace ho rfl
  · show targetState o _ = o.state
    rw [targetState, if_pos hend]

/-- **A late fill is applied exactly if its order was cancelled**, and a
trade book is processed exactly if no trade is stuck when its turn
comes. -/
theorem late_fills_iff (hr : Run cfg Scope.all admits r) (hy : y.Obliging) (t : ℕ) :
    (∀ o trade, o.state = .cancelled ∨ o.state = .rejected →
      r.world.store.byBrokerOrderId cfg.fills.accountId trade.brokerOrderId = some o →
      r.world.store.hasExecution trade.tradeId = false → refuses o trade = false →
      (Task.Ends (y.handle cfg.fills.accountId t) (process cfg.fills trade)
          (fun a w' => a = .ok .applied ∧ Recorded r.world.store o trade w'.store) r.world ↔
        o.state = .cancelled ∧ Payable cfg.fills.charges trade)) ∧
    ∀ book, y.outside r.world .tradeBook = .ok book →
      (Task.Ends (y.handle cfg.fills.accountId t) (FillSynchroniser.sync cfg.fills)
          (fun a _ => ∃ counts, a = .ok counts ∧ FillSynchroniser.total counts = book.length)
          r.world ↔
        ∀ p ∈ Task.turns (y.handle cfg.fills.accountId t) (process cfg.fills)
            (book.insertionSort FillSynchroniser.earlier)
            (y.handle cfg.fills.accountId t .tradeBook r.world).2,
          ¬ Stuck cfg.fills p.2.store p.1) := by
  have hs : r.world.store.Sound cfg.fills.accountId := by
    rw [cfg.same_account]
    exact hr.sound fun _ _ _ _ => trivial
  refine ⟨fun o trade hend ho hnew haccepted => ?_, fun book hbook =>
    FillSynchroniser.ends_sync_iff hs hy hbook⟩
  have hp := ends_process (t := t) trade hs hy
  have hmem := (Store.mem_of_byBrokerOrderId ho).1
  constructor
  · rintro ⟨happlied, -⟩
    by_contra hcannot
    -- a trade that cannot be booked is stuck, and raises
    have hstuck : Stuck cfg.fills r.world.store trade := by
      refine ⟨hnew, o, ho, haccepted, fun hcan => hcannot ⟨?_, hcan.1⟩⟩
      exact hend.resolve_right hcan.2
    obtain ⟨⟨e, he⟩, -⟩ := Processed.stuck hp hstuck
    rw [happlied] at he
    cases he
  · rintro ⟨hcancelled, hpay⟩
    have hterm : o.state.terminal := by rw [hcancelled]; rfl
    obtain ⟨happlied, hstore⟩ :=
      Processed.booked hp o hnew ho haccepted ⟨hpay, by rw [hcancelled]; simp⟩
    exact ⟨happlied, hstore.recorded hmem hterm⟩

/-! ## An order of ten that the broker ends, and a fill of all of it -/

/-- The order is placed, and the broker's book has it in `status`. -/
def endedSample (status : BrokerOrderStatus) : Pool calls PyError Unit World :=
  Sample.play (Sample.script (fun a => .ok ⟨"B", some a.clientTag⟩)
      (fun _ tag => [Sample.row tag "B" .buy 10 0 status]) fun _ => [])
    (Sample.inTurn [.place (Sample.approval "S" .buy 10 Sample.ten_pos) none false, .recover])

def lateTrade : BrokerTrade := ⟨"T", "B", "I", .buy, 10, ⟨100⟩, some 0, Sample.ten_pos⟩

/-- An id longer than every one there is. -/
def unusedId (s : Store) : String :=
  String.ofList (List.replicate ((s.executions.map fun e => e.id.length).sum + 1) 'N')

omit [DecimalContext] in
theorem unusedId_ne {s : Store} {e : ExecutionRecord} (he : e ∈ s.executions) :
    e.id ≠ unusedId s := by
  intro heq
  have hle := List.le_sum_of_mem (List.mem_map_of_mem (f := fun e => e.id.length) he)
  have hlen : e.id.length = (s.executions.map fun e => e.id.length).sum + 1 := by
    rw [heq, unusedId, String.length_ofList, List.length_replicate]
  omega

/-- A process that gives out unused ids. -/
def obligingScript : Script where
  clock _ := 0
  outside w c :=
    match c with
    | .newUlid => .ok (unusedId w.store)
    | .onFill .. => .ok ()
    | .tradeBook => .ok [lateTrade]
    | _ => .error (.other "unscripted")

omit [DecimalContext] in
theorem obligingScript_obliging : obligingScript.Obliging :=
  ⟨fun w => ⟨unusedId w.store, rfl, fun _ he => unusedId_ne he⟩, fun _ _ _ => rfl⟩

omit [DecimalContext] in
theorem run_endedSample (status : BrokerOrderStatus) :
    @Run Decimal.standard Sample.settings Scope.all (fun _ _ => True) (endedSample status) :=
  Sample.run _ _

/-- The order is in `state`, and the trade is new and fits it. -/
def ReadyFor (status : BrokerOrderStatus) (state : OrderState) : Bool :=
  ((endedSample status).world.store.byBrokerOrderId "A" "B").any fun o =>
    o.state = state ∧ refuses o lateTrade = false ∧
      (endedSample status).world.store.hasExecution lateTrade.tradeId = false

omit [DecimalContext] in
theorem exists_of_readyFor (status : BrokerOrderStatus) (state : OrderState)
    (h : ReadyFor status state = true) :
    ∃ o, (endedSample status).world.store.byBrokerOrderId "A" lateTrade.brokerOrderId = some o ∧
      o.state = state ∧ refuses o lateTrade = false ∧
      (endedSample status).world.store.hasExecution lateTrade.tradeId = false := by
  obtain ⟨o, ho, hstate⟩ := (Option.any_eq_true _ _).1 h
  exact ⟨o, ho, of_decide_eq_true hstate⟩

omit [DecimalContext] in
theorem payable_lateTrade : @Payable Sample.settings.fills.charges lateTrade :=
  ⟨by decide, Money.zero, rfl, lt_irrefl _⟩

omit [DecimalContext] in
/-- Of the cancelled order the fill is booked, and the book is processed. -/
theorem late_fills_cancelled : ∃ o, o.state = .cancelled ∧
    Task.Ends (obligingScript.handle "A" 9) (@process Decimal.standard Sample.settings.fills lateTrade)
      (fun a w' => a = .ok .applied ∧
        Recorded (endedSample .cancelled).world.store o lateTrade w'.store)
      (endedSample .cancelled).world := by
  obtain ⟨o, ho, hstate, haccepted, hnew⟩ :=
    exists_of_readyFor .cancelled .cancelled (by decide +kernel)
  exact ⟨o, hstate, ((@late_fills_iff Decimal.standard _ _ _ _ (run_endedSample .cancelled)
    obligingScript_obliging 9).1 o lateTrade (Or.inl hstate) ho hnew haccepted).2
      ⟨hstate, payable_lateTrade⟩⟩

omit [DecimalContext] in
/-- Of the rejected order it is not. -/
theorem late_fill_raises : ¬ ∀ (r : Pool calls PyError Unit World) (y : Script) (o : OrderRecord)
    (trade : BrokerTrade),
    @Run Decimal.standard Sample.settings Scope.all (fun _ _ => True) r → y.Obliging →
    o.state = .cancelled ∨ o.state = .rejected →
    r.world.store.byBrokerOrderId "A" trade.brokerOrderId = some o →
    r.world.store.hasExecution trade.tradeId = false → refuses o trade = false →
    Payable Sample.settings.fills.charges trade →
    Task.Ends (y.handle "A" 9) (@process Decimal.standard Sample.settings.fills trade)
      (fun a _ => a = .ok .applied) r.world := by
  intro h
  obtain ⟨o, ho, hstate, haccepted, hnew⟩ :=
    exists_of_readyFor .rejected .rejected (by decide +kernel)
  have hrun := run_endedSample .rejected
  have happlied := h _ _ o lateTrade hrun obligingScript_obliging (Or.inr hstate) ho hnew haccepted
    payable_lateTrade
  have hs := @Run.sound Decimal.standard _ _ _ _ (fun _ _ _ _ => trivial) hrun
  have hp := @ends_process Decimal.standard Sample.settings.fills obligingScript 9 _ lateTrade hs
    obligingScript_obliging
  obtain ⟨⟨e, he⟩, -⟩ := @Processed.stuck Decimal.standard _ _ _ _ _ hp
    ⟨hnew, o, ho, haccepted, fun hcan => hcan.2 hstate⟩
  have hboth := happlied.symm.trans he
  cases hboth

end FillProcessor

end Emporos
