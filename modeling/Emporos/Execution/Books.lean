import Emporos.Execution.Runs
import Emporos.Portfolio.Fold
import Mathlib.Data.List.Find
/-!
# The books

What the journal's collections say of each other in every reachable state:
each row fits its state, each execution is of a stored order and of a fill
the calculator accepts, an order's filled quantity is what its executions
add up to, and the positions are keyed by account and instrument.

The invariant is proved once, over `Effect`; later files read it off
`Run.books`.
-/

namespace Emporos

open Async

/-! ## What each collection holds -/

/-- A row of the account, as it reads back. -/
structure OrderRecord.Booked (account : String) (o : OrderRecord) : Prop where
  owner : o.accountId = some account
  kept : o.stored = o
  asked : 0 < o.quantity
  fits : OrderStateMachine.Fits o.state o.filledQuantity o.quantity
  /-- An order that is not at an end still has something to trade. -/
  live : o.state.terminal = false → o.filledQuantity < o.quantity
  /-- Only an order the broker knows is cancelled. -/
  cancelling : o.state = .pendingCancel → o.brokerOrderId ≠ none
  named : o.brokerOrderId ≠ some ""

/-- The collections, and how they agree. -/
structure Books (account : String) (s : Store) : Prop where
  orders : ∀ o ∈ s.orders, o.Booked account
  executions : ∀ e ∈ s.executions, e.Booked account
  positions : ∀ p ∈ s.positions, p.Booked account
  /-- Every order has an event. -/
  audited : ∀ o ∈ s.orders, ∃ e ∈ s.events, e.orderId = o.id
  /-- Every execution is of a stored order. -/
  filling : ∀ e ∈ s.executions, ∃ o ∈ s.orders, o.id = e.orderId
  tradeIds : (s.executions.map (·.brokerTradeId)).Nodup
  executionIds : (s.executions.map (·.id)).Nodup
  positionIds : (s.positions.map (·.id)).Nodup
  /-- An order's filled quantity is the sum of its executions. -/
  sums : ∀ o ∈ s.orders, o.filledQuantity = PositionReplay.filledByOrder s.executions o.id

/-! ## Positions by instrument -/

namespace Books

variable {account : String} {s : Store}

theorem empty : Books account Store.empty where
  orders := by simp [Store.empty]
  executions := by simp [Store.empty]
  positions := by simp [Store.empty]
  audited := by simp [Store.empty]
  filling := by simp [Store.empty]
  tradeIds := List.nodup_nil
  executionIds := List.nodup_nil
  positionIds := List.nodup_nil
  sums := by simp [Store.empty]

end Books

/-- Where the positions are those of the account, one is read by its
instrument. -/
theorem Store.position_eq_lookup {account i : String} {s : Store}
    (h : ∀ p ∈ s.positions, p.Booked account) :
    s.position account i = Table.lookup (·.instrumentId) i s.positions := by
  rw [Store.position, Table.lookup]
  refine List.find?_congr fun p hp => ?_
  simp [(h p hp).owner]

/-- **A fill moves the position of its instrument alone.** -/
theorem Store.position_upsert {account i : String} {s s' : Store} {q : PositionRecord}
    (h : ∀ p ∈ s.positions, p.Booked account) (hq : q.Booked account)
    (hs : s'.positions = Table.upsert (·.id) q s.positions) :
    s'.position account i = if i = q.instrumentId then some q else s.position account i := by
  have hkeys : ∀ p ∈ s.positions, (p.id = q.id ↔ p.instrumentId = q.instrumentId) :=
    fun p hp => (h p hp).id_eq_iff hq
  have hupsert : Table.upsert (·.id) q s.positions = Table.upsert (·.instrumentId) q s.positions :=
    Table.upsert_congr hkeys
  have h' : ∀ p ∈ s'.positions, p.Booked account := by
    intro p hp
    rw [hs, Table.mem_upsert] at hp
    rcases hp with rfl | hp
    · exact hq
    · exact h p hp.1
  rw [Store.position_eq_lookup h', Store.position_eq_lookup h, hs, hupsert, Table.lookup_upsert]

/-! ## What each write leaves -/

namespace OrderRecord

@[simp] theorem stored_stored (o : OrderRecord) : o.stored.stored = o.stored := by
  simp [stored]

/-- A text that counts as none is never kept. -/
theorem orText_ne {new old : Option String} (h : old ≠ some "") : orText new old ≠ some "" := by
  unfold orText
  split
  · split_ifs with hempty
    · exact h
    · simpa using hempty
  · exact h

variable {account : String} {o p : OrderRecord}

theorem Booked.stored (h : o.Booked account) : o.stored.Booked account := h.kept.symm ▸ h

end OrderRecord

namespace ExecutionEngine

variable {p : OrderRecord} {rows : List BrokerOrder} {target : OrderState} {reason : String}
  {b : Option String} {checks : Option ℕ}

/-- The state the rows decide on is doubt, or comes from the row. -/
theorem state_of_verdict (h : verdict p rows = .change target reason b checks) :
    target = .unknown ∨ target = .open ∨ ∃ row ∈ rows, target = row.status.state := by
  rcases rows with _ | ⟨row, _ | ⟨row', rest⟩⟩
  · cases h
  · simp only [verdict, verdictOn] at h
    split_ifs at h
    all_goals obtain ⟨rfl, -⟩ := Verdict.change.inj h
    all_goals first
      | exact Or.inl rfl
      | exact Or.inr (Or.inl rfl)
      | exact Or.inr (Or.inr ⟨row, List.mem_singleton_self _, rfl⟩)
      | exact Or.inr (Or.inl ‹OrderState.open = p.state›.symm)
      | exact Or.inr (Or.inr ⟨row, List.mem_singleton_self _, ‹row.status.state = p.state›.symm⟩)
  · obtain ⟨rfl, -⟩ := Verdict.change.inj h
    exact Or.inl rfl

/-- The engine never decides on a pending cancel: that state is its own. -/
theorem ne_pendingCancel_of_verdict (h : verdict p rows = .change target reason b checks) :
    target ≠ .pendingCancel := by
  rcases state_of_verdict h with rfl | rfl | ⟨row, -, rfl⟩
  · simp
  · simp
  · cases row.status <;> simp [BrokerOrderStatus.state]

end ExecutionEngine

variable {cfg : Settings} {scope : Scope} {account : String} {t : ℕ} {w w' : World} {s s' : Store}

/-- Only a cancel leads to a pending cancel, and the broker knows the
order. -/
theorem Grounds.named {p : OrderRecord} {target : OrderState} {reason : String}
    {b : Option String} {checks : Option ℕ} (h : Grounds cfg t w p target reason b checks)
    (htarget : target = .pendingCancel) : p.brokerOrderId ≠ none := by
  cases h with
  | sent h => simp [htarget] at h
  | cancelling named => exact named
  | rows _ decided => exact absurd htarget (ExecutionEngine.ne_pendingCancel_of_verdict decided)
  | _ => cases htarget

namespace FillProcessor

/-- A fill of a live order that leaves it live leaves it something to
trade. -/
theorem lt_of_targetState {p : OrderRecord} {filled : ℕ} (hle : filled ≤ p.quantity)
    (h : (targetState p filled).terminal = false) : filled < p.quantity := by
  unfold targetState at h
  split_ifs at h with hterm hfull
  · rw [hterm] at h; cases h
  · cases h
  · omega
  · omega

theorem targetState_eq_pendingCancel {p : OrderRecord} {filled : ℕ}
    (h : targetState p filled = .pendingCancel) : p.state = .pendingCancel := by
  unfold targetState at h
  split_ifs at h with hterm hfull hstate
  · exact h
  · exact hstate

/-- A trade that is not refused is of the order's instrument and side, and
fits in it. -/
theorem refuses_eq_false {p : OrderRecord} {trade : BrokerTrade} :
    refuses p trade = false ↔ trade.instrumentId = p.instrumentId ∧ trade.side = p.side ∧
      p.filledQuantity + trade.quantity ≤ p.quantity := by
  simp [refuses, and_assoc]

end FillProcessor

/-- What the engine writes over a stored row is a row again. -/
theorem OrderRecord.Booked.changed {p cur : OrderRecord} {target : OrderState} {reason : String}
    {b : Option String} {checks : Option ℕ} {now : Timestamp} (hb : cur.Booked account)
    (hcur : Current s p cur) (hnamed : target = .pendingCancel → p.brokerOrderId ≠ none)
    (hfollows : target ∈ p.state.allowedFrom)
    (hfits : OrderStateMachine.Fits target p.filledQuantity p.quantity) :
    (p.changed target reason b checks now).stored.Booked account where
  owner := (OrderRecord.accountId_of_intent hcur.intent).symm.trans hb.owner
  kept := OrderRecord.stored_stored _
  asked := hcur.quantity_eq ▸ hb.asked
  fits := hfits
  live := by
    intro hlive
    have hterm : p.state.terminal = false := by
      by_contra hterm
      rw [Bool.not_eq_false] at hterm
      have hsame : target = p.state := OrderState.eq_of_allowedFrom_terminal hterm hfollows
      rw [← hsame] at hterm
      exact absurd (hterm.symm.trans hlive) (by simp)
    have hlt := hb.live (hcur.state.symm ▸ hterm)
    rw [hcur.filled, hcur.quantity_eq] at hlt
    exact hlt
  cancelling := by
    intro htarget
    show orText b p.brokerOrderId ≠ none
    unfold orText
    split
    · split_ifs
      · exact hnamed htarget
      · simp
    · exact hnamed htarget
  named := OrderRecord.orText_ne (hcur.broker ▸ hb.named)

variable [DecimalContext]

/-- What a fill writes over a stored row is a row again. -/
theorem OrderRecord.Booked.withFill {p cur : OrderRecord} {trade : BrokerTrade} {at' : Timestamp}
    (hb : cur.Booked account) (hcur : Current s p cur)
    (haccepted : FillProcessor.refuses p trade = false)
    (hfits : OrderStateMachine.Fits (FillProcessor.targetState p (p.filledQuantity + trade.quantity))
      (p.filledQuantity + trade.quantity) p.quantity) :
    (FillProcessor.withFill p trade at').stored.Booked account where
  owner := (OrderRecord.accountId_of_intent hcur.intent).symm.trans hb.owner
  kept := OrderRecord.stored_stored _
  asked := hcur.quantity_eq ▸ hb.asked
  fits := hfits
  live := FillProcessor.lt_of_targetState (FillProcessor.refuses_eq_false.1 haccepted).2.2
  cancelling := by
    intro h
    have hstate := FillProcessor.targetState_eq_pendingCancel h
    have := hb.cancelling (hcur.state.trans hstate)
    rw [hcur.broker] at this
    exact this
  named := by
    have := hb.named
    rw [hcur.broker] at this
    exact this

/-! ## The invariant -/

omit [DecimalContext] in
theorem PositionReplay.filledByOrder_append (l : List ExecutionRecord) (e : ExecutionRecord)
    (orderId : String) : filledByOrder (l ++ [e]) orderId =
      filledByOrder l orderId + if e.orderId = orderId then e.quantity else 0 := by
  unfold filledByOrder
  rw [List.filter_append, List.map_append, List.sum_append]
  by_cases h : e.orderId = orderId <;> simp [h]

namespace Books

omit [DecimalContext] in
/-- A new order brings its first event. -/
theorem created {o : OrderRecord} (h : Books account s) (hrow : o.stored.Booked account)
    (hzero : o.filledQuantity = 0) (hfresh : s.Fresh o) :
    Books account { s with
      orders := s.orders ++ [o.stored], events := s.events ++ [(o.event 1).stored] } where
  orders := by
    intro x hx
    rcases List.mem_append.mp hx with hx | hx
    · exact h.orders x hx
    · rw [List.mem_singleton.mp hx]; exact hrow
  executions := h.executions
  positions := h.positions
  audited := by
    intro x hx
    rcases List.mem_append.mp hx with hx | hx
    · obtain ⟨e, he, heq⟩ := h.audited x hx
      exact ⟨e, List.mem_append_left _ he, heq⟩
    · exact ⟨_, List.mem_append_right _ (List.mem_singleton_self _), by
        rw [List.mem_singleton.mp hx]; rfl⟩
  filling := by
    intro e he
    obtain ⟨x, hx, hid⟩ := h.filling e he
    exact ⟨x, List.mem_append_left _ hx, hid⟩
  tradeIds := h.tradeIds
  executionIds := h.executionIds
  positionIds := h.positionIds
  sums := by
    intro x hx
    rcases List.mem_append.mp hx with hx | hx
    · exact h.sums x hx
    · -- no execution can be of an order that was not there
      rw [List.mem_singleton.mp hx]
      have hnone : s.executions.filter (fun e => e.orderId = o.id) = [] := by
        refine List.filter_eq_nil_iff.mpr fun e he hid => ?_
        obtain ⟨y, hy, hye⟩ := h.filling e he
        exact (hfresh y hy).1 (hye.trans (by simpa using hid))
      show o.filledQuantity = ((s.executions.filter fun e => e.orderId = o.id).map _).sum
      rw [hnone, hzero]
      rfl

omit [DecimalContext] in
/-- What every replacement of a row by one of the same order keeps. -/
theorem audited_of_replace {p cur u : OrderRecord} {seq : ℕ} (h : Books account s)
    (hcur : Current s p cur) (hu : u.intent = p.intent) :
    ∀ o ∈ Table.replace (·.id) u.stored s.orders,
      ∃ e ∈ s.events ++ [(u.event seq).stored], e.orderId = o.id := by
  intro x hx
  rcases (Store.mem_orders_of_replace hcur hu).mp hx with rfl | ⟨hx, -⟩
  · exact ⟨_, List.mem_append_right _ (List.mem_singleton_self _), rfl⟩
  · obtain ⟨e, he, heq⟩ := h.audited x hx
    exact ⟨e, List.mem_append_left _ he, heq⟩

omit [DecimalContext] in
theorem mem_ids_of_replace {u : OrderRecord} {k : String} (h : ∃ o ∈ s.orders, o.id = k) :
    ∃ o ∈ Table.replace (·.id) u.stored s.orders, o.id = k := by
  have hmem : k ∈ (Table.replace (·.id) u.stored s.orders).map (·.id) := by
    rw [Table.map_key_replace]
    exact List.mem_map.mpr h
  exact List.mem_map.mp hmem

omit [DecimalContext] in
/-- A transition moves no fill. -/
theorem changed {p cur u : OrderRecord} {seq : ℕ} (h : Books account s) (hcur : Current s p cur)
    (hu : u.intent = p.intent) (hrow : u.stored.Booked account)
    (hfilled : u.filledQuantity = p.filledQuantity) :
    Books account { s with
      orders := Table.replace (·.id) u.stored s.orders
      events := s.events ++ [(u.event seq).stored] } where
  orders := by
    intro x hx
    rcases (Store.mem_orders_of_replace hcur hu).mp hx with rfl | ⟨hx, -⟩
    · exact hrow
    · exact h.orders x hx
  executions := h.executions
  positions := h.positions
  audited := h.audited_of_replace hcur hu
  filling := fun e he => mem_ids_of_replace (h.filling e he)
  tradeIds := h.tradeIds
  executionIds := h.executionIds
  positionIds := h.positionIds
  sums := by
    intro x hx
    rcases (Store.mem_orders_of_replace hcur hu).mp hx with rfl | ⟨hx, -⟩
    · have hsum := h.sums cur hcur.mem
      rw [hcur.filled, hcur.id_eq, ← OrderRecord.id_of_intent hu] at hsum
      exact hfilled.trans hsum
    · exact h.sums x hx

omit [DecimalContext] in
/-- A fill adds to its order what it adds to the executions. -/
theorem filled {p cur u : OrderRecord} {e : ExecutionRecord} {q : PositionRecord} {seq : ℕ}
    (h : Books account s) (hcur : Current s p cur) (hu : u.intent = p.intent)
    (hrow : u.stored.Booked account) (hentry : e.stored.Booked account)
    (hheld : q.stored.Booked account) (hof : e.orderId = p.id)
    (hfilled : u.filledQuantity = p.filledQuantity + e.quantity)
    (hfresh : ∀ x ∈ s.executions, x.id ≠ e.id ∧ x.brokerTradeId ≠ e.brokerTradeId) :
    Books account { s with
      orders := Table.replace (·.id) u.stored s.orders
      events := s.events ++ [(u.event seq).stored]
      executions := s.executions ++ [e.stored]
      positions := Table.upsert (·.id) q.stored s.positions } where
  orders := by
    intro x hx
    rcases (Store.mem_orders_of_replace hcur hu).mp hx with rfl | ⟨hx, -⟩
    · exact hrow
    · exact h.orders x hx
  executions := by
    intro x hx
    rcases List.mem_append.mp hx with hx | hx
    · exact h.executions x hx
    · rw [List.mem_singleton.mp hx]; exact hentry
  positions := by
    intro x hx
    rcases Table.mem_upsert.mp hx with rfl | ⟨hx, -⟩
    · exact hheld
    · exact h.positions x hx
  audited := h.audited_of_replace hcur hu
  filling := by
    intro x hx
    refine mem_ids_of_replace ?_
    rcases List.mem_append.mp hx with hx | hx
    · exact h.filling x hx
    · exact ⟨cur, hcur.mem, by rw [List.mem_singleton.mp hx]; exact hcur.id_eq.trans hof.symm⟩
  tradeIds := by
    rw [List.map_append, List.map_singleton, List.nodup_append]
    refine ⟨h.tradeIds, by simp, fun a ha b hb hab => ?_⟩
    obtain ⟨x, hx, rfl⟩ := List.mem_map.mp ha
    rw [List.mem_singleton.mp hb] at hab
    exact (hfresh x hx).2 hab
  executionIds := by
    rw [List.map_append, List.map_singleton, List.nodup_append]
    refine ⟨h.executionIds, by simp, fun a ha b hb hab => ?_⟩
    obtain ⟨x, hx, rfl⟩ := List.mem_map.mp ha
    rw [List.mem_singleton.mp hb] at hab
    exact (hfresh x hx).1 hab
  positionIds := Table.nodup_upsert h.positionIds
  sums := by
    intro x hx
    show x.filledQuantity = PositionReplay.filledByOrder (s.executions ++ [e.stored]) x.id
    rw [PositionReplay.filledByOrder_append]
    have hid : e.stored.orderId = p.id := hof
    rcases (Store.mem_orders_of_replace hcur hu).mp hx with rfl | ⟨hx, hne⟩
    · have hsum := h.sums cur hcur.mem
      rw [hcur.filled, hcur.id_eq] at hsum
      have huid : u.stored.id = p.id := (OrderRecord.id_of_intent hu : u.id = p.id)
      rw [if_pos (hid.trans huid.symm), huid, ← hsum]
      exact hfilled
    · rw [if_neg fun hxe => hne (hxe.symm.trans hid), Nat.add_zero]
      exact h.sums x hx

end Books

/-! ## Along runs -/

/-- A reading of a position found one of the account, under its
instrument. -/
def Event.ReadsBooked (account : String) (e : Event) : Prop :=
  ∀ t i p time st, e = ⟨t, .position i, .ok (some p), time, st⟩ →
    p.Booked account ∧ p.instrumentId = i

omit [DecimalContext] in
theorem Store.mem_of_position {i : String} {p : PositionRecord}
    (h : s.position account i = some p) : p ∈ s.positions ∧ p.instrumentId = i := by
  have := List.find?_some h
  simp only [decide_eq_true_eq] at this
  exact ⟨List.mem_of_find?_eq_some h, this.2⟩

/-- The position a fill is folded into is one of the account. -/
theorem FillWrite.position_booked {p u : OrderRecord} {e : ExecutionRecord} {q : PositionRecord}
    {trade : BrokerTrade} {id : String} {now : Timestamp} {fees : Money} {soFar : ℕ}
    {held : Option PositionRecord} {flatAt filledAt : Timestamp}
    (h : FillWrite cfg scope t w p u e q trade id now fees soFar held flatAt filledAt)
    (hread : ∀ e ∈ w.trace, e.ReadsBooked cfg.engine.accountId) :
    q.stored.Booked cfg.engine.accountId := by
  refine PositionCalculator.booked_of_apply ?_ h.position
  obtain ⟨time, st, hfind⟩ := h.read
  cases held with
  | none => exact ⟨cfg.same_account, by simp [PositionRecord.flat, cfg.same_account]⟩
  | some before =>
      have hmem := (World.mem_own.mp (List.mem_of_find?_eq_some hfind)).1
      obtain ⟨hb, -⟩ := hread _ hmem _ _ _ _ _ rfl
      exact ⟨hb.owner, hb.key⟩

omit [DecimalContext] in
/-- What a placement writes is a row. -/
theorem newOrder_booked (cfg : EngineSettings) (approval : RiskApprovedSignal)
    (parent : Option OrderRecord) (parentOrderId : Option String) (orderId : String)
    (limit : Money) (trigger : Option Money) (now : Timestamp) :
    (ExecutionEngine.newOrder cfg approval parent parentOrderId orderId limit trigger
      now).stored.Booked cfg.accountId where
  owner := rfl
  kept := OrderRecord.stored_stored _
  asked := approval.signal.quantity_pos
  fits := by simp [OrderStateMachine.Fits, OrderRecord.stored, ExecutionEngine.newOrder]
  live _ := approval.signal.quantity_pos
  cancelling := by simp [OrderRecord.stored, ExecutionEngine.newOrder]
  named := by simp [OrderRecord.stored, ExecutionEngine.newOrder]

/-- **Every effect keeps the books.** -/
theorem Effect.books {c : Call} (h : Effect cfg scope cfg.engine.accountId t w c s')
    (hb : Books cfg.engine.accountId w.store)
    (hread : ∀ e ∈ w.trace, e.ReadsBooked cfg.engine.accountId) :
    Books cfg.engine.accountId s' := by
  cases h with
  | created held new owner fresh eq =>
      obtain ⟨approval, parent, parentOrderId, marketable, id, limit, trigger, now, hnew⟩ := new
      obtain rfl := hnew.eq
      rw [eq]
      exact hb.created (newOrder_booked ..) rfl fresh
  | changed held cur_of grounds follows fits last eq =>
      rw [eq]
      exact hb.changed cur_of rfl
        ((hb.orders _ cur_of.mem).changed cur_of grounds.named follows fits) rfl
  | filled write cur_of fits fresh owner last eq =>
      have hposition := write.position_booked hread
      obtain rfl := write.updated
      obtain rfl := write.execution
      rw [eq]
      exact hb.filled cur_of rfl
        ((hb.orders _ cur_of.mem).withFill cur_of write.accepted fits)
        (PositionCalculator.execution_booked_of_apply owner write.position) hposition rfl rfl fresh

/-- **The books are kept in every run**, and a position is read from books
that are. -/
theorem Run.booked {admits : (c : Call) → c.Answer → Prop} {u : Pool calls PyError Unit World}
    (hbook : scope.Bounds (cfg.engine.environment admits)) (hr : Run cfg scope admits u) :
    Books cfg.engine.accountId u.world.store ∧
      ∀ e ∈ u.world.trace, e.ReadsBooked cfg.engine.accountId := by
  refine hr.invariant (J := fun w => Books cfg.engine.accountId w.store ∧
    ∀ e ∈ w.trace, e.ReadsBooked cfg.engine.accountId) hbook ⟨.empty, by simp [World.start]⟩
    (fun {u t c a w'} _ hJ hw hg hs => ?_) fun hJ => hJ
  obtain ⟨time, -, htrace⟩ := platform_step hs
  refine ⟨?_, fun e he => ?_⟩
  · rcases effect_of_step hw hg hs with h | h
    · rw [h]; exact hJ.1
    · exact h.books hJ.1 hJ.2
  · rw [htrace] at he
    rcases List.mem_cons.mp he with rfl | he
    · rintro _ i p _ _ heq
      obtain ⟨rfl, hc, ha, -, -⟩ := Event.mk.inj heq
      subst hc
      obtain rfl := eq_of_heq ha
      -- the journal answered from a store whose books are kept
      obtain ⟨hanswer, -⟩ := written_of_ok hs rfl
      obtain ⟨hmem, hi⟩ := Store.mem_of_position (Except.ok.inj hanswer)
      exact ⟨hJ.1.positions p hmem, hi⟩
    · exact hJ.2 e he

theorem Run.books {admits : (c : Call) → c.Answer → Prop} {u : Pool calls PyError Unit World}
    (hbook : scope.Bounds (cfg.engine.environment admits)) (hr : Run cfg scope admits u) :
    Books cfg.engine.accountId u.world.store :=
  (hr.booked hbook).1

end Emporos
