import Emporos.Execution.Books
import Emporos.Execution.Scripts
/-!
# The ledger against the positions

The stored position is folded in the order the fills arrive; a replay
folds them in the order of the ledger, by time of execution. Where the
fills of each instrument arrive in the ledger's order the two agree, and
where one arrives behind a later one they need not: average price and
realised profit depend on the order.
-/

namespace Emporos

open Async

/-- Tasks take turns at the positions: once one has read or written a
position, none that was started before it does. -/
def Event.TakesTurn (e : Event) (l : List Event) : Prop :=
  e.usesPosition → ∀ x ∈ l, x.usesPosition → x.task ≤ e.task

/-- No recorded fill of its instrument stands behind the fill in the
ledger's order. -/
def ExecutionRecord.Newest (s : Store) (e : ExecutionRecord) : Prop :=
  ∀ x ∈ s.executions, x.instrumentId = e.instrumentId → x.before e.stored

/-- A trade that is recorded for the first time is its instrument's
newest. -/
def Event.InOrder (e : Event) (_ : List Event) : Prop :=
  match e.call with
  | .recordFill _ _ execution _ =>
      (∀ x ∈ e.store.executions, x.brokerTradeId ≠ execution.brokerTradeId) →
        execution.Newest e.store
  | _ => True

instance : DecidableRel Event.TakesTurn := fun e l =>
  inferInstanceAs (Decidable (e.usesPosition → ∀ x ∈ l, x.usesPosition → x.task ≤ e.task))

instance (s : Store) (e : ExecutionRecord) : Decidable (e.Newest s) :=
  inferInstanceAs (Decidable (∀ x ∈ s.executions, _ → _))

instance : DecidableRel Event.InOrder := fun e l => by
  unfold Event.InOrder
  split <;> infer_instance

variable [DecimalContext] {cfg : Settings} {scope : Scope} {admits : (c : Call) → c.Answer → Prop}
  {account : String} {t : ℕ} {w w' : World} {s s' : Store} {c : Call} {a : c.Answer}

/-- What a task last read of a position is what the position is, while no
later task has used one. -/
def World.Fresh (account : String) (w : World) : Prop :=
  ∀ t i held, LastPosition t w i held → (∀ x ∈ w.trace, x.usesPosition → x.task ≤ t) →
    w.store.position account i = held

/-! ## What a task knows of a position -/

omit [DecimalContext] in
/-- Only a fill moves the positions. -/
theorem positions_of_step {env : Environment} (hs : (platform env).step t w c a w')
    (hc : ∀ p u e q, c ≠ .recordFill p u e q) : w'.store.positions = w.store.positions := by
  rcases store_of_step hs with h | h
  · rw [h]
  · cases h with
    | created h =>
        obtain ⟨-, -, -, h⟩ := Store.create_eq_ok.mp h
        rw [h]
    | changed h =>
        obtain ⟨-, -, -, -, -, h⟩ := Store.transition_eq_ok.mp h
        obtain ⟨-, -, -, -, -, -, -, h⟩ := Store.change_ok h
        exact h
    | filled => exact absurd rfl (hc _ _ _ _)

omit [DecimalContext] in
/-- A reading that is answered is of the store. -/
theorem position_of_answer {env : Environment} {i : String} {held : Option PositionRecord}
    {b : Call.Answer (.position i)} (hs : (platform env).step t w (.position i) b w')
    (hb : b = .ok held) : w'.store.position env.account i = held := by
  subst hb
  obtain ⟨hanswer, hstore⟩ := written_of_ok hs rfl
  rw [hstore]
  exact Except.ok.inj hanswer

omit [DecimalContext] in
/-- **Readings stay fresh** while tasks take turns. -/
theorem World.Fresh.step {env : Environment} (h : w.Fresh env.account)
    (hs : (platform env).step t w c a w')
    (hturn : ∀ time, (⟨t, c, a, time, w.store⟩ : Event).TakesTurn w.trace) :
    w'.Fresh env.account := by
  intro t' i held hlast hle
  obtain ⟨time, -, htrace⟩ := platform_step hs
  obtain ⟨time', hself, hother⟩ := own_of_step hs
  rw [htrace, List.forall_mem_cons] at hle
  obtain ⟨hthis, hle⟩ := hle
  obtain ⟨seenAt, st, hfind⟩ := hlast
  by_cases huse : Event.usesPosition ⟨t, c, a, time', w.store⟩
  · by_cases ht : t' = t
    · -- the reading is this one
      subst ht
      rw [hself, List.find?_cons_of_pos huse] at hfind
      obtain ⟨-, hc, ha, -, -⟩ := Event.mk.inj (Option.some.inj hfind)
      subst hc
      exact position_of_answer hs (eq_of_heq ha)
    · -- an earlier task has the turn, although this one has read
      rw [hother t' ht] at hfind
      obtain ⟨hmem, htask⟩ := World.mem_own.mp (List.mem_of_find?_eq_some hfind)
      have hback := hturn time' huse _ hmem rfl
      have hforth := hthis huse
      dsimp only at hback hforth
      omega
  · have hsame : w'.store.positions = w.store.positions :=
      positions_of_step hs fun p u e q hc => huse (by subst hc; rfl)
    have hlast' : LastPosition t' w i held := by
      refine ⟨seenAt, st, ?_⟩
      by_cases ht : t' = t
      · subst ht
        rw [hself, List.find?_cons_of_neg huse] at hfind
        exact hfind
      · rw [← hother t' ht]
        exact hfind
    rw [Store.position, hsame]
    exact h t' i held hlast' hle

/-! ## What the fills add up to -/

/-- The fills of every instrument stand in the ledger's order, and its
position is what they add up to. -/
structure Folded (account : String) (s : Store) : Prop where
  ordered : ExecutionRecord.InLedgerOrder s.executions
  folded : ∀ i, PositionReplay.fold account (ExecutionRecord.ofInstrument i s.executions) =
    .ok (s.position account i)

omit [DecimalContext] in
theorem ExecutionRecord.ofInstrument_append (i : String) (l : List ExecutionRecord)
    (e : ExecutionRecord) : ofInstrument i (l ++ [e]) =
      ofInstrument i l ++ if e.instrumentId = i then [e] else [] := by
  unfold ofInstrument
  rw [List.filter_append, List.filter_singleton]
  by_cases h : e.instrumentId = i <;> simp [h]

omit [DecimalContext] in
/-- A fill that is its instrument's newest keeps the order. -/
theorem ExecutionRecord.InLedgerOrder.append {e : ExecutionRecord}
    (h : InLedgerOrder s.executions) (hnewest : e.Newest s) :
    InLedgerOrder (s.executions ++ [e.stored]) := by
  intro i
  rw [ofInstrument_append, List.pairwise_append]
  refine ⟨h i, by split <;> simp, fun x hx y hy => ?_⟩
  obtain ⟨hx, hxi⟩ := List.mem_filter.mp hx
  split at hy
  · rename_i hi
    obtain rfl := List.mem_singleton.mp hy
    exact hnewest x hx ((of_decide_eq_true hxi).trans hi.symm)
  · cases hy

/-- **A fill carries the fold on**, if it is its instrument's newest and
was folded into the position that is stored. -/
theorem Folded.filled {e : ExecutionRecord} {q : PositionRecord} {held : Option PositionRecord}
    {flatAt : Timestamp} (h : Folded account s) (hpositions : ∀ p ∈ s.positions, p.Booked account)
    (hread : s.position account e.instrumentId = held)
    (hq : PositionCalculator.apply (held.getD (.flat account e.instrumentId flatAt)) e = .ok q)
    (hbooked : q.stored.Booked account) (hnewest : e.Newest s)
    (hexecutions : s'.executions = s.executions ++ [e.stored])
    (hs' : s'.positions = Table.upsert (·.id) q.stored s.positions) : Folded account s' := by
  have hinstrument : q.stored.instrumentId = e.instrumentId := by
    obtain ⟨hof, -⟩ := PositionCalculator.apply_isOk.1 ⟨q, hq⟩
    obtain ⟨-, -, -, hkept, -⟩ := PositionCalculator.apply_net hq
    exact hkept.trans hof.symm
  refine ⟨hexecutions ▸ h.ordered.append hnewest, fun i => ?_⟩
  rw [hexecutions, ExecutionRecord.ofInstrument_append,
    Store.position_upsert hpositions hbooked hs', hinstrument]
  by_cases hi : e.instrumentId = i
  · have hof : e.stored.instrumentId = i := hi
    rw [if_pos hof, if_pos hi.symm]
    have hfold := h.folded i
    rw [← hi, hread] at hfold
    rw [hi] at hfold
    rw [PositionReplay.fold_append hfold, PositionReplay.foldStep_eq flatAt]
    exact congrArg (some <$> ·) (PositionCalculator.apply_stored hq)
  · have hof : ¬ e.stored.instrumentId = i := hi
    rw [if_neg hof, if_neg (Ne.symm hi), List.append_nil]
    exact h.folded i

omit [DecimalContext] in
theorem Folded.of_same [DecimalContext] (h : Folded account s)
    (hexecutions : s'.executions = s.executions) (hs' : s'.positions = s.positions) :
    Folded account s' := by
  refine ⟨hexecutions ▸ h.ordered, fun i => ?_⟩
  rw [hexecutions, Store.position, hs']
  exact h.folded i

/-! ## Along runs -/

theorem FillWrite.instrumentId {p u : OrderRecord} {e : ExecutionRecord} {q : PositionRecord}
    {trade : BrokerTrade} {id : String} {now : Timestamp} {fees : Money} {soFar : ℕ}
    {held : Option PositionRecord} {flatAt filledAt : Timestamp}
    (h : FillWrite cfg scope t w p u e q trade id now fees soFar held flatAt filledAt) :
    trade.instrumentId = e.instrumentId := by
  rw [h.execution]
  rfl

/-- **One permitted call**, made in turn. -/
theorem Folded.step (h : Folded cfg.engine.accountId w.store)
    (hfresh : w.Fresh cfg.engine.accountId) (hbooks : Books cfg.engine.accountId w.store)
    (hread : ∀ e ∈ w.trace, e.ReadsBooked cfg.engine.accountId) (hw : Sane w)
    (hg : Permit cfg scope t w c) (hs : (platform (cfg.engine.environment admits)).step t w c a w')
    (hturn : ∀ time, (⟨t, c, a, time, w.store⟩ : Event).TakesTurn w.trace)
    (horder : ∀ time, (⟨t, c, a, time, w.store⟩ : Event).InOrder w.trace) :
    Folded cfg.engine.accountId w'.store := by
  rcases effect_of_step hw hg hs with hsame | heffect
  · rw [hsame]
    exact h
  · cases heffect with
    | created held new owner fresh eq => exact h.of_same (by rw [eq]) (by rw [eq])
    | changed held cur_of grounds follows fits last eq =>
        exact h.of_same (by rw [eq]) (by rw [eq])
    | filled write cur_of fits fresh owner last eq =>
        have hnewest := horder 0 fun x hx => (fresh x hx).2
        have hcurrent := hfresh _ _ _ write.read fun x hx huse => hturn 0 rfl x hx huse
        have hposition := write.position
        have hbooked := write.position_booked hread
        rw [cfg.same_account, write.instrumentId] at hposition
        rw [write.instrumentId] at hcurrent
        exact h.filled hbooks.positions hcurrent hposition hbooked hnewest (by rw [eq]) (by rw [eq])

/-- **Along every run in turn**, fills that arrive in the ledger's order
add up to the positions. -/
theorem Run.folded {r : Pool calls PyError Unit World} (hr : Run cfg Scope.all admits r)
    (hturn : Chronicle Event.TakesTurn r.world.trace)
    (horder : Chronicle Event.InOrder r.world.trace) :
    Folded cfg.engine.accountId r.world.store := by
  have hbook : Scope.all.Bounds (cfg.engine.environment admits) := fun _ _ _ _ => trivial
  have hall := hr.invariant (J := fun w => Chronicle Event.TakesTurn w.trace →
      Chronicle Event.InOrder w.trace →
      w.Fresh cfg.engine.accountId ∧ Folded cfg.engine.accountId w.store) hbook ?_ ?_ fun hJ => hJ
  · exact (hall hturn horder).2
  · intro _ _
    refine ⟨fun t i held hlast _ => ?_, ⟨fun i => List.Pairwise.nil, fun i => rfl⟩⟩
    obtain ⟨time, st, hfind⟩ := hlast
    cases hfind
  · intro u t c a w' hu hJ hw hg hs hturn horder
    obtain ⟨time, -, htrace⟩ := platform_step hs
    rw [htrace] at hturn horder
    obtain ⟨hfresh, hfolded⟩ := hJ hturn.tail horder.tail
    obtain ⟨hbooks, hread⟩ := hu.booked hbook
    exact ⟨hfresh.step hs fun _ => hturn.head,
      hfolded.step hfresh hbooks hread hw hg hs (fun _ => hturn.head) fun _ => horder.head⟩

/-! ## Reconciliation -/

omit [DecimalContext] in
/-- Positions of one account are told apart by their instruments. -/
theorem nodup_instruments (h : ∀ p ∈ s.positions, p.Booked account)
    (hids : (s.positions.map (·.id)).Nodup) : (s.positions.map (·.instrumentId)).Nodup := by
  refine List.Nodup.map_on (fun p hp q hq hi => ?_) (List.Nodup.of_map _ hids)
  exact Table.eq_of_key hids hp hq ((h p hp).id_eq_iff (h q hq) |>.mpr hi)

namespace PositionReplay

omit [DecimalContext] in
/-- **Positions that are what a replay leaves differ from it nowhere.** -/
theorem differences_eq_nil {stored replayed : List PositionRecord}
    (hnd : (stored.map (·.instrumentId)).Nodup)
    (h : ∀ i, Table.lookup (·.instrumentId) i replayed = Table.lookup (·.instrumentId) i stored) :
    differences stored replayed = [] := by
  unfold differences
  refine List.filterMap_eq_nil_iff.2 fun i hi => ?_
  have hheld : Table.lookup (·.instrumentId) i (Table.dict (·.instrumentId) stored) =
      Table.lookup (·.instrumentId) i stored := by
    rw [Table.lookup_dict, Table.latest_eq_lookup hnd]
  rw [hheld, h i]
  cases hlook : Table.lookup (·.instrumentId) i stored with
  | some p => simp
  | none =>
      -- the instrument is of a row of one of the two
      rw [List.mem_insertionSort, List.mem_union_iff, Table.mem_map_key_dict] at hi
      rcases hi with hi | hi
      · obtain ⟨p, hp, hpi⟩ := List.mem_map.mp hi
        exact absurd hpi (Table.lookup_eq_none.1 hlook p hp)
      · obtain ⟨p, hp, hpi⟩ := List.mem_map.mp hi
        exact absurd hpi (Table.lookup_eq_none.1 ((h i).trans hlook) p hp)

/-- Fills add up to a position. -/
theorem fold_ne_none {l : List ExecutionRecord} (hl : l ≠ []) : fold account l ≠ .ok none := by
  rcases List.eq_nil_or_concat' l with rfl | ⟨l', e, rfl⟩
  · exact absurd rfl hl
  · intro h
    rw [fold, List.foldlM_append] at h
    obtain ⟨held, -, hstep⟩ := exists_of_bind h
    rw [List.foldlM_cons] at hstep
    obtain ⟨held', hstep, hend⟩ := exists_of_bind hstep
    obtain rfl := Except.ok.inj hend
    unfold foldStep at hstep
    cases hq : PositionCalculator.apply
        (held.getD (.flat account e.instrumentId e.ts)) e with
    | error err =>
        rw [hq] at hstep
        cases hstep
    | ok q =>
        rw [hq] at hstep
        cases hstep

end PositionReplay

/-- **What reconciliation makes of positions that are the fold of the
ledger.** -/
theorem Folded.history (h : Folded account s) (hbooks : Books account s) :
    (∃ replayed, PositionReplay.replay account (ledger account s.executions) = .ok replayed ∧
      ∀ i, Table.lookup (·.instrumentId) i replayed = s.position account i) ∧
    ReconciliationComparator.positionHistory s.positions (ledger account s.executions) = .ok [] := by
  obtain ⟨replayed, hreplay, hfolds⟩ := PositionReplay.replay_eq_fold hbooks.executions h.ordered
  have hlook : ∀ i, Table.lookup (·.instrumentId) i replayed = s.position account i :=
    fun i => Except.ok.inj ((hfolds i).symm.trans (h.folded i))
  refine ⟨⟨replayed, hreplay, hlook⟩, ?_⟩
  have hlookups : ∀ i, Table.lookup (·.instrumentId) i replayed =
      Table.lookup (·.instrumentId) i s.positions :=
    fun i => (hlook i).trans (Store.position_eq_lookup hbooks.positions)
  have hnil := PositionReplay.differences_eq_nil
    (nodup_instruments hbooks.positions hbooks.positionIds) hlookups
  have haccount : PositionReplay.replay ((s.positions.head?.map (·.accountId)).getD "")
      (ledger account s.executions) = .ok replayed := by
    cases hpositions : s.positions with
    | cons p rest =>
        rw [List.head?_cons, Option.map_some, Option.getD_some,
          (hbooks.positions p (by rw [hpositions]; exact List.mem_cons_self)).owner]
        exact hreplay
    | nil =>
        -- with no position there is no fill to replay
        have hnone : s.executions = [] := by
          refine List.eq_nil_iff_forall_not_mem.2 fun e he => ?_
          have hne : ExecutionRecord.ofInstrument e.instrumentId s.executions ≠ [] :=
            List.ne_nil_of_mem (List.mem_filter.2 ⟨he, decide_eq_true rfl⟩)
          refine PositionReplay.fold_ne_none hne ((h.folded e.instrumentId).trans ?_)
          rw [Store.position, hpositions]
          rfl
        rw [hnone] at hreplay ⊢
        exact hreplay
  unfold ReconciliationComparator.positionHistory
  dsimp only
  rw [haccount]
  exact congrArg Except.ok hnil

/-- **The ledger, the orders and the positions agree with a replay**, in
every run whose tasks take turns at the positions and whose fills arrive
in the ledger's order: a trade is recorded once, an order is filled by
what its executions add up to, a replay of the ledger is the positions,
and reconciliation finds no difference. -/
theorem replay_agrees {r : Pool calls PyError Unit World} (hr : Run cfg Scope.all admits r)
    (hturn : Chronicle Event.TakesTurn r.world.trace)
    (horder : Chronicle Event.InOrder r.world.trace) :
    (r.world.store.executions.map (·.brokerTradeId)).Nodup ∧
    (∀ o ∈ r.world.store.orders,
      o.filledQuantity = PositionReplay.filledByOrder r.world.store.executions o.id) ∧
    (∃ replayed, PositionReplay.replay cfg.engine.accountId
        (ledger cfg.engine.accountId r.world.store.executions) = .ok replayed ∧
      ∀ i, Table.lookup (·.instrumentId) i replayed =
        r.world.store.position cfg.engine.accountId i) ∧
    ReconciliationComparator.positionHistory r.world.store.positions
      (ledger cfg.engine.accountId r.world.store.executions) = .ok [] := by
  have hbooks := hr.books fun _ _ _ _ => trivial
  obtain ⟨hreplay, hhistory⟩ := (hr.folded hturn horder).history hbooks
  exact ⟨hbooks.tradeIds, hbooks.sums, hreplay, hhistory⟩

/-! ## Two purchases and a sale -/

namespace Sample

/-- The fills of two orders, each at its time. -/
def fills : List BrokerTrade :=
  [⟨"1", "B", "I", .buy, 10, ⟨100⟩, some Timestamp.second, ten_pos⟩,
    ⟨"2", "B", "I", .buy, 10, ⟨120⟩, some (2 * Timestamp.second), ten_pos⟩,
    ⟨"3", "S", "I", .sell, 10, ⟨110⟩, some (3 * Timestamp.second), ten_pos⟩]

/-- Two orders are placed and the trade book is read twice. -/
def tradedTwice (book : List Event → List BrokerTrade) : Pool calls PyError Unit World :=
  play (script (fun a => .ok ⟨if a.side = .buy then "B" else "S", some a.clientTag⟩)
      (fun _ _ => []) book)
    (inTurn [.place (approval "S" .buy 20 (by decide)) none false,
      .place (approval "T" .sell 10 ten_pos) none false, .sync, .sync])

omit [DecimalContext] in
theorem run_tradedTwice (book : List Event → List BrokerTrade) :
    @Run Decimal.standard settings Scope.all (fun _ _ => True) (tradedTwice book) := run _ _

/-- The second purchase reaches the book after the sale. -/
def lateBook (trace : List Event) : List BrokerTrade :=
  if trace.any Event.usesPosition then fills else fills.eraseIdx 1

def fullBook (_ : List Event) : List BrokerTrade := fills

omit [DecimalContext] in
/-- With all three in the book from the start, the replay agrees. -/
theorem replay_agrees_sample : (tradedTwice fullBook).world.store.executions.length = 3 ∧
    @ReconciliationComparator.positionHistory Decimal.standard
      (tradedTwice fullBook).world.store.positions
      (ledger "A" (tradedTwice fullBook).world.store.executions) = .ok [] := by
  have hagrees := @replay_agrees Decimal.standard _ _ _ (run_tradedTwice fullBook)
    (by decide +kernel) (by decide +kernel)
  exact ⟨by decide +kernel, hagrees.2.2.2⟩

omit [DecimalContext] in
/-- Behind the sale, the purchase is folded at another average. -/
theorem replay_disagrees : ¬ ∀ r : Pool calls PyError Unit World,
    @Run Decimal.standard settings Scope.all (fun _ _ => True) r →
    Chronicle Event.TakesTurn r.world.trace →
    @ReconciliationComparator.positionHistory Decimal.standard r.world.store.positions
      (ledger "A" r.world.store.executions) = .ok [] := by
  intro h
  have hnone := h (tradedTwice lateBook) (run_tradedTwice lateBook) (by decide +kernel)
  have hsome : ((@ReconciliationComparator.positionHistory Decimal.standard
      (tradedTwice lateBook).world.store.positions
      (ledger "A" (tradedTwice lateBook).world.store.executions)).toOption.map List.isEmpty) =
        some false := by decide +kernel
  rw [hnone] at hsome
  cases hsome

end Sample

end Emporos
