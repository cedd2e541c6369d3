import Emporos.Paper.Alike
import Emporos.Paper.Shelf
/-!
# A paper restart

A broker is built again from the books its journal was flushed to. The books
keep whole milliseconds, and a session's orders are read back by the moment
of their first event and, within a millisecond, by id. So a restart has the
running broker's orders, counters and account, and it has their time
priority exactly where the orders were placed in that order.
-/

namespace Emporos

/-! ## What the books keep of a session -/

/-- The order as it reads back. -/
def PaperOrder.stored (order : PaperOrder) : PaperOrder :=
  { order with updatedAt := order.updatedAt.millis }

def RestoredOrder.stored (item : RestoredOrder) : RestoredOrder :=
  { item with order := item.order.stored }

def BrokerTrade.stored (t : BrokerTrade) : BrokerTrade :=
  { t with executedAt := t.executedAt.map Timestamp.millis }

def PaperAccount.stored (account : PaperAccount) : PaperAccount :=
  { account with trades := account.trades.map BrokerTrade.stored }

/-- By the moment of their first event, and by id within a millisecond. -/
def LedgerLine.Earlier (a b : LedgerLine) : Prop :=
  a.created.millis < b.created.millis ∨ (a.created.millis = b.created.millis ∧ a.id ≤ b.id)

instance : DecidableRel LedgerLine.Earlier := fun _ _ => inferInstanceAs (Decidable (_ ∨ _))

instance : IsTrans LedgerLine LedgerLine.Earlier where
  trans a b c hab hbc := by
    rcases hab with hab | ⟨hab, hid⟩ <;> rcases hbc with hbc | ⟨hbc, hid'⟩
    · exact .inl (hab.trans hbc)
    · exact .inl (hbc ▸ hab)
    · exact .inl (hab ▸ hbc)
    · exact .inr ⟨hab.trans hbc, String.le_trans hid hid'⟩

instance : Std.Total LedgerLine.Earlier where
  total a b := by
    rcases lt_trichotomy a.created.millis b.created.millis with h | h | h
    · exact .inl (.inl h)
    · exact (String.le_total a.id b.id).imp (fun hid => .inr ⟨h, hid⟩) (fun hid => .inr ⟨h.symm, hid⟩)
    · exact .inr (.inl h)

namespace PaperSessionStore

variable {b₀ b : PaperBooks} {scope : PaperScope} {l : Ledger} {line : LedgerLine}

/-- What is in the list has an answer each. -/
theorem mapM_map_eq_ok {α β γ : Type} {f : β → Except PyError γ} {h : α → β} {g : α → γ} {xs : List α}
    (hf : ∀ x ∈ xs, f (h x) = .ok (g x)) : (xs.map h).mapM f = .ok (xs.map g) := by
  induction xs with
  | nil => rfl
  | cons x rest ih =>
      rw [List.map_cons, List.mapM_cons, hf x (List.mem_cons_self ..), ok_bind,
        ih fun y hy => hf y (List.mem_cons_of_mem _ hy)]
      rfl

theorem brokerId_row (hcomplete : line.order.Complete) : brokerId (line.row scope) = line.id :=
  if_neg hcomplete.named

/-- A row reads back as the order it was written of. -/
theorem brokerOrder_row (hcomplete : line.order.Complete) :
    brokerOrder (line.row scope) = .ok line.order.stored := by
  obtain ⟨tag, htag⟩ := Option.isSome_iff_exists.mp hcomplete.tagged
  obtain ⟨orderType, htype⟩ := Option.isSome_iff_exists.mp hcomplete.typed
  obtain ⟨price, hprice⟩ := Option.isSome_iff_exists.mp hcomplete.priced
  unfold brokerOrder
  rw [brokerId_row hcomplete]
  simp only [LedgerLine.row, BrokerOrderStatus.ofValue_value, ok_bind, htag, htype, hprice,
    Option.getD_some]
  simp only [PaperOrder.stored, LedgerLine.id, ← htag, ← htype, ← hprice]
  rfl

/-- The session's rows, oldest first. -/
theorem ordersOf_eq (h : PaperJournal.Holds b₀ scope l b) (hclear : b₀.Clear scope) :
    b.ordersOf scope.client scope.date =
      (l.lines.insertionSort LedgerLine.Earlier).map (LedgerLine.row scope) := by
  have hold : b₀.orders.filter (fun r =>
      r.accountId = some scope.client ∧ r.sessionDate = scope.date) = [] :=
    List.filter_eq_nil_iff.mpr fun r hr => by simpa using (hclear.orders r hr).2.2
  have hnew : (l.lines.map (LedgerLine.row scope)).filter (fun r =>
      r.accountId = some scope.client ∧ r.sessionDate = scope.date) =
      l.lines.map (LedgerLine.row scope) :=
    List.filter_eq_self.mpr fun r hr => by
      obtain ⟨line, -, rfl⟩ := List.mem_map.mp hr
      simp [LedgerLine.row]
  rw [PaperBooks.ordersOf, h.shelved.orders, List.filter_append, hold, hnew, List.nil_append]
  exact (List.map_insertionSort LedgerLine.Earlier PaperOrderRecord.earlier _ l.lines
    fun _ _ _ _ => Iff.rfl).symm

theorem pairwise_executions (n : ℕ) (fills : List (BrokerTrade × Money)) :
    (scope.executions n fills).Pairwise ExecutionRecord.booked := by
  induction fills generalizing n with
  | nil => exact .nil
  | cons f rest ih =>
      refine List.pairwise_cons.mpr ⟨fun x hx => ?_, ih (n + 1)⟩
      obtain ⟨g, -, number, hlt, rfl⟩ := PaperScope.exists_of_mem_executions hx
      exact .inl (by simpa [PaperScope.execution] using hlt)

/-- The session's fills, in the order they were booked. -/
theorem executionsOf_eq (h : PaperJournal.Holds b₀ scope l b) (hclear : b₀.Clear scope) :
    b.executionsOf scope.client scope.date = scope.executions 0 l.fills := by
  have hold : b₀.executions.filter (fun x =>
      x.accountId = some scope.client ∧ x.sessionDate = some scope.date) = [] :=
    List.filter_eq_nil_iff.mpr fun x hx => by simpa using (hclear.executions x hx).2
  have hnew : (scope.executions 0 l.fills).filter (fun x =>
      x.accountId = some scope.client ∧ x.sessionDate = some scope.date) =
      scope.executions 0 l.fills :=
    List.filter_eq_self.mpr fun x hx => by
      obtain ⟨f, -, number, -, rfl⟩ := PaperScope.exists_of_mem_executions hx
      simp [PaperScope.execution]
  rw [PaperBooks.executionsOf, h.shelved.executions, List.filter_append, hold, hnew, List.nil_append]
  exact (pairwise_executions 0 l.fills).insertionSort_eq

/-- The trades an order has. -/
theorem length_executions (n : ℕ) (fills : List (BrokerTrade × Money)) (id : String) :
    ((scope.executions n fills).filter fun x => x.orderId = id).length =
      (fills.filter fun f => f.1.brokerOrderId = id).length := by
  induction fills generalizing n with
  | nil => rfl
  | cons f rest ih =>
      rw [PaperScope.executions, List.filter_cons, List.filter_cons]
      by_cases hid : f.1.brokerOrderId = id
      · have hid' : (scope.execution (n + 1) f).orderId = id := hid
        simp [hid, hid', ih]
      · have hid' : (scope.execution (n + 1) f).orderId ≠ id := hid
        simp [hid, hid', ih]

/-- An execution reads back as the fill it is of. -/
theorem restoredFill_execution (hs : l.Sound scope) {records : List PaperOrderRecord}
    (hrecords : records.Perm (l.lines.map (LedgerLine.row scope))) {f : BrokerTrade × Money}
    (hf : f ∈ l.fills) (number : ℕ) :
    restoredFill records (scope.execution number f) = .ok ⟨f.1.stored, f.2⟩ := by
  obtain ⟨line, hline, horder, -⟩ := hs.named f hf
  have hnd : ((l.lines.map (LedgerLine.row scope)).map (·.id)).Nodup := by
    rw [List.map_map]
    exact hs.ids_nodup
  have hfound : Table.lookup (·.id) f.1.brokerOrderId records = some (line.row scope) := by
    rw [Table.lookup_of_perm hnd hrecords, horder]
    exact Table.lookup_of_mem hnd (List.mem_map_of_mem hline)
  obtain ⟨executed, hexecuted⟩ := Option.isSome_iff_exists.mp (hs.executed f hf)
  have hlookup : Table.lookup (·.id) (scope.execution number f).orderId records =
      some (line.row scope) := hfound
  have hfees : (scope.execution number f).fees = some f.2 := rfl
  have hpos : 0 < (scope.execution number f).quantity := f.1.quantity_pos
  unfold restoredFill
  rw [hfees, hlookup]
  dsimp only
  rw [dif_pos hpos, brokerId_row (hs.complete line hline), ← horder]
  simp [BrokerTrade.stored, PaperScope.execution, hexecuted]

theorem restoredFills (hs : l.Sound scope) {records : List PaperOrderRecord}
    (hrecords : records.Perm (l.lines.map (LedgerLine.row scope))) (n : ℕ)
    {fills : List (BrokerTrade × Money)} (hfills : ∀ f ∈ fills, f ∈ l.fills) :
    (scope.executions n fills).mapM (restoredFill records) =
      .ok (fills.map fun f => ⟨f.1.stored, f.2⟩) := by
  induction fills generalizing n with
  | nil => rfl
  | cons f rest ih =>
      rw [PaperScope.executions, List.mapM_cons,
        restoredFill_execution hs hrecords (hfills f (List.mem_cons_self ..)), ok_bind,
        ih (n + 1) fun g hg => hfills g (List.mem_cons_of_mem _ hg)]
      rfl

/-- **What is read back** of the books of a ledger. -/
theorem load_eq (h : PaperJournal.Holds b₀ scope l b) (hclear : b₀.Clear scope) (hs : l.Sound scope) :
    load b scope.client scope.date = .ok
      ⟨(l.lines.insertionSort LedgerLine.Earlier).map fun line => line.restored.stored,
        l.fills.map fun f => ⟨f.1.stored, f.2⟩⟩ := by
  have hrecords : ((l.lines.insertionSort LedgerLine.Earlier).map (LedgerLine.row scope)).Perm
      (l.lines.map (LedgerLine.row scope)) := (List.perm_insertionSort _ _).map _
  unfold load
  rw [ordersOf_eq h hclear, executionsOf_eq h hclear]
  simp only [restoredFills hs hrecords 0 fun f hf => hf, ok_bind]
  rw [mapM_map_eq_ok fun line hline => ?_]
  · rfl
  · have hline := (List.mem_insertionSort _).mp hline
    have hseq : b.lastSeq (line.row scope).id = line.seq := by
      have hnumber := h.numbered line.id (hs.id_mem line hline)
      rw [Ledger.seqOf, hs.lookup_id hline] at hnumber
      exact hnumber
    rw [brokerOrder_row (hs.complete line hline), ok_bind, hseq, length_executions]
    have htrades := hs.numbered line hline
    rw [Ledger.dealt] at htrades
    change Except.ok _ = _
    rw [show (line.row scope).id = line.id from rfl, ← htrades]
    rfl

end PaperSessionStore

/-! ## The account -/

namespace PaperAccount

variable [DecimalContext] {account account' : PaperAccount} {fills : List (BrokerTrade × Money)}

/-- A trade makes the same of an account whatever its moment and whatever
the account's trades are. -/
theorem apply_stored {t : BrokerTrade} {fees : Money} (h : account.apply t fees = .ok account') :
    account.stored.apply t.stored fees = .ok account'.stored := by
  unfold apply at h ⊢
  split_ifs at h ⊢ with hneg
  obtain rfl := Except.ok.inj h
  simp only [stored, List.map_append, List.map_singleton]
  rfl

theorem applyAll_stored (h : account.applyAll fills = .ok account') :
    account.stored.applyAll (fills.map fun f => (f.1.stored, f.2)) = .ok account'.stored := by
  induction fills generalizing account with
  | nil =>
      obtain rfl := Except.ok.inj h
      rfl
  | cons f rest ih =>
      obtain ⟨next, hnext, hrest⟩ := exists_of_bind h
      rw [List.map_cons, applyAll, List.foldlM_cons, apply_stored hnext, ok_bind]
      exact ih hrest

end PaperAccount

/-! ## The broker that is built -/

namespace LedgerLine

/-- The line's order, put back at a moment. -/
def simulated (line : LedgerLine) (now : Timestamp) : SimulatedOrder :=
  ⟨line.order.stored, line.seq, now, line.trades⟩

end LedgerLine

namespace PaperBroker

variable [DecimalContext] {startingCash : Money} {hcash : Money.zero ≤ startingCash}
  {scope : PaperScope} {s : PaperBroker} {l : Ledger} {now : Timestamp}

/-- The broker a session's ledger is resumed as. -/
def ofLedger (l : Ledger) (account : PaperAccount) (now : Timestamp) : PaperBroker where
  exchange := ⟨(l.lines.insertionSort LedgerLine.Earlier).map (·.simulated now), []⟩
  account := account.stored
  prices := []
  journal := []

variable (now) in
theorem resume_eq (hs : l.Sound scope)
    (haccount : (PaperAccount.new startingCash hcash).applyAll l.fills = .ok s.account) :
    resume startingCash hcash
      ⟨(l.lines.insertionSort LedgerLine.Earlier).map fun line => line.restored.stored,
        l.fills.map fun f => ⟨f.1.stored, f.2⟩⟩ now = .ok (ofLedger l s.account now) := by
  have hnd : ((l.lines.insertionSort LedgerLine.Earlier).map LedgerLine.id).Nodup :=
    ((List.perm_insertionSort _ _).map _).nodup_iff.mpr hs.ids_nodup
  have horders : ((l.lines.insertionSort LedgerLine.Earlier).map fun line =>
      line.restored.stored).foldl (fun orders (item : RestoredOrder) =>
        Table.upsert SimulatedOrder.id ⟨item.order, item.seq, now, item.trades⟩ orders) [] =
      (l.lines.insertionSort LedgerLine.Earlier).map (·.simulated now) := by
    have hall : ((l.lines.insertionSort LedgerLine.Earlier).map (·.simulated now)).foldl
        (fun table x => Table.upsert SimulatedOrder.id x table) [] =
        [] ++ (l.lines.insertionSort LedgerLine.Earlier).map (·.simulated now) := by
      refine Table.foldl_upsert_of_nodup ?_
      rw [List.nil_append, List.map_map]
      exact hnd
    rw [List.nil_append, List.foldl_map] at hall
    rw [List.foldl_map]
    exact hall
  have hstored := PaperAccount.applyAll_stored haccount
  unfold resume SimulatedExchange.restore
  have hempty : ¬ SimulatedExchange.empty.orders ≠ [] := not_not.mpr rfl
  rw [if_neg hempty, ok_bind, List.map_map]
  change (PaperAccount.applyAll (PaperAccount.new startingCash hcash)
    (l.fills.map fun f => (f.1.stored, f.2)) >>= _) = _
  have hfresh : (PaperAccount.new startingCash hcash).stored = PaperAccount.new startingCash hcash := rfl
  rw [hfresh] at hstored
  rw [hstored, ok_bind]
  simp only [SimulatedExchange.empty, horders]
  rfl

/-! ## What a restart has of the running broker -/

/-- The same orders, with their time priority and their counters, and the
same account, up to whole milliseconds. -/
structure Resumes (s s' : PaperBroker) : Prop where
  orders : s'.exchange.orders.map (·.restored.stored) = s.exchange.orders.map (·.restored.stored)
  positions : s'.account.positions = s.account.positions
  cash : s'.account.cash = s.account.cash
  trades : s'.account.trades.map BrokerTrade.stored = s.account.trades.map BrokerTrade.stored

/-- The same fills on any later ticks that are behind the latencies of
both. -/
def FillsAlike (settings : PaperSettings) (s s' : PaperBroker) : Prop :=
  ∀ later : List (Timestamp × Tick),
    (∀ t ∈ later, s.Live t.2.receivedTs ∧ s'.Live t.2.receivedTs) →
    s.fillsOf settings later = s'.fillsOf settings later

/-- **A restart is as good as no restart**: the session reads back, the
broker is built from it, and it goes on as the running one does. -/
def Restarts (settings : PaperSettings) (startingCash : Money) (hcash : Money.zero ≤ startingCash)
    (date : ℤ) (now : Timestamp) (b : PaperBooks) (s : PaperBroker) : Prop :=
  ∃ restored s', PaperSessionStore.load b settings.clientCode date = .ok restored ∧
    resume startingCash hcash restored now = .ok s' ∧ s.Resumes s' ∧
    ((∀ v v', settings.policies.budget v = settings.policies.budget v') → FillsAlike settings s s')

omit [DecimalContext] in
theorem stored_stored {t : BrokerTrade} : t.stored.stored = t.stored := by
  simp [BrokerTrade.stored, Option.map_map, Function.comp_def]

omit [DecimalContext] in
theorem order_stored_stored {order : PaperOrder} : order.stored.stored = order.stored := by
  simp [PaperOrder.stored]

omit [DecimalContext] in
/-- A ledger resumed has the orders of the broker if and only if its lines
are in the order they are read back in. -/
theorem orders_ofLedger {account : PaperAccount} (hs : l.Sound scope)
    (hlines : l.lines.map LedgerLine.restored = s.exchange.orders.map SimulatedOrder.restored) :
    ((ofLedger l account now).exchange.orders.map (·.restored.stored) =
        s.exchange.orders.map (·.restored.stored)) ↔ l.lines.Pairwise LedgerLine.Earlier := by
  have hresumed : (ofLedger l account now).exchange.orders.map (·.restored.stored) =
      (l.lines.insertionSort LedgerLine.Earlier).map (·.restored.stored) := by
    rw [ofLedger, List.map_map]
    refine List.map_congr_left fun line _ => ?_
    simp only [Function.comp_apply, LedgerLine.simulated, SimulatedOrder.restored,
      LedgerLine.restored, RestoredOrder.stored, order_stored_stored]
  have hrunning : s.exchange.orders.map (·.restored.stored) = l.lines.map (·.restored.stored) := by
    have hmap := congrArg (List.map RestoredOrder.stored) hlines
    rw [List.map_map, List.map_map] at hmap
    exact hmap.symm
  rw [hresumed, hrunning]
  constructor
  · intro h
    -- the ids stand in one order, so the lines do
    have hids : (l.lines.insertionSort LedgerLine.Earlier).map LedgerLine.id =
        l.lines.map LedgerLine.id := by
      have hmap := congrArg (List.map fun item : RestoredOrder => item.order.brokerOrderId) h
      rw [List.map_map, List.map_map] at hmap
      exact hmap
    have hsame : l.lines.insertionSort LedgerLine.Earlier = l.lines := by
      refine List.ext_getElem (List.length_insertionSort _ _) fun n hn hn' => ?_
      refine Table.eq_of_key hs.ids_nodup
        ((List.mem_insertionSort _).mp (List.getElem_mem hn)) (List.getElem_mem hn') ?_
      have hget := List.getElem_of_eq hids (by simpa using hn)
      simpa using hget
    have hsorted := List.pairwise_insertionSort LedgerLine.Earlier l.lines
    rwa [hsame] at hsorted
  · intro h
    rw [h.insertionSort_eq]

variable {settings : PaperSettings}

/-- The resumed broker is alike where its orders are. -/
theorem alike_of_resumes {s' : PaperBroker} (h : s.Resumes s') : s.Alike s' := by
  refine ⟨?_, h.positions.symm⟩
  have htimeless (o : SimulatedOrder) : o.timeless =
      ⟨{ o.restored.stored.order with updatedAt := 0 }, o.restored.stored.seq, 0,
        o.restored.stored.trades⟩ := rfl
  have hmap := congrArg (List.map fun item : RestoredOrder =>
    (⟨{ item.order with updatedAt := 0 }, item.seq, 0, item.trades⟩ : SimulatedOrder)) h.orders
  rw [List.map_map, List.map_map] at hmap
  exact hmap.symm

end PaperBroker

/-! ## When a restart is as good as none -/

/-- The order of these answers is read back ahead of the other's. -/
def CallAnswers.Precedes (a b : CallAnswers) : Prop :=
  a.now.millis < b.now.millis ∨
    (a.now.millis = b.now.millis ∧ "PAPER" ++ a.ulid ≤ "PAPER" ++ b.ulid)

instance : DecidableRel CallAnswers.Precedes := fun _ _ => inferInstanceAs (Decidable (_ ∨ _))

/-- The session the calls are of. -/
def PaperSettings.scope (settings : PaperSettings) (date : ℤ) (calls : List PaperCall) : PaperScope where
  client := settings.clientCode
  date := date
  ids := (calls.filterMap PaperCall.ulid).map ("PAPER" ++ ·)
  tags := calls.filterMap fun call => match call with
    | .place _ request => some request.clientTag
    | _ => none

namespace PaperBroker

variable [DecimalContext] {settings : PaperSettings} {startingCash : Money}
  {hcash : Money.zero ≤ startingCash} {calls : List PaperCall} {b₀ b : PaperBooks} {date : ℤ}

/-- **When a restart is as good as none.** A run from a new broker within one
session date, whose trades are all charged, is journalled and the journal is
flushed to books that have nothing of the session, however often a write
failed. A broker built from the books is as good as the running one if and
only if the orders were placed in the order of their milliseconds and, within
a millisecond, of their ids. -/
theorem restarts_iff (hids : (calls.filterMap PaperCall.ulid).Nodup)
    (hdate : ∀ call ∈ calls, call.now.sessionDate = date)
    (hcharged : ∀ ahead call behind, calls = ahead ++ call :: behind →
      ((new startingCash hcash).run settings ahead).Charged settings call)
    (hclear : b₀.Clear (settings.scope date calls))
    (hflushed : PaperJournal.Flushed b₀ ((new startingCash hcash).run settings calls).journal b)
    (now : Timestamp) :
    Restarts settings startingCash hcash date now b ((new startingCash hcash).run settings calls) ↔
      (admissions settings (new startingCash hcash) calls).Pairwise CallAnswers.Precedes := by
  have hwithin : ∀ call ∈ calls, call.Within (settings.scope date calls) := by
    intro call hcall
    cases call with
    | place answers request =>
        refine ⟨List.mem_map_of_mem (List.mem_filterMap.mpr ⟨_, hcall, rfl⟩), ?_⟩
        exact List.mem_filterMap.mpr ⟨_, hcall, rfl⟩
    | modify | cancel | tick => trivial
  have hstart : Chronicled (settings.scope date calls) (.new startingCash hcash)
      (new startingCash hcash) (new startingCash hcash).exchange.orders .empty :=
    ⟨.nil, rfl, rfl, rfl⟩
  obtain ⟨l, hl, hstamps⟩ := hstart.run kept_new calls hids hcharged hwithin rfl hdate
  have hs := hl.sound
  have hempty : PaperJournal.Holds b₀ (settings.scope date calls) .empty b₀ := by
    refine ⟨⟨by simp [Ledger.empty], by simp [Ledger.empty, PaperScope.executions]⟩, ?_⟩
    intro id hid
    have hnone : b₀.events.filter (fun e => e.orderId = id) = [] :=
      List.filter_eq_nil_iff.mpr fun e he => by
        have hne : e.orderId ≠ id := fun heq => hclear.events e he (heq ▸ hid)
        simpa using hne
    rw [PaperBooks.lastSeq, hnone]
    rfl
  have hholds := hflushed.holds hl.chronicle Ledger.sound_empty hclear hempty.awaits
  have hload := PaperSessionStore.load_eq hholds hclear hs
  have hresume := resume_eq now hs hl.account_eq
  have horder : l.lines.Pairwise LedgerLine.Earlier ↔
      (admissions settings (new startingCash hcash) calls).Pairwise CallAnswers.Precedes := by
    have hmap : (l.lines.map LedgerLine.stamp).Pairwise (fun p q : Timestamp × String =>
        p.1.millis < q.1.millis ∨ (p.1.millis = q.1.millis ∧ p.2 ≤ q.2)) ↔
      ((admissions settings (new startingCash hcash) calls).map CallAnswers.stamp).Pairwise
        fun p q => p.1.millis < q.1.millis ∨ (p.1.millis = q.1.millis ∧ p.2 ≤ q.2) := by
      rw [hstamps]
      rfl
    rwa [List.pairwise_map, List.pairwise_map] at hmap
  rw [← horder]
  constructor
  · rintro ⟨restored, s', hrestored, hs', hresumes, -⟩
    obtain rfl := Except.ok.inj (hload.symm.trans hrestored)
    obtain rfl := Except.ok.inj (hresume.symm.trans hs')
    exact (orders_ofLedger hs hl.lines).mp hresumes.orders
  · intro hsorted
    have hresumes : ((new startingCash hcash).run settings calls).Resumes
        (ofLedger l ((new startingCash hcash).run settings calls).account now) := by
      refine ⟨(orders_ofLedger hs hl.lines).mpr hsorted, rfl, rfl, ?_⟩
      rw [ofLedger, PaperAccount.stored, List.map_map]
      exact List.map_congr_left fun t _ => stored_stored
    refine ⟨_, _, hload, hresume, hresumes, fun hbudget later hlive => ?_⟩
    exact (alike_of_resumes hresumes).fillsOf_eq hbudget hlive

end PaperBroker

/-! ## Two purchases -/

namespace PaperBroker

theorem sampleTags_fit : isClientTag "T1" ∧ isClientTag "T2" := by decide

theorem cappedLatency_nonneg : (0 : Duration) ≤ 0 := by decide

theorem cappedLeverage_ge : (1 : Decimal) ≤ 1 := le_rfl

/-- A market in which each tick has ten for the account. -/
def cappedSettings : PaperSettings where
  clientCode := "A"
  policies :=
    { executionPrice := Paper.limitFill (@Paper.touchCrossing Decimal.standard) Paper.atLimitPrice
      budget := Paper.cappedLiquidity 10
      fires := @Paper.stopTrigger Decimal.standard
      latency := 0
      latency_nonneg := cappedLatency_nonneg }
  costs := noCosts
  leverage := 1
  leverage_ge := cappedLeverage_ge

/-- Two purchases of ten, at moments and with ids of their own. -/
def twoPurchases (first second : Timestamp × String) : List PaperCall :=
  [.place { sampleAnswers with now := first.1, ulid := first.2 }
    ⟨"BSE:1", .buy, .limit, 10, ⟨100⟩, "T1", none, Sample.ten_pos, samplePrice_pos, trivial,
      sampleTags_fit.1⟩,
    .place { sampleAnswers with now := second.1, ulid := second.2 }
    ⟨"BSE:1", .buy, .limit, 10, ⟨100⟩, "T2", none, Sample.ten_pos, samplePrice_pos, trivial,
      sampleTags_fit.2⟩]

def twoRun (first second : Timestamp × String) : PaperBroker :=
  @run Decimal.standard cappedSettings (new ⟨1000⟩ sampleCash_nonneg) (twoPurchases first second)

/-- The books the run is flushed to. -/
def twoBooks (first second : Timestamp × String) : PaperBooks :=
  ((@PaperJournal.flush Decimal.standard .empty (twoRun first second).journal).toOption).getD .empty

/-- The broker built from the books. -/
def twoRestarted (first second : Timestamp × String) : Except PyError PaperBroker := do
  @resume Decimal.standard ⟨1000⟩ sampleCash_nonneg
    (← PaperSessionStore.load (twoBooks first second) "A" 0) 10000

/-- A tick at the purchases' price. -/
def laterTick : List (Timestamp × Tick) :=
  [(20000, ⟨"BSE:1", 20000, 20000, ⟨100⟩, 0, none, false, samplePrice_pos⟩)]

/-- The second purchase a millisecond after the first. -/
theorem restarts_sample : @Restarts Decimal.standard cappedSettings ⟨1000⟩ sampleCash_nonneg 0 10000
    (twoBooks (0, "B") (1000, "A")) (twoRun (0, "B") (1000, "A")) := by
  have hflushed : @PaperJournal.flush Decimal.standard .empty (twoRun (0, "B") (1000, "A")).journal =
      .ok (twoBooks (0, "B") (1000, "A")) := by
    have hok : (@PaperJournal.flush Decimal.standard .empty
        (twoRun (0, "B") (1000, "A")).journal).isOk := by decide
    unfold twoBooks
    cases hb : @PaperJournal.flush Decimal.standard .empty (twoRun (0, "B") (1000, "A")).journal with
    | error e =>
        rw [hb] at hok
        cases hok
    | ok b => rfl
  refine (@restarts_iff Decimal.standard cappedSettings ⟨1000⟩ sampleCash_nonneg
    (twoPurchases (0, "B") (1000, "A")) .empty _ 0 (by decide) (by decide) ?_
    PaperBooks.clear_empty (@PaperJournal.flushed_of_flush Decimal.standard _ _ _ hflushed) 10000).mpr
    (by decide)
  intro ahead call behind hsplit
  cases call with
  | tick now tick => exact fun t _ => noCosts_charges t
  | place | modify | cancel => trivial

/-- **Time priority that is lost.** Two purchases within one millisecond, the
second with the smaller id. The restarted broker has them the other way
round, and the ten of the next tick go to the other one. -/
theorem priority_lost :
    (twoRun (0, "B") (1, "A")).exchange.orders.map SimulatedOrder.id = ["PAPERB", "PAPERA"] ∧
    ((twoRestarted (0, "B") (1, "A")).toOption.map fun s =>
      s.exchange.orders.map SimulatedOrder.id) = some ["PAPERA", "PAPERB"] ∧
    (@fillsOf Decimal.standard cappedSettings (twoRun (0, "B") (1, "A")) laterTick).map
      (·.brokerOrderId) = ["PAPERB"] ∧
    ((twoRestarted (0, "B") (1, "A")).toOption.map fun s =>
      (@fillsOf Decimal.standard cappedSettings s laterTick).map (·.brokerOrderId)) =
        some ["PAPERA"] ∧
    ¬ @Restarts Decimal.standard cappedSettings ⟨1000⟩ sampleCash_nonneg 0 10000
      (twoBooks (0, "B") (1, "A")) (twoRun (0, "B") (1, "A")) := by
  have hrunning : (twoRun (0, "B") (1, "A")).exchange.orders.map SimulatedOrder.id =
      ["PAPERB", "PAPERA"] := by decide
  have hrestarted : ((twoRestarted (0, "B") (1, "A")).toOption.map fun s =>
      s.exchange.orders.map SimulatedOrder.id) = some ["PAPERA", "PAPERB"] := by decide +kernel
  refine ⟨hrunning, hrestarted, by decide +kernel, by decide +kernel, ?_⟩
  rintro ⟨restored, s', hload, hresume, hresumes, -⟩
  have hs' : twoRestarted (0, "B") (1, "A") = .ok s' := by
    have hload : PaperSessionStore.load (twoBooks (0, "B") (1, "A")) "A" 0 = .ok restored := hload
    rw [twoRestarted, hload, ok_bind]
    exact hresume
  have horders := @Resumes.orders Decimal.standard _ _ hresumes
  have hids := congrArg (List.map fun item : RestoredOrder => item.order.brokerOrderId) horders
  rw [List.map_map, List.map_map] at hids
  have hids : s'.exchange.orders.map SimulatedOrder.id =
      (twoRun (0, "B") (1, "A")).exchange.orders.map SimulatedOrder.id := hids
  rw [hs'] at hrestarted
  have hswapped : s'.exchange.orders.map SimulatedOrder.id = ["PAPERA", "PAPERB"] :=
    Option.some.inj hrestarted
  rw [hswapped, hrunning] at hids
  simp at hids

end PaperBroker

end Emporos
