import Emporos.Paper.Agreement
import Emporos.Paper.Ledger
/-!
# What a run journals

Every change of the exchange is one event of one order, and every event that
is booked is journalled. A tick's events are those of orders in their place
on the book; a command's is that of one order, or of a new one behind the
others. So the ledger of a run's journal has the orders of the exchange, in
their order, and the account is what its fills make.
-/

namespace Emporos

namespace SimulatedOrder

/-- What is put back for the order after a restart. -/
def restored (o : SimulatedOrder) : RestoredOrder := ⟨o.order, o.seq, o.trades⟩

/-- What an event says of an order it is of. -/
structure Reports (o o' : SimulatedOrder) (now : Timestamp) (e : ExchangeEvent) : Prop where
  order_eq : e.order = o'.order
  seq_eq : e.seq = o'.seq
  moment_eq : e.moment = now
  next : o'.seq = o.seq + 1
  id_eq : o'.id = o.id
  tag_eq : o'.order.clientTag = o.order.clientTag
  type_eq : o'.order.orderType = o.order.orderType
  priced : o.order.price.isSome → o'.order.price.isSome
  live_eq : o'.liveFrom = o.liveFrom
  untraded : e.trade = none → o'.trades = o.trades
  traded : ∀ t, e.trade = some t → o'.trades = o.trades + 1 ∧ t.tradeId = s!"{o.id}-{o.trades + 1}" ∧
    t.brokerOrderId = o.id ∧ t.executedAt = some now

variable {o o' : SimulatedOrder} {now : Timestamp} {e : ExchangeEvent}

theorem reports_event (o : SimulatedOrder) (now : Timestamp) {order : PaperOrder} (reason : String)
    (hid : order.brokerOrderId = o.order.brokerOrderId) (htag : order.clientTag = o.order.clientTag)
    (htype : order.orderType = o.order.orderType)
    (hpriced : o.order.price.isSome → order.price.isSome) :
    o.Reports (o.event now order reason none).1 now (o.event now order reason none).2 :=
  ⟨rfl, rfl, rfl, rfl, hid, htag, htype, hpriced, rfl, fun _ => rfl, by simp [event]⟩

theorem reports_cancelled (h : o.cancelled now = .ok (o', e)) : o.Reports o' now e := by
  obtain ⟨-, -, hevent⟩ := exists_of_bind h
  obtain ⟨rfl, rfl⟩ := Prod.mk.inj (Except.ok.inj hevent)
  exact reports_event o now _ rfl rfl rfl fun h => h

theorem reports_triggered (h : o.triggered now = .ok (o', e)) : o.Reports o' now e := by
  obtain ⟨-, -, hevent⟩ := exists_of_bind h
  obtain ⟨rfl, rfl⟩ := Prod.mk.inj (Except.ok.inj hevent)
  exact reports_event o now _ rfl rfl rfl fun h => h

theorem reports_amended {quantity : ℕ} {price : Money} {trigger : Option Money}
    (h : o.amended now quantity price trigger = .ok (o', e)) : o.Reports o' now e := by
  obtain ⟨-, -, h⟩ := exists_of_bind h
  split_ifs at h
  obtain ⟨rfl, rfl⟩ := Prod.mk.inj (Except.ok.inj h)
  exact reports_event o now _ rfl rfl rfl fun _ => rfl

variable [DecimalContext]

theorem reports_filled {quantity : ℤ} {price : Money} (h : o.filled now quantity price = .ok (o', e)) :
    o.Reports o' now e := by
  obtain ⟨-, -, h⟩ := exists_of_bind h
  split_ifs at h
  obtain ⟨rfl, rfl⟩ := Prod.mk.inj (Except.ok.inj h)
  refine ⟨rfl, rfl, rfl, rfl, rfl, rfl, rfl, fun h => h, rfl,
    (fun h => by cases h), ?_⟩
  rintro t ht
  obtain rfl := Option.some.inj ht
  exact ⟨rfl, rfl, rfl, rfl⟩

end SimulatedOrder

namespace SimulatedExchange

/-- Orders before and after events that each are of one of them, in their
order. -/
inductive Sweep (now : Timestamp) :
    List SimulatedOrder → List SimulatedOrder → List ExchangeEvent → Prop
  | nil : Sweep now [] [] []
  | same {o : SimulatedOrder} {rest rest' : List SimulatedOrder} {events : List ExchangeEvent} :
      Sweep now rest rest' events → Sweep now (o :: rest) (o :: rest') events
  | event {o o' : SimulatedOrder} {e : ExchangeEvent} {rest rest' : List SimulatedOrder}
      {events : List ExchangeEvent} :
      o.Reports o' now e → Sweep now rest rest' events →
      Sweep now (o :: rest) (o' :: rest') (e :: events)

variable {now : Timestamp} {o o' : SimulatedOrder} {e : ExchangeEvent} {x x' : SimulatedExchange}
  {orders orders' : List SimulatedOrder} {events : List ExchangeEvent} {orderId : String}

theorem Sweep.refl (orders : List SimulatedOrder) : Sweep now orders orders [] := by
  induction orders with
  | nil => exact .nil
  | cons o rest ih => exact .same ih

theorem Sweep.single (h : o.Reports o' now e) (ahead behind : List SimulatedOrder) :
    Sweep now (ahead ++ o :: behind) (ahead ++ o' :: behind) [e] := by
  induction ahead with
  | nil => exact .event h (.refl behind)
  | cons y ahead ih => exact .same ih

/-- A change of an order on the book leaves it in its place. -/
theorem sweep_put (hnd : (x.orders.map (·.id)).Nodup) (hfind : x.find orderId = .ok o)
    (h : o.Reports o' now e) : Sweep now x.orders (x.put o').orders [e] := by
  obtain ⟨ahead, behind, hsplit⟩ := List.append_of_mem (mem_of_find hfind)
  have hput : (x.put o').orders = ahead ++ o' :: behind := by
    unfold put
    rw [hsplit] at hnd ⊢
    exact Table.upsert_middle hnd h.id_eq.symm
  rw [hput, hsplit]
  exact .single h ahead behind

theorem sweep_cancel (hnd : (x.orders.map (·.id)).Nodup) (h : x.cancel orderId now = .ok (x', e)) :
    Sweep now x.orders x'.orders [e] := by
  obtain ⟨o, hfind, h⟩ := exists_of_bind h
  obtain ⟨⟨o', e'⟩, hcancelled, h⟩ := exists_of_bind h
  obtain ⟨rfl, rfl⟩ := Prod.mk.inj (Except.ok.inj h)
  exact sweep_put hnd hfind (SimulatedOrder.reports_cancelled hcancelled)

theorem sweep_amend {quantity : ℕ} {price : Money} {trigger : Option Money}
    (hnd : (x.orders.map (·.id)).Nodup)
    (h : x.amend orderId now quantity price trigger = .ok (x', e)) :
    Sweep now x.orders x'.orders [e] := by
  obtain ⟨o, hfind, h⟩ := exists_of_bind h
  obtain ⟨⟨o', e'⟩, hamended, h⟩ := exists_of_bind h
  obtain ⟨rfl, rfl⟩ := Prod.mk.inj (Except.ok.inj h)
  exact sweep_put hnd hfind (SimulatedOrder.reports_amended hamended)

variable [DecimalContext] {P : ExchangePolicies} {tick : Tick}

/-- A turn leaves the order alone or is an event of it. -/
theorem visit_reports {budget budget' : Option ℤ} {made : Option ExchangeEvent}
    (h : visit P tick now budget o = .ok (o', budget', made)) :
    (o' = o ∧ made = none) ∨ ∃ e, made = some e ∧ o.Reports o' now e := by
  have hstays {b : Option ℤ} (h : Except.ok (ε := PyError) (o, b, none) = .ok (o', budget', made)) :
      o' = o ∧ made = none := by
    obtain ⟨hsame, hnone⟩ := Prod.mk.inj (Except.ok.inj h)
    exact ⟨hsame.symm, (Prod.mk.inj hnone).2.symm⟩
  unfold visit at h
  split at h
  · exact .inl (hstays h)
  · split at h
    · obtain ⟨view, -, h⟩ := exists_of_bind h
      split at h
      · obtain ⟨⟨p, e⟩, htriggered, h⟩ := exists_of_bind h
        obtain ⟨rfl, hmade⟩ := Prod.mk.inj (Except.ok.inj h)
        obtain ⟨-, rfl⟩ := Prod.mk.inj hmade
        exact .inr ⟨e, rfl, SimulatedOrder.reports_triggered htriggered⟩
      · exact .inl (hstays h)
    · obtain ⟨view, -, h⟩ := exists_of_bind h
      split at h
      · exact .inl (hstays h)
      · dsimp only at h
        split at h
        · exact .inl (hstays h)
        · obtain ⟨⟨p, e⟩, hfilled, h⟩ := exists_of_bind h
          obtain ⟨rfl, hmade⟩ := Prod.mk.inj (Except.ok.inj h)
          obtain ⟨-, rfl⟩ := Prod.mk.inj hmade
          exact .inr ⟨e, rfl, SimulatedOrder.reports_filled hfilled⟩

/-- What a loop that raises nothing is made of. -/
theorem matchAll_cons_ok {budget : Option ℤ}
    (h : matchAll P tick now budget (o :: orders) = (orders', .ok events)) :
    ∃ o' budget' made rest' later, visit P tick now budget o = .ok (o', budget', made) ∧
      matchAll P tick now budget' orders = (rest', .ok later) ∧ orders' = o' :: rest' ∧
      events = made.toList ++ later := by
  unfold matchAll at h
  cases hvisit : visit P tick now budget o with
  | error error =>
      rw [hvisit] at h
      cases (Prod.mk.inj h).2
  | ok result =>
      obtain ⟨o', left, made⟩ := result
      cases hrest : matchAll P tick now left orders with
      | mk rest' outcome =>
          simp only [hvisit, hrest] at h
          obtain ⟨rfl, hevents⟩ := Prod.mk.inj h
          cases outcome with
          | error error => cases hevents
          | ok later => exact ⟨o', left, made, rest', later, rfl, hrest, rfl, (Except.ok.inj hevents).symm⟩

theorem matchAll_sweep {budget : Option ℤ}
    (h : matchAll P tick now budget orders = (orders', .ok events)) :
    Sweep now orders orders' events := by
  induction orders generalizing budget orders' events with
  | nil =>
      obtain ⟨rfl, hnone⟩ := Prod.mk.inj h
      obtain rfl := Except.ok.inj hnone
      exact .nil
  | cons o rest ih =>
      obtain ⟨o', left, made, rest', later, hvisit, hrest, rfl, rfl⟩ := matchAll_cons_ok h
      rcases visit_reports hvisit with ⟨rfl, rfl⟩ | ⟨e, rfl, hreports⟩
      · exact .same (ih hrest)
      · exact .event hreports (ih hrest)

/-- A tick that raises nothing is out of order, or runs the loop. -/
theorem onTick_ok (h : x.onTick P tick now = (x', .ok events)) :
    (tick.outOfOrder = true ∧ x' = x ∧ events = []) ∨
      (tick.outOfOrder = false ∧
        matchAll P tick now (P.budget (x.tape.sincePrevious tick).2) x.orders = (x'.orders, .ok events)) := by
  unfold onTick at h
  split at h
  · rename_i hlate
    obtain ⟨rfl, hnone⟩ := Prod.mk.inj h
    exact .inl ⟨hlate, rfl, (Except.ok.inj hnone).symm⟩
  · rename_i hlate
    cases hmatch : matchAll P tick now (P.budget (x.tape.sincePrevious tick).2) x.orders with
    | mk orders' outcome =>
        simp only [hmatch] at h
        obtain ⟨rfl, rfl⟩ := Prod.mk.inj h
        exact .inr ⟨Bool.eq_false_iff.mpr hlate, rfl⟩

theorem onTick_sweep (h : x.onTick P tick now = (x', .ok events)) :
    Sweep now x.orders x'.orders events := by
  rcases onTick_ok h with ⟨-, rfl, rfl⟩ | ⟨-, hmatch⟩
  · exact .refl _
  · exact matchAll_sweep hmatch

end SimulatedExchange

namespace PaperAccount

variable [DecimalContext] {account account' : PaperAccount} {fills fills' : List (BrokerTrade × Money)}

theorem applyAll_append : account.applyAll (fills ++ fills') =
    (account.applyAll fills >>= fun account => account.applyAll fills') := by
  simp only [applyAll, List.foldlM_append]

/-- An account has the trades it is given. -/
theorem trades_of_applyAll (h : account.applyAll fills = .ok account') :
    account'.trades = account.trades ++ fills.map Prod.fst := by
  induction fills generalizing account with
  | nil =>
      obtain rfl := Except.ok.inj h
      simp
  | cons f rest ih =>
      obtain ⟨next, hnext, hrest⟩ := exists_of_bind h
      rw [ih hrest, trades_of_apply hnext, List.map_cons, List.append_assoc, List.singleton_append]

end PaperAccount

/-- What a session is sorted by when it is read back. -/
def LedgerLine.stamp (line : LedgerLine) : Timestamp × String := (line.created, line.id)

namespace PaperBroker

variable [DecimalContext]

/-- The journal of a broker with these orders, from an account without
trades: the ledger it leads to has the orders, and the account is what its
fills make. -/
structure Chronicled (scope : PaperScope) (account : PaperAccount) (s : PaperBroker)
    (orders : List SimulatedOrder) (l : Ledger) : Prop where
  chronicle : Ledger.Chronicle scope .empty s.journal l
  lines : l.lines.map LedgerLine.restored = orders.map SimulatedOrder.restored
  untraded : account.trades = []
  account_eq : account.applyAll l.fills = .ok s.account

variable {scope : PaperScope} {account : PaperAccount} {settings : PaperSettings} {s : PaperBroker}
  {orders orders' ahead behind : List SimulatedOrder} {o o' : SimulatedOrder} {l : Ledger}
  {now : Timestamp} {e : ExchangeEvent} {events : List ExchangeEvent}

theorem Chronicled.sound (h : Chronicled scope account s orders l) : l.Sound scope :=
  h.chronicle.sound Ledger.sound_empty

/-- The line of an order, in its place. -/
theorem Chronicled.line (h : Chronicled scope account s (ahead ++ o :: behind) l) :
    ∃ before line after, l.lines = before ++ line :: after ∧ line.restored = o.restored ∧
      before.map LedgerLine.restored = ahead.map SimulatedOrder.restored ∧
      after.map LedgerLine.restored = behind.map SimulatedOrder.restored := by
  have hlines := h.lines
  rw [List.map_append, List.map_cons] at hlines
  obtain ⟨before, rest, hsplit, hbefore, hrest⟩ := List.map_eq_append_iff.mp hlines
  obtain ⟨line, after, rfl, hline, hafter⟩ := List.map_eq_cons_iff.mp hrest
  exact ⟨before, line, after, hsplit, hline, hbefore, hafter⟩

omit [DecimalContext] in
/-- The event of an order is the next of its line. -/
theorem continues_of_reports {line : LedgerLine} (hr : o.Reports o' now e) (hmem : line ∈ l.lines)
    (hline : line.restored = o.restored) (hs : l.Sound scope) :
    l.Continues e.order e.seq line ∧ e.order.Complete := by
  obtain ⟨horder, hseq, -⟩ := RestoredOrder.mk.injEq .. ▸ hline
  have hcomplete := hs.complete line hmem
  rw [horder] at hcomplete
  have hid : e.order.brokerOrderId = o.order.brokerOrderId := hr.order_eq ▸ hr.id_eq
  have htag : e.order.clientTag = o.order.clientTag := hr.order_eq ▸ hr.tag_eq
  refine ⟨⟨hmem, ?_, ?_, ?_⟩, ⟨hid ▸ hcomplete.named, htag ▸ hcomplete.tagged, ?_, ?_⟩⟩
  · rw [LedgerLine.id, horder, hid]
  · rw [horder, htag]
  · rw [hr.seq_eq, hr.next, hseq]
  · rw [hr.order_eq, hr.type_eq]
    exact hcomplete.typed
  · rw [hr.order_eq]
    exact hr.priced hcomplete.priced

/-- **One event.** It is booked and journalled, and the ledger goes on with
the order after it in its place. -/
theorem Chronicled.event (h : Chronicled scope account s (ahead ++ o :: behind) l)
    (hr : o.Reports o' now e) (hclient : settings.clientCode = scope.client)
    (hdate : now.sessionDate = scope.date)
    (hcharges : ∀ t, e.trade = some t → settings.costs.Charges t) :
    ∃ s' l', s.applyEvent settings now e = .ok s' ∧ s'.exchange = s.exchange ∧
      Chronicled scope account s' (ahead ++ o' :: behind) l' ∧
      l'.lines.map LedgerLine.stamp = l.lines.map LedgerLine.stamp := by
  obtain ⟨before, line, after, hsplit, hline, hbefore, hafter⟩ := h.line
  have hmem : line ∈ l.lines := hsplit ▸ List.mem_append_right _ (List.mem_cons_self ..)
  obtain ⟨hcontinues, hcomplete⟩ := continues_of_reports hr hmem hline h.sound
  obtain ⟨-, -, htrades⟩ := RestoredOrder.mk.injEq .. ▸ hline
  have hplace (trades : ℕ) (hmade : o'.trades = o.trades + trades) :
      (l.put e.order e.seq trades e.moment).lines.map LedgerLine.restored =
          (ahead ++ o' :: behind).map SimulatedOrder.restored ∧
        (l.put e.order e.seq trades e.moment).lines.map LedgerLine.stamp =
          l.lines.map LedgerLine.stamp := by
    rw [hcontinues.put_lines h.sound trades e.moment hsplit]
    have hrestored : LedgerLine.restored
        { line with order := e.order, seq := e.seq, trades := line.trades + trades } = o'.restored := by
      rw [LedgerLine.restored, SimulatedOrder.restored, hr.order_eq, hr.seq_eq, hmade, htrades]
    have hstamp : LedgerLine.stamp
        { line with order := e.order, seq := e.seq, trades := line.trades + trades } = line.stamp :=
      congrArg (line.created, ·) hcontinues.id_eq
    constructor
    · rw [List.map_append, List.map_cons, hrestored, hbefore, hafter, List.map_append, List.map_cons]
    · rw [hsplit]
      simp only [List.map_append, List.map_cons, hstamp]
  cases htrade : e.trade with
  | none =>
      let entry : JournalEntry := .orderState
        ⟨settings.clientCode, now.sessionDate, e.order, e.seq, e.moment, e.reason⟩
      have hentry : l.Admits scope entry := ⟨hclient, hdate, hcomplete, .inr ⟨line, hcontinues⟩⟩
      obtain ⟨hlines, hstamps⟩ := hplace 0 (hr.untraded htrade)
      refine ⟨{ s with journal := s.journal ++ [entry] }, l.enter entry, by rw [applyEvent, htrade],
        rfl, ⟨h.chronicle.append (.single hentry), hlines, h.untraded, h.account_eq⟩, hstamps⟩
  | some t =>
      obtain ⟨hmade, htradeId, hof, hexecuted⟩ := hr.traded t htrade
      obtain ⟨fees, hfees, hnonneg⟩ := hcharges t htrade
      obtain ⟨account', haccount⟩ : ∃ account', s.account.apply t fees = .ok account' :=
        PaperAccount.apply_isOk.mpr hnonneg
      obtain ⟨horder, -⟩ := RestoredOrder.mk.injEq .. ▸ hline
      have hid : line.id = o.id := by rw [LedgerLine.id, horder, SimulatedOrder.id]
      have hnumber : account'.trades.length = l.fills.length + 1 := by
        rw [PaperAccount.trades_of_apply haccount, PaperAccount.trades_of_applyAll h.account_eq,
          h.untraded]
        simp
      let entry : JournalEntry := .fill ⟨settings.clientCode, now.sessionDate, e.order, e.seq,
        e.moment, t, fees, s.account.after t fees, account'.trades.length⟩
      have hentry : l.Admits scope entry := ⟨hclient, hdate, hcomplete, line, hcontinues,
        ⟨by rw [hid, htrades]; exact htradeId, hof.trans hid.symm, hr.moment_eq ▸ hexecuted, hnumber⟩⟩
      obtain ⟨hlines, hstamps⟩ := hplace 1 hmade
      refine ⟨s.booked settings now e t fees account', l.enter entry, ?_, rfl,
        ⟨h.chronicle.append (.cons hentry (.cons trivial .nil)), hlines, h.untraded, ?_⟩, hstamps⟩
      · rw [applyEvent, htrade]
        simp only [hfees, haccount, ok_bind]
        rfl
      · change account.applyAll (l.fills ++ [(t, fees)]) = .ok account'
        rw [PaperAccount.applyAll_append, h.account_eq, ok_bind]
        exact haccount ▸ bind_pure _

/-- A broker with the journal and the account of another. -/
theorem Chronicled.congr {s' : PaperBroker} (h : Chronicled scope account s orders l)
    (hjournal : s'.journal = s.journal) (haccount : s'.account = s.account) :
    Chronicled scope account s' orders l :=
  ⟨hjournal ▸ h.chronicle, h.lines, h.untraded, haccount ▸ h.account_eq⟩

/-- The events of a sweep, one after the other. -/
theorem Chronicled.apply (h : Chronicled scope account s (ahead ++ orders) l)
    (hsweep : SimulatedExchange.Sweep now orders orders' events)
    (hclient : settings.clientCode = scope.client) (hdate : now.sessionDate = scope.date)
    (hcharges : ∀ t ∈ events.filterMap (·.trade), settings.costs.Charges t) :
    ∃ l', Chronicled scope account (applyEvents settings now s events).1 (ahead ++ orders') l' ∧
      l'.lines.map LedgerLine.stamp = l.lines.map LedgerLine.stamp := by
  induction hsweep generalizing ahead s l with
  | nil => exact ⟨l, h, rfl⟩
  | @same o rest rest' events _ ih =>
      have hsplit (orders : List SimulatedOrder) : ahead ++ o :: orders = (ahead ++ [o]) ++ orders := by
        simp
      rw [hsplit] at h ⊢
      exact ih h hcharges
  | @event o o' e rest rest' events hreports _ ih =>
      have hsplit : ahead ++ o' :: rest = (ahead ++ [o']) ++ rest := by simp
      have hsplit' : ahead ++ o' :: rest' = (ahead ++ [o']) ++ rest' := by simp
      obtain ⟨s', l', happly, -, hnext, hstamps⟩ := h.event hreports hclient hdate fun t ht =>
        hcharges t (by simp [ht])
      obtain ⟨l'', hlast, hstamps'⟩ := ih (hsplit ▸ hnext) fun t ht =>
        hcharges t (List.mem_filterMap.mpr
          ((List.mem_filterMap.mp ht).imp fun e he => ⟨List.mem_cons_of_mem _ he.1, he.2⟩))
      refine ⟨l'', ?_, hstamps'.trans hstamps⟩
      rw [hsplit']
      simpa only [applyEvents, happly] using hlast

/-! ## Commands -/

/-- The placement of a call that the exchange gets. -/
def admitted (settings : PaperSettings) (s : PaperBroker) : PaperCall → Option CallAnswers
  | .place answers request =>
      if (s.screened settings answers request).isOk then some answers else none
  | .modify .. | .cancel .. | .tick .. => none

/-- The placements of a run that the exchange gets, in turn. -/
def admissions (settings : PaperSettings) : PaperBroker → List PaperCall → List CallAnswers
  | _, [] => []
  | s, call :: rest =>
      (s.admitted settings call).toList ++ admissions settings (s.step settings call) rest

end PaperBroker

/-- What an order placed with these answers is sorted by after a restart. -/
def CallAnswers.stamp (answers : CallAnswers) : Timestamp × String :=
  (answers.now, "PAPER" ++ answers.ulid)

/-- What a call's clock says. -/
def PaperCall.now : PaperCall → Timestamp
  | .place answers _ | .modify answers _ | .cancel answers _ => answers.now
  | .tick now _ => now

/-- The id and the tag a call may give an order are in the scope. -/
def PaperCall.Within (scope : PaperScope) : PaperCall → Prop
  | .place answers request => "PAPER" ++ answers.ulid ∈ scope.ids ∧ request.clientTag ∈ scope.tags
  | .modify .. | .cancel .. | .tick .. => True

namespace PaperBroker

variable [DecimalContext] {scope : PaperScope} {account : PaperAccount} {settings : PaperSettings}
  {s : PaperBroker} {orders : List SimulatedOrder} {l : Ledger} {now : Timestamp} {e : ExchangeEvent}
  {x : SimulatedExchange} {answers : CallAnswers} {ulids : List String}

omit [DecimalContext] in
/-- A new order is complete, and at its first event. -/
theorem submit_eq (x : SimulatedExchange) (P : ExchangePolicies) (request : PlaceOrderRequest)
    (ulid : String) (now : Timestamp) (reason : Option String) :
    ∃ (o : SimulatedOrder) (e : ExchangeEvent), x.submit P request ulid now reason = (x.put o, e) ∧
      o.id = "PAPER" ++ ulid ∧ o.order.clientTag = some request.clientTag ∧ o.order.Complete ∧
      o.restored = ⟨o.order, 1, 0⟩ ∧ e.order = o.order ∧ e.seq = 1 ∧ e.moment = now ∧ e.trade = none := by
  have hnamed : "PAPER" ++ ulid ≠ "" := by
    intro h
    have := congrArg String.length h
    rw [String.length_append] at this
    have hfive : "PAPER".length = 5 := by decide
    rw [hfive] at this
    simp at this
  cases reason with
  | none => exact ⟨_, _, rfl, rfl, rfl, ⟨hnamed, rfl, rfl, rfl⟩, rfl, rfl, rfl, rfl, rfl⟩
  | some reason => exact ⟨_, _, rfl, rfl, rfl, ⟨hnamed, rfl, rfl, rfl⟩, rfl, rfl, rfl, rfl, rfl⟩

/-- A placement is screened for its tag. -/
theorem findByTag_of_screened {request : PlaceOrderRequest} {rejected : Option String}
    (h : s.screened settings answers request = .ok rejected) :
    s.exchange.findByTag request.clientTag = [] := by
  obtain ⟨instrument, -, h⟩ := exists_of_bind h
  by_contra hne
  rw [if_pos hne] at h
  cases h

/-- A command on an order of the book. -/
theorem Chronicled.settle (h : Chronicled scope account s s.exchange.orders l)
    (hsweep : SimulatedExchange.Sweep answers.now s.exchange.orders x.orders [e])
    (hnone : e.trade = none) (hclient : settings.clientCode = scope.client)
    (hdate : answers.now.sessionDate = scope.date) (answer : Except PyError BrokerOrderAck) :
    ∃ l', Chronicled scope account (s.settle settings answers x e answer).1
        (s.settle settings answers x e answer).1.exchange.orders l' ∧
      l'.lines.map LedgerLine.stamp = l.lines.map LedgerLine.stamp := by
  have hexchange : (s.settle settings answers x e answer).1.exchange = x :=
    (settle_eq settings s hnone).1
  rw [hexchange]
  have hstart : Chronicled scope account { s with exchange := x } ([] ++ s.exchange.orders) l :=
    h.congr rfl rfl
  exact hstart.apply hsweep hclient hdate (by simp [hnone])

/-- A placement the exchange gets opens a line. -/
theorem Chronicled.place (h : Chronicled scope account s s.exchange.orders l)
    {request : PlaceOrderRequest} {rejected : Option String}
    (hscreened : s.screened settings answers request = .ok rejected)
    (hfresh : ∀ o ∈ s.exchange.orders, o.id ≠ "PAPER" ++ answers.ulid)
    (hwithin : (PaperCall.place answers request).Within scope)
    (hclient : settings.clientCode = scope.client) (hdate : answers.now.sessionDate = scope.date) :
    ∃ l', Chronicled scope account (s.step settings (.place answers request))
        (s.step settings (.place answers request)).exchange.orders l' ∧
      l'.lines.map LedgerLine.stamp = l.lines.map LedgerLine.stamp ++ [answers.stamp] := by
  obtain ⟨o, e, hsubmit, hid, htag, hcomplete, hrestored, horder, hseq, hmoment, hnone⟩ :=
    submit_eq s.exchange settings.policies request answers.ulid answers.now rejected
  have horders : (s.exchange.put o).orders = s.exchange.orders ++ [o] :=
    Table.upsert_of_ne fun y hy => hid.symm ▸ hfresh y hy
  have hline {line : LedgerLine} (hline : line ∈ l.lines) :
      ∃ y ∈ s.exchange.orders, y.order = line.order := by
    have hmem : line.restored ∈ s.exchange.orders.map SimulatedOrder.restored :=
      h.lines ▸ List.mem_map_of_mem hline
    obtain ⟨y, hy, heq⟩ := List.mem_map.mp hmem
    exact ⟨y, hy, congrArg RestoredOrder.order heq⟩
  have hopens : l.Opens scope e.order e.seq := by
    have hid' : e.order.brokerOrderId = "PAPER" ++ answers.ulid := horder ▸ hid
    refine ⟨hid' ▸ hwithin.1, ⟨_, hwithin.2, horder ▸ htag⟩, ?_, ?_, hseq⟩
    · intro line hmem
      obtain ⟨y, hy, heq⟩ := hline hmem
      rw [hid', LedgerLine.id, ← heq]
      exact hfresh y hy
    · intro line hmem htag'
      obtain ⟨y, hy, heq⟩ := hline hmem
      have hfound : y ∈ s.exchange.findByTag request.clientTag := by
        refine List.mem_filter.mpr ⟨hy, ?_⟩
        rw [heq, htag', horder, htag]
        simp
      rw [findByTag_of_screened hscreened] at hfound
      cases hfound
  let entry : JournalEntry := .orderState
    ⟨settings.clientCode, answers.now.sessionDate, e.order, e.seq, e.moment, e.reason⟩
  have hentry : l.Admits scope entry := ⟨hclient, hdate, horder ▸ hcomplete, .inl hopens⟩
  have hlines : (l.enter entry).lines = l.lines ++ [⟨e.order, e.seq, 0, e.moment⟩] :=
    hopens.put_lines 0 e.moment
  have hstep : s.step settings (.place answers request) =
      { s with exchange := s.exchange.put o, journal := s.journal ++ [entry] } := by
    simp only [step, placeOrder, hscreened, hsubmit]
    simp only [PaperBroker.settle, applyEvents, applyEvent, hnone]
    rfl
  rw [hstep]
  refine ⟨l.enter entry, ⟨h.chronicle.append (.single hentry), ?_, h.untraded, h.account_eq⟩, ?_⟩
  · rw [hlines, List.map_append, h.lines, horders, List.map_append, List.map_singleton,
      List.map_singleton, LedgerLine.restored, hrestored, horder, hseq]
  · have hid' : e.order.brokerOrderId = "PAPER" ++ answers.ulid := horder ▸ hid
    rw [hlines, List.map_append, List.map_singleton, LedgerLine.stamp, CallAnswers.stamp, hmoment,
      LedgerLine.id, hid']

variable (settings) in
/-- A tick whose trades are charged. -/
theorem Chronicled.tick (h : Chronicled scope account s s.exchange.orders l) (hkept : s.Kept ulids)
    (tick : Tick) (hcharged : s.Charged settings (.tick now tick))
    (hclient : settings.clientCode = scope.client) (hdate : now.sessionDate = scope.date) :
    ∃ l', Chronicled scope account (s.onSourceTick settings now tick)
        (s.onSourceTick settings now tick).exchange.orders l' ∧
      l'.lines.map LedgerLine.stamp = l.lines.map LedgerLine.stamp := by
  have hobserve : (s.observe tick).exchange = s.exchange ∧ (s.observe tick).account = s.account ∧
      (s.observe tick).journal = s.journal := by
    unfold observe
    split <;> exact ⟨rfl, rfl, rfl⟩
  obtain ⟨x', events, hon, hticked⟩ := SimulatedExchange.onTick_ticked settings.policies tick now
    hkept.sound hkept.nodup
  have hstate : s.onSourceTick settings now tick =
      (applyEvents settings now { s.observe tick with exchange := x' } events).1 := by
    simp only [onSourceTick, hobserve.1, hon]
  obtain ⟨-, -, -, hx, -⟩ := applyEvents_books settings { s.observe tick with exchange := x' } now events
  have hstart : Chronicled scope account { s.observe tick with exchange := x' }
      ([] ++ s.exchange.orders) l :=
    h.congr hobserve.2.2 hobserve.2.1
  have hcharges : ∀ t ∈ events.filterMap (·.trade), settings.costs.Charges t :=
    fun t ht => hcharged t ((hticked.mem_trades t).mp ht)
  rw [hstate, hx]
  exact hstart.apply (SimulatedExchange.onTick_sweep hon) hclient hdate hcharges

variable (settings) in
/-- **One call.** The ledger of the journal goes on with the broker, and has
a new line for a placement the exchange gets. -/
theorem Chronicled.step (h : Chronicled scope account s s.exchange.orders l) (hkept : s.Kept ulids)
    (call : PaperCall) (hfresh : ∀ u, call.ulid = some u → u ∉ ulids)
    (hcharged : s.Charged settings call) (hwithin : call.Within scope)
    (hclient : settings.clientCode = scope.client) (hdate : call.now.sessionDate = scope.date) :
    ∃ l', Chronicled scope account (s.step settings call) (s.step settings call).exchange.orders l' ∧
      l'.lines.map LedgerLine.stamp =
        l.lines.map LedgerLine.stamp ++ ((s.admitted settings call).toList.map CallAnswers.stamp) := by
  cases call with
  | tick now tick =>
      obtain ⟨l', hl', hstamps⟩ := h.tick settings hkept tick hcharged hclient hdate
      exact ⟨l', hl', by simpa [admitted] using hstamps⟩
  | place answers request =>
      cases hscreened : s.screened settings answers request with
      | error error =>
          have hstep : s.step settings (.place answers request) = s := by
            simp only [PaperBroker.step, placeOrder, hscreened]
          refine ⟨l, hstep.symm ▸ h, ?_⟩
          simp [admitted, hscreened, Except.isOk, Except.toBool]
      | ok rejected =>
          have hnew : ∀ o ∈ s.exchange.orders, o.id ≠ "PAPER" ++ answers.ulid := by
            intro o ho hid
            obtain ⟨u, hu, hid'⟩ := hkept.minted o ho
            obtain rfl := (String.append_right_inj "PAPER").mp (hid.symm.trans hid')
            exact hfresh _ rfl hu
          obtain ⟨l', hl', hstamps⟩ := h.place hscreened hnew hwithin hclient hdate
          refine ⟨l', hl', ?_⟩
          simpa [admitted, hscreened, Except.isOk, Except.toBool] using hstamps
  | modify answers request =>
      cases hamended : s.amended settings answers request with
      | error error =>
          have hstep : s.step settings (.modify answers request) = s := by
            simp only [PaperBroker.step, modifyOrder, hamended]
          exact ⟨l, hstep.symm ▸ h, by simp [admitted]⟩
      | ok result =>
          obtain ⟨x, e⟩ := result
          have hsweep : SimulatedExchange.Sweep answers.now s.exchange.orders x.orders [e] := by
            obtain ⟨existing, -, hrest⟩ := exists_of_bind hamended
            obtain ⟨proposed, -, hrest⟩ := exists_of_bind hrest
            obtain ⟨instrument, -, hrest⟩ := exists_of_bind hrest
            obtain ⟨rejection, -, hrest⟩ := exists_of_bind hrest
            cases rejection with
            | none => exact SimulatedExchange.sweep_amend hkept.nodup hrest
            | some rejection => cases hrest
          obtain ⟨l', hl', hstamps⟩ := h.settle hsweep (amended_change hamended).2 hclient hdate
            (.ok ⟨request.brokerOrderId, e.order.clientTag⟩)
          have hstep : s.step settings (.modify answers request) =
              (s.settle settings answers x e (.ok ⟨request.brokerOrderId, e.order.clientTag⟩)).1 := by
            simp only [PaperBroker.step, modifyOrder, hamended]
          exact ⟨l', hstep.symm ▸ hl', by simpa [admitted] using hstamps⟩
  | cancel answers request =>
      cases hcancel : s.exchange.cancel request.brokerOrderId answers.now with
      | error error =>
          have hstep : s.step settings (.cancel answers request) = s := by
            simp only [PaperBroker.step, cancelOrder, hcancel]
          exact ⟨l, hstep.symm ▸ h, by simp [admitted]⟩
      | ok result =>
          obtain ⟨x, e⟩ := result
          obtain ⟨l', hl', hstamps⟩ := h.settle (SimulatedExchange.sweep_cancel hkept.nodup hcancel)
            (SimulatedExchange.cancel_change hcancel).2 hclient hdate
            (.ok ⟨request.brokerOrderId, e.order.clientTag⟩)
          have hstep : s.step settings (.cancel answers request) =
              (s.settle settings answers x e (.ok ⟨request.brokerOrderId, e.order.clientTag⟩)).1 := by
            simp only [PaperBroker.step, cancelOrder, hcancel]
          exact ⟨l', hstep.symm ▸ hl', by simpa [admitted] using hstamps⟩

/-! ## Runs -/

/-- **A run.** From a broker whose journal is in order, with ids that are
not used yet: the ledger of its journal has the orders of the exchange, those
it placed behind those it had. -/
theorem Chronicled.run (h : Chronicled scope account s s.exchange.orders l) (hkept : s.Kept ulids)
    (calls : List PaperCall) (hids : (ulids ++ calls.filterMap PaperCall.ulid).Nodup)
    (hcharged : ∀ ahead call behind, calls = ahead ++ call :: behind →
      (s.run settings ahead).Charged settings call)
    (hwithin : ∀ call ∈ calls, call.Within scope) (hclient : settings.clientCode = scope.client)
    (hdate : ∀ call ∈ calls, call.now.sessionDate = scope.date) :
    ∃ l', Chronicled scope account (s.run settings calls) (s.run settings calls).exchange.orders l' ∧
      l'.lines.map LedgerLine.stamp =
        l.lines.map LedgerLine.stamp ++ (admissions settings s calls).map CallAnswers.stamp := by
  induction calls generalizing s l ulids with
  | nil => exact ⟨l, h, by simp [admissions]⟩
  | cons call rest ih =>
      have hulid : (call :: rest).filterMap PaperCall.ulid =
          call.ulid.toList ++ rest.filterMap PaperCall.ulid := by
        cases hu : call.ulid <;> simp [hu]
      rw [hulid, ← List.append_assoc] at hids
      have hfresh : ∀ u, call.ulid = some u → u ∉ ulids := by
        intro u hu hmem
        rw [hu, Option.toList_some, List.append_assoc] at hids
        exact (List.nodup_append.mp hids).2.2 u hmem u (by simp) rfl
      obtain ⟨l₁, h₁, hstamps⟩ := h.step settings hkept call hfresh (hcharged [] call rest rfl)
        (hwithin call (List.mem_cons_self ..)) hclient (hdate call (List.mem_cons_self ..))
      obtain ⟨l', h', hstamps'⟩ := ih h₁ (hkept.step settings call hfresh).1 hids
        (fun ahead c behind hsplit => hcharged (call :: ahead) c behind (by rw [hsplit]; rfl))
        (fun c hc => hwithin c (List.mem_cons_of_mem _ hc))
        (fun c hc => hdate c (List.mem_cons_of_mem _ hc))
      refine ⟨l', h', ?_⟩
      rw [hstamps', hstamps, admissions, List.map_append, List.append_assoc]

end PaperBroker

end Emporos
