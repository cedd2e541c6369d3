import Emporos.Paper.Broker
import Emporos.Paper.Matching
/-!
# The order book and the trade book

The exchange fills its orders before their trades are charged and booked.
A trade the cost model raises on is therefore on its order and not in the
account, and so are the trades of the tick behind it. The books agree as
long as every trade a tick deals is charged, and never again after.
-/

namespace Emporos

/-- The cost model has a charge for the trade that the account takes. -/
def CostModel.Charges (costs : CostModel) (t : BrokerTrade) : Prop :=
  ∃ fees, costs t = .ok fees ∧ ¬ fees < Money.zero

namespace PaperAccount

/-- The net quantity an account holds of an instrument. -/
def net (account : PaperAccount) (instrumentId : String) : ℤ :=
  ((account.position instrumentId).map (·.netQuantity)).getD 0

/-- The signed sum of an instrument's trades. -/
def netTraded (trades : List BrokerTrade) (instrumentId : String) : ℤ :=
  ((trades.filter fun t => t.instrumentId = instrumentId).map (·.signed)).sum

theorem netTraded_append {trades trades' : List BrokerTrade} {i : String} :
    netTraded (trades ++ trades') i = netTraded trades i + netTraded trades' i := by
  simp [netTraded]

theorem netTraded_singleton {t : BrokerTrade} {i : String} :
    netTraded [t] i = if t.instrumentId = i then t.signed else 0 := by
  unfold netTraded
  split <;> simp [*]

/-- The account's positions are the sums of its trades. -/
def Balanced (account : PaperAccount) : Prop :=
  ∀ i, account.net i = netTraded account.trades i

variable [DecimalContext] {account account' : PaperAccount} {t : BrokerTrade} {fees : Money}

theorem apply_isOk : (∃ account', account.apply t fees = .ok account') ↔ ¬ fees < Money.zero := by
  unfold apply
  split <;> simp [*]

theorem trades_of_apply (h : account.apply t fees = .ok account') :
    account'.trades = account.trades ++ [t] := by
  unfold apply at h
  split at h
  · cases h
  · obtain rfl := Except.ok.inj h
    rfl

/-- A trade moves its own instrument, by its signed quantity. -/
theorem net_of_apply (h : account.apply t fees = .ok account') (i : String) :
    account'.net i = account.net i + if t.instrumentId = i then t.signed else 0 := by
  unfold apply at h
  split at h
  · cases h
  · obtain rfl := Except.ok.inj h
    have hkey : (account.after t fees).instrumentId = t.instrumentId := rfl
    unfold net position
    rw [Table.lookup_upsert, hkey]
    by_cases hi : i = t.instrumentId
    · subst hi
      rw [if_pos rfl, if_pos rfl]
      change ((account.position t.instrumentId).getD (.flat t.instrumentId)).netQuantity + t.signed = _
      congr 1
      unfold position
      cases Table.lookup (·.instrumentId) t.instrumentId account.positions with
      | none => rfl
      | some p => rfl
    · rw [if_neg hi, if_neg (Ne.symm hi), add_zero]

theorem Balanced.apply (hb : account.Balanced) (h : account.apply t fees = .ok account') :
    account'.Balanced := by
  intro i
  rw [net_of_apply h, trades_of_apply h, netTraded_append, netTraded_singleton, hb i]

end PaperAccount

namespace PaperBroker

/-- **The two books agree.** -/
structure Agrees (s : PaperBroker) : Prop where
  filled : ∀ o ∈ s.exchange.orders,
    o.order.filledQuantity = BrokerTrade.quantityOf o.id s.account.trades
  net : s.account.Balanced

/-- An order is filled for more than the account has. -/
def Behind (s : PaperBroker) : Prop :=
  ∃ o ∈ s.exchange.orders, BrokerTrade.quantityOf o.id s.account.trades < o.order.filledQuantity

/-- Every trade the call deals is charged. Only a tick deals any. -/
def Charged (settings : PaperSettings) (s : PaperBroker) : PaperCall → Prop
  | .tick now tick => ∀ t, s.exchange.Dealt settings.policies tick now t → settings.costs.Charges t
  | .place .. | .modify .. | .cancel .. => True

variable [DecimalContext] {settings : PaperSettings} {s s' : PaperBroker} {now : Timestamp}

/-! ## Events -/

variable (settings s now) in
/-- An event without a trade changes neither book. -/
theorem applyEvent_of_none {e : ExchangeEvent} (h : e.trade = none) :
    ∃ s', s.applyEvent settings now e = .ok s' ∧ s'.exchange = s.exchange ∧ s'.account = s.account := by
  unfold applyEvent
  rw [h]
  exact ⟨_, rfl, rfl, rfl⟩

variable (s now) in
/-- A fill is booked where it is charged. -/
theorem applyEvent_of_charges {e : ExchangeEvent} {t : BrokerTrade} (h : e.trade = some t)
    (hcharges : settings.costs.Charges t) :
    ∃ s' fees, s.applyEvent settings now e = .ok s' ∧ s'.exchange = s.exchange ∧
      s.account.apply t fees = .ok s'.account := by
  obtain ⟨fees, hfees, hnonneg⟩ := hcharges
  obtain ⟨account, haccount⟩ := PaperAccount.apply_isOk.2 hnonneg
  refine ⟨s.booked settings now e t fees account, fees, ?_, rfl, haccount⟩
  unfold applyEvent
  rw [h]
  simp only [hfees, haccount, ok_bind]
  rfl

variable (s now) in
/-- And raises where it is not. -/
theorem applyEvent_of_not_charges {e : ExchangeEvent} {t : BrokerTrade} (h : e.trade = some t)
    (hcharges : ¬ settings.costs.Charges t) :
    ∃ error, s.applyEvent settings now e = .error error := by
  unfold applyEvent
  rw [h]
  cases hfees : settings.costs t with
  | error error => exact ⟨error, by simp [hfees]⟩
  | ok fees =>
      have hneg : fees < Money.zero := not_not.mp fun hnonneg => hcharges ⟨fees, hfees, hnonneg⟩
      exact ⟨.valueError "charges cannot be negative", by
        simp only [hfees, ok_bind, PaperAccount.apply, if_pos hneg, error_bind]⟩

variable (settings s now) in
/-- **What the events book.** The trades up to the first one that is not
charged. -/
theorem applyEvents_books (events : List ExchangeEvent) :
    ∃ booked lost, events.filterMap (·.trade) = booked ++ lost ∧
      (applyEvents settings now s events).1.exchange = s.exchange ∧
      (applyEvents settings now s events).1.account.trades = s.account.trades ++ booked ∧
      (s.account.Balanced → (applyEvents settings now s events).1.account.Balanced) ∧
      (lost = [] ↔ ∀ t ∈ events.filterMap (·.trade), settings.costs.Charges t) := by
  induction events generalizing s with
  | nil => exact ⟨[], [], rfl, rfl, by simp [applyEvents], id, by simp⟩
  | cons e rest ih =>
      cases htrade : e.trade with
      | none =>
          obtain ⟨s', hs', hexchange, haccount⟩ :=
            applyEvent_of_none settings s now htrade
          obtain ⟨booked, lost, hsplit, hx, htrades, hbalanced, hlost⟩ := ih s'
          refine ⟨booked, lost, ?_, ?_, ?_, ?_, ?_⟩
          · rw [List.filterMap_cons_none htrade, hsplit]
          · simp only [applyEvents, hs', hx, hexchange]
          · simp only [applyEvents, hs', htrades, haccount]
          · simpa only [applyEvents, hs', haccount] using hbalanced
          · rw [List.filterMap_cons_none htrade, hlost]
      | some t =>
          by_cases hcharges : settings.costs.Charges t
          · obtain ⟨s', fees, hs', hexchange, haccount⟩ :=
              applyEvent_of_charges s now htrade hcharges
            obtain ⟨booked, lost, hsplit, hx, htrades, hbalanced, hlost⟩ := ih s'
            refine ⟨t :: booked, lost, ?_, ?_, ?_, ?_, ?_⟩
            · rw [List.filterMap_cons_some htrade, hsplit, List.cons_append]
            · simp only [applyEvents, hs', hx, hexchange]
            · simp only [applyEvents, hs', htrades, PaperAccount.trades_of_apply haccount,
                List.append_assoc, List.singleton_append]
            · simp only [applyEvents, hs']
              exact fun hb => hbalanced (hb.apply haccount)
            · rw [List.filterMap_cons_some htrade, List.forall_mem_cons, hlost,
                and_iff_right hcharges]
          · obtain ⟨error, herror⟩ :=
              applyEvent_of_not_charges s now htrade hcharges
            refine ⟨[], t :: rest.filterMap (·.trade), ?_, ?_, ?_, ?_, ?_⟩
            · rw [List.filterMap_cons_some htrade, List.nil_append]
            · simp only [applyEvents, herror]
            · simp only [applyEvents, herror, List.append_nil]
            · simp only [applyEvents, herror]
              exact id
            · rw [List.filterMap_cons_some htrade, List.forall_mem_cons]
              exact iff_of_false (by simp) fun hall => hcharges hall.1

variable (settings s) in
theorem settle_eq {answers : CallAnswers} {x : SimulatedExchange} {e : ExchangeEvent}
    {answer : Except PyError BrokerOrderAck} (h : e.trade = none) :
    (s.settle settings answers x e answer).1.exchange = x ∧
      (s.settle settings answers x e answer).1.account = s.account := by
  obtain ⟨s', hs', hexchange, haccount⟩ :=
    applyEvent_of_none settings { s with exchange := x } answers.now h
  simp only [settle, applyEvents, hs']
  exact ⟨hexchange, haccount⟩

end PaperBroker

/-! ## Commands -/

namespace SimulatedOrder

/-- The order after a change that is not a fill, with its event. -/
structure Restated (o o' : SimulatedOrder) (e : ExchangeEvent) : Prop where
  id : o'.id = o.id
  filled : o'.order.filledQuantity = o.order.filledQuantity
  sound : o.Sound → o'.Sound
  untraded : e.trade = none

variable {o o' : SimulatedOrder} {e : ExchangeEvent} {now : Timestamp}

theorem restated_of_cancelled (h : o.cancelled now = .ok (o', e)) : o.Restated o' e := by
  unfold cancelled requireWorking at h
  by_cases hworking : o.isWorking
  · rw [if_pos hworking, ok_bind] at h
    obtain ⟨rfl, rfl⟩ := Prod.mk.inj (Except.ok.inj h)
    exact ⟨rfl, rfl, fun hs => ⟨hs.priced, hs.filled_le⟩, rfl⟩
  · rw [if_neg hworking, error_bind] at h
    cases h

/-- An amendment asks for more than is filled. -/
theorem restated_of_amended {quantity : ℕ} {price : Money} {trigger : Option Money}
    (h : o.amended now quantity price trigger = .ok (o', e)) : o.Restated o' e := by
  unfold amended requireWorking at h
  by_cases hworking : o.isWorking
  · rw [if_pos hworking, ok_bind] at h
    by_cases hquantity : quantity ≤ o.order.filledQuantity
    · rw [if_pos hquantity] at h
      cases h
    · rw [if_neg hquantity] at h
      split at h
      · cases h
      · obtain ⟨rfl, rfl⟩ := Prod.mk.inj (Except.ok.inj h)
        exact ⟨rfl, rfl, fun _ => ⟨rfl, (not_le.mp hquantity).le⟩, rfl⟩
  · rw [if_neg hworking, error_bind] at h
    cases h

end SimulatedOrder

namespace SimulatedExchange

/-- What a command makes of the book: nothing, a new order under its id, or
one order changed but for its fills. -/
inductive BookChange (ulid : Option String) (x x' : SimulatedExchange) : Prop
  | kept : x'.orders = x.orders → BookChange ulid x x'
  | minted {u : String} {o : SimulatedOrder} :
      ulid = some u → o.id = "PAPER" ++ u → o.order.filledQuantity = 0 → o.Sound →
      x'.orders = Table.upsert SimulatedOrder.id o x.orders → BookChange ulid x x'
  | changed {o o' : SimulatedOrder} :
      o ∈ x.orders → o'.id = o.id → o'.order.filledQuantity = o.order.filledQuantity →
      (o.Sound → o'.Sound) → x'.orders = Table.upsert SimulatedOrder.id o' x.orders →
      BookChange ulid x x'

variable {x x' : SimulatedExchange} {o : SimulatedOrder} {orderId : String} {now : Timestamp}
  {e : ExchangeEvent}

/-- The orders of a book after a command: those it had, with their fills, and
perhaps a new one without. -/
structure Carried (ulid : Option String) (x x' : SimulatedExchange) : Prop where
  nodup : (x'.orders.map (·.id)).Nodup
  from_old : ∀ y ∈ x'.orders, (∃ o ∈ x.orders, y.id = o.id ∧
      y.order.filledQuantity = o.order.filledQuantity ∧ (o.Sound → y.Sound)) ∨
    ∃ u, ulid = some u ∧ y.id = "PAPER" ++ u ∧ y.order.filledQuantity = 0 ∧ y.Sound
  to_new : ∀ o ∈ x.orders, ∃ y ∈ x'.orders, y.id = o.id ∧
    y.order.filledQuantity = o.order.filledQuantity

theorem BookChange.carried {ulid : Option String} (h : BookChange ulid x x')
    (hnd : (x.orders.map (·.id)).Nodup)
    (hfresh : ∀ u, ulid = some u → ∀ o ∈ x.orders, o.id ≠ "PAPER" ++ u) : Carried ulid x x' := by
  cases h with
  | kept horders =>
      rw [← horders] at hnd
      refine ⟨hnd, ?_, ?_⟩
      · exact fun y hy => .inl ⟨y, horders ▸ hy, rfl, rfl, id⟩
      · exact fun o ho => ⟨o, horders ▸ ho, rfl, rfl⟩
  | @minted u o hulid hid hfilled hsound horders =>
      refine ⟨horders ▸ Table.nodup_upsert hnd, ?_, ?_⟩
      · intro y hy
        rw [horders, Table.mem_upsert] at hy
        rcases hy with rfl | ⟨hy, -⟩
        · exact .inr ⟨u, hulid, hid, hfilled, hsound⟩
        · exact .inl ⟨y, hy, rfl, rfl, id⟩
      · intro y hy
        have hne : y.id ≠ o.id := hid ▸ hfresh u hulid y hy
        exact ⟨y, horders ▸ Table.mem_upsert.mpr (.inr ⟨hy, hne⟩), rfl, rfl⟩
  | @changed o o' ho hid hfilled hsound horders =>
      refine ⟨horders ▸ Table.nodup_upsert hnd, ?_, ?_⟩
      · intro y hy
        rw [horders, Table.mem_upsert] at hy
        rcases hy with rfl | ⟨hy, -⟩
        · exact .inl ⟨o, ho, hid, hfilled, hsound⟩
        · exact .inl ⟨y, hy, rfl, rfl, id⟩
      · intro y hy
        by_cases hsame : y.id = o'.id
        · obtain rfl : y = o := Table.eq_of_key hnd hy ho (hsame.trans hid)
          exact ⟨o', horders ▸ Table.mem_upsert_self, hid, hfilled⟩
        · exact ⟨y, horders ▸ Table.mem_upsert.mpr (.inr ⟨hy, hsame⟩), rfl, rfl⟩

theorem mem_of_find (h : x.find orderId = .ok o) : o ∈ x.orders := by
  unfold find at h
  cases hl : Table.lookup SimulatedOrder.id orderId x.orders with
  | none =>
      rw [hl] at h
      cases h
  | some found =>
      rw [hl] at h
      obtain rfl := Except.ok.inj h
      exact Table.mem_of_lookup hl

theorem submit_change (x : SimulatedExchange) (P : ExchangePolicies) (request : PlaceOrderRequest)
    (ulid : String) (now : Timestamp) (reason : Option String) :
    BookChange (some ulid) x (x.submit P request ulid now reason).1 ∧
      (x.submit P request ulid now reason).2.trade = none := by
  cases reason with
  | none => exact ⟨.minted rfl rfl rfl ⟨rfl, Nat.zero_le _⟩ rfl, rfl⟩
  | some reason => exact ⟨.minted rfl rfl rfl ⟨rfl, Nat.zero_le _⟩ rfl, rfl⟩

/-- A command's change of an order on the book is put in its place. -/
theorem change_of_find (hfind : x.find orderId = .ok o) {o' : SimulatedOrder}
    (h : o.Restated o' e) : BookChange none x (x.put o') ∧ e.trade = none :=
  ⟨.changed (mem_of_find hfind) h.id h.filled h.sound rfl, h.untraded⟩

theorem cancel_change (h : x.cancel orderId now = .ok (x', e)) :
    BookChange none x x' ∧ e.trade = none := by
  unfold cancel at h
  cases hfind : x.find orderId with
  | error error => simp [hfind] at h
  | ok o =>
      cases hcancelled : o.cancelled now with
      | error error => simp [hfind, hcancelled] at h
      | ok result =>
          simp only [hfind, hcancelled, ok_bind] at h
          obtain ⟨rfl, rfl⟩ := Prod.mk.inj (Except.ok.inj h)
          exact change_of_find hfind (SimulatedOrder.restated_of_cancelled hcancelled)

theorem amend_change {quantity : ℕ} {price : Money} {trigger : Option Money}
    (h : x.amend orderId now quantity price trigger = .ok (x', e)) :
    BookChange none x x' ∧ e.trade = none := by
  unfold amend at h
  cases hfind : x.find orderId with
  | error error => simp [hfind] at h
  | ok o =>
      cases hamended : o.amended now quantity price trigger with
      | error error => simp [hfind, hamended] at h
      | ok result =>
          simp only [hfind, hamended, ok_bind] at h
          obtain ⟨rfl, rfl⟩ := Prod.mk.inj (Except.ok.inj h)
          exact change_of_find hfind (SimulatedOrder.restated_of_amended hamended)

end SimulatedExchange

/-- The id a call mints for a new order. -/
def PaperCall.ulid : PaperCall → Option String
  | .place answers _ => some answers.ulid
  | .modify .. | .cancel .. | .tick .. => none

namespace PaperBroker

open SimulatedExchange (BookChange)

variable [DecimalContext] {settings : PaperSettings} {s s' : PaperBroker}

/-- An amendment that is not refused is the exchange's. -/
theorem amended_change {answers : CallAnswers} {request : ModifyOrderRequest}
    {result : SimulatedExchange × ExchangeEvent} (h : s.amended settings answers request = .ok result) :
    BookChange none s.exchange result.1 ∧ result.2.trade = none := by
  unfold amended at h
  obtain ⟨existing, -, h⟩ := exists_of_bind h
  obtain ⟨proposed, -, h⟩ := exists_of_bind h
  obtain ⟨instrument, -, h⟩ := exists_of_bind h
  obtain ⟨rejection, -, h⟩ := exists_of_bind h
  cases rejection with
  | none => exact SimulatedExchange.amend_change h
  | some rejection => cases h

variable (settings) in
/-- A command leaves the account alone. -/
theorem step_command {call : PaperCall} (h : ∀ now tick, call ≠ .tick now tick) :
    (s.step settings call).account = s.account ∧
      BookChange call.ulid s.exchange (s.step settings call).exchange := by
  cases call with
  | place answers request =>
      simp only [step, placeOrder]
      cases s.screened settings answers request with
      | error error => exact ⟨rfl, .kept rfl⟩
      | ok rejected =>
          obtain ⟨hchange, htrade⟩ := SimulatedExchange.submit_change s.exchange
            settings.policies request answers.ulid answers.now rejected
          obtain ⟨hexchange, haccount⟩ := settle_eq settings s htrade
          exact ⟨haccount, hexchange ▸ hchange⟩
  | modify answers request =>
      simp only [step, modifyOrder]
      cases hamended : s.amended settings answers request with
      | error error => exact ⟨rfl, .kept rfl⟩
      | ok result =>
          obtain ⟨hchange, htrade⟩ := amended_change hamended
          obtain ⟨hexchange, haccount⟩ := settle_eq settings s htrade
          exact ⟨haccount, hexchange ▸ hchange⟩
  | cancel answers request =>
      simp only [step, cancelOrder]
      cases hcancel : s.exchange.cancel request.brokerOrderId answers.now with
      | error error => exact ⟨rfl, .kept rfl⟩
      | ok result =>
          obtain ⟨hchange, htrade⟩ := SimulatedExchange.cancel_change hcancel
          obtain ⟨hexchange, haccount⟩ := settle_eq settings s htrade
          exact ⟨haccount, hexchange ▸ hchange⟩
  | tick now tick => exact absurd rfl (h now tick)

/-- What every run keeps. `ulids` are the ids minted so far. -/
structure Kept (ulids : List String) (s : PaperBroker) : Prop where
  sound : ∀ o ∈ s.exchange.orders, o.Sound
  nodup : (s.exchange.orders.map (·.id)).Nodup
  minted : ∀ o ∈ s.exchange.orders, ∃ u ∈ ulids, o.id = "PAPER" ++ u
  owned : ∀ t ∈ s.account.trades, ∃ o ∈ s.exchange.orders, t.brokerOrderId = o.id
  covered : ∀ o ∈ s.exchange.orders,
    BrokerTrade.quantityOf o.id s.account.trades ≤ o.order.filledQuantity
  balanced : s.account.Balanced

variable {ulids : List String}

omit [DecimalContext] in
theorem Kept.agrees_iff_not_behind (h : s.Kept ulids) : s.Agrees ↔ ¬ s.Behind := by
  constructor
  · rintro ⟨hfilled, -⟩ ⟨o, ho, hlt⟩
    exact absurd (hfilled o ho) hlt.ne'
  · exact fun hnot => ⟨fun o ho => le_antisymm
      (not_lt.mp fun hlt => hnot ⟨o, ho, hlt⟩) (h.covered o ho), h.balanced⟩

omit [DecimalContext] in
/-- The books after a tick of which the account books some trades and loses
the rest. -/
theorem Kept.of_ticked (h : s.Kept ulids) {P : ExchangePolicies} {tick : Tick} {now : Timestamp}
    {booked lost : List BrokerTrade}
    (hticked : SimulatedExchange.Ticked P tick now s.exchange s'.exchange (booked ++ lost))
    (htrades : s'.account.trades = s.account.trades ++ booked) (hbalanced : s'.account.Balanced) :
    s'.Kept ulids ∧ (s'.Behind ↔ s.Behind ∨ lost ≠ []) := by
  have hquantity (i : String) : BrokerTrade.quantityOf i s'.account.trades =
      BrokerTrade.quantityOf i s.account.trades + BrokerTrade.quantityOf i booked := by
    rw [htrades, BrokerTrade.quantityOf_append]
  have hdealt (i : String) : BrokerTrade.quantityOf i (booked ++ lost) =
      BrokerTrade.quantityOf i booked + BrokerTrade.quantityOf i lost :=
    BrokerTrade.quantityOf_append
  refine ⟨⟨hticked.sound, hticked.map_id ▸ h.nodup, ?_, ?_, ?_, hbalanced⟩, ?_⟩
  · intro o' ho'
    obtain ⟨o, ho, hid, -⟩ := hticked.filled o' ho'
    rw [hid]
    exact h.minted o ho
  · intro t ht
    have hbook : ∃ o ∈ s.exchange.orders, t.brokerOrderId = o.id := by
      rw [htrades, List.mem_append] at ht
      exact ht.elim (h.owned t) fun ht => hticked.owned t (List.mem_append_left _ ht)
    obtain ⟨o, ho, hid⟩ := hbook
    obtain ⟨o', ho', hid', -⟩ := hticked.of_mem h.nodup ho
    exact ⟨o', ho', hid.trans hid'.symm⟩
  · intro o' ho'
    obtain ⟨o, ho, hid, hfilled⟩ := hticked.filled o' ho'
    have hcovered := h.covered o ho
    rw [hid, hfilled, hquantity, hdealt]
    omega
  · constructor
    · rintro ⟨o', ho', hlt⟩
      obtain ⟨o, ho, hid, hfilled⟩ := hticked.filled o' ho'
      rw [hid, hfilled, hquantity, hdealt] at hlt
      by_cases hlost : lost = []
      · rw [hlost, BrokerTrade.quantityOf_nil] at hlt
        exact .inl ⟨o, ho, by omega⟩
      · exact .inr hlost
    · -- what was behind stays behind, and a lost trade leaves its order behind
      rintro (⟨o, ho, hlt⟩ | hlost)
      · obtain ⟨o', ho', hid', hfilled⟩ := hticked.of_mem h.nodup ho
        refine ⟨o', ho', ?_⟩
        rw [hid', hfilled, hquantity, hdealt]
        omega
      · obtain ⟨t, ht⟩ := List.exists_mem_of_ne_nil _ hlost
        obtain ⟨o, ho, hid⟩ := hticked.owned t (List.mem_append_right _ ht)
        obtain ⟨o', ho', hid', hfilled⟩ := hticked.of_mem h.nodup ho
        have hpos := BrokerTrade.quantityOf_pos ht
        have hcovered := h.covered o ho
        refine ⟨o', ho', ?_⟩
        rw [hid] at hpos
        rw [hid', hfilled, hquantity, hdealt]
        omega

variable (settings) in
/-- A tick leaves the books apart that were, and those it deals a trade that
is not charged. -/
theorem Kept.tick (h : s.Kept ulids) (now : Timestamp) (tick : Tick) :
    (s.onSourceTick settings now tick).Kept ulids ∧
      ((s.onSourceTick settings now tick).Behind ↔
        s.Behind ∨ ¬ s.Charged settings (.tick now tick)) := by
  have hobserve : (s.observe tick).exchange = s.exchange ∧ (s.observe tick).account = s.account := by
    unfold observe
    split <;> exact ⟨rfl, rfl⟩
  obtain ⟨x', events, hon, hticked⟩ := SimulatedExchange.onTick_ticked settings.policies
    tick now h.sound h.nodup
  have hstate : s.onSourceTick settings now tick =
      (applyEvents settings now { s.observe tick with exchange := x' } events).1 := by
    simp only [onSourceTick, hobserve.1, hon]
  obtain ⟨booked, lost, hsplit, hx, htrades, hbalanced, hlost⟩ := applyEvents_books
    settings { s.observe tick with exchange := x' } now events
  rw [← hstate] at hx htrades hbalanced
  rw [hobserve.2] at htrades hbalanced
  have hx : (s.onSourceTick settings now tick).exchange = x' := hx
  have hcharged : lost = [] ↔ s.Charged settings (.tick now tick) :=
    hlost.trans (forall_congr' fun t => by rw [hticked.mem_trades])
  rw [← hcharged]
  rw [hsplit] at hticked
  exact h.of_ticked (hx ▸ hticked) htrades (hbalanced h.balanced)

omit [DecimalContext] in
/-- Nothing is traded under an id the book does not have. -/
theorem Kept.untraded (h : s.Kept ulids) {i : String} (hi : ∀ o ∈ s.exchange.orders, o.id ≠ i) :
    BrokerTrade.quantityOf i s.account.trades = 0 := by
  refine BrokerTrade.quantityOf_eq_zero fun t ht hid => ?_
  obtain ⟨o, ho, hid'⟩ := h.owned t ht
  exact hi o ho (hid'.symm.trans hid)

variable (settings) in
/-- A command leaves no book apart that was not. -/
theorem Kept.command (h : s.Kept ulids) {call : PaperCall} (hcommand : ∀ now tick, call ≠ .tick now tick)
    (hfresh : ∀ u, call.ulid = some u → u ∉ ulids) :
    (s.step settings call).Kept (ulids ++ call.ulid.toList) ∧
      ((s.step settings call).Behind ↔ s.Behind) := by
  obtain ⟨haccount, hchange⟩ := step_command settings hcommand
  have hnew : ∀ u, call.ulid = some u → ∀ o ∈ s.exchange.orders, o.id ≠ "PAPER" ++ u := by
    intro u hu o ho hid
    obtain ⟨u', hu', hid'⟩ := h.minted o ho
    obtain rfl := (String.append_right_inj "PAPER").mp (hid.symm.trans hid')
    exact hfresh u hu hu'
  have hcarried := hchange.carried h.nodup hnew
  generalize s.step settings call = s' at haccount hcarried
  refine ⟨⟨?_, hcarried.nodup, ?_, ?_, ?_, haccount ▸ h.balanced⟩, ?_⟩
  · intro y hy
    obtain ⟨o, ho, -, -, hsound⟩ | ⟨-, -, -, -, hsound⟩ := hcarried.from_old y hy
    · exact hsound (h.sound o ho)
    · exact hsound
  · intro y hy
    obtain ⟨o, ho, hid, -, -⟩ | ⟨u, hu, hid, -, -⟩ := hcarried.from_old y hy
    · obtain ⟨u, hu, hid'⟩ := h.minted o ho
      exact ⟨u, List.mem_append_left _ hu, hid.trans hid'⟩
    · exact ⟨u, List.mem_append_right _ (by rw [hu]; exact List.mem_singleton_self u), hid⟩
  · intro t ht
    rw [haccount] at ht
    obtain ⟨o, ho, hid⟩ := h.owned t ht
    obtain ⟨y, hy, hyid, -⟩ := hcarried.to_new o ho
    exact ⟨y, hy, hid.trans hyid.symm⟩
  · intro y hy
    rw [haccount]
    obtain ⟨o, ho, hid, hfilled, -⟩ | ⟨u, hu, hid, -, -⟩ := hcarried.from_old y hy
    · rw [hid, hfilled]
      exact h.covered o ho
    · rw [hid, h.untraded (hnew u hu)]
      exact Nat.zero_le _
  · constructor
    · rintro ⟨y, hy, hlt⟩
      rw [haccount] at hlt
      obtain ⟨o, ho, hid, hfilled, -⟩ | ⟨-, -, -, hfilled, -⟩ := hcarried.from_old y hy
      · exact ⟨o, ho, by rwa [hid, hfilled] at hlt⟩
      · omega
    · rintro ⟨o, ho, hlt⟩
      obtain ⟨y, hy, hid, hfilled⟩ := hcarried.to_new o ho
      exact ⟨y, hy, by rwa [haccount, hid, hfilled]⟩

variable (settings) in
/-- **One call.** The books are apart after it if they were before, or if it
deals a trade that is not charged. -/
theorem Kept.step (h : s.Kept ulids) (call : PaperCall) (hfresh : ∀ u, call.ulid = some u → u ∉ ulids) :
    (s.step settings call).Kept (ulids ++ call.ulid.toList) ∧
      ((s.step settings call).Behind ↔ s.Behind ∨ ¬ s.Charged settings call) := by
  cases call with
  | tick now tick =>
      obtain ⟨hkept, hbehind⟩ := h.tick settings now tick
      exact ⟨(List.append_nil ulids).symm ▸ hkept, hbehind⟩
  | place | modify | cancel =>
      obtain ⟨hkept, hbehind⟩ := h.command settings (by simp) hfresh
      exact ⟨hkept, hbehind.trans (by simp [Charged])⟩

/-! ## Runs -/

variable {startingCash : Money} {hcash : Money.zero ≤ startingCash} {calls : List PaperCall}

omit [DecimalContext] in
theorem kept_new : (new startingCash hcash).Kept [] := by
  refine ⟨?_, List.nodup_nil, ?_, ?_, ?_, fun _ => rfl⟩ <;> exact fun _ h => by cases h

theorem run_append (call : PaperCall) :
    (new startingCash hcash).run settings (calls ++ [call]) =
      ((new startingCash hcash).run settings calls).step settings call := by
  simp [run]

variable (settings hcash) in
/-- Every run of calls whose ids are distinct. -/
theorem kept_run (hids : (calls.filterMap PaperCall.ulid).Nodup) :
    ((new startingCash hcash).run settings calls).Kept (calls.filterMap PaperCall.ulid) ∧
      (((new startingCash hcash).run settings calls).Behind ↔
        ∃ ahead call behind, calls = ahead ++ call :: behind ∧
          ¬ ((new startingCash hcash).run settings ahead).Charged settings call) := by
  induction calls using List.reverseRecOn with
  | nil =>
      refine ⟨kept_new, iff_of_false ?_ ?_⟩
      · rintro ⟨o, ho, -⟩
        cases ho
      · rintro ⟨ahead, call, behind, hnil, -⟩
        simp at hnil
  | append_singleton calls call ih =>
      have hulid : [call].filterMap PaperCall.ulid = call.ulid.toList := by
        cases hu : call.ulid <;> simp [hu]
      rw [List.filterMap_append, hulid] at hids ⊢
      obtain ⟨hold, -, hdisjoint⟩ := List.nodup_append.mp hids
      obtain ⟨hkept, hbehind⟩ := ih hold
      have hfresh : ∀ u, call.ulid = some u → u ∉ calls.filterMap PaperCall.ulid :=
        fun u hu hmem => hdisjoint u hmem u (by simp [hu]) rfl
      obtain ⟨hkept', hbehind'⟩ := hkept.step settings call hfresh
      rw [run_append]
      refine ⟨hkept', hbehind'.trans ?_⟩
      rw [hbehind]
      constructor
      · rintro (⟨ahead, c, behind, rfl, hnot⟩ | hnot)
        · exact ⟨ahead, c, behind ++ [call], by simp, hnot⟩
        · exact ⟨calls, call, [], rfl, hnot⟩
      · rintro ⟨ahead, c, behind, hsplit, hnot⟩
        rcases List.eq_nil_or_concat behind with rfl | ⟨behind, last, rfl⟩
        · obtain ⟨rfl, hlast⟩ := List.append_inj' hsplit rfl
          obtain rfl := List.singleton_inj.mp hlast
          exact .inr hnot
        · have hsplit : calls ++ [call] = (ahead ++ c :: behind) ++ [last] := by simpa using hsplit
          obtain ⟨rfl, -⟩ := List.append_inj' hsplit rfl
          exact .inl ⟨ahead, c, behind, rfl, hnot⟩

/-- The books agree at the end of a run if and only if every trade its ticks
dealt was charged. -/
theorem agrees_run_iff (hids : (calls.filterMap PaperCall.ulid).Nodup) :
    ((new startingCash hcash).run settings calls).Agrees ↔
      ∀ ahead call behind, calls = ahead ++ call :: behind →
        ((new startingCash hcash).run settings ahead).Charged settings call := by
  obtain ⟨hkept, hbehind⟩ := kept_run settings hcash hids
  rw [hkept.agrees_iff_not_behind, hbehind]
  simp only [not_exists, not_and, not_not]

/-- **When the books agree.** They agree in every state a run from a new
broker reaches if and only if every trade its ticks dealt was charged. -/
theorem books_agree_iff (hids : (calls.filterMap PaperCall.ulid).Nodup) :
    (∀ reached, reached <+: calls → ((new startingCash hcash).run settings reached).Agrees) ↔
      ∀ ahead call behind, calls = ahead ++ call :: behind →
        ((new startingCash hcash).run settings ahead).Charged settings call := by
  constructor
  · exact fun h => (agrees_run_iff hids).mp (h calls List.prefix_rfl)
  · rintro h reached ⟨rest, rfl⟩
    have hreached : (reached.filterMap PaperCall.ulid).Nodup := by
      rw [List.filterMap_append] at hids
      exact hids.of_append_left
    refine (agrees_run_iff hreached).mpr fun ahead call behind hsplit => ?_
    exact h ahead call (behind ++ rest) (by simp [hsplit])

end PaperBroker

/-! ## The cost models -/

theorem noCosts_charges (t : BrokerTrade) : noCosts.Charges t := ⟨_, rfl, lt_irrefl _⟩

/-- A schedule charges the trades at the exchanges it has a rate for. -/
theorem scheduledCosts_charges [DecimalContext] [Decimal.Nonnegative] {schedule : FeeSchedule}
    {t : BrokerTrade} (hprice : Money.zero ≤ t.price) :
    (scheduledCosts schedule).Charges t ↔ ∃ exchange,
      Exchange.ofInstrument t.instrumentId = .ok exchange ∧
        (schedule.exchangeTransactionPercent exchange).isSome := by
  constructor
  · rintro ⟨fees, hfees, -⟩
    obtain ⟨exchange, hexchange, hfees⟩ := exists_of_bind hfees
    obtain ⟨charges, hcharges, -⟩ := exists_of_bind hfees
    exact ⟨exchange, hexchange, (IntradayCharges.forTrade_isOk t.quantity_pos).mp ⟨charges, hcharges⟩⟩
  · rintro ⟨exchange, hexchange, hrate⟩
    have hok : ∃ charges, IntradayCharges.forTrade schedule exchange t.side t.quantity t.price =
        .ok charges := (IntradayCharges.forTrade_isOk t.quantity_pos).mpr hrate
    obtain ⟨charges, hcharges⟩ := hok
    refine ⟨charges.total, ?_, not_lt.mpr (IntradayCharges.total_forTrade_nonneg hprice hcharges)⟩
    simp only [scheduledCosts, hexchange, hcharges, ok_bind]
    rfl

/-! ## A purchase of ten -/

namespace PaperBroker

/-- A schedule that charges nothing, with a rate for the NSE only. -/
def sampleSchedule : FeeSchedule where
  brokerageFlat := Money.zero
  brokeragePercent := 0
  brokerageMinimum := Money.zero
  sttSellPercent := 0
  exchangeTransactionPercent exchange := match exchange with
    | .nse => some 0
    | .bse => none
  sebiPerCrore := Money.zero
  stampDutyBuyPercent := 0
  gstPercent := 0
  rates_nonneg := ⟨le_rfl, le_rfl, le_rfl, le_rfl⟩
  transaction_nonneg exchange rate h := by
    cases exchange with
    | nse => exact (Option.some.inj h).le
    | bse => cases h
  charges_nonneg := ⟨le_rfl, le_rfl, le_rfl⟩
  some_rate := ⟨.nse, rfl⟩

def sampleSettings (costs : CostModel) : PaperSettings where
  clientCode := "A"
  policies :=
    { executionPrice := Paper.limitFill (@Paper.touchCrossing Decimal.standard) Paper.atLimitPrice
      budget := Paper.fullLiquidity
      fires := @Paper.stopTrigger Decimal.standard
      latency := 0
      latency_nonneg := le_rfl }
  costs := costs
  leverage := 1
  leverage_ge := le_rfl

def sampleAnswers : CallAnswers where
  now := 0
  catalog := .ok fun i => some ⟨i, ⟨1⟩, by decide⟩
  screen := []
  ulid := "U"
  flush := .ok ()
  losesReply := false

theorem samplePrice_pos : Money.zero < ⟨100⟩ := by simp [Money.lt_iff, Money.zero]

theorem sampleTag_fits : isClientTag "T" := by decide

/-- Ten of `BSE:1` are bought at 100, and it trades there. -/
def sampleCalls : List PaperCall :=
  [.place sampleAnswers
    ⟨"BSE:1", .buy, .limit, 10, ⟨100⟩, "T", none, Sample.ten_pos, samplePrice_pos, trivial,
      sampleTag_fits⟩,
    .tick 1 ⟨"BSE:1", 1, 1, ⟨100⟩, 0, none, false, samplePrice_pos⟩]

theorem sampleCash_nonneg : Money.zero ≤ ⟨1000⟩ := by simp [Money.le_iff, Money.zero]

/-- The state after the calls under a cost model. -/
def sampleRun (costs : CostModel) : PaperBroker :=
  @run Decimal.standard (sampleSettings costs) (new ⟨1000⟩ sampleCash_nonneg) sampleCalls

theorem books_agree_sample : (sampleRun noCosts).Agrees :=
  (@books_agree_iff Decimal.standard (sampleSettings noCosts) _ sampleCash_nonneg sampleCalls
    (by decide)).mpr
    (fun _ call _ _ => by
      cases call with
      | tick now tick => exact fun t _ => noCosts_charges t
      | place | modify | cancel => trivial)
    sampleCalls List.prefix_rfl

/-- **A fill that is lost.** The schedule has no rate for the BSE, so the
order is filled for ten and the account has no trade. -/
theorem fill_lost :
    (sampleRun (@scheduledCosts Decimal.standard sampleSchedule)).exchange.orders.map
      (·.order.filledQuantity) = [10] ∧
    (sampleRun (@scheduledCosts Decimal.standard sampleSchedule)).account.trades = [] ∧
    ¬ (sampleRun (@scheduledCosts Decimal.standard sampleSchedule)).Agrees := by
  have hfilled : (sampleRun (@scheduledCosts Decimal.standard sampleSchedule)).exchange.orders.map
      (·.order.filledQuantity) = [10] := by decide +kernel
  have htrades : (sampleRun (@scheduledCosts Decimal.standard sampleSchedule)).account.trades = [] := by
    decide +kernel
  refine ⟨hfilled, htrades, fun h => ?_⟩
  have hten : 10 ∈ (sampleRun (@scheduledCosts Decimal.standard sampleSchedule)).exchange.orders.map
      (·.order.filledQuantity) := hfilled ▸ List.mem_singleton_self 10
  obtain ⟨o, ho, hfilled⟩ := List.mem_map.mp hten
  have hagrees := h.filled o ho
  rw [htrades, hfilled, BrokerTrade.quantityOf_nil] at hagrees
  omega

end PaperBroker

end Emporos
