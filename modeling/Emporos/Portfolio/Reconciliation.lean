import Emporos.Broker.Model
import Emporos.Portfolio.Replay
/-!
# Comparing the books with the broker's

`ReconciliationComparator.compare` lists where the persisted rows of a
session and the broker's books differ, and where the persisted rows
contradict the account's own fill history. A set of the source is listed
in the order of its rows.
-/

namespace Emporos

inductive DiscrepancyKind
  | missingBrokerOrder
  | externalOrder
  | orderMismatch
  | missingFill
  | fillMismatch
  | externalFill
  | positionMismatch
  | orphanPosition
  | duplicateIdentity
  | positionHistoryMismatch
  | orderFillMismatch
  deriving DecidableEq

namespace Discrepancy

/-- The detail of a discrepancy: a fixed text, or the figures a text is
made of. -/
inductive Detail
  | text (text : String)
  | history (difference : Difference)
  | filled (recorded total : ℕ)
  deriving DecidableEq

end Discrepancy

structure Discrepancy where
  kind : DiscrepancyKind
  reference : String
  detail : Discrepancy.Detail
  instrumentId : String := ""
  /-- For an orphan: the position exists only at the broker. -/
  brokerOnly : Bool := false
  deriving DecidableEq

structure ReconciliationSnapshot where
  orders : List OrderRecord
  executions : List ExecutionRecord
  positions : List PositionRecord
  brokerOrders : List BrokerOrder
  brokerTrades : List BrokerTrade
  brokerPositions : List BrokerPosition
  /-- Every fill the account ever had, when known. -/
  history : Option (List ExecutionRecord) := none

/-- A list of discrepancies, one if a condition holds. -/
def report (condition : Bool) (d : Discrepancy) : List Discrepancy := if condition then [d] else []

@[simp] theorem report_eq_nil {condition : Bool} {d : Discrepancy} :
    report condition d = [] ↔ condition = false := by
  cases condition <;> simp [report]

namespace ReconciliationComparator

/-! ## Orders -/

/-- States the broker's status is not held against. -/
def inFlight : List OrderState := [.pendingNew, .unknown, .pendingCancel]

/-- States of an order the broker may never have heard of. -/
def neverReached : List OrderState := [.pendingNew, .unknown, .rejected]

/-- An order the broker never heard of is normal while it is being placed
and after a definitive rejection. -/
def expectedAbsent (order : OrderRecord) : Bool :=
  order.brokerOrderId = none ∧ order.state ∈ neverReached

/-- The state the books have for a broker's status. -/
def expectedState (status : BrokerOrderStatus) : String :=
  match status with
  | .pending | .triggerPending => "OPEN"
  | status => status.value

def differs (order : OrderRecord) (counterpart : BrokerOrder) : Bool :=
  ¬ (order.instrumentId = counterpart.instrumentId ∧ order.side = counterpart.side ∧
    order.quantity = counterpart.quantity ∧ some order.limitPrice = counterpart.price ∧
    order.filledQuantity = counterpart.filledQuantity ∧
    some order.ordertag = counterpart.clientTag ∧ some order.orderType = counterpart.orderType ∧
    order.triggerPrice = counterpart.triggerPrice ∧
    (order.state ∈ inFlight ∨ order.state.value = expectedState counterpart.status) ∧
    (order.brokerOrderId = none ∨ order.brokerOrderId = some counterpart.brokerOrderId))

/-- The broker's orders that have a tag. -/
def tagged (book : List BrokerOrder) : List BrokerOrder :=
  book.filter fun o => o.clientTag ∉ [none, some ""]

/-- The broker's order under our tag, or else under the id we learned. -/
def counterpart (book : List BrokerOrder) (order : OrderRecord) : Option BrokerOrder :=
  (Table.lookup (·.clientTag) (some order.ordertag) (Table.dict (·.clientTag) (tagged book))).or
    (Table.lookup (·.brokerOrderId) (order.brokerOrderId.getD "")
      (Table.dict (·.brokerOrderId) book))

/-- What is found about one persisted order. -/
def orderFound (book : List BrokerOrder) (order : OrderRecord) : List Discrepancy :=
  match counterpart book order with
  | none => report (!expectedAbsent order)
      ⟨.missingBrokerOrder, order.id, .text "persisted order has no broker counterpart", "", false⟩
  | some counterpart => report (differs order counterpart)
      ⟨.orderMismatch, order.id, .text "broker order differs from persisted intent or fills", "", false⟩

/-- `_orders`. -/
def orders (s : ReconciliationSnapshot) : List Discrepancy :=
  let broker := Table.dict (·.brokerOrderId) s.brokerOrders
  let known := (s.orders.filterMap (counterpart s.brokerOrders)).map (·.brokerOrderId)
  report (broker.length ≠ s.brokerOrders.length)
      ⟨.duplicateIdentity, "orders", .text "duplicate broker order id", "", false⟩ ++
    s.orders.flatMap (orderFound s.brokerOrders) ++
    ((broker.map (·.brokerOrderId)).filter (· ∉ known)).map fun orderId =>
      ⟨.externalOrder, orderId, .text "broker order was not placed by the execution engine", "", false⟩

/-! ## Fills -/

/-- The broker's id of a persisted order. -/
def brokerIdOf (orders : List OrderRecord) (orderId : String) : Option String :=
  (Table.lookup (·.id) orderId (Table.dict (·.id) orders)).bind (·.brokerOrderId)

/-- The recorded fill says what the broker's trade says. -/
def SameFill (orders : List OrderRecord) (fill : ExecutionRecord) (trade : BrokerTrade) : Prop :=
  fill.instrumentId = trade.instrumentId ∧ fill.side = trade.side ∧ fill.quantity = trade.quantity ∧
    fill.price = trade.price ∧ brokerIdOf orders fill.orderId = some trade.brokerOrderId

instance (orders : List OrderRecord) (fill : ExecutionRecord) (trade : BrokerTrade) :
    Decidable (SameFill orders fill trade) := inferInstanceAs (Decidable (_ ∧ _))

/-- What is found about one recorded fill. -/
def fillFound (s : ReconciliationSnapshot) (fill : ExecutionRecord) : List Discrepancy :=
  match Table.lookup (·.tradeId) fill.brokerTradeId (Table.dict (·.tradeId) s.brokerTrades) with
  | none =>
      [⟨.missingFill, fill.brokerTradeId, .text "persisted fill is absent from broker trade book", "",
        false⟩]
  | some trade => report (¬ SameFill s.orders fill trade)
      ⟨.fillMismatch, fill.brokerTradeId, .text "fill details differ", "", false⟩

/-- `_fills`. -/
def fills (s : ReconciliationSnapshot) : List Discrepancy :=
  let broker := Table.dict (·.tradeId) s.brokerTrades
  let internal := Table.dict (·.brokerTradeId) s.executions
  report (broker.length ≠ s.brokerTrades.length ∨ internal.length ≠ s.executions.length)
      ⟨.duplicateIdentity, "fills", .text "duplicate trade id", "", false⟩ ++
    internal.flatMap (fillFound s) ++
    (broker.filter fun trade => trade.tradeId ∉ internal.map (·.brokerTradeId)).map fun trade =>
      ⟨.externalFill, trade.tradeId, .text "broker fill has not been applied locally",
        trade.instrumentId, false⟩

/-! ## Positions -/

/-- What is found about one instrument, from the rows of the two sides. -/
def positionFound (instrumentId : String) (ours : Option PositionRecord)
    (theirs : Option BrokerPosition) : List Discrepancy :=
  match ours, theirs with
  | some ours, some theirs =>
      report ((ours.netQuantity, ours.averagePrice) ≠ (theirs.netQuantity, theirs.averagePrice))
        ⟨.positionMismatch, instrumentId, .text "position quantity or cost basis differs", "", false⟩
  | _, _ =>
      [⟨.orphanPosition, instrumentId, .text "position exists on only one side", instrumentId,
        ours.isNone⟩]

/-- `_positions`. -/
def positions (s : ReconciliationSnapshot) : List Discrepancy :=
  let internal := Table.dict (·.instrumentId) (s.positions.filter fun p => p.netQuantity ≠ 0)
  let broker := Table.dict (·.instrumentId) (s.brokerPositions.filter fun p => p.netQuantity ≠ 0)
  (internal.map (·.instrumentId) ∪ broker.map (·.instrumentId)).flatMap fun i =>
    positionFound i (Table.lookup (·.instrumentId) i internal)
      (Table.lookup (·.instrumentId) i broker)

/-! ## The history -/

/-- `orders_disagreeing_with_fills`. -/
def ordersDisagreeingWithFills (orders : List OrderRecord) (filled : String → ℕ) :
    List (String × ℕ × ℕ) :=
  (orders.filter fun o => o.filledQuantity ≠ filled o.id).map fun o =>
    (o.id, o.filledQuantity, filled o.id)

section

variable [DecimalContext]

/-- `_history`, of a comparator that replays or not. -/
def history (replays : Bool) (s : ReconciliationSnapshot) : Except PyError (List Discrepancy) :=
  match s.history, replays with
  | some executions, true => do
      let differences ← positionHistory s.positions executions
      pure (differences.map (fun d => ⟨.positionHistoryMismatch, d.1, .history d.2, "", false⟩) ++
        (ordersDisagreeingWithFills s.orders (PositionReplay.filledByOrder executions)).map fun d =>
          ⟨.orderFillMismatch, d.1, .filled d.2.1 d.2.2, "", false⟩)
  | _, _ => pure []

/-- Everything that differs. A history that cannot be replayed raises. -/
def compare (replays : Bool) (s : ReconciliationSnapshot) : Except PyError (List Discrepancy) := do
  let found ← history replays s
  pure (orders s ++ fills s ++ positions s ++ found)

end

/-! ## What silence says -/

variable {s : ReconciliationSnapshot} {book : List BrokerOrder} {o : OrderRecord} {b : BrokerOrder}

/-- The broker's order is the persisted one: equal in everything the two
sides record, the status up to `status`. -/
structure SameOrder (status : OrderState → BrokerOrderStatus → Prop) (o : OrderRecord)
    (b : BrokerOrder) : Prop where
  instrumentId : o.instrumentId = b.instrumentId
  side : o.side = b.side
  quantity : o.quantity = b.quantity
  price : some o.limitPrice = b.price
  filledQuantity : o.filledQuantity = b.filledQuantity
  clientTag : some o.ordertag = b.clientTag
  orderType : some o.orderType = b.orderType
  triggerPrice : o.triggerPrice = b.triggerPrice
  brokerOrderId : o.brokerOrderId = none ∨ o.brokerOrderId = some b.brokerOrderId
  status : status o.state b.status

/-- The status the books have for the broker's. -/
def StatusEqual (state : OrderState) (status : BrokerOrderStatus) : Prop :=
  state.value = expectedState status

instance (state : OrderState) (status : BrokerOrderStatus) : Decidable (StatusEqual state status) :=
  inferInstanceAs (Decidable (_ = _))

/-- The same, where the order is not in flight. -/
def StatusSettled (state : OrderState) (status : BrokerOrderStatus) : Prop :=
  state ∉ inFlight → StatusEqual state status

theorem differs_eq_false : differs o b = false ↔ SameOrder StatusSettled o b := by
  unfold differs
  constructor
  · intro h
    simp only [decide_not, Bool.not_eq_false', decide_eq_true_eq] at h
    obtain ⟨h₁, h₂, h₃, h₄, h₅, h₆, h₇, h₈, h₉, h₀⟩ := h
    exact ⟨h₁, h₂, h₃, h₄, h₅, h₆, h₇, h₈, h₀, fun hflight => h₉.resolve_left hflight⟩
  · intro h
    simp only [decide_not, Bool.not_eq_false', decide_eq_true_eq]
    exact ⟨h.instrumentId, h.side, h.quantity, h.price, h.filledQuantity, h.clientTag, h.orderType,
      h.triggerPrice, or_iff_not_imp_left.mpr h.status, h.brokerOrderId⟩

/-- A broker order under the tag of a persisted one, or under its id where
it has no tag. -/
def Names (o : OrderRecord) (b : BrokerOrder) : Prop :=
  if o.ordertag = "" then b.brokerOrderId = o.brokerOrderId.getD ""
  else b.clientTag = some o.ordertag

theorem mem_of_counterpart (h : counterpart book o = some b) : b ∈ book := by
  unfold counterpart at h
  rw [Table.lookup_dict, Table.lookup_dict, Option.or_eq_some_iff] at h
  rcases h with h | ⟨-, h⟩
  · exact List.mem_of_mem_filter (Table.mem_of_latest h)
  · exact Table.mem_of_latest h

/-- A tag the book has leads to the last order under it. -/
theorem counterpart_of_tag (htag : o.ordertag ≠ "") (hb : b ∈ book)
    (h : b.clientTag = some o.ordertag) :
    counterpart book o = Table.latest (·.clientTag) (some o.ordertag) (tagged book) := by
  unfold counterpart
  rw [Table.lookup_dict]
  cases hl : Table.latest (·.clientTag) (some o.ordertag) (tagged book) with
  | some c => rfl
  | none =>
      refine absurd h (Table.latest_eq_none.mp hl b (List.mem_filter.mpr ⟨hb, ?_⟩))
      simp [h, htag]

/-- An order without a tag is looked up by its id alone. -/
theorem counterpart_of_no_tag (htag : o.ordertag = "") :
    counterpart book o = Table.latest (·.brokerOrderId) (o.brokerOrderId.getD "") book := by
  unfold counterpart
  rw [Table.lookup_dict, Table.lookup_dict]
  have hnone : Table.latest (·.clientTag) (some o.ordertag) (tagged book) = none := by
    refine Table.latest_eq_none.mpr fun c hc hct => ?_
    have := (List.mem_filter.mp hc).2
    simp [hct, htag] at this
  rw [hnone, Option.none_or]

/-- Nothing is found about the orders. -/
structure OrdersSilent (s : ReconciliationSnapshot) : Prop where
  nodup : (s.brokerOrders.map (·.brokerOrderId)).Nodup
  absent : ∀ o ∈ s.orders, counterpart s.brokerOrders o = none → expectedAbsent o
  same : ∀ o ∈ s.orders, ∀ b, counterpart s.brokerOrders o = some b → SameOrder StatusSettled o b
  owned : ∀ b ∈ s.brokerOrders, ∃ o ∈ s.orders, counterpart s.brokerOrders o = some b

theorem ordersSilent_of_orders (h : orders s = []) : OrdersSilent s := by
  simp only [orders, List.append_eq_nil_iff, report_eq_nil, List.flatMap_eq_nil_iff, List.map_eq_nil_iff,
    List.filter_eq_nil_iff, decide_eq_false_iff_not, not_not, decide_eq_true_eq] at h
  obtain ⟨⟨hlen, heach⟩, hknown⟩ := h
  have hnodup := Table.length_dict.mp hlen
  refine ⟨hnodup, fun o ho hnone => ?_, fun o ho b hb => ?_, fun b hb => ?_⟩
  · have := heach o ho
    rw [orderFound, hnone] at this
    simpa using this
  · have := heach o ho
    rw [orderFound, hb] at this
    exact differs_eq_false.1 (report_eq_nil.1 this)
  · obtain ⟨c, hc, hid⟩ := List.mem_map.mp
      (hknown _ (Table.mem_map_key_dict.mpr (List.mem_map_of_mem hb)))
    obtain ⟨o, ho, hco⟩ := List.mem_filterMap.mp hc
    -- ids are distinct, so the counterpart under the id is the order itself
    rw [Table.eq_of_key hnodup (mem_of_counterpart hco) hb hid] at hco
    exact ⟨o, ho, hco⟩

/-- **One order under each name.** The broker has no second order under the
tag of a persisted one. -/
theorem OrdersSilent.eq_of_names (h : OrdersSilent s) (hb : b ∈ s.brokerOrders) (hname : Names o b)
    {c : BrokerOrder} (hc : counterpart s.brokerOrders o = some c) : b = c := by
  unfold Names at hname
  split at hname
  · rename_i htag
    rw [counterpart_of_no_tag htag, ← hname] at hc
    exact Table.eq_of_key h.nodup hb (Table.mem_of_latest hc) (Table.key_of_latest hc).symm
  · rename_i htag
    rw [counterpart_of_tag htag hb hname] at hc
    -- whoever owns the other order has the same tag, and so the same counterpart
    obtain ⟨o', ho', hown⟩ := h.owned b hb
    have htag' : o'.ordertag = o.ordertag :=
      Option.some.inj ((h.same o' ho' b hown).clientTag.trans hname)
    rw [counterpart_of_tag (htag' ▸ htag) hb (by rw [hname, htag']), htag', hc] at hown
    exact (Option.some.inj hown).symm

/-- What the two sides say about a fill. -/
abbrev FillFacts := String × String × OrderSide × ℕ × Money × Option String

def factsOfFill (orders : List OrderRecord) (fill : ExecutionRecord) : FillFacts :=
  (fill.brokerTradeId, fill.instrumentId, fill.side, fill.quantity, fill.price,
    brokerIdOf orders fill.orderId)

def factsOfTrade (trade : BrokerTrade) : FillFacts :=
  (trade.tradeId, trade.instrumentId, trade.side, trade.quantity, trade.price,
    some trade.brokerOrderId)

/-- The recorded fills and the broker's trades are one to one. -/
structure FillsAgree (s : ReconciliationSnapshot) : Prop where
  nodup : (s.executions.map (·.brokerTradeId)).Nodup
  perm : (s.executions.map (factsOfFill s.orders)).Perm (s.brokerTrades.map factsOfTrade)

theorem SameFill.facts_eq {fill : ExecutionRecord} {trade : BrokerTrade}
    (hid : trade.tradeId = fill.brokerTradeId) (h : SameFill s.orders fill trade) :
    factsOfFill s.orders fill = factsOfTrade trade := by
  obtain ⟨hinst, hside, hquantity, hprice, hbroker⟩ := h
  simp only [factsOfFill, factsOfTrade, hid, hinst, hside, hquantity, hprice, hbroker]

theorem fillsAgree_of_fills (h : fills s = []) : FillsAgree s := by
  simp only [fills, List.append_eq_nil_iff, report_eq_nil, List.flatMap_eq_nil_iff, List.map_eq_nil_iff,
    List.filter_eq_nil_iff, decide_eq_false_iff_not, not_or, not_not, decide_eq_true_eq] at h
  obtain ⟨⟨⟨hbroker, hinternal⟩, heach⟩, hextra⟩ := h
  rw [Table.length_dict] at hbroker hinternal
  -- each recorded fill has the trade of its id
  have hfill : ∀ e ∈ s.executions, ∃ t ∈ s.brokerTrades, t.tradeId = e.brokerTradeId ∧
      SameFill s.orders e t := by
    intro e he
    have hdict : e ∈ Table.dict (·.brokerTradeId) s.executions :=
      Table.mem_of_lookup (Table.lookup_dict.trans (Table.latest_of_mem hinternal he))
    have hfound := heach e hdict
    unfold fillFound at hfound
    rw [Table.lookup_dict] at hfound
    cases hl : Table.latest (·.tradeId) e.brokerTradeId s.brokerTrades with
    | none =>
        rw [hl] at hfound
        cases hfound
    | some t =>
        rw [hl] at hfound
        refine ⟨t, Table.mem_of_latest hl, Table.key_of_latest hl, ?_⟩
        simpa using hfound
  refine ⟨hinternal, (List.perm_ext_iff_of_nodup ?_ ?_).mpr fun x => ⟨?_, ?_⟩⟩
  · refine List.Nodup.of_map Prod.fst ?_
    rwa [List.map_map]
  · refine List.Nodup.of_map Prod.fst ?_
    rwa [List.map_map]
  · intro hx
    obtain ⟨e, he, rfl⟩ := List.mem_map.mp hx
    obtain ⟨t, ht, hid, hsame⟩ := hfill e he
    exact List.mem_map.mpr ⟨t, ht, (hsame.facts_eq hid).symm⟩
  · intro hx
    obtain ⟨t, ht, rfl⟩ := List.mem_map.mp hx
    have hdict : t ∈ Table.dict (·.tradeId) s.brokerTrades :=
      Table.mem_of_lookup (Table.lookup_dict.trans (Table.latest_of_mem hbroker ht))
    obtain ⟨e, he, hide⟩ := List.mem_map.mp (Table.mem_map_key_dict.mp (hextra t hdict))
    obtain ⟨t', ht', hid, hsame⟩ := hfill e he
    -- the trade found for that fill is the one we started from
    obtain rfl : t' = t := Table.eq_of_key hbroker ht' ht (hid.trans hide)
    exact List.mem_map.mpr ⟨e, he, hsame.facts_eq hid⟩

/-- The open rows of an instrument, as the two sides are compared. -/
def openRows (i : String) (positions : List PositionRecord) : List (ℤ × Money) :=
  ((positions.filter fun p => p.netQuantity ≠ 0).filter fun p => p.instrumentId = i).map fun p =>
    (p.netQuantity, p.averagePrice)

def brokerRows (i : String) (positions : List BrokerPosition) : List (ℤ × Money) :=
  ((positions.filter fun p => p.netQuantity ≠ 0).filter fun p => p.instrumentId = i).map fun p =>
    (p.netQuantity, p.averagePrice)

/-- The open positions are equal, of the instruments that have an admitted
number of open rows on each side. -/
def PositionsAgree (admitted : ℕ → Prop) (s : ReconciliationSnapshot) : Prop :=
  ∀ i, admitted (openRows i s.positions).length → admitted (brokerRows i s.brokerPositions).length →
    (openRows i s.positions).Perm (brokerRows i s.brokerPositions)

theorem facts_eq_of_positionFound {i : String} {ours : Option PositionRecord}
    {theirs : Option BrokerPosition} (h : positionFound i ours theirs = []) :
    ours.map (fun p => (p.netQuantity, p.averagePrice)) =
      theirs.map fun p => (p.netQuantity, p.averagePrice) := by
  unfold positionFound at h
  split at h
  · simpa using h
  · cases h

theorem positionsAgree_of_positions (h : positions s = []) : PositionsAgree (· ≤ 1) s := by
  intro i hours htheirs
  rw [openRows, List.length_map] at hours
  rw [brokerRows, List.length_map] at htheirs
  rw [openRows, brokerRows, Table.filter_eq_latest hours, Table.filter_eq_latest htheirs]
  simp only [positions, List.flatMap_eq_nil_iff, List.mem_union_iff, Table.mem_map_key_dict,
    Table.lookup_dict] at h
  suffices heq : (Table.latest (·.instrumentId) i
        (s.positions.filter fun p => p.netQuantity ≠ 0)).map (fun p => (p.netQuantity, p.averagePrice)) =
      (Table.latest (·.instrumentId) i (s.brokerPositions.filter fun p => p.netQuantity ≠ 0)).map
        fun p => (p.netQuantity, p.averagePrice) by
    rw [← Option.toList_map, ← Option.toList_map, heq]
  by_cases hlisted : i ∈ (s.positions.filter fun p => p.netQuantity ≠ 0).map (·.instrumentId) ∨
      i ∈ (s.brokerPositions.filter fun p => p.netQuantity ≠ 0).map (·.instrumentId)
  · exact facts_eq_of_positionFound (h i hlisted)
  · -- an instrument neither side holds open
    rw [not_or] at hlisted
    have hours' : Table.latest (·.instrumentId) i
        (s.positions.filter fun p => p.netQuantity ≠ 0) = none :=
      Table.latest_eq_none.mpr fun p hp hi => hlisted.1 (List.mem_map.mpr ⟨p, hp, hi⟩)
    have htheirs' : Table.latest (·.instrumentId) i
        (s.brokerPositions.filter fun p => p.netQuantity ≠ 0) = none :=
      Table.latest_eq_none.mpr fun p hp hi => hlisted.2 (List.mem_map.mpr ⟨p, hp, hi⟩)
    rw [hours', htheirs']
    rfl

variable [DecimalContext]

omit [DecimalContext] in
/-- Where the open rows of every instrument are equal, nothing is found. -/
theorem positions_eq_nil (hours : (s.positions.map (·.instrumentId)).Nodup)
    (htheirs : (s.brokerPositions.map (·.instrumentId)).Nodup)
    (h : ∀ i, (Table.lookup (·.instrumentId) i s.positions).map (fun p => (p.netQuantity, p.averagePrice)) =
      (Table.lookup (·.instrumentId) i s.brokerPositions).map fun p =>
        (p.netQuantity, p.averagePrice)) :
    positions s = [] := by
  simp only [positions, List.flatMap_eq_nil_iff, List.mem_union_iff, Table.mem_map_key_dict,
    Table.lookup_dict, Table.latest_filter hours, Table.latest_filter htheirs,
    Table.latest_eq_lookup hours, Table.latest_eq_lookup htheirs]
  intro i hi
  have heq := h i
  cases hl : Table.lookup (·.instrumentId) i s.positions with
  | none =>
      rw [hl, Option.map_none, eq_comm, Option.map_eq_none_iff] at heq
      rcases hi with hi | hi
      · obtain ⟨p, hp, hpi⟩ := List.mem_map.mp hi
        exact absurd hpi (Table.lookup_eq_none.mp hl p (List.mem_of_mem_filter hp))
      · obtain ⟨p, hp, hpi⟩ := List.mem_map.mp hi
        exact absurd hpi (Table.lookup_eq_none.mp heq p (List.mem_of_mem_filter hp))
  | some p =>
      rw [hl, Option.map_some, eq_comm, Option.map_eq_some_iff] at heq
      obtain ⟨q, hq, heq⟩ := heq
      obtain ⟨hnet, haverage⟩ := Prod.mk.inj heq
      have hp := Table.mem_of_lookup hl
      have hpi := Table.key_of_lookup hl
      -- the instrument is listed, so the row of one of the sides is open
      have hopen : p.netQuantity ≠ 0 := by
        rcases hi with hi | hi
        · obtain ⟨p', hp', hpi'⟩ := List.mem_map.mp hi
          obtain ⟨hp', hne⟩ := List.mem_filter.mp hp'
          rw [Table.eq_of_key hours hp' hp (hpi'.trans hpi.symm)] at hne
          simpa using hne
        · obtain ⟨q', hq', hqi'⟩ := List.mem_map.mp hi
          obtain ⟨hq', hne⟩ := List.mem_filter.mp hq'
          rw [Table.eq_of_key htheirs hq' (Table.mem_of_lookup hq)
            (hqi'.trans (Table.key_of_lookup hq).symm), hnet] at hne
          simpa using hne
      rw [hq, Option.filter_some_pos (by simpa using hopen),
        Option.filter_some_pos (by rw [hnet]; simpa using hopen)]
      simp [positionFound, hnet, haverage]

/-- The stored positions of an instrument with an admitted number of rows,
and what the orders say is filled, are what the replay of the history
gives. -/
structure HistoryAgrees (admitted : ℕ → Prop) (s : ReconciliationSnapshot)
    (executions : List ExecutionRecord) : Prop where
  positions : ∃ replayed,
    PositionReplay.replay ((s.positions.head?.map (·.accountId)).getD "") executions = .ok replayed ∧
    ∀ i, admitted (s.positions.filter fun p => p.instrumentId = i).length →
      (s.positions.filter fun p => p.instrumentId = i).map (·.facts) =
        ((Table.lookup (·.instrumentId) i replayed).map (·.facts)).toList
  filled : ∀ o ∈ s.orders, o.filledQuantity = PositionReplay.filledByOrder executions o.id

omit [DecimalContext] in
theorem facts_eq_of_differences {stored replayed : List PositionRecord}
    (h : PositionReplay.differences stored replayed = []) (i : String) :
    (Table.latest (·.instrumentId) i stored).map (·.facts) =
      (Table.lookup (·.instrumentId) i replayed).map (·.facts) := by
  simp only [PositionReplay.differences, List.filterMap_eq_nil_iff, List.mem_insertionSort,
    List.mem_union_iff, Table.mem_map_key_dict, Table.lookup_dict] at h
  by_cases hlisted : i ∈ stored.map (·.instrumentId) ∨ i ∈ replayed.map (·.instrumentId)
  · have := h i hlisted
    split at this
    · rename_i ours theirs hours htheirs
      rw [hours, htheirs, Option.map_some, Option.map_some]
      split at this
      · rename_i heq
        rw [heq]
      · cases this
    · cases this
  · rw [not_or] at hlisted
    have hours : Table.latest (·.instrumentId) i stored = none :=
      Table.latest_eq_none.mpr fun p hp hi => hlisted.1 (List.mem_map.mpr ⟨p, hp, hi⟩)
    have htheirs : Table.lookup (·.instrumentId) i replayed = none :=
      Table.lookup_eq_none.mpr fun p hp hi => hlisted.2 (List.mem_map.mpr ⟨p, hp, hi⟩)
    rw [hours, htheirs, Option.map_none]

theorem historyAgrees_of_history {executions : List ExecutionRecord}
    (hknown : s.history = some executions) (h : history true s = .ok []) :
    HistoryAgrees (· ≤ 1) s executions := by
  unfold history at h
  rw [hknown] at h
  simp only [positionHistory] at h
  cases hreplay : PositionReplay.replay ((s.positions.head?.map (·.accountId)).getD "") executions with
  | error e =>
      rw [hreplay] at h
      cases h
  | ok replayed =>
      rw [hreplay] at h
      have hnil := Except.ok.inj h
      rw [List.append_eq_nil_iff, List.map_eq_nil_iff, List.map_eq_nil_iff] at hnil
      obtain ⟨hdifferences, hfilled⟩ := hnil
      refine ⟨⟨replayed, hreplay, fun i hone => ?_⟩, fun o ho => ?_⟩
      · rw [Table.filter_eq_latest hone, ← facts_eq_of_differences hdifferences i, Option.toList_map]
      · rw [ordersDisagreeingWithFills, List.map_eq_nil_iff, List.filter_eq_nil_iff] at hfilled
        simpa using hfilled o ho

/-! ## Soundness -/

/-- The books and the broker agree: statuses up to `status`, and positions
of instruments with an admitted number of rows. -/
structure Agreement (status : OrderState → BrokerOrderStatus → Prop) (admitted : ℕ → Prop)
    (s : ReconciliationSnapshot) : Prop where
  orders : ∀ o ∈ s.orders, expectedAbsent o = false →
    ∃ b ∈ s.brokerOrders, SameOrder status o b ∧ ∀ b' ∈ s.brokerOrders, Names o b' → b' = b
  owned : ∀ b ∈ s.brokerOrders, ∃ o ∈ s.orders, SameOrder status o b
  fills : FillsAgree s
  positions : PositionsAgree admitted s
  history : ∀ executions, s.history = some executions → HistoryAgrees admitted s executions

/-- **Silence is agreement.** Where the comparator finds nothing, every
order that reached the broker is one broker order and the other way round,
fills and trades are one to one, and open positions and the replay of the
history are equal. -/
theorem agreement_of_compare (h : compare true s = .ok []) :
    Agreement StatusSettled (· ≤ 1) s := by
  unfold compare at h
  cases hhistory : history true s with
  | error e =>
      rw [hhistory] at h
      cases h
  | ok found =>
      rw [hhistory] at h
      have hnil := Except.ok.inj h
      simp only [List.append_eq_nil_iff] at hnil
      obtain ⟨⟨⟨horders, hfills⟩, hpositions⟩, rfl⟩ := hnil
      have hsilent := ordersSilent_of_orders horders
      refine ⟨fun o ho hreached => ?_, fun b hb => ?_, fillsAgree_of_fills hfills,
        positionsAgree_of_positions hpositions,
        fun executions hknown => historyAgrees_of_history hknown hhistory⟩
      · cases hc : counterpart s.brokerOrders o with
        | none =>
            rw [hsilent.absent o ho hc] at hreached
            cases hreached
        | some b =>
            exact ⟨b, mem_of_counterpart hc, hsilent.same o ho b hc,
              fun b' hb' hname => hsilent.eq_of_names hb' hname hc⟩
      · obtain ⟨o, ho, hc⟩ := hsilent.owned b hb
        exact ⟨o, ho, hsilent.same o ho b hc⟩

/-! ## Small books -/

namespace Sample

omit [DecimalContext]

/-- An order of ten of `I` at 100 the broker has as `B`, in a state. -/
def bookedOrder (state : OrderState) (filled : ℕ) : OrderRecord where
  id := "O"
  strategyRunId := none
  signalId := none
  signalKind := none
  parentOrderId := none
  repriceCount := 0
  absenceChecks := 0
  originalLimitPrice := none
  idempotencyKey := "K"
  ordertag := "T"
  instrumentId := "I"
  side := .buy
  orderType := .limit
  quantity := 10
  limitPrice := ⟨100⟩
  triggerPrice := none
  state := state
  sessionDate := 0
  brokerOrderId := some "B"
  filledQuantity := filled
  createdAt := 0
  updatedAt := 0
  accountId := some "A"
  averagePrice := none
  statusMessage := ""

/-- The broker's row of it. -/
def listedOrder (status : BrokerOrderStatus) (filled : ℕ) : BrokerOrder :=
  ⟨"B", some "T", "I", .buy, some .limit, 10, filled, status, some ⟨100⟩, none, ""⟩

/-- Its one fill, and the position that leaves. -/
def bookedFill : ExecutionRecord :=
  ⟨"E", "X", "O", "I", .buy, 10, ⟨100⟩, 0, some "A", some 0, some Money.zero, some 1⟩

def bookedPosition : PositionRecord :=
  ⟨"A:I", "A", "I", 10, ⟨100⟩, Money.zero, 0, some Money.zero, some Money.zero⟩

/-- The order is filled, and everything agrees; the broker may list more
positions of `I`. -/
def filledBooks (more : List BrokerPosition) : ReconciliationSnapshot where
  orders := [bookedOrder .filled 10]
  executions := [bookedFill]
  positions := [bookedPosition]
  brokerOrders := [listedOrder .filled 10]
  brokerTrades := [⟨"X", "B", "I", .buy, 10, ⟨100⟩, some 0, Sample.ten_pos⟩]
  brokerPositions := more ++ [⟨"I", 10, ⟨100⟩⟩]
  history := some [bookedFill]

/-- The order is being cancelled here and works at the broker. -/
def cancelledBooks : ReconciliationSnapshot where
  orders := [bookedOrder .pendingCancel 0]
  executions := []
  positions := []
  brokerOrders := [listedOrder .open 0]
  brokerTrades := []
  brokerPositions := []
  history := some []

/-- The comparison is silent and the books disagree. -/
def Unseen (s : ReconciliationSnapshot) : Prop :=
  @compare Decimal.standard true s = .ok [] ∧
    ¬ @Agreement Decimal.standard StatusEqual (fun _ => True) s

end Sample

omit [DecimalContext] in
theorem agreement_of_compare_sample :
    @Agreement Decimal.standard StatusSettled (· ≤ 1) (Sample.filledBooks []) :=
  @agreement_of_compare _ Decimal.standard (by decide +kernel)

omit [DecimalContext] in
/-- **Silence over what differs.** An order in flight is not held against
the broker's status, and of two rows the broker has for an instrument only
the last is read. -/
theorem compare_silent_of_difference :
    Sample.Unseen Sample.cancelledBooks ∧ Sample.Unseen (Sample.filledBooks [⟨"I", 25, ⟨90⟩⟩]) := by
  let _ := Decimal.standard
  constructor
  · refine ⟨by decide, fun h => ?_⟩
    obtain ⟨b, hb, hsame, -⟩ := h.orders (Sample.bookedOrder .pendingCancel 0)
      (List.mem_singleton_self _) (by decide)
    obtain rfl := List.mem_singleton.mp hb
    exact absurd hsame.status (by decide)
  · refine ⟨by decide +kernel, fun h => ?_⟩
    have := (h.positions "I" trivial trivial).length_eq
    exact absurd this (by decide)

end ReconciliationComparator

end Emporos
