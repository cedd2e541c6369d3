import Emporos.Common.Table
import Emporos.Persistence.Records
import Mathlib.Data.List.MinMax
/-!
# What became of each signal

The paper side of a parity report: `PaperOutcomes.bySignal` derives, from
the records of one run, what was ordered and filled for each signal, what it
cost, how long it took and how far from the decision price it filled.

An order is a signal's when it carries the signal's id, an execution when it
is of such an order; `attributed` names the executions so counted.
-/

namespace Emporos

structure SignalRecord where
  id : String
  ts : Timestamp
  /-- The limit price the strategy had in mind. -/
  price : Option Money
  side : Option OrderSide
  quoteLtp : Option Money
  quoteBid : Option Money
  quoteAsk : Option Money
  quoteTs : Option Timestamp
  quoteSource : Option String
  deriving DecidableEq

/-- One risk rejection, by the signal it blocked. -/
structure RiskEventRecord where
  signalId : Option String
  deriving DecidableEq

/-- The persisted records of one strategy run. -/
structure PaperRunData where
  signals : List SignalRecord
  orders : List OrderRecord
  orderEvents : List OrderEventRecord
  executions : List ExecutionRecord
  riskEvents : List RiskEventRecord

/-! ## Slippage -/

/-- The market a signal was decided against. -/
structure DecisionQuote where
  ts : Timestamp
  source : String
  ltp : Option Money
  bid : Option Money
  ask : Option Money
  priced : ltp.isSome ∨ bid.isSome ∨ ask.isSome

inductive ReferenceKind
  | mid
  | ltp
  | signalPrice
  deriving DecidableEq

/-- The adverse cost of a fill, in basis points: positive is worse for us. -/
structure Slippage where
  bps : Decimal
  reference : Money
  kind : ReferenceKind
  deriving DecidableEq

namespace SlippageMeasure

variable [DecimalContext]

def reference (quote : Option DecisionQuote) (signalPrice : Money) : Money × ReferenceKind :=
  match quote with
  | none => (signalPrice, .signalPrice)
  | some q =>
      match q.bid, q.ask, q.ltp with
      | some bid, some ask, _ => (⟨(bid.amount.add ask.amount).div 2⟩, .mid)
      | _, _, some ltp => (ltp, .ltp)
      | _, _, none => (signalPrice, .signalPrice)

def measure (side : OrderSide) (fillPrice : Money) (quote : Option DecisionQuote)
    (signalPrice : Money) : Except PyError Slippage :=
  let chosen := reference quote signalPrice
  if chosen.1.amount ≤ 0 then
    .error (.valueError "a slippage reference price must be positive")
  else
    let paid := fillPrice.amount.sub chosen.1.amount
    let signed := if side = .sell then paid.neg else paid
    .ok ⟨(signed.div chosen.1.amount).mul 10000, chosen.1, chosen.2⟩

theorem exists_measure (side : OrderSide) (fillPrice : Money) {quote : Option DecisionQuote}
    {signalPrice : Money} :
    (∃ s, measure side fillPrice quote signalPrice = .ok s) ↔
      0 < (reference quote signalPrice).1.amount := by
  rw [measure]
  by_cases h : (reference quote signalPrice).1.amount ≤ 0
  · rw [if_pos h]
    exact ⟨fun ⟨s, hs⟩ => (by cases hs), fun h' => absurd h (not_le.mpr h')⟩
  · rw [if_neg h]
    exact ⟨fun _ => not_le.mp h, fun _ => ⟨_, rfl⟩⟩

end SlippageMeasure

/-! ## Latency -/

/-- Where the time between deciding and being filled went. -/
structure LatencyProfile where
  decision : Duration
  placement : Option Duration
  fill : Option Duration
  /-- Cancel-then-replace rounds. -/
  reprices : ℕ
  deriving DecidableEq

local instance : Preorder Timestamp := Int.instLinearOrder.toPreorder

/-- `LatencyProfiler.profile`, with the events of an order by its id. No
profile where there was no order, since there is nothing to time. -/
def LatencyProfiler.profile (signalTs : Timestamp) (orders : List OrderRecord)
    (events : String → List OrderEventRecord) (executions : List ExecutionRecord) :
    Option LatencyProfile :=
  (List.argmin (·.createdAt) orders).map fun first =>
    let acked := ((events first.id).filter fun e => e.state ≠ .pendingNew).map (·.ts)
    let ack := acked.min?
    let firstFill := (executions.map (·.ts)).min?
    { decision := first.createdAt - signalTs
      placement := ack.map fun ack => ack - first.createdAt
      fill := ack.bind fun ack => firstFill.map fun fill => fill - ack
      reprices := orders.length - 1 }

/-! ## Outcomes -/

/-- What became of one signal on one side. -/
structure SideOutcome where
  orderedQuantity : ℕ
  filledQuantity : ℕ
  averageFillPrice : Option Money
  charges : Money
  rejectedByRisk : Bool
  latency : Option LatencyProfile
  slippage : Option Slippage
  deriving DecidableEq

namespace SideOutcome

def fullyFilled (o : SideOutcome) : Bool :=
  0 < o.orderedQuantity ∧ o.orderedQuantity ≤ o.filledQuantity

def partlyFilled (o : SideOutcome) : Bool :=
  0 < o.filledQuantity ∧ o.filledQuantity < o.orderedQuantity

end SideOutcome

namespace PaperOutcomes

variable [DecimalContext]

/-- What the fills of a list came to in all. -/
def filled (fills : List ExecutionRecord) : ℕ := (fills.map (·.quantity)).sum

/-- `_average`: the average price of fills, none where nothing was filled. -/
def average (fills : List ExecutionRecord) : Option Money :=
  if filled fills = 0 then none
  else some ⟨((fills.map fun x => x.price.amount.mul x.quantity).foldl Decimal.add 0).div
    (filled fills)⟩

/-- The charges of fills, those of unknown fees apart. -/
def charges (fills : List ExecutionRecord) : Money :=
  ⟨(fills.filterMap fun x => x.fees.map (·.amount)).foldl Decimal.add 0⟩

/-- The quote recorded with a signal. -/
def quote (s : SignalRecord) : Option DecisionQuote :=
  match s.quoteTs, s.quoteSource with
  | some ts, some source =>
      if h : s.quoteLtp.isSome ∨ s.quoteBid.isSome ∨ s.quoteAsk.isSome then
        some ⟨ts, source, s.quoteLtp, s.quoteBid, s.quoteAsk, h⟩
      else none
  | _, _ => none

variable (data : PaperRunData)

/-- The orders that carry a signal's id. -/
def ordersOf (signalId : String) : List OrderRecord :=
  data.orders.filter fun o => o.signalId = some signalId

def fillsOf (orderId : String) : List ExecutionRecord :=
  data.executions.filter fun x => x.orderId = orderId

def eventsOf (orderId : String) : List OrderEventRecord :=
  data.orderEvents.filter fun e => e.orderId = orderId

def rejected (signalId : String) : Bool :=
  data.riskEvents.any fun e => e.signalId = some signalId

/-- The executions counted for a signal. -/
def attributed (signalId : String) : List ExecutionRecord :=
  (ordersOf data signalId).flatMap fun o => fillsOf data o.id

/-- The slippage of a signal's fills, where they have a price and the
signal says what it wanted. -/
def slippage (s : SignalRecord) (price : Option Money) : Except PyError (Option Slippage) :=
  match price, s.side, s.price with
  | some price, some side, some signalPrice =>
      (SlippageMeasure.measure side price (quote s) signalPrice).map some
  | _, _, _ => .ok none

def outcome (s : SignalRecord) : Except PyError SideOutcome := do
  let orders := ordersOf data s.id
  let roots := orders.filter fun o => o.parentOrderId = none
  let executions := attributed data s.id
  let slippage ← slippage s (average executions)
  .ok
    { orderedQuantity := (roots.map (·.quantity)).sum
      filledQuantity := filled executions
      averageFillPrice := average executions
      charges := charges executions
      rejectedByRisk := rejected data s.id
      latency := LatencyProfiler.profile s.ts orders (eventsOf data) executions
      slippage }

/-- One row of the report: a signal's outcome under its id. -/
def row (s : SignalRecord) : Except PyError (String × SideOutcome) := do
  .ok (s.id, ← outcome data s)

/-- The outcome of each signal, under its id. -/
def bySignal : Except PyError (List (String × SideOutcome)) := do
  .ok (Table.dict (·.1) (← data.signals.mapM (row data)))

/-! ## When there is a report -/

variable {data}

/-- The outcome counts these fills: its quantity, price and charges are theirs. -/
structure CountsFills (o : SideOutcome) (fills : List ExecutionRecord) : Prop where
  quantity : o.filledQuantity = filled fills
  price : o.averageFillPrice = average fills
  charged : o.charges = charges fills

theorem countsFills_of_outcome {s : SignalRecord} {o : SideOutcome} (h : outcome data s = .ok o) :
    CountsFills o (attributed data s.id) := by
  obtain ⟨_, -, ho⟩ := exists_of_bind h
  cases ho
  exact ⟨rfl, rfl, rfl⟩

omit [DecimalContext] in
theorem filled_pos {fills : List ExecutionRecord} :
    0 < filled fills ↔ ∃ x ∈ fills, 0 < x.quantity := by
  simp only [filled, Nat.pos_iff_ne_zero, ne_eq, List.sum_eq_zero_iff, List.mem_map]
  push Not
  exact ⟨fun ⟨q, ⟨x, hx, hq⟩, hne⟩ => ⟨x, hx, hq ▸ hne⟩,
    fun ⟨x, hx, hne⟩ => ⟨x.quantity, ⟨x, hx, rfl⟩, hne⟩⟩

/-- The slippage of a signal can be measured: what it is measured against is positive. -/
def Referenced (s : SignalRecord) : Prop :=
  s.side.isSome → ∀ price, s.price = some price →
    0 < (SlippageMeasure.reference (quote s) price).1.amount

theorem exists_slippage {s : SignalRecord} {price : Option Money} :
    (∃ v, slippage s price = .ok v) ↔ (price.isSome → Referenced s) := by
  rcases price with _ | price
  · simp [slippage]
  rcases hside : s.side with _ | side
  · simp [slippage, Referenced, hside]
  rcases hprice : s.price with _ | signalPrice
  · simp [slippage, Referenced, hside, hprice]
  have hslippage : slippage s (some price) =
      (SlippageMeasure.measure side price (quote s) signalPrice).map some := by
    simp only [slippage, hside, hprice]
  have hreferenced : Referenced s ↔
      0 < (SlippageMeasure.reference (quote s) signalPrice).1.amount := by
    simp [Referenced, hside, hprice]
  rw [hslippage, hreferenced, ← SlippageMeasure.exists_measure side price]
  rcases SlippageMeasure.measure side price (quote s) signalPrice with e | m
  · simp [Except.map]
  · simp [Except.map]

/-- **A signal has an outcome** unless it was filled and its slippage has
no reference. -/
theorem exists_outcome {s : SignalRecord} :
    (∃ o, outcome data s = .ok o) ↔
      ((∃ x ∈ attributed data s.id, 0 < x.quantity) → Referenced s) := by
  have hprice : (average (attributed data s.id)).isSome ↔
      ∃ x ∈ attributed data s.id, 0 < x.quantity := by
    rw [← filled_pos, average]
    by_cases h : filled (attributed data s.id) = 0
    · simp [h]
    · simp [h, Nat.pos_of_ne_zero h]
  rw [← hprice, ← exists_slippage]
  constructor
  · rintro ⟨o, h⟩
    obtain ⟨v, hv, -⟩ := exists_of_bind h
    exact ⟨v, hv⟩
  · rintro ⟨v, hv⟩
    rw [outcome, hv]
    exact ⟨_, rfl⟩

theorem row_eq_ok {s : SignalRecord} {r : String × SideOutcome} :
    row data s = .ok r ↔ r.1 = s.id ∧ outcome data s = .ok r.2 := by
  constructor
  · intro h
    obtain ⟨o, ho, h⟩ := exists_of_bind h
    cases h
    exact ⟨rfl, ho⟩
  · rintro ⟨hid, ho⟩
    rw [row, ho, ← hid]
    rfl

/-- **There is a report** where every signal has an outcome. -/
theorem exists_bySignal :
    (∃ report, bySignal data = .ok report) ↔ ∀ s ∈ data.signals, ∃ o, outcome data s = .ok o := by
  have hrow : ∀ s, (∃ r, row data s = .ok r) ↔ ∃ o, outcome data s = .ok o := fun s =>
    ⟨fun ⟨r, hr⟩ => ⟨r.2, (row_eq_ok.1 hr).2⟩, fun ⟨o, ho⟩ => ⟨(s.id, o), row_eq_ok.2 ⟨rfl, ho⟩⟩⟩
  simp only [← hrow]
  rw [← exists_mapM]
  constructor
  · rintro ⟨report, h⟩
    obtain ⟨rows, hrows, -⟩ := exists_of_bind h
    exact ⟨rows, hrows⟩
  · rintro ⟨rows, hrows⟩
    exact ⟨Table.dict (·.1) rows, by rw [bySignal, hrows]; rfl⟩

/-- Where signals have ids of their own, the report is a row for each, in
their order. -/
theorem rows_of_bySignal {report : List (String × SideOutcome)}
    (hnd : (data.signals.map (·.id)).Nodup) (h : bySignal data = .ok report) :
    List.Forall₂ (fun s r => r.1 = s.id ∧ CountsFills r.2 (attributed data s.id)) data.signals
      report := by
  obtain ⟨rows, hrows, hdict⟩ := exists_of_bind h
  cases hdict
  have hpairs : List.Forall₂ (fun s r => r.1 = s.id ∧ CountsFills r.2 (attributed data s.id))
      data.signals rows :=
    (mapM_eq_ok.mp hrows).imp fun s r hr =>
      ⟨(row_eq_ok.1 hr).1, countsFills_of_outcome (row_eq_ok.1 hr).2⟩
  have hids : data.signals.map (·.id) = rows.map (·.1) := by
    rw [← List.forall₂_eq_eq_eq, List.forall₂_map_left_iff, List.forall₂_map_right_iff]
    exact hpairs.imp fun s r hr => hr.1.symm
  rw [Table.dict, Table.foldl_upsert_of_nodup (by rw [List.nil_append, ← hids]; exact hnd),
    List.nil_append]
  exact hpairs

end PaperOutcomes

end Emporos
