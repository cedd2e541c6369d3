import Emporos.Backtest.Portfolio
/-!
# Round trips

A round trip runs from flat back to flat. The book opens a cycle with the
fill that leaves flat, adds up what is entered and what is exited, and
closes it into a trade; a fill that flips the position closes the trade
and opens the next cycle with the remainder. In rational arithmetic the
trades and the open cycles account for all of the profit
(`round_trips_account`).
-/

namespace Emporos

inductive TradeDirection
  | long
  | short
  deriving DecidableEq

namespace TradeDirection

/-- Of a quantity that is not zero. -/
def of (quantity : ℤ) : TradeDirection := if 0 < quantity then long else short

/-- What a rise of the price is worth to one share. -/
def sign : TradeDirection → ℚ
  | long => 1
  | short => -1

end TradeDirection

structure ClosedTrade where
  instrumentId : String
  direction : TradeDirection
  /-- Shares entered over the whole round trip. -/
  quantity : ℕ
  openedAt : Timestamp
  closedAt : Timestamp
  entryPrice : Money
  exitPrice : Money
  grossPnl : Money
  fees : Money
  strategyRunId : String

/-- A round trip in progress. -/
structure Cycle where
  direction : TradeDirection
  openedAt : Timestamp
  baseGross : Money
  baseFees : Money
  strategyRunId : String
  entryQuantity : ℕ := 0
  entryTurnover : Decimal := 0
  exitQuantity : ℕ := 0
  exitTurnover : Decimal := 0

/-- The fill's quantity, negative for a sale. -/
def Fill.signed (fill : Fill) : ℤ := fill.trade.signed

/-- The book with its round trips. A trade is kept with the cycle it was
made of, which nothing reads. -/
structure TrackedPortfolio where
  book : BacktestPortfolio
  cycles : String → Option Cycle
  closed : List (Cycle × ClosedTrade)

section Booking

variable [DecimalContext]

def ClosedTrade.netPnl (t : ClosedTrade) : Money := t.grossPnl - t.fees

namespace Cycle

def enter (c : Cycle) (quantity : ℕ) (price : Money) : Cycle :=
  { c with
    entryQuantity := c.entryQuantity + quantity
    entryTurnover := c.entryTurnover.add (price.amount.mul quantity) }

def leave (c : Cycle) (quantity : ℕ) (price : Money) : Cycle :=
  { c with
    exitQuantity := c.exitQuantity + quantity
    exitTurnover := c.exitTurnover.add (price.amount.mul quantity) }

/-- The trade a finished cycle makes. -/
def close (c : Cycle) (fill : Fill) (state : PositionState) : ClosedTrade where
  instrumentId := fill.instrumentId
  direction := c.direction
  quantity := c.entryQuantity
  openedAt := c.openedAt
  closedAt := fill.ts
  entryPrice := ⟨c.entryTurnover.div c.entryQuantity⟩
  exitPrice := ⟨c.exitTurnover.div c.exitQuantity⟩
  grossPnl := state.grossRealised - c.baseGross
  fees := state.fees - c.baseFees
  strategyRunId := c.strategyRunId

/-- The cycle that the remainder of a flip opens. -/
def reopened (fill : Fill) (state : PositionState) : Cycle where
  direction := .of state.netQuantity
  openedAt := fill.ts
  baseGross := state.grossRealised
  baseFees := state.fees
  strategyRunId := fill.strategyRunId
  entryQuantity := state.netQuantity.natAbs
  entryTurnover := fill.price.amount.mul state.netQuantity.natAbs

/-- The cycle a fill finds, or the one it opens. -/
def found (cycle : Option Cycle) (fill : Fill) (before : PositionState) : Cycle :=
  cycle.getD
    { direction := .of fill.signed
      openedAt := fill.ts
      baseGross := before.grossRealised
      baseFees := before.fees
      strategyRunId := fill.strategyRunId }

/-- `_track_cycle`: the cycle a fill leaves, and the trade it closes with the
cycle it is made of. -/
def track (cycle : Option Cycle) (fill : Fill) (before after : PositionState) :
    Option Cycle × Option (Cycle × ClosedTrade) :=
  let cycle := found cycle fill before
  if 0 < fill.signed ↔ cycle.direction = .long then (some (cycle.enter fill.quantity fill.price), none)
  else
    let cycle := cycle.leave (min fill.quantity before.netQuantity.natAbs) fill.price
    if after.netQuantity = 0 ∨ ¬ (0 < after.netQuantity ↔ 0 < before.netQuantity) then
      (if after.netQuantity ≠ 0 then some (reopened fill after) else none,
        some (cycle, cycle.close fill after))
    else (some cycle, none)

end Cycle

namespace TrackedPortfolio

omit [DecimalContext] in
def new (startingCash : Money) (h : Money.zero < startingCash) : TrackedPortfolio :=
  ⟨.new startingCash h, fun _ => none, []⟩

/-- The instrument's position before a fill. -/
def before (p : TrackedPortfolio) (instrumentId : String) : PositionState :=
  (p.book.account.position instrumentId).getD (.flat instrumentId)

/-- `apply`: book a fill and the charges on it. -/
def apply (p : TrackedPortfolio) (fill : Fill) (charges : Money) : Except PyError TrackedPortfolio :=
  p.book.apply fill charges >>= fun book =>
    let tracked := Cycle.track (p.cycles fill.instrumentId) fill (p.before fill.instrumentId)
      (p.book.account.after fill.trade charges)
    .ok { book := book
          cycles := Function.update p.cycles fill.instrumentId tracked.1
          closed := p.closed ++ tracked.2.toList }

def mark (p : TrackedPortfolio) (instrumentId : String) (price : Money) : TrackedPortfolio :=
  { p with book := p.book.mark instrumentId price }

/-- The strategy whose fill opened the round trip in an instrument. -/
def owner (p : TrackedPortfolio) (instrumentId : String) : Except PyError String :=
  match p.cycles instrumentId with
  | some cycle => .ok cycle.strategyRunId
  | none => .error (.other "LookupError")

end TrackedPortfolio

end Booking

/-! ## One position in rational arithmetic -/

theorem BrokerTrade.natAbs_signed (t : BrokerTrade) : t.signed.natAbs = t.quantity := by
  unfold signed
  cases t.side <;> simp

theorem BrokerTrade.signed_ne_zero (t : BrokerTrade) : t.signed ≠ 0 := by
  have := t.natAbs_signed
  have := t.quantity_pos
  omega

theorem TradeDirection.of_eq_long {n : ℤ} : TradeDirection.of n = .long ↔ 0 < n := by
  unfold of
  split <;> simp_all

theorem TradeDirection.of_congr {m n : ℤ} (h : 0 < m ↔ 0 < n) : of m = of n := by
  unfold of
  rw [if_congr h rfl rfl]

namespace PaperAccount

variable [DecimalContext] [Decimal.Exact] {before : PositionState} {t : BrokerTrade} {charges : Money}

omit [DecimalContext] [Decimal.Exact] in
theorem natAbs_of_adding (h : Adding before t) :
    (before.netQuantity + t.signed).natAbs = before.netQuantity.natAbs + t.quantity := by
  have hq := t.natAbs_signed
  have hne := t.signed_ne_zero
  unfold Adding at h
  omega

/-- **Adding** moves the cost by what is paid, and books nothing. -/
theorem book_adding (h : Adding before t) :
    (book before t charges).grossRealised = before.grossRealised ∧
    (book before t charges).averagePrice.amount * (book before t charges).netQuantity.natAbs =
      before.averagePrice.amount * before.netQuantity.natAbs + t.price.amount * t.quantity := by
  have habs := natAbs_of_adding h
  have hpos := t.quantity_pos
  refine ⟨by rw [book, grossAfter, if_pos h], ?_⟩
  have hne : ((before.netQuantity.natAbs + t.quantity : ℕ) : ℚ) ≠ 0 := by
    have : before.netQuantity.natAbs + t.quantity ≠ 0 := by omega
    exact_mod_cast this
  rw [book, averageAfter, if_pos h, habs]
  dsimp only
  rw [Decimal.div_eq, Decimal.add_eq, Decimal.mul_eq, Decimal.mul_eq, div_mul_cancel₀ _ hne]
  ring

/-- **Reducing** books the difference to the average on what is closed. -/
theorem grossRealised_book (h : ¬ Adding before t) :
    (book before t charges).grossRealised.amount = before.grossRealised.amount +
      (TradeDirection.of before.netQuantity).sign *
        ((t.price.amount - before.averagePrice.amount) * min t.quantity before.netQuantity.natAbs) := by
  have hsign : (((if 0 < before.netQuantity then 1 else -1 : ℤ) : ℤ) : ℚ) =
      (TradeDirection.of before.netQuantity).sign := by
    unfold TradeDirection.of
    split <;> simp [TradeDirection.sign]
  rw [book, grossAfter, if_neg h, Money.add_amount, Decimal.add_eq, Decimal.mul_eq, Decimal.mul_eq,
    Decimal.sub_eq]
  simp only [hsign]
  push_cast
  ring

omit [Decimal.Exact] in
/-- The cost of what a reduction leaves open. -/
theorem averagePrice_book (h : ¬ Adding before t) :
    (book before t charges).averagePrice =
      if before.netQuantity + t.signed = 0 then Money.zero
      else if 0 < before.netQuantity + t.signed ↔ 0 < before.netQuantity then before.averagePrice
      else t.price := by
  rw [book, averageAfter, if_neg h]

omit [DecimalContext] [Decimal.Exact] in
/-- What a fill against the position leaves: nothing, a part of it, or the
remainder on the other side. -/
theorem opposite_cases (h : ¬ Adding before t) :
    (before.netQuantity + t.signed = 0 ∧ min t.quantity before.netQuantity.natAbs =
      before.netQuantity.natAbs) ∨
    (before.netQuantity + t.signed ≠ 0 ∧
      (0 < before.netQuantity + t.signed ↔ 0 < before.netQuantity) ∧
      min t.quantity before.netQuantity.natAbs = t.quantity ∧
      (before.netQuantity + t.signed).natAbs + t.quantity = before.netQuantity.natAbs) ∨
    (before.netQuantity + t.signed ≠ 0 ∧
      ¬ (0 < before.netQuantity + t.signed ↔ 0 < before.netQuantity) ∧
      min t.quantity before.netQuantity.natAbs = before.netQuantity.natAbs) := by
  have hq := t.natAbs_signed
  have hne := t.signed_ne_zero
  unfold Adding at h
  omega

end PaperAccount

/-! ## One cycle -/

namespace Cycle

/-- A cycle is what a position has open: the quantity entered and not yet
exited is held, and what is booked since the base is what the exits bring
over the entries, the held quantity taken at its cost. -/
structure Tracks (c : Cycle) (s : PositionState) : Prop where
  quantity : c.entryQuantity = c.exitQuantity + s.netQuantity.natAbs
  gross : s.grossRealised.amount - c.baseGross.amount = c.direction.sign *
    (c.exitTurnover - c.entryTurnover + s.averagePrice.amount * s.netQuantity.natAbs)

/-- There is a cycle when the position is not flat, and it tracks it. -/
def Follows (cycle : Option Cycle) (s : PositionState) : Prop :=
  match cycle with
  | none => s.netQuantity = 0
  | some c => s.netQuantity ≠ 0 ∧ c.direction = .of s.netQuantity ∧ c.Tracks s

/-- What is booked on the open cycle since its base, after charges. -/
def openPnl (cycle : Option Cycle) (s : PositionState) : ℚ :=
  match cycle with
  | none => 0
  | some c => (s.grossRealised.amount - c.baseGross.amount) - (s.fees.amount - c.baseFees.amount)

/-- A trade that accounts for its whole cycle. -/
structure Whole (c : Cycle × ClosedTrade) : Prop where
  exited : c.1.entryQuantity = c.1.exitQuantity
  quantity : c.2.quantity = c.1.entryQuantity
  gross : c.2.grossPnl.amount = c.2.direction.sign *
    ((c.2.exitPrice.amount - c.2.entryPrice.amount) * c.2.quantity)

variable [DecimalContext] [Decimal.Exact] {cycle : Option Cycle} {fill : Fill}
  {before : PositionState} {charges : Money}

omit [DecimalContext] [Decimal.Exact] in
/-- The cycle a fill finds tracks the position, also where it is new. -/
theorem found_spec (h : Follows cycle before) :
    (found cycle fill before).Tracks before ∧
    (found cycle fill before).direction =
      .of (if before.netQuantity = 0 then fill.signed else before.netQuantity) := by
  cases cycle with
  | none =>
      have hflat : before.netQuantity = 0 := h
      refine ⟨⟨?_, ?_⟩, ?_⟩
      · rw [hflat]
        rfl
      · rw [hflat]
        simp [found]
      · rw [if_pos hflat]
        rfl
  | some c =>
      obtain ⟨hne, hdirection, htracks⟩ := h
      exact ⟨htracks, by rw [if_neg hne]; exact hdirection⟩

omit [DecimalContext] [Decimal.Exact] in
/-- A fill in the cycle's direction is one that adds to the position. -/
theorem enters_iff (h : Follows cycle before) :
    (0 < fill.signed ↔ (found cycle fill before).direction = .long) ↔
      PaperAccount.Adding before fill.trade := by
  have hsigned : fill.trade.signed = fill.signed := rfl
  rw [(found_spec h).2, TradeDirection.of_eq_long, PaperAccount.Adding, hsigned]
  split <;> tauto

omit [DecimalContext] [Decimal.Exact] in
/-- A new cycle has booked nothing. -/
theorem openPnl_found : openPnl (some (found cycle fill before)) before = openPnl cycle before := by
  cases cycle with
  | none => simp [openPnl, found]
  | some c => rfl

/-- **A fill that adds** is entered. -/
theorem track_adding (h : Follows cycle before) (hadd : PaperAccount.Adding before fill.trade) :
    track cycle fill before (PaperAccount.book before fill.trade charges) =
      (some ((found cycle fill before).enter fill.quantity fill.price), none) ∧
    Follows (some ((found cycle fill before).enter fill.quantity fill.price))
      (PaperAccount.book before fill.trade charges) := by
  obtain ⟨⟨hquantity, hgross⟩, hdirection⟩ := @found_spec cycle fill before h
  obtain ⟨hbooked, hcost⟩ := PaperAccount.book_adding hadd
  have habs := PaperAccount.natAbs_of_adding hadd
  have hne := fill.trade.signed_ne_zero
  have hpos := fill.quantity_pos
  have hq : fill.trade.quantity = fill.quantity := rfl
  have hprice : fill.trade.price = fill.price := rfl
  have hnet : (PaperAccount.book before fill.trade charges).netQuantity =
      before.netQuantity + fill.trade.signed := rfl
  refine ⟨if_pos ((enters_iff h).mpr hadd), ?_, ?_, ?_, ?_⟩
  · rw [hnet]
    omega
  · -- the position grows on the side it has, or on the fill's
    change (found cycle fill before).direction = _
    rw [hdirection]
    refine TradeDirection.of_congr ?_
    have hsigned : fill.signed = fill.trade.signed := rfl
    unfold PaperAccount.Adding at hadd
    rw [hnet, hsigned]
    split <;> omega
  · change (found cycle fill before).entryQuantity + fill.quantity =
      (found cycle fill before).exitQuantity + _
    rw [hnet, habs, hquantity, hq]
    omega
  · change _ - (found cycle fill before).baseGross.amount = (found cycle fill before).direction.sign *
      ((found cycle fill before).exitTurnover -
        ((found cycle fill before).entryTurnover.add (fill.price.amount.mul fill.quantity)) + _)
    rw [hbooked, hcost, hgross, Decimal.add_eq, Decimal.mul_eq, hq, hprice]
    ring

/-- **A fill against the position** is exited, as far as the position
reaches. -/
theorem leave_spec (h : Follows cycle before) (hagainst : ¬ PaperAccount.Adding before fill.trade) :
    let c := (found cycle fill before).leave (min fill.quantity before.netQuantity.natAbs) fill.price
    let left := before.netQuantity.natAbs - min fill.quantity before.netQuantity.natAbs
    c.direction = .of before.netQuantity ∧ before.netQuantity ≠ 0 ∧
    c.entryQuantity = c.exitQuantity + left ∧
    (PaperAccount.book before fill.trade charges).grossRealised.amount - c.baseGross.amount =
      c.direction.sign *
        (c.exitTurnover - c.entryTurnover + before.averagePrice.amount * left) := by
  have hne : before.netQuantity ≠ 0 := fun hzero => hagainst (.inl hzero)
  obtain ⟨⟨hquantity, hgross⟩, hdirection⟩ := @found_spec cycle fill before h
  rw [if_neg hne] at hdirection
  have hbooked := @PaperAccount.grossRealised_book _ _ before fill.trade charges hagainst
  intro c left
  have hleft : ((left : ℕ) : ℚ) = before.netQuantity.natAbs -
      (min fill.quantity before.netQuantity.natAbs : ℕ) := Nat.cast_sub (min_le_right _ _)
  refine ⟨hdirection, hne, ?_, ?_⟩
  · change (found cycle fill before).entryQuantity =
      (found cycle fill before).exitQuantity + min fill.quantity before.netQuantity.natAbs + left
    have : min fill.quantity before.netQuantity.natAbs ≤ before.netQuantity.natAbs := min_le_right _ _
    omega
  · change _ - (found cycle fill before).baseGross.amount = (found cycle fill before).direction.sign *
      ((found cycle fill before).exitTurnover.add
        (fill.price.amount.mul (min fill.quantity before.netQuantity.natAbs : ℕ)) -
          (found cycle fill before).entryTurnover + before.averagePrice.amount * left)
    have hq : fill.trade.quantity = fill.quantity := rfl
    have hprice : fill.trade.price = fill.price := rfl
    rw [hbooked, Decimal.add_eq, Decimal.mul_eq, hleft, hq, hprice, ← hdirection]
    rw [show before.grossRealised.amount = before.grossRealised.amount -
      (found cycle fill before).baseGross.amount + (found cycle fill before).baseGross.amount by ring,
      hgross]
    push_cast
    ring

/-- The trade of a cycle that has exited what it entered. -/
theorem whole_close {c : Cycle} {state : PositionState} (hquantity : c.entryQuantity = c.exitQuantity)
    (hpos : 0 < c.exitQuantity) (hgross : state.grossRealised.amount - c.baseGross.amount =
      c.direction.sign * (c.exitTurnover - c.entryTurnover)) : Whole (c, c.close fill state) := by
  refine ⟨hquantity, rfl, ?_⟩
  have hne : (c.exitQuantity : ℚ) ≠ 0 := by exact_mod_cast hpos.ne'
  change Decimal.sub _ _ = c.direction.sign *
    ((Decimal.div c.exitTurnover c.exitQuantity - Decimal.div c.entryTurnover c.entryQuantity) *
      c.entryQuantity)
  rw [Decimal.sub_eq, Decimal.div_eq, Decimal.div_eq, hquantity, hgross, sub_mul,
    div_mul_cancel₀ _ hne, div_mul_cancel₀ _ hne]

/-- **One fill.** The cycle it leaves follows the position it leaves, and
the trade it closes is whole. -/
theorem track_follows (h : Follows cycle before) :
    Follows (track cycle fill before (PaperAccount.book before fill.trade charges)).1
      (PaperAccount.book before fill.trade charges) ∧
    ∀ t ∈ (track cycle fill before (PaperAccount.book before fill.trade charges)).2, Whole t := by
  by_cases hadd : PaperAccount.Adding before fill.trade
  · obtain ⟨htrack, hfollows⟩ := track_adding h hadd
    rw [htrack]
    exact ⟨hfollows, fun t ht => by cases ht⟩
  · obtain ⟨hdirection, hne, hquantity, hgross⟩ := leave_spec h hadd
    have haverage := @PaperAccount.averagePrice_book _ before fill.trade charges hadd
    have hnet : (PaperAccount.book before fill.trade charges).netQuantity =
        before.netQuantity + fill.trade.signed := rfl
    have hq : fill.trade.quantity = fill.quantity := rfl
    have hpos := fill.quantity_pos
    have hexits : 0 < ((found cycle fill before).leave
        (min fill.quantity before.netQuantity.natAbs) fill.price).exitQuantity := by
      change 0 < (found cycle fill before).exitQuantity + min fill.quantity before.netQuantity.natAbs
      omega
    unfold track
    dsimp only
    rw [if_neg fun henters => hadd ((enters_iff h).mp henters), hnet]
    rcases PaperAccount.opposite_cases hadd with ⟨hzero, hall⟩ | ⟨hopen, hside, hpart, hrest⟩ |
      ⟨hopen, hside, hall⟩
    · rw [hq] at hall
      rw [if_pos (.inl hzero), if_neg (not_not.mpr hzero)]
      rw [hall, Nat.sub_self, Nat.cast_zero, mul_zero, add_zero] at hgross
      rw [hall, Nat.sub_self, add_zero] at hquantity
      rw [hall] at hexits ⊢
      refine ⟨hnet.trans hzero, fun t ht => ?_⟩
      obtain rfl := Option.some.inj ht
      exact whole_close hquantity hexits hgross
    · rw [hq] at hpart hrest
      rw [if_neg (not_or.mpr ⟨hopen, not_not.mpr hside⟩)]
      have hleft : before.netQuantity.natAbs - min fill.quantity before.netQuantity.natAbs =
          (before.netQuantity + fill.trade.signed).natAbs := by omega
      rw [if_neg hopen, if_pos hside] at haverage
      rw [hleft] at hquantity hgross
      refine ⟨⟨hopen, ?_, hquantity, ?_⟩, fun t ht => by cases ht⟩
      · rw [hdirection, hnet]
        exact (TradeDirection.of_congr hside).symm
      · rw [haverage]
        exact hgross
    · rw [hq] at hall
      rw [if_pos (.inr hside), if_pos hopen]
      rw [if_neg hopen, if_neg hside] at haverage
      rw [hall, Nat.sub_self, Nat.cast_zero, mul_zero, add_zero] at hgross
      rw [hall, Nat.sub_self, add_zero] at hquantity
      rw [hall] at hexits ⊢
      refine ⟨⟨hopen, rfl, (zero_add _).symm, ?_⟩, fun t ht => ?_⟩
      · -- the remainder has its cost at this fill, and nothing is booked on it
        change _ - (PaperAccount.book before fill.trade charges).grossRealised.amount = _ *
          (0 - Decimal.mul fill.price.amount (before.netQuantity + fill.trade.signed).natAbs + _)
        rw [haverage, Decimal.mul_eq, hnet]
        have hprice : fill.trade.price = fill.price := rfl
        rw [hprice]
        ring
      · obtain rfl := Option.some.inj ht
        exact whole_close hquantity hexits hgross

/-- **What a fill books** goes to the trade it closes and to the cycle it
leaves. -/
theorem track_openPnl {after : PositionState} :
    ((track cycle fill before after).2.toList.map fun t => t.2.netPnl.amount).sum +
        openPnl (track cycle fill before after).1 after =
      openPnl cycle before + (after.realised.amount - before.realised.amount) := by
  have hrealised : ∀ s : PositionState,
      s.realised.amount = s.grossRealised.amount - s.fees.amount := fun s => Decimal.sub_eq _ _
  rw [← @openPnl_found cycle fill before, hrealised, hrealised]
  unfold track
  dsimp only
  split_ifs with henters hcloses hflips
  · simp only [Option.toList_none, List.map_nil, List.sum_nil, openPnl, enter]
    ring
  · simp only [Option.toList_some, List.map_singleton, List.sum_singleton, openPnl, reopened,
      ClosedTrade.netPnl, close, leave, Money.sub_amount, Decimal.sub_eq]
    ring
  · simp only [Option.toList_some, List.map_singleton, List.sum_singleton, openPnl,
      ClosedTrade.netPnl, close, leave, Money.sub_amount, Decimal.sub_eq]
    ring
  · simp only [Option.toList_none, List.map_nil, List.sum_nil, openPnl, leave]
    ring

end Cycle

/-! ## The cash of a position -/

namespace PositionState

variable [DecimalContext]

/-- What the position has brought in so far: realised, less what the open
quantity cost. -/
def cash (s : PositionState) : ℚ :=
  s.realised.amount - s.averagePrice.amount * s.netQuantity

end PositionState

namespace PaperAccount

variable [DecimalContext] [Decimal.Exact] {before : PositionState} {t : BrokerTrade} {charges : Money}

omit [DecimalContext] [Decimal.Exact] in
theorem sign_mul_natAbs (n : ℤ) : (TradeDirection.of n).sign * n.natAbs = n := by
  unfold TradeDirection.of
  split
  · rename_i h
    rw [TradeDirection.sign, one_mul, Nat.cast_natAbs, abs_of_pos h]
  · rename_i h
    rw [TradeDirection.sign, neg_one_mul, Nat.cast_natAbs, abs_of_nonpos (not_lt.mp h)]
    push_cast
    ring

/-- **Booking** a trade moves the cash by what the trade pays and by its
charges. -/
theorem cash_book : (book before t charges).cash =
    before.cash - t.signed * t.price.amount - charges.amount := by
  have hrealised : ∀ s : PositionState,
      s.realised.amount = s.grossRealised.amount - s.fees.amount := fun s => Decimal.sub_eq _ _
  have hfees : (book before t charges).fees.amount = before.fees.amount + charges.amount :=
    Decimal.add_eq _ _
  have hnet : (book before t charges).netQuantity = before.netQuantity + t.signed := rfl
  unfold PositionState.cash
  rw [hrealised, hrealised, hfees]
  by_cases hadd : Adding before t
  · -- the cost grows by what is paid, on the side the position grows to
    obtain ⟨hgross, hcost⟩ := book_adding hadd
    have hsides : (TradeDirection.of (before.netQuantity + t.signed)).sign *
        before.netQuantity.natAbs = before.netQuantity ∧
        (TradeDirection.of (before.netQuantity + t.signed)).sign * t.quantity = t.signed := by
      have hside : before.netQuantity = 0 ∨ TradeDirection.of (before.netQuantity + t.signed) =
          .of before.netQuantity := by
        by_cases hzero : before.netQuantity = 0
        · exact .inl hzero
        · refine .inr (TradeDirection.of_congr ?_)
          unfold Adding at hadd
          omega
      have hside' : TradeDirection.of (before.netQuantity + t.signed) = .of t.signed := by
        refine TradeDirection.of_congr ?_
        have := t.signed_ne_zero
        unfold Adding at hadd
        omega
      constructor
      · rcases hside with hzero | hside
        · rw [hzero]
          simp
        · rw [hside, sign_mul_natAbs]
      · rw [hside', ← t.natAbs_signed, sign_mul_natAbs]
    have hopen : (book before t charges).averagePrice.amount * (before.netQuantity + t.signed : ℤ) =
        before.averagePrice.amount * before.netQuantity + t.price.amount * t.signed := by
      rw [hnet] at hcost
      rw [← sign_mul_natAbs (before.netQuantity + t.signed), mul_left_comm, hcost, mul_add,
        mul_left_comm, hsides.1, mul_left_comm, hsides.2]
    rw [hgross, hnet, hopen]
    ring
  · -- what is closed leaves at its cost, and a remainder enters at the price
    have hgross := @grossRealised_book _ _ before t charges hadd
    have haverage := @averagePrice_book _ before t charges hadd
    have hsigned : (t.signed : ℚ) = -((TradeDirection.of before.netQuantity).sign * t.quantity) := by
      have hopposite : TradeDirection.of before.netQuantity = .of (-t.signed) := by
        refine TradeDirection.of_congr ?_
        have := t.signed_ne_zero
        unfold Adding at hadd
        omega
      have hmagnitude := sign_mul_natAbs (-t.signed)
      rw [Int.natAbs_neg, t.natAbs_signed, ← hopposite] at hmagnitude
      rw [hmagnitude]
      push_cast
      ring
    have hheld := sign_mul_natAbs before.netQuantity
    rw [hgross, haverage, hnet]
    rcases opposite_cases hadd with ⟨hzero, hall⟩ | ⟨hopen, hside, hpart, -⟩ | ⟨hopen, hside, hall⟩
    · rw [if_pos hzero, hall, mul_left_comm, hheld]
      have hnone : (before.netQuantity : ℚ) = -t.signed := by
        have : before.netQuantity = -t.signed := by omega
        exact_mod_cast this
      rw [hnone, Money.zero_amount]
      ring
    · rw [if_neg hopen, if_pos hside, hpart]
      push_cast
      rw [hsigned]
      ring
    · rw [if_neg hopen, if_neg hside, hall, mul_left_comm, hheld]
      push_cast
      ring

end PaperAccount

/-! ## Runs -/

/-- What is done to the book: a fill with its charges, or a price seen. -/
inductive PortfolioEvent
  | fill (fill : Fill) (charges : Money)
  | mark (instrumentId : String) (price : Money)

namespace PortfolioEvent

/-- What a booked fill pays, a sale being paid for. Negative charges are
refused, and the fill with them. -/
def cashFlow : PortfolioEvent → ℚ
  | fill f charges => if charges < Money.zero then 0 else -(f.signed * f.price.amount)
  | mark _ _ => 0

/-- The charges on a booked fill. -/
def charged : PortfolioEvent → ℚ
  | fill _ charges => if charges < Money.zero then 0 else charges.amount
  | mark _ _ => 0

end PortfolioEvent

namespace TrackedPortfolio

section Runs

variable [DecimalContext]

/-- A refused fill leaves the book as it was. -/
def step (p : TrackedPortfolio) : PortfolioEvent → TrackedPortfolio
  | .fill fill charges =>
      match p.apply fill charges with
      | .ok p => p
      | .error _ => p
  | .mark instrumentId price => p.mark instrumentId price

def run (p : TrackedPortfolio) (events : List PortfolioEvent) : TrackedPortfolio :=
  events.foldl step p

omit [DecimalContext] in
def netQuantity (p : TrackedPortfolio) (instrumentId : String) : ℤ := (p.before instrumentId).netQuantity

omit [DecimalContext] in
/-- The open positions at their marks. -/
def markedValue (p : TrackedPortfolio) : ℚ :=
  (p.book.account.positions.map fun s => (p.book.valuation s).amount * s.netQuantity).sum

omit [DecimalContext] in
/-- What is booked on the open cycles since their bases. -/
def openPnl (p : TrackedPortfolio) : ℚ :=
  (p.book.account.positions.map fun s => Cycle.openPnl (p.cycles s.instrumentId) s).sum

/-- The round trips account for the profit of a run. -/
structure Accounts (p : TrackedPortfolio) (startingCash : Money) (events : List PortfolioEvent) :
    Prop where
  open_iff : ∀ i, (p.cycles i).isSome ↔ p.netQuantity i ≠ 0
  whole : ∀ t ∈ p.closed, Cycle.Whole t
  realised : (p.closed.map fun t => t.2.netPnl.amount).sum + p.openPnl = p.book.realised.amount
  equity : p.book.equity.amount = startingCash.amount + (events.map PortfolioEvent.cashFlow).sum -
    (events.map PortfolioEvent.charged).sum + p.markedValue

/-- The invariant of a run: each cycle follows its position, and the sums
over positions are those of the trades and of the cash. -/
structure Tracked (p : TrackedPortfolio) (startingCash : Money) (cash : ℚ) : Prop where
  startingCash : p.book.startingCash = startingCash
  nodup : (p.book.account.positions.map (·.instrumentId)).Nodup
  follows : ∀ i, Cycle.Follows (p.cycles i) (p.before i)
  whole : ∀ t ∈ p.closed, Cycle.Whole t
  realised : (p.closed.map fun t => t.2.netPnl.amount).sum + p.openPnl =
    (p.book.account.positions.map fun s => s.realised.amount).sum
  cash : (p.book.account.positions.map PositionState.cash).sum = cash

variable [Decimal.Exact] {p : TrackedPortfolio} {startingCash : Money} {cash : ℚ} {fill : Fill}
  {charges : Money}

omit [DecimalContext] [Decimal.Exact] in
theorem tracked_new [DecimalContext] (h : Money.zero < startingCash) :
    (new startingCash h).Tracked startingCash 0 where
  startingCash := rfl
  nodup := .nil
  follows := fun _ => rfl
  whole := fun _ h => absurd h List.not_mem_nil
  realised := add_zero _
  cash := rfl

omit [Decimal.Exact] in
/-- What a booked fill makes of the book. -/
theorem step_fill (h : ¬ charges < Money.zero) :
    (p.step (.fill fill charges)).book.account.positions = Table.upsert (·.instrumentId)
      (PaperAccount.book (p.before fill.instrumentId) fill.trade charges) p.book.account.positions ∧
    (p.step (.fill fill charges)).book.startingCash = p.book.startingCash ∧
    (p.step (.fill fill charges)).cycles = Function.update p.cycles fill.instrumentId
      (Cycle.track (p.cycles fill.instrumentId) fill (p.before fill.instrumentId)
        (PaperAccount.book (p.before fill.instrumentId) fill.trade charges)).1 ∧
    (p.step (.fill fill charges)).closed = p.closed ++
      (Cycle.track (p.cycles fill.instrumentId) fill (p.before fill.instrumentId)
        (PaperAccount.book (p.before fill.instrumentId) fill.trade charges)).2.toList := by
  have hbook : ∃ book, p.book.apply fill charges = .ok book ∧
      book.account.positions = Table.upsert (·.instrumentId)
        (p.book.account.after fill.trade charges) p.book.account.positions ∧
      book.startingCash = p.book.startingCash := by
    unfold BacktestPortfolio.apply
    split
    · rename_i e he
      unfold PaperAccount.apply at he
      rw [if_neg h] at he
      cases he
    · rename_i account haccount
      refine ⟨_, rfl, ?_, PaperAccount.startingCash_of_apply haccount⟩
      have hpositions := haccount
      unfold PaperAccount.apply at hpositions
      rw [if_neg h] at hpositions
      exact (congrArg PaperAccount.positions (Except.ok.inj hpositions)).symm
  obtain ⟨book, hok, hpositions, hcash⟩ := hbook
  have happly : p.step (.fill fill charges) =
      { book := book
        cycles := Function.update p.cycles fill.instrumentId
          (Cycle.track (p.cycles fill.instrumentId) fill (p.before fill.instrumentId)
            (p.book.account.after fill.trade charges)).1
        closed := p.closed ++
          (Cycle.track (p.cycles fill.instrumentId) fill (p.before fill.instrumentId)
            (p.book.account.after fill.trade charges)).2.toList } := by
    unfold step apply
    dsimp only
    rw [hok]
    rfl
  rw [happly]
  exact ⟨hpositions, hcash, rfl, rfl⟩

omit [Decimal.Exact] in
theorem step_fill_refused (h : charges < Money.zero) : p.step (.fill fill charges) = p := by
  have herror : ∃ e, p.book.apply fill charges = .error e := by
    unfold BacktestPortfolio.apply
    split
    · rename_i e he
      exact ⟨e, rfl⟩
    · rename_i account haccount
      have hrefused := haccount
      unfold PaperAccount.apply at hrefused
      rw [if_pos h] at hrefused
      cases hrefused
  obtain ⟨e, he⟩ := herror
  unfold step apply
  dsimp only
  rw [he]
  rfl

omit [DecimalContext] [Decimal.Exact] in
/-- A figure of the position before a fill, by the lookup. -/
theorem lookup_before {f : PositionState → ℚ} {i : String}
    (hflat : p.book.account.position i = none → f (.flat i) = 0) :
    ((Table.lookup (·.instrumentId) i p.book.account.positions).map f).getD 0 = f (p.before i) := by
  unfold before
  unfold PaperAccount.position at hflat ⊢
  cases hlookup : Table.lookup (·.instrumentId) i p.book.account.positions with
  | none => exact (hflat hlookup).symm
  | some s => rfl

/-- **One fill** keeps the invariant, and moves the cash by what it pays and
by its charges. -/
theorem Tracked.filled (h : p.Tracked startingCash cash) (hcharges : ¬ charges < Money.zero) :
    (p.step (.fill fill charges)).Tracked startingCash
      (cash - fill.signed * fill.price.amount - charges.amount) := by
  obtain ⟨hpositions, hcash, hcycles, hclosed⟩ := step_fill (p := p) hcharges
  obtain ⟨hfollows, hwhole⟩ := Cycle.track_follows
    (h.follows fill.instrumentId)
  have hflat : (PositionState.flat fill.instrumentId).realised.amount = 0 :=
    Decimal.sub_self 0
  have hflat' : (PositionState.flat fill.instrumentId).cash = 0 := by
    unfold PositionState.cash
    rw [hflat]
    simp [PositionState.flat]
  have hkey : (PaperAccount.book (p.before fill.instrumentId) fill.trade charges).instrumentId =
      fill.instrumentId := rfl
  have hown : (p.before fill.instrumentId).instrumentId = fill.instrumentId := by
    unfold before PaperAccount.position
    cases hlookup : Table.lookup (·.instrumentId) fill.instrumentId p.book.account.positions with
    | none => rfl
    | some s => exact Table.key_of_lookup hlookup
  exact
    { startingCash := hcash.trans h.startingCash
      nodup := by
        rw [hpositions]
        exact Table.nodup_upsert h.nodup
      follows := by
        intro i
        have hbefore : (p.step (.fill fill charges)).before i = if i = fill.instrumentId then
            PaperAccount.book (p.before fill.instrumentId) fill.trade charges else p.before i := by
          unfold before PaperAccount.position
          rw [hpositions, Table.lookup_upsert, hkey]
          split <;> rfl
        rw [hbefore, hcycles]
        by_cases hi : i = fill.instrumentId
        · rw [if_pos hi, hi, Function.update_self]
          exact hfollows
        · rw [if_neg hi, Function.update_of_ne hi]
          exact h.follows i
      whole := by
        intro t ht
        rw [hclosed] at ht
        rcases List.mem_append.mp ht with ht | ht
        · exact h.whole t ht
        · exact hwhole t (Option.mem_toList.mp ht)
      realised := by
        have hbooked := @Cycle.track_openPnl _ _ (p.cycles fill.instrumentId) fill
          (p.before fill.instrumentId)
          (PaperAccount.book (p.before fill.instrumentId) fill.trade charges)
        have hopen : (p.step (.fill fill charges)).openPnl = p.openPnl +
            (Cycle.openPnl (Cycle.track (p.cycles fill.instrumentId) fill (p.before fill.instrumentId)
              (PaperAccount.book (p.before fill.instrumentId) fill.trade charges)).1
              (PaperAccount.book (p.before fill.instrumentId) fill.trade charges) -
                Cycle.openPnl (p.cycles fill.instrumentId) (p.before fill.instrumentId)) := by
          unfold openPnl
          rw [hpositions, hcycles]
          refine Table.sum_upsert_of_agree h.nodup ?_ ?_
          · intro s _ hne
            have hne' : s.instrumentId ≠ fill.instrumentId := hne
            rw [Function.update_of_ne hne']
          · rw [hkey, lookup_before (f := fun s => Cycle.openPnl (p.cycles s.instrumentId) s),
              Function.update_self, hown]
            · ring
            · -- nothing was ever traded in the instrument, so there is no cycle
              intro hnone
              have hfollows := h.follows fill.instrumentId
              unfold before at hfollows
              rw [hnone] at hfollows
              change Cycle.openPnl (p.cycles fill.instrumentId) _ = 0
              cases hcycle : p.cycles fill.instrumentId with
              | none => rfl
              | some c =>
                  rw [hcycle] at hfollows
                  exact absurd rfl hfollows.1
        have hrealised : ((p.step (.fill fill charges)).book.account.positions.map
            fun s => s.realised.amount).sum =
            (p.book.account.positions.map fun s => s.realised.amount).sum +
              ((PaperAccount.book (p.before fill.instrumentId) fill.trade charges).realised.amount -
                (p.before fill.instrumentId).realised.amount) := by
          rw [hpositions]
          refine Table.sum_upsert h.nodup ?_
          rw [hkey, lookup_before (f := fun s => s.realised.amount) fun _ => hflat]
          ring
        rw [hclosed, List.map_append, List.sum_append, hopen, hrealised, ← h.realised]
        linarith
      cash := by
        rw [hpositions, Table.sum_upsert (m := -(fill.signed * fill.price.amount) - charges.amount)
          h.nodup, h.cash]
        · ring
        · rw [hkey, lookup_before fun _ => hflat', PaperAccount.cash_book]
          have hsigned : fill.trade.signed = fill.signed := rfl
          have hprice : fill.trade.price = fill.price := rfl
          rw [hsigned, hprice]
          ring }

theorem Tracked.step (h : p.Tracked startingCash cash) (event : PortfolioEvent) :
    (p.step event).Tracked startingCash (cash + event.cashFlow - event.charged) := by
  cases event with
  | fill f charges =>
      by_cases hcharges : charges < Money.zero
      · rw [step_fill_refused hcharges, PortfolioEvent.cashFlow, PortfolioEvent.charged,
          if_pos hcharges, if_pos hcharges, add_zero, sub_zero]
        exact h
      · rw [PortfolioEvent.cashFlow, PortfolioEvent.charged, if_neg hcharges, if_neg hcharges,
          ← sub_eq_add_neg]
        exact h.filled hcharges
  | mark instrumentId price =>
      rw [PortfolioEvent.cashFlow, PortfolioEvent.charged, add_zero, sub_zero]
      exact ⟨h.startingCash, h.nodup, h.follows, h.whole, h.realised, h.cash⟩

theorem Tracked.run {events : List PortfolioEvent} : ∀ {p : TrackedPortfolio} {cash : ℚ},
    p.Tracked startingCash cash → (p.run events).Tracked startingCash
      (cash + (events.map PortfolioEvent.cashFlow).sum - (events.map PortfolioEvent.charged).sum) := by
  induction events with
  | nil =>
      intro p cash h
      simpa [TrackedPortfolio.run] using h
  | cons event rest ih =>
      intro p cash h
      have hrest := ih (h.step event)
      rw [List.map_cons, List.map_cons, List.sum_cons, List.sum_cons]
      have hsum : cash + event.cashFlow - event.charged + (rest.map PortfolioEvent.cashFlow).sum -
          (rest.map PortfolioEvent.charged).sum = cash +
            (event.cashFlow + (rest.map PortfolioEvent.cashFlow).sum) -
            (event.charged + (rest.map PortfolioEvent.charged).sum) := by ring
      rw [← hsum]
      exact hrest

/-- Equity is the starting cash, the cash of the positions, and the open
quantities at their marks. -/
theorem equity_eq : p.book.equity.amount = p.book.startingCash.amount +
    (p.book.account.positions.map PositionState.cash).sum + p.markedValue := by
  have hrealised : p.book.realised.amount =
      (p.book.account.positions.map fun s => s.realised.amount).sum := by
    change (List.foldl _ Money.zero _).amount = _
    rw [Money.foldl_amount, Decimal.foldl_add, Money.zero_amount, zero_add]
  have hunrealised : p.book.unrealised.amount = (p.book.account.positions.map fun s =>
      ((p.book.valuation s).amount - s.averagePrice.amount) * s.netQuantity).sum := by
    unfold BacktestPortfolio.unrealised
    rw [Money.foldl_amount, Decimal.foldl_add, Money.zero_amount, zero_add]
    -- a flat position adds nothing
    induction p.book.account.positions with
    | nil => rfl
    | cons s rest ih =>
        by_cases hopen : s.netQuantity ≠ 0
        · rw [List.filter_cons_of_pos (by simpa using hopen), List.map_cons, List.map_cons,
            List.sum_cons, List.sum_cons, ih, Decimal.mul_eq, Decimal.sub_eq]
        · rw [List.filter_cons_of_neg (by simpa using hopen), List.map_cons, List.sum_cons, ih,
            not_not.mp hopen, Int.cast_zero, mul_zero, zero_add]
  have hsplit : (p.book.account.positions.map PositionState.cash).sum + p.markedValue =
      (p.book.account.positions.map fun s => s.realised.amount).sum +
        (p.book.account.positions.map fun s =>
          ((p.book.valuation s).amount - s.averagePrice.amount) * s.netQuantity).sum := by
    unfold markedValue
    rw [← List.sum_map_add, ← List.sum_map_add]
    congr 1
    refine List.map_congr_left fun s _ => ?_
    unfold PositionState.cash
    ring
  unfold BacktestPortfolio.equity
  rw [Money.add_amount, Money.add_amount, Decimal.add_eq, Decimal.add_eq, hrealised, hunrealised,
    add_assoc, add_assoc, hsplit]

/-- **Round trips account for all of the profit.** After any fills with
charges and any marks, in rational arithmetic: an instrument has a cycle
when it is not flat, every closed trade accounts for its whole cycle, the
trades and the open cycles add up to what is realised, and equity is the
starting cash, the cash flow less the charges, and the open positions at
their marks. -/
theorem round_trips_account (h : Money.zero < startingCash) (events : List PortfolioEvent) :
    ((new startingCash h).run events).Accounts startingCash events := by
  have htracked := @Tracked.run _ _ startingCash events _ _ (tracked_new h)
  generalize (new startingCash h).run events = p at htracked
  refine ⟨fun i => ?_, htracked.whole, ?_, ?_⟩
  · have hfollows := htracked.follows i
    unfold netQuantity
    cases hcycle : p.cycles i with
    | none =>
        rw [hcycle] at hfollows
        exact ⟨fun h => (by cases h), fun hne => absurd hfollows hne⟩
    | some c =>
        rw [hcycle] at hfollows
        exact ⟨fun _ => hfollows.1, fun _ => rfl⟩
  · rw [htracked.realised]
    change _ = (List.foldl _ Money.zero _).amount
    rw [Money.foldl_amount, Decimal.foldl_add, Money.zero_amount, zero_add]
  · rw [equity_eq, htracked.startingCash, htracked.cash]
    ring

end Runs

/-! ## A flip -/

theorem sampleRun_named : "R" ≠ "" := by decide

theorem sampleBought_pos : 0 < 10 := by decide

theorem sampleSold_pos : 0 < 15 := by decide

theorem sampleStart_pos : Money.zero < ⟨1000⟩ := by simp [Money.lt_iff, Money.zero]

/-- Ten are bought at 100 and fifteen sold at 104, with charges. -/
def sampleFlip : List PortfolioEvent :=
  [.fill ⟨1, "O", "I", .buy, 10, ⟨100⟩, 0, "R", sampleRun_named, sampleBought_pos⟩ ⟨5⟩,
    .fill ⟨2, "P", "I", .sell, 15, ⟨104⟩, 1, "R", sampleRun_named, sampleSold_pos⟩ ⟨7⟩,
    .mark "I" ⟨103⟩]

/-- The long made forty before charges of twelve, and five are short. -/
theorem round_trips_account_sample :
    (@run Decimal.rational (new ⟨1000⟩ sampleStart_pos) sampleFlip).closed.map
      (fun t => (t.2.direction, t.2.quantity, t.2.grossPnl, t.2.fees)) =
        [(.long, 10, ⟨40⟩, ⟨12⟩)] ∧
    @Accounts Decimal.rational (@run Decimal.rational (new ⟨1000⟩ sampleStart_pos) sampleFlip) ⟨1000⟩
      sampleFlip :=
  ⟨by decide +kernel, @round_trips_account Decimal.rational Decimal.exact_rational _ sampleStart_pos
    sampleFlip⟩

end TrackedPortfolio

end Emporos
