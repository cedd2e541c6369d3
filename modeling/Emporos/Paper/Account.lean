import Emporos.Portfolio.Reconciliation
/-!
# The simulated account

Positions, realised P&L, fees and cash, from trades alone. It books at
average cost as the position calculator does, in an order of operations of
its own; over any trades the two arrive at the same figures.
-/

namespace Emporos

/-- One instrument's position today. -/
structure PositionState where
  instrumentId : String
  netQuantity : ℤ
  /-- Of the open quantity; zero when flat. -/
  averagePrice : Money
  /-- Booked by closing quantity, before charges. -/
  grossRealised : Money
  fees : Money
  deriving DecidableEq

def PositionState.flat (instrumentId : String) : PositionState :=
  ⟨instrumentId, 0, Money.zero, Money.zero, Money.zero⟩

/-- The trade's quantity, negative for a sale. -/
def BrokerTrade.signed (trade : BrokerTrade) : ℤ :=
  match trade.side with
  | .buy => trade.quantity
  | .sell => -trade.quantity

structure PaperAccount where
  startingCash : Money
  positions : List PositionState
  trades : List BrokerTrade
  cash_nonneg : Money.zero ≤ startingCash

namespace PaperAccount

def new (startingCash : Money) (h : Money.zero ≤ startingCash) : PaperAccount :=
  ⟨startingCash, [], [], h⟩

def position (account : PaperAccount) (instrumentId : String) : Option PositionState :=
  Table.lookup (·.instrumentId) instrumentId account.positions

/-- The trade opens the position or adds to it. -/
def Adding (before : PositionState) (trade : BrokerTrade) : Prop :=
  before.netQuantity = 0 ∨ (0 < before.netQuantity ↔ 0 < trade.signed)

instance (before : PositionState) (trade : BrokerTrade) : Decidable (Adding before trade) :=
  inferInstanceAs (Decidable (_ ∨ _))

variable [DecimalContext]

def averageAfter (before : PositionState) (trade : BrokerTrade) : Money :=
  let net := before.netQuantity
  let newNet := net + trade.signed
  if Adding before trade then
    let held := Decimal.mul net.natAbs before.averagePrice.amount
    ⟨(held.add (Decimal.mul trade.quantity trade.price.amount)).div newNet.natAbs⟩
  else if newNet = 0 then Money.zero
  else if 0 < newNet ↔ 0 < net then before.averagePrice
  else trade.price

def grossAfter (before : PositionState) (trade : BrokerTrade) : Money :=
  let net := before.netQuantity
  if Adding before trade then before.grossRealised
  else
    let closed := min trade.quantity net.natAbs
    let direction : ℤ := if 0 < net then 1 else -1
    before.grossRealised +
      ⟨((trade.price.amount.sub before.averagePrice.amount).mul closed).mul direction⟩

/-- `_book`. -/
def book (before : PositionState) (trade : BrokerTrade) (fees : Money) : PositionState where
  instrumentId := trade.instrumentId
  netQuantity := before.netQuantity + trade.signed
  averagePrice := averageAfter before trade
  grossRealised := grossAfter before trade
  fees := before.fees + fees

/-- The position a trade leaves in its instrument. -/
def after (account : PaperAccount) (trade : BrokerTrade) (fees : Money) : PositionState :=
  book ((account.position trade.instrumentId).getD (.flat trade.instrumentId)) trade fees

/-- Book one trade and the charges on it. -/
def apply (account : PaperAccount) (trade : BrokerTrade) (fees : Money) :
    Except PyError PaperAccount :=
  if fees < Money.zero then .error (.valueError "charges cannot be negative")
  else
    .ok { account with
      positions := Table.upsert (·.instrumentId) (account.after trade fees) account.positions
      trades := account.trades ++ [trade] }

theorem startingCash_of_apply {account account' : PaperAccount} {trade : BrokerTrade} {fees : Money}
    (h : account.apply trade fees = .ok account') : account'.startingCash = account.startingCash := by
  unfold apply at h
  split at h
  · cases h
  · obtain rfl := Except.ok.inj h
    rfl

/-- Trades with their charges, one after the other. -/
def applyAll (account : PaperAccount) (trades : List (BrokerTrade × Money)) :
    Except PyError PaperAccount :=
  trades.foldlM (fun account t => account.apply t.1 t.2) account

end PaperAccount

namespace PositionState

variable [DecimalContext]

/-- What the closed part of the position made, after charges. -/
def realised (p : PositionState) : Money := p.grossRealised - p.fees

end PositionState

namespace PaperAccount

variable [DecimalContext]

def realised (account : PaperAccount) : Money :=
  account.positions.foldl (fun total p => total + p.realised) Money.zero

def fees (account : PaperAccount) : Money :=
  account.positions.foldl (fun total p => total + p.fees) Money.zero

/-- Starting cash and everything booked, after charges. -/
def cash (account : PaperAccount) : Money := account.startingCash + account.realised

end PaperAccount

/-! ## The two calculations -/

namespace PositionState

/-- What a position is compared on. -/
def figures (p : PositionState) : ℤ × Money × Option Money × Option Money :=
  (p.netQuantity, p.averagePrice, some p.grossRealised, some p.fees)

/-- The position as the broker reports it. -/
def reported (p : PositionState) : BrokerPosition := ⟨p.instrumentId, p.netQuantity, p.averagePrice⟩

end PositionState

def PositionRecord.figures (p : PositionRecord) : ℤ × Money × Option Money × Option Money :=
  (p.netQuantity, p.averagePrice, p.grossRealisedPnl, p.fees)

/-- The execution records the trade and its charges. -/
structure ExecutionRecord.Records (account : String) (t : BrokerTrade × Money) (e : ExecutionRecord) :
    Prop where
  owner : e.accountId = some account
  instrumentId : e.instrumentId = t.1.instrumentId
  side : e.side = t.1.side
  quantity : e.quantity = t.1.quantity
  price : e.price = t.1.price
  charges : e.charges = t.2

namespace PaperAccount

variable [DecimalContext] [Decimal.Lawful] {account : String} {t : BrokerTrade × Money}
  {e : ExecutionRecord} {state : PositionState} {held held' : PositionRecord}

omit [DecimalContext] [Decimal.Lawful] in
theorem signed_of_records (h : e.Records account t) : e.signed = t.1.signed := by
  cases hside : t.1.side <;>
    simp [ExecutionRecord.signed, BrokerTrade.signed, h.side, h.quantity, hside]

/-- **One trade, booked twice.** -/
theorem figures_book (hrec : e.Records account t) (hfig : state.figures = held.figures)
    (hafter : PositionCalculator.apply held e = .ok held') :
    (book state t.1 t.2).figures = held'.figures := by
  simp only [PositionState.figures, PositionRecord.figures, Prod.mk.injEq] at hfig
  obtain ⟨hnet, haverage, hgross, hfees⟩ := hfig
  have hsigned := signed_of_records hrec
  have hadding : Adding state t.1 ↔ PositionCalculator.Extends held e := by
    rw [Adding, PositionCalculator.Extends, hnet, hsigned]
  have hbefore : PositionCalculator.grossBefore held = state.grossRealised := by
    rw [PositionCalculator.grossBefore, ← hgross]
  rw [PositionCalculator.apply_eq_ok hafter]
  simp only [PositionState.figures, PositionRecord.figures, book, Prod.mk.injEq]
  refine ⟨by rw [hnet, hsigned], ?_, ?_, ?_⟩
  · -- the same average: the factors stand the other way round
    simp only [averageAfter, PositionCalculator.averageAfter, hadding, hnet, haverage, hsigned,
      hrec.price, hrec.quantity, Decimal.mul, mul_comm]
  · -- the same gross: the sign is multiplied in before or after rounding
    have hsign : (((if 0 < held.netQuantity then 1 else -1 : ℤ) : ℤ) : ℚ) = 1 ∨
        (((if 0 < held.netQuantity then 1 else -1 : ℤ) : ℤ) : ℚ) = -1 := by
      split
      · exact Or.inl (by norm_num)
      · exact Or.inr (by norm_num)
    have hprofit := Decimal.mul_sign (t.1.price.amount.sub held.averagePrice.amount)
      (min t.1.quantity held.netQuantity.natAbs : ℕ) hsign
    simp only [grossAfter, PositionCalculator.grossAfter, hadding, hbefore, hnet, haverage, hrec.price,
      hrec.quantity]
    split
    · rfl
    · rw [hprofit, min_comm, ← Int.cast_natCast (R := ℚ), ← Int.cast_mul, Nat.cast_min]
      rfl
  · rw [← hfees, hrec.charges]
    rfl

/-- The account and the replayed positions have the same figures of every
instrument. -/
structure Linked (account : String) (paper : PaperAccount) (positions : List PositionRecord) :
    Prop where
  figures : ∀ i, (paper.position i).map (·.figures) =
    (Table.lookup (·.instrumentId) i positions).map (·.figures)
  owned : ∀ p ∈ positions, p.accountId = account
  nodup : (positions.map (·.instrumentId)).Nodup
  nodup_paper : (paper.positions.map (·.instrumentId)).Nodup

variable {paper : PaperAccount} {positions positions' : List PositionRecord}

omit [DecimalContext] [Decimal.Lawful] in
/-- The position of an instrument before a fill, whichever side has it. -/
theorem Linked.before (h : Linked account paper positions) (i : String) (ts : Timestamp) :
    ((paper.position i).getD (.flat i)).figures =
      ((Table.lookup (·.instrumentId) i positions).getD (.flat account i ts)).figures := by
  have hfig := h.figures i
  cases hp : paper.position i with
  | none =>
      rw [hp, Option.map_none, eq_comm, Option.map_eq_none_iff] at hfig
      rw [hfig]
      rfl
  | some p =>
      rw [hp, Option.map_some, eq_comm, Option.map_eq_some_iff] at hfig
      obtain ⟨q, hq, heq⟩ := hfig
      rw [hq]
      exact heq.symm

omit [DecimalContext] [Decimal.Lawful] in
/-- The position a fill of the replay starts from is its own. -/
theorem Linked.own (h : Linked account paper positions) :
    let held := (Table.lookup (·.instrumentId) e.instrumentId positions).getD
      (.flat account e.instrumentId e.ts)
    held.instrumentId = e.instrumentId ∧ held.accountId = account := by
  cases hl : Table.lookup (·.instrumentId) e.instrumentId positions with
  | none => exact ⟨rfl, rfl⟩
  | some p => exact ⟨Table.key_of_lookup hl, h.owned p (Table.mem_of_lookup hl)⟩

omit [Decimal.Lawful] in
/-- **When a fill replays**: at a positive price and with charges that are
not negative. -/
theorem Linked.step_isOk (h : Linked account paper positions) (hrec : e.Records account t) :
    (∃ positions', PositionReplay.step account positions e = .ok positions') ↔
      Money.zero < t.1.price ∧ ¬ t.2 < Money.zero := by
  obtain ⟨hinst, hacc⟩ := h.own (e := e)
  have hok := @PositionCalculator.apply_isOk _ ((Table.lookup (·.instrumentId) e.instrumentId
    positions).getD (.flat account e.instrumentId e.ts)) e
  rw [hinst, hacc, hrec.owner, hrec.quantity, hrec.price, hrec.charges] at hok
  constructor
  · rintro ⟨positions', hstep⟩
    obtain ⟨after, happ, -⟩ := PositionReplay.step_eq_ok.mp hstep
    exact (hok.mp ⟨after, happ⟩).2.2.2
  · rintro ⟨hprice, hcharges⟩
    obtain ⟨after, happ⟩ := hok.mpr ⟨rfl, rfl, t.1.quantity_pos, hprice, hcharges⟩
    exact ⟨_, PositionReplay.step_eq_ok.mpr ⟨after, happ, rfl⟩⟩

/-- **A fill that replays is booked**, with the same figures after it. -/
theorem Linked.step (h : Linked account paper positions) (hrec : e.Records account t)
    (hstep : PositionReplay.step account positions e = .ok positions') :
    ∃ paper', paper.apply t.1 t.2 = .ok paper' ∧ Linked account paper' positions' := by
  have hcharges := ((h.step_isOk hrec).mp ⟨_, hstep⟩).2
  refine ⟨_, if_neg hcharges, ?_⟩
  obtain ⟨hinst, hacc⟩ := h.own (e := e)
  obtain ⟨after, happ, rfl⟩ := PositionReplay.step_eq_ok.mp hstep
  obtain ⟨-, -, hacc', hinst', -⟩ := PositionCalculator.apply_net happ
  have hfig : (paper.after t.1 t.2).figures = after.figures :=
    figures_book hrec (by rw [← hrec.instrumentId]; exact h.before _ _) happ
  have hkey : (paper.after t.1 t.2).instrumentId = after.instrumentId := by
    rw [hinst', hinst, hrec.instrumentId]
    rfl
  refine ⟨fun i => ?_, fun p hp => ?_, Table.nodup_upsert h.nodup, Table.nodup_upsert h.nodup_paper⟩
  · rw [position, Table.lookup_upsert, Table.lookup_upsert, hkey]
    split
    · rw [Option.map_some, Option.map_some, hfig]
    · exact h.figures i
  · rcases Table.mem_upsert.mp hp with rfl | ⟨hp, -⟩
    · rw [hacc', hacc]
    · exact h.owned p hp

/-- The same for any number of fills, from books that agree. -/
theorem Linked.steps (h : Linked account paper positions) {trades : List (BrokerTrade × Money)}
    {fills : List ExecutionRecord}
    (hrec : List.Forall₂ (fun t e => ExecutionRecord.Records account t e) trades fills) :
    ((∃ replayed, fills.foldlM (PositionReplay.step account) positions = .ok replayed) ↔
      ∀ t ∈ trades, Money.zero < t.1.price ∧ ¬ t.2 < Money.zero) ∧
    ∀ replayed, fills.foldlM (PositionReplay.step account) positions = .ok replayed →
      ∃ paper', paper.applyAll trades = .ok paper' ∧ Linked account paper' replayed := by
  induction hrec generalizing paper positions with
  | nil =>
      refine ⟨⟨fun _ _ ht => (by cases ht), fun _ => ⟨positions, rfl⟩⟩, fun replayed hr => ?_⟩
      obtain rfl := Except.ok.inj hr
      exact ⟨paper, rfl, h⟩
  | @cons t e trades fills hte hrest ih =>
      rw [List.forall_mem_cons, List.foldlM_cons, ← h.step_isOk hte]
      cases hstep : PositionReplay.step account positions e with
      | error _ =>
          refine ⟨⟨fun ⟨_, hr⟩ => (by cases hr), fun ⟨⟨_, hr⟩, _⟩ => (by cases hr)⟩, fun _ hr => ?_⟩
          cases hr
      | ok positions' =>
          obtain ⟨paper', hpaper, hlinked⟩ := h.step hte hstep
          obtain ⟨hiff, hruns⟩ := ih hlinked
          refine ⟨⟨fun hr => ⟨⟨_, rfl⟩, hiff.mp hr⟩, fun hr => hiff.mpr hr.2⟩, fun replayed hr => ?_⟩
          obtain ⟨paper'', hpaper', hlinked'⟩ := hruns replayed hr
          refine ⟨paper'', ?_, hlinked'⟩
          rw [applyAll, List.foldlM_cons, hpaper]
          exact hpaper'

omit [DecimalContext] [Decimal.Lawful] in
/-- The positions as the broker reports them, for the comparison. -/
theorem Linked.positions_eq_nil (h : Linked account paper positions) {s : ReconciliationSnapshot}
    (hours : s.positions = positions)
    (htheirs : s.brokerPositions = paper.positions.map (·.reported)) :
    ReconciliationComparator.positions s = [] := by
  refine ReconciliationComparator.positions_eq_nil (hours ▸ h.nodup) ?_ fun i => ?_
  · rw [htheirs, List.map_map]
    exact h.nodup_paper
  · have hreported : Table.lookup (·.instrumentId) i (paper.positions.map (·.reported)) =
        (paper.position i).map (·.reported) := List.find?_map
    have hfig := congrArg (Option.map fun f => (f.1, f.2.1)) (h.figures i)
    rw [Option.map_map, Option.map_map] at hfig
    rw [hours, htheirs, hreported, Option.map_map]
    exact hfig.symm

/-- **The account and the calculator agree.** Fills replay exactly if every
price is positive and no charge negative, and then the account books the
same trades to the same figures of every instrument, in which the
reconciler finds no difference. -/
theorem agrees_with_replay (startingCash : Money) (hcash : Money.zero ≤ startingCash)
    {trades : List (BrokerTrade × Money)} {fills : List ExecutionRecord}
    (hrec : List.Forall₂ (fun t e => ExecutionRecord.Records account t e) trades fills) :
    ((∃ replayed, PositionReplay.replay account fills = .ok replayed) ↔
      ∀ t ∈ trades, Money.zero < t.1.price ∧ ¬ t.2 < Money.zero) ∧
    ∀ replayed, PositionReplay.replay account fills = .ok replayed →
      ∃ paper, (new startingCash hcash).applyAll trades = .ok paper ∧
        (∀ i, (paper.position i).map (·.figures) =
          (Table.lookup (·.instrumentId) i replayed).map (·.figures)) ∧
        ∀ s : ReconciliationSnapshot, s.positions = replayed →
          s.brokerPositions = paper.positions.map (·.reported) →
          ReconciliationComparator.positions s = [] := by
  have hnew : Linked account (new startingCash hcash) [] :=
    ⟨fun _ => rfl, fun _ hp => (by cases hp), List.nodup_nil, List.nodup_nil⟩
  obtain ⟨hiff, hruns⟩ := hnew.steps hrec
  refine ⟨hiff, fun replayed hr => ?_⟩
  obtain ⟨paper, hpaper, hlinked⟩ := hruns replayed hr
  exact ⟨paper, hpaper, hlinked.figures, fun s => hlinked.positions_eq_nil⟩

omit [DecimalContext] [Decimal.Lawful] in
theorem sample_pos : 0 < 15 := by decide

/-- Ten are bought, fifteen are sold, and both are recorded. -/
def sampleTrades : List (BrokerTrade × Money) :=
  [(⟨"X", "B", "I", .buy, 10, ⟨100⟩, some 0, Sample.ten_pos⟩, ⟨3⟩),
   (⟨"Y", "C", "I", .sell, 15, ⟨104⟩, some 1, sample_pos⟩, ⟨4⟩)]

def sampleFills : List ExecutionRecord :=
  [⟨"E", "X", "O", "I", .buy, 10, ⟨100⟩, 0, some "A", some 0, some ⟨3⟩, some 1⟩,
   ⟨"F", "Y", "P", "I", .sell, 15, ⟨104⟩, 1, some "A", some 0, some ⟨4⟩, some 2⟩]

omit [DecimalContext] [Decimal.Lawful] in
theorem sampleCash : Money.zero ≤ ⟨1000⟩ := by simp [Money.le_iff, Money.zero]

omit [DecimalContext] [Decimal.Lawful] in
/-- Five are short at 104, and forty were made on the ten. -/
theorem agrees_with_replay_sample :
    ∃ replayed, @PositionReplay.replay Decimal.standard "A" sampleFills = .ok replayed ∧
      (Table.lookup (·.instrumentId) "I" replayed).map (·.figures) =
        some (-5, ⟨104⟩, some ⟨40⟩, some ⟨7⟩) := by
  have hrec : List.Forall₂ (fun t e => ExecutionRecord.Records "A" t e) sampleTrades sampleFills :=
    .cons ⟨rfl, rfl, rfl, rfl, rfl, rfl⟩ (.cons ⟨rfl, rfl, rfl, rfl, rfl, rfl⟩ .nil)
  obtain ⟨hiff, hruns⟩ := @agrees_with_replay Decimal.standard Decimal.lawful_standard "A" ⟨1000⟩
    sampleCash _ _ hrec
  obtain ⟨replayed, hreplayed⟩ := hiff.mpr (by decide)
  obtain ⟨paper, hpaper, hfig, -⟩ := hruns replayed hreplayed
  have hvalue : ((@applyAll Decimal.standard (new ⟨1000⟩ sampleCash) sampleTrades).toOption.bind
      (·.position "I")).map (·.figures) = some (-5, ⟨104⟩, some ⟨40⟩, some ⟨7⟩) := by
    decide +kernel
  rw [hpaper] at hvalue
  exact ⟨replayed, hreplayed, (hfig "I").symm.trans hvalue⟩

end PaperAccount

end Emporos
