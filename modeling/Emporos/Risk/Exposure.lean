import Emporos.Risk.Daily
import Emporos.Risk.Worse
import Mathlib.Logic.Relation
/-!
# The caps on exposure over whole runs

A rule judges a signal by the positions that have filled. `Desk` is a run
of reviews, placements and fills at one price: orders that were approved
wait, work, fill in parts and end, in any order. Where every review finds
nothing in flight, whatever fills afterwards stays within the caps the
rules enforce.
-/

namespace Emporos

open FillProcessor LedgerAccountFacts

/-- The rules on exposure, in the order they run. -/
def StandardRuleSet.exposureRules [DecimalContext] (limits : RiskLimits) : List RiskRule :=
  [duplicateOrderGuard limits.duplicateWindow, maxPositionValueGuard limits.maxPositionValue] ++
  (limits.maxRiskPerTrade.map maxRiskPerTradeGuard).toList ++
  [maxOpenPositionsGuard limits.maxOpenPositions, maxCapitalDeployedGuard limits.maxCapitalDeployed]

/-- What the standard rules approve, these do. -/
theorem StandardRuleSet.exposureRules_subset [DecimalContext] (limits : RiskLimits) (window : SessionWindow) :
    StandardRuleSet.exposureRules limits ⊆ StandardRuleSet.rules limits window := by
  intro rule h
  simp only [exposureRules, rules, List.mem_append, List.mem_cons, List.not_mem_nil, or_false]
    at h ⊢
  tauto

/-- An order at the broker, and what is left of it to fill. -/
structure Placed where
  signal : Signal
  placedAt : Timestamp
  remaining : ℕ

structure Desk where
  store : Store
  /-- Approved, and not placed yet. -/
  approved : List Signal
  working : List Placed

namespace Desk

def start : Desk := ⟨Store.empty, [], []⟩

/-- The snapshot shows the positions and the working orders as they are. -/
def Seen (d : Desk) (snapshot : RiskSnapshot) : Prop :=
  snapshot.account.positions = held d.store.positions ∧
    snapshot.flow.working = d.working.map fun o =>
      ⟨o.signal.instrumentId, o.signal.side, o.placedAt⟩

/-- Nothing is approved or at the broker that has not ended. -/
def Idle (d : Desk) : Prop := d.approved = [] ∧ d.working = []

variable [DecimalContext]

/-- One step at the price. A signal is reviewed where `may` holds; any
order may be placed, fill in part or end at any time. -/
inductive Step (account : String) (limits : RiskLimits) (price : Money) (may : Desk → Prop) :
    Desk → Desk → Prop
  | review {d : Desk} {signal : Signal} (snapshot : RiskSnapshot) (asked : may d)
      (priced : signal.limitPrice = price) (seen : d.Seen snapshot)
      (allowed : ∀ rule ∈ StandardRuleSet.exposureRules limits,
        RiskEngine.Allows rule signal snapshot) :
      Step account limits price may d { d with approved := d.approved ++ [signal] }
  | place {d : Desk} {l r : List Signal} {signal : Signal} (placedAt : Timestamp)
      (waiting : d.approved = l ++ signal :: r) :
      Step account limits price may d
        { d with approved := l ++ r, working := d.working ++ [⟨signal, placedAt, signal.quantity⟩] }
  | fill {d : Desk} {l r : List Placed} {o : Placed} {store : Store} (fill : ExecutionRecord)
      (works : d.working = l ++ o :: r) (instrument : fill.instrumentId = o.signal.instrumentId)
      (side : fill.side = o.signal.side) (priced : fill.price = price)
      (fits : fill.quantity ≤ o.remaining) (settled : settle account d.store fill = .ok store) :
      Step account limits price may d
        { d with store := store,
                 working := l ++ { o with remaining := o.remaining - fill.quantity } :: r }
  | dropped {d : Desk} {l r : List Signal} {signal : Signal}
      (waiting : d.approved = l ++ signal :: r) :
      Step account limits price may d { d with approved := l ++ r }
  | ended {d : Desk} {l r : List Placed} {o : Placed} (works : d.working = l ++ o :: r) :
      Step account limits price may d { d with working := l ++ r }

def Reach (account : String) (limits : RiskLimits) (price : Money) (may : Desk → Prop) :
    Desk → Desk → Prop :=
  Relation.ReflTransGen (Step account limits price may)

end Desk

variable [DecimalContext]

/-- The positions stay within the caps, at the price. -/
structure Store.Within (limits : RiskLimits) (price : Money) (s : Store) : Prop where
  value : ∀ p ∈ s.positions, price.amount * |(p.netQuantity : ℚ)| ≤ limits.maxPositionValue.amount
  count : (opens s.positions).length ≤ limits.maxOpenPositions
  deployed : AccountFacts.capitalDeployed { positions := held s.positions } ≤
    limits.maxCapitalDeployed

/-- The context rounds monotonically and has the digits for what the price
of any number of shares can come to within the caps. -/
structure Ticked (limits : RiskLimits) (price : Money) : Prop where
  positive : Money.zero < price
  monotone : Monotone DecimalContext.round
  kept : ∀ n : ℕ, price.amount * n ≤
      max limits.maxPositionValue.amount limits.maxCapitalDeployed.amount + price.amount →
    Decimal.Kept (price.amount * n)

namespace Ticked

variable {limits : RiskLimits} {price : Money} {cap : ℚ} {K n m : ℕ}

/-- The first number of shares worth more than the cap. -/
theorem exists_crossing (h : Ticked limits price) (hzero : 0 ≤ cap)
    (hover : cap < price.amount * m) :
    ∃ k ≤ m, cap < price.amount * k ∧ price.amount * k ≤ cap + price.amount := by
  have hp : 0 < price.amount := h.positive
  have hdiv : 0 ≤ cap / price.amount := div_nonneg hzero hp.le
  refine ⟨⌊cap / price.amount⌋₊ + 1, ?_, ?_, ?_⟩
  · have := (Nat.floor_lt hdiv).mpr ((div_lt_iff₀ hp).mpr (by linarith))
    omega
  · have := Nat.lt_floor_add_one (cap / price.amount)
    rw [div_lt_iff₀ hp] at this
    push_cast
    linarith
  · have := Nat.floor_le hdiv
    rw [le_div_iff₀ hp] at this
    push_cast
    linarith

/-- What a number of shares is worth was within a cap if its rounding is. -/
theorem le_of_round_le (h : Ticked limits price) (hzero : 0 ≤ cap)
    (hcap : cap ≤ max limits.maxPositionValue.amount limits.maxCapitalDeployed.amount)
    (hround : DecimalContext.round (price.amount * m) ≤ cap) : price.amount * m ≤ cap := by
  by_contra hover
  obtain ⟨k, hkm, habove, hbelow⟩ := h.exists_crossing hzero (not_le.mp hover)
  have hkept : DecimalContext.round (price.amount * k) = price.amount * k := h.kept k (by linarith)
  have hle : price.amount * k ≤ price.amount * m :=
    mul_le_mul_of_nonneg_left (by exact_mod_cast hkm) (le_of_lt h.positive)
  have := h.monotone hle
  rw [hkept] at this
  linarith

/-- The same of what `K` shares are worth and `n` more would be. -/
theorem le_of_round_add_le (h : Ticked limits price) (hzero : 0 ≤ cap)
    (hcap : cap ≤ max limits.maxPositionValue.amount limits.maxCapitalDeployed.amount)
    (hheld : price.amount * K ≤ cap)
    (hround : DecimalContext.round (price.amount * K + DecimalContext.round (price.amount * n)) ≤ cap) :
    price.amount * (K + n : ℕ) ≤ cap := by
  have hp : 0 < price.amount := h.positive
  by_contra hover
  obtain ⟨k, hkn, habove, hbelow⟩ := h.exists_crossing hzero (not_le.mp hover)
  have hKk : K < k := by
    have : price.amount * K < price.amount * k := lt_of_le_of_lt hheld habove
    exact_mod_cast lt_of_mul_lt_mul_left this hp.le
  have hcast : ((k - K : ℕ) : ℚ) = k - K := Nat.cast_sub hKk.le
  -- the shares from `K` to `k` are among the ones asked for, and their worth is kept
  have hmore : price.amount * (k - K : ℕ) ≤ DecimalContext.round (price.amount * n) := by
    have hle : price.amount * (k - K : ℕ) ≤ price.amount * n := by
      refine mul_le_mul_of_nonneg_left ?_ hp.le
      exact_mod_cast (by omega : k - K ≤ n)
    have hpos : 0 ≤ price.amount * K := by positivity
    have hfits : DecimalContext.round (price.amount * (k - K : ℕ)) = price.amount * (k - K : ℕ) := by
      refine h.kept _ ?_
      rw [hcast]
      linarith
    rw [← hfits]
    exact h.monotone hle
  have hsum : price.amount * k ≤ price.amount * K + DecimalContext.round (price.amount * n) := by
    rw [hcast] at hmore
    linarith
  have hkept : DecimalContext.round (price.amount * k) = price.amount * k := h.kept k (by linarith)
  have := h.monotone hsum
  rw [hkept] at this
  linarith

end Ticked

/-! ## The rows in numbers -/

/-- The shares held, long or short. -/
def Store.gross (s : Store) : ℕ := (s.positions.map (·.netQuantity.natAbs)).sum

/-- Every open position was taken at the price. -/
def Store.PricedAt (price : Money) (s : Store) : Prop :=
  ∀ p ∈ s.positions, p.netQuantity ≠ 0 → p.averagePrice = price

/-- The net quantity of an instrument. -/
def Store.net (account : String) (s : Store) (i : String) : ℤ := (s.lot account i).1

variable {account i : String} {s s' : Store} {fill : ExecutionRecord} {limits : RiskLimits}
  {price : Money} {p before after : PositionRecord}

namespace LedgerAccountFacts

omit [DecimalContext] in
/-- The rules see the open positions, one for each instrument. -/
theorem held_eq_opens (h : s.Ledgered account) : held s.positions = opens s.positions := by
  have hadd : ∀ (rows : List PositionRecord) (acc : List Position),
      ((acc.map (·.instrumentId)) ++ rows.map (·.instrumentId)).Nodup →
      rows.foldl (fun rows p => Table.upsert (·.instrumentId)
        ⟨p.instrumentId, p.netQuantity, p.averagePrice⟩ rows) acc =
          acc ++ rows.map fun p => ⟨p.instrumentId, p.netQuantity, p.averagePrice⟩ := by
    intro rows
    induction rows with
    | nil => simp
    | cons p rows ih =>
        intro acc hnd
        have hnew : Table.upsert (·.instrumentId)
            (⟨p.instrumentId, p.netQuantity, p.averagePrice⟩ : Position) acc =
              acc ++ [⟨p.instrumentId, p.netQuantity, p.averagePrice⟩] := by
          rw [Table.upsert, if_neg]
          rw [List.any_eq_true]
          rintro ⟨x, hx, hxp⟩
          rw [List.map_cons, List.nodup_append] at hnd
          exact hnd.2.2 x.instrumentId (List.mem_map_of_mem hx) p.instrumentId
            (List.mem_cons_self ..) (by simpa using hxp)
        rw [List.foldl_cons, hnew, ih _ (by simpa using hnd)]
        simp
  rw [held, hadd _ [] (by simpa using h.instruments.sublist (List.filter_sublist.map _)), opens]
  rfl

end LedgerAccountFacts

namespace PositionCalculator

omit [DecimalContext] in
theorem natAbs_signed (fill : ExecutionRecord) : fill.signed.natAbs = fill.quantity := by
  unfold ExecutionRecord.signed
  cases fill.side <;> simp

/-- A fill at the price of what is held keeps that price. -/
theorem averageAfter_eq (hheld : before.netQuantity ≠ 0 → before.averagePrice = price)
    (hfill : fill.price = price) (hq : 0 < fill.quantity)
    (hopen : before.netQuantity + fill.signed ≠ 0)
    (hkept : ∀ n : ℕ, n ≤ (before.netQuantity + fill.signed).natAbs →
      DecimalContext.round (price.amount * n) = price.amount * n) :
    averageAfter before fill = price := by
  have hsigned := natAbs_signed fill
  unfold averageAfter
  by_cases hext : Extends before fill
  · have hafter : (before.netQuantity + fill.signed).natAbs =
        before.netQuantity.natAbs + fill.quantity := by
      unfold Extends at hext
      omega
    -- the worth of what is held, of what is bought, and of both
    have hold : before.averagePrice.amount.mul before.netQuantity.natAbs =
        price.amount * before.netQuantity.natAbs := by
      by_cases hflat : before.netQuantity = 0
      · simp [hflat]
      · rw [hheld hflat]
        exact hkept _ (by omega)
    have hnew : price.amount.mul fill.quantity = price.amount * fill.quantity := hkept _ (by omega)
    have hboth : (price.amount * before.netQuantity.natAbs : ℚ).add (price.amount * fill.quantity) =
        price.amount * (before.netQuantity + fill.signed).natAbs := by
      rw [hafter, Decimal.add, ← mul_add, ← Nat.cast_add]
      exact hkept _ hafter.ge
    have hne : ((before.netQuantity + fill.signed).natAbs : ℚ) ≠ 0 := by
      exact_mod_cast Int.natAbs_ne_zero.mpr hopen
    have hone : DecimalContext.round price.amount = price.amount := by
      simpa using hkept 1 (by omega)
    simp only [if_pos hext]
    rw [hold, hfill, hnew, hboth, Decimal.div, mul_div_assoc, div_self hne, mul_one, hone]
  · have hnet : before.netQuantity ≠ 0 := fun h => hext (Or.inl h)
    simp only [if_neg hext, if_neg hopen]
    split
    · exact hheld hnet
    · exact hfill

end PositionCalculator

namespace Store

/-- A sum over what the rows hold changes by what the fill does to the
instrument it is of. -/
theorem sum_of_settle {g : ℤ → ℤ} (hg : g 0 = 0) (h : s.Ledgered account)
    (hs : settle account s fill = .ok s') :
    (s'.positions.map fun p => g p.netQuantity).sum = (s.positions.map fun p => g p.netQuantity).sum +
      (g (s.net account fill.instrumentId + fill.signed) - g (s.net account fill.instrumentId)) := by
  obtain ⟨after, hafter, hbooked, hinst, hrows⟩ := settle_eq_ok h hs
  have hlook : Table.lookup (·.id) after.stored.id s.positions =
      s.position account fill.instrumentId := by
    rw [h.lookup_id hbooked, ← hinst]
    rfl
  have hnet : (heldFor account s fill).netQuantity = s.net account fill.instrumentId :=
    congrArg Prod.fst (lot_heldFor account s fill)
  have hstored : after.stored.netQuantity = s.net account fill.instrumentId + fill.signed := by
    rw [← hnet]
    exact (PositionCalculator.apply_net hafter).1
  rw [hrows]
  refine Table.sum_upsert h.ids ?_
  rw [hlook, hstored, Store.net, Store.lot]
  cases s.position account fill.instrumentId with
  | none => simp [hg]
  | some p => simp [PositionRecord.lot]

omit [DecimalContext] in
/-- The open positions, counted over the rows. -/
theorem length_opens (s : Store) : ((opens s.positions).length : ℤ) =
    (s.positions.map fun p => if p.netQuantity = 0 then (0 : ℤ) else 1).sum := by
  rw [opens, List.length_map]
  induction s.positions with
  | nil => rfl
  | cons p rows ih =>
      rw [List.map_cons, List.sum_cons, ← ih]
      by_cases h : p.netQuantity = 0
      · simp [h]
      · simp [h, add_comm]

omit [DecimalContext] in
theorem gross_eq (s : Store) :
    (s.gross : ℤ) = (s.positions.map fun p => (p.netQuantity.natAbs : ℤ)).sum := by
  rw [gross]
  induction s.positions with
  | nil => rfl
  | cons p rows ih => simp [ih]

/-- A fill changes the shares held by those of its instrument. -/
theorem gross_of_settle (h : s.Ledgered account) (hs : settle account s fill = .ok s') :
    (s'.gross : ℤ) = s.gross +
      ((s.net account fill.instrumentId + fill.signed).natAbs -
        (s.net account fill.instrumentId).natAbs) := by
  rw [gross_eq, gross_eq]
  exact sum_of_settle (g := fun n => (n.natAbs : ℤ)) rfl h hs

theorem length_opens_of_settle (h : s.Ledgered account) (hs : settle account s fill = .ok s') :
    ((opens s'.positions).length : ℤ) = (opens s.positions).length +
      ((if s.net account fill.instrumentId + fill.signed = 0 then 0 else 1) -
        if s.net account fill.instrumentId = 0 then 0 else 1) := by
  rw [length_opens, length_opens]
  exact sum_of_settle (g := fun n => if n = 0 then 0 else 1) rfl h hs

theorem net_of_settle (h : s.Ledgered account) (hs : settle account s fill = .ok s') (i : String) :
    s'.net account i =
      if i = fill.instrumentId then s.net account i + fill.signed else s.net account i := by
  obtain ⟨after, hafter, -⟩ := settle_eq_ok h hs
  rw [net, lot_of_settle h hs hafter]
  split
  · rename_i hi
    have hnet : (heldFor account s fill).netQuantity = s.net account fill.instrumentId :=
      congrArg Prod.fst (lot_heldFor account s fill)
    rw [hi, ← hnet]
    exact (PositionCalculator.apply_net hafter).1
  · rfl

omit [DecimalContext] in
theorem net_of_mem (h : s.Ledgered account) (hp : p ∈ s.positions) :
    s.net account p.instrumentId = p.netQuantity := by rw [net, h.lot_of_mem hp]; rfl

omit [DecimalContext] in
/-- No instrument holds more shares than all of them. -/
theorem natAbs_net_le (s : Store) (account i : String) :
    (s.net account i).natAbs ≤ s.gross := by
  cases hp : s.position account i with
  | none => simp [net, lot, hp]
  | some p =>
      have hmem : p ∈ s.positions := List.mem_of_find?_eq_some hp
      have hnet : s.net account i = p.netQuantity := by rw [net, lot, hp]; rfl
      rw [hnet]
      exact List.single_le_sum (by simp) _ (List.mem_map_of_mem hmem)

/-- **Fills at the price leave positions taken at the price.** -/
theorem pricedAt_of_settle (hticked : Ticked limits price) (h : s.Ledgered account)
    (hpriced : s.PricedAt price) (hs : settle account s fill = .ok s') (hfill : fill.price = price)
    (hfits : price.amount * (s.net account fill.instrumentId + fill.signed).natAbs ≤
      max limits.maxPositionValue.amount limits.maxCapitalDeployed.amount) :
    s'.PricedAt price := by
  obtain ⟨after, hafter, -, -, hrows⟩ := settle_eq_ok h hs
  have hp : 0 < price.amount := hticked.positive
  have hnet : (heldFor account s fill).netQuantity = s.net account fill.instrumentId :=
    congrArg Prod.fst (lot_heldFor account s fill)
  have hheld : (heldFor account s fill).netQuantity ≠ 0 →
      (heldFor account s fill).averagePrice = price := by
    intro hopen
    unfold heldFor at hopen ⊢
    cases hpos : s.position account fill.instrumentId with
    | none => rw [hpos] at hopen; exact absurd rfl hopen
    | some q =>
        rw [hpos] at hopen
        exact hpriced q (List.mem_of_find?_eq_some hpos) hopen
  have hsmall : ∀ n : ℕ, n ≤ (s.net account fill.instrumentId + fill.signed).natAbs →
      DecimalContext.round (price.amount * n) = price.amount * n := by
    intro n hn
    refine hticked.kept n ?_
    have : price.amount * n ≤
        price.amount * (s.net account fill.instrumentId + fill.signed).natAbs :=
      mul_le_mul_of_nonneg_left (by exact_mod_cast hn) hp.le
    linarith
  intro q hq hopen
  rw [hrows, Table.mem_upsert] at hq
  rcases hq with rfl | ⟨hq, -⟩
  · have hq : 0 < fill.quantity := (PositionCalculator.apply_isOk.mp ⟨after, hafter⟩).2.2.1
    have hafternet : after.netQuantity = s.net account fill.instrumentId + fill.signed := by
      rw [← hnet]; exact (PositionCalculator.apply_net hafter).1
    have hne : s.net account fill.instrumentId + fill.signed ≠ 0 := hafternet ▸ hopen
    show after.averagePrice = price
    rw [PositionCalculator.apply_eq_ok hafter]
    exact PositionCalculator.averageAfter_eq hheld hfill hq (hnet ▸ hne) (hnet ▸ hsmall)
  · exact hpriced q hq hopen

/-- **What is deployed**, at the price of every position, is what the
shares held are worth. -/
theorem capitalDeployed_eq (hticked : Ticked limits price) (h : s.Ledgered account)
    (hpriced : s.PricedAt price)
    (hfits : price.amount * s.gross ≤ limits.maxCapitalDeployed.amount) :
    AccountFacts.capitalDeployed { positions := held s.positions } = ⟨price.amount * s.gross⟩ := by
  have hp : 0 < price.amount := hticked.positive
  have hkept : ∀ n : ℕ, n ≤ s.gross → DecimalContext.round (price.amount * n) = price.amount * n := by
    intro n hn
    refine hticked.kept n ?_
    have : price.amount * n ≤ price.amount * s.gross :=
      mul_le_mul_of_nonneg_left (by exact_mod_cast hn) hp.le
    have := le_max_right limits.maxPositionValue.amount limits.maxCapitalDeployed.amount
    linarith
  have hopens : ((opens s.positions).map (·.netQuantity.natAbs)).sum = s.gross := by
    rw [opens, gross, List.map_map]
    induction s.positions with
    | nil => rfl
    | cons p rows ih =>
        by_cases hflat : p.netQuantity = 0
        · simpa [hflat] using ih
        · simpa [hflat] using ih
  have hprice : ∀ x ∈ opens s.positions, x.averagePrice = price := by
    intro x hx
    obtain ⟨p, hp, rfl⟩ := List.mem_map.mp hx
    rw [List.mem_filter] at hp
    exact hpriced p hp.1 (by simpa using hp.2)
  -- every partial sum is of some of the shares held
  have hfold : ∀ (l : List Position) (k : ℕ), (∀ x ∈ l, x.averagePrice = price) →
      k + (l.map (·.netQuantity.natAbs)).sum ≤ s.gross →
      l.foldl (fun total p => total + p.averagePrice.times p.netQuantity.natAbs)
        ⟨price.amount * k⟩ = (⟨price.amount * (k + (l.map (·.netQuantity.natAbs)).sum : ℕ)⟩ : Money) := by
    intro l
    induction l with
    | nil => simp
    | cons x l ih =>
        intro k hl hk
        rw [List.map_cons, List.sum_cons] at hk
        have hx : x.averagePrice.times x.netQuantity.natAbs =
            ⟨price.amount * x.netQuantity.natAbs⟩ := by
          rw [hl x (List.mem_cons_self ..), Money.times, Decimal.mul, hkept _ (by omega)]
        have hadd : (⟨price.amount * k⟩ : Money) + x.averagePrice.times x.netQuantity.natAbs =
            ⟨price.amount * (k + x.netQuantity.natAbs : ℕ)⟩ := by
          rw [hx]
          refine Money.amount_injective ?_
          rw [Money.add_amount, Decimal.add, ← mul_add, ← Nat.cast_add, hkept _ (by omega)]
        rw [List.foldl_cons, hadd, ih _ (fun y hy => hl y (List.mem_cons_of_mem _ hy)) (by omega),
          List.map_cons, List.sum_cons, Nat.add_assoc]
  have hzero : Money.zero = ⟨price.amount * (0 : ℕ)⟩ := by simp [Money.zero]
  rw [AccountFacts.capitalDeployed, held_eq_opens h, hzero, hfold _ 0 hprice (by omega), hopens,
    Nat.zero_add]

end Store

/-! ## What an approval leaves room for -/

/-- With `m` shares in place of the `n` of an instrument, the rows stay
within the caps. -/
structure Store.Fits (limits : RiskLimits) (price : Money) (s : Store) (n m : ℤ) : Prop where
  value : price.amount * m.natAbs ≤ limits.maxPositionValue.amount
  count : ((opens s.positions).length : ℤ) + ((if m = 0 then 0 else 1) - if n = 0 then 0 else 1) ≤
    limits.maxOpenPositions
  deployed : price.amount * (s.gross + (m.natAbs - n.natAbs : ℤ) : ℤ) ≤
    limits.maxCapitalDeployed.amount

/-- The rows are within the caps, in numbers. -/
structure Store.Bounded (limits : RiskLimits) (price : Money) (s : Store) : Prop where
  value : ∀ p ∈ s.positions, price.amount * p.netQuantity.natAbs ≤ limits.maxPositionValue.amount
  count : (opens s.positions).length ≤ limits.maxOpenPositions
  deployed : price.amount * s.gross ≤ limits.maxCapitalDeployed.amount

/-- Any part of an order on the instrument may fill, up to `quantity`. -/
def Store.Room (account : String) (limits : RiskLimits) (price : Money) (s : Store)
    (signal : Signal) (quantity : ℕ) : Prop :=
  ∀ k ≤ quantity, s.Fits limits price (s.net account signal.instrumentId)
    (s.net account signal.instrumentId + signedQuantity signal.side k)

namespace Desk

variable {d d' : Desk} {snapshot : RiskSnapshot} {signal : Signal}

omit [DecimalContext] in
/-- The rules see what is held of an instrument. -/
theorem netQuantity_position (h : s.Ledgered account)
    (hseen : snapshot.account.positions = held s.positions) (i : String) :
    (snapshot.account.position i).netQuantity = s.net account i := by
  rw [AccountFacts.position, hseen, held_eq_opens h]
  cases hx : (opens s.positions).find? fun p => p.instrumentId = i with
  | none =>
      by_contra hne
      have hmem : (⟨i, s.net account i, (s.lot account i).2⟩ : Position) ∈ opens s.positions :=
        (mem_opens h).mpr ⟨fun h0 => hne h0.symm, rfl⟩
      simpa using List.find?_eq_none.mp hx _ hmem
  | some x =>
      obtain ⟨-, hlot⟩ := (mem_opens h).mp (List.mem_of_find?_eq_some hx)
      have hi : x.instrumentId = i := by simpa using List.find?_some hx
      rw [hi] at hlot
      rw [Store.net, hlot]
      rfl

omit [DecimalContext] in
theorem openPositionCount_eq (h : s.Ledgered account)
    (hseen : snapshot.account.positions = held s.positions) :
    snapshot.account.openPositionCount = (opens s.positions).length := by
  rw [AccountFacts.openPositionCount, hseen, held_eq_opens h, List.filter_eq_self.mpr]
  intro x hx
  have := ((mem_opens h).mp hx).1
  simpa [Position.isFlat] using this

omit [DecimalContext] in
/-- Part of an order leaves a quantity between the one now and the one after
the whole of it. -/
theorem natAbs_part_le {n : ℤ} {side : OrderSide} {k q : ℕ} (hk : k ≤ q) :
    (n + signedQuantity side k).natAbs ≤ max n.natAbs (n + signedQuantity side q).natAbs := by
  unfold signedQuantity
  rw [le_max_iff]
  cases side <;> dsimp only <;> omega

/-- **What an approval leaves room for.** Where the rows are within the
caps and the exposure rules allow a signal, any part of it may fill. -/
theorem room_of_allows (hticked : Ticked limits price) (h : s.Ledgered account)
    (hpriced : s.PricedAt price) (hbounded : s.Bounded limits price)
    (hseen : snapshot.account.positions = held s.positions) (hlimit : signal.limitPrice = price)
    (hallowed : ∀ rule ∈ StandardRuleSet.exposureRules limits,
      RiskEngine.Allows rule signal snapshot) :
    s.Room account limits price signal signal.quantity := by
  have hp : 0 < price.amount := hticked.positive
  obtain ⟨n, hn⟩ : ∃ n, n = s.net account signal.instrumentId := ⟨_, rfl⟩
  have hnet : (snapshot.account.position signal.instrumentId).netQuantity = n :=
    (netQuantity_position h hseen signal.instrumentId).trans hn.symm
  have hgross : n.natAbs ≤ s.gross := hn ▸ Store.natAbs_net_le s account signal.instrumentId
  obtain ⟨after, hafter⟩ : ∃ after, after = n + signedQuantity signal.side signal.quantity :=
    ⟨_, rfl⟩
  have hadded : addedExposure signal snapshot = after.natAbs - n.natAbs := by
    rw [addedExposure, netAfter, hnet, hafter]
  -- the three caps, as the rules check them
  have hvalue : after.natAbs ≤ n.natAbs ∨
      price.amount * after.natAbs ≤ limits.maxPositionValue.amount := by
    have hrule := hallowed (maxPositionValueGuard limits.maxPositionValue)
      (by simp [StandardRuleSet.exposureRules])
    rw [maxPositionValueGuard, RiskEngine.allows_blockIf] at hrule
    simp only [hadded, netAfter, hnet, ← hafter, hlimit, decide_eq_false_iff_not, not_and, not_lt]
      at hrule
    rcases Nat.le_total after.natAbs n.natAbs with hle | hlt
    · exact Or.inl hle
    · by_cases hsame : after.natAbs = n.natAbs
      · exact Or.inl hsame.le
      · exact Or.inr (hticked.le_of_round_le (le_of_lt limits.values_pos.1) (le_max_left ..)
          (hrule (by omega)))
  have hcount : n ≠ 0 ∨ (opens s.positions).length < limits.maxOpenPositions := by
    have hrule := hallowed (maxOpenPositionsGuard limits.maxOpenPositions)
      (by simp [StandardRuleSet.exposureRules])
    rw [maxOpenPositionsGuard, RiskEngine.allows_blockIf] at hrule
    simp only [Position.isFlat, hnet, openPositionCount_eq h hseen, decide_eq_false_iff_not,
      not_and, not_le, decide_eq_true_eq] at hrule
    by_cases hflat : n = 0
    · exact Or.inr (hrule hflat)
    · exact Or.inl hflat
  have hdeployed : price.amount * (s.gross + (after.natAbs - n.natAbs) : ℕ) ≤
      limits.maxCapitalDeployed.amount := by
    have hrule := hallowed (maxCapitalDeployedGuard limits.maxCapitalDeployed)
      (by simp [StandardRuleSet.exposureRules])
    have hcapital : snapshot.account.capitalDeployed = ⟨price.amount * s.gross⟩ := by
      rw [← Store.capitalDeployed_eq hticked h hpriced hbounded.deployed]
      unfold AccountFacts.capitalDeployed
      rw [hseen]
    rw [maxCapitalDeployedGuard, RiskEngine.allows_blockIf] at hrule
    simp only [hadded, hcapital, hlimit, decide_eq_false_iff_not, not_and, not_lt] at hrule
    by_cases hnone : after.natAbs - n.natAbs = 0
    · rw [hnone]
      simpa using hbounded.deployed
    · refine hticked.le_of_round_add_le (le_of_lt limits.values_pos.2) (le_max_right ..)
        hbounded.deployed (hrule ?_)
      -- one share is worth the price, and rounding is monotone
      have hone : DecimalContext.round (price.amount * (1 : ℕ)) = price.amount * (1 : ℕ) := by
        refine hticked.kept 1 ?_
        have hcap : (0 : ℚ) ≤ limits.maxPositionValue.amount := le_of_lt limits.values_pos.1
        have := le_max_left limits.maxPositionValue.amount limits.maxCapitalDeployed.amount
        push_cast
        linarith
      have hle : price.amount * (1 : ℕ) ≤ price.amount * (after.natAbs - n.natAbs : ℕ) :=
        mul_le_mul_of_nonneg_left (by exact_mod_cast Nat.one_le_iff_ne_zero.mpr hnone) hp.le
      have := hticked.monotone hle
      rw [hone] at this
      rw [Money.lt_iff, Money.times_amount, Money.zero_amount]
      refine lt_of_lt_of_le ?_ this
      simpa using hp
  intro k hk
  rw [← hn]
  obtain ⟨m, hm⟩ : ∃ m, m = n + signedQuantity signal.side k := ⟨_, rfl⟩
  rw [← hm]
  have hbetween : m.natAbs ≤ n.natAbs ∨ m.natAbs ≤ after.natAbs := by
    rw [hm, hafter]
    exact le_max_iff.mp (natAbs_part_le hk)
  have hworth : ∀ a b : ℕ, a ≤ b → price.amount * a ≤ price.amount * b := fun a b hab =>
    mul_le_mul_of_nonneg_left (by exact_mod_cast hab) hp.le
  have hheld : price.amount * n.natAbs ≤ limits.maxPositionValue.amount := by
    cases hpos : s.position account signal.instrumentId with
    | none =>
        have hzero : n = 0 := by rw [hn, Store.net, Store.lot, hpos]; rfl
        have hcap : (0 : ℚ) ≤ limits.maxPositionValue.amount := le_of_lt limits.values_pos.1
        simpa [hzero] using hcap
    | some q =>
        have hq : n = q.netQuantity := by rw [hn, Store.net, Store.lot, hpos]; rfl
        rw [hq]
        exact hbounded.value q (List.mem_of_find?_eq_some hpos)
  refine ⟨?_, ?_, ?_⟩
  · rcases hvalue with hle | hcap
    · exact (hworth _ _ (hbetween.elim id fun hma => hma.trans hle)).trans hheld
    · rcases hbetween with hmn | hma
      · exact (hworth _ _ hmn).trans hheld
      · exact (hworth _ _ hma).trans hcap
  · have hlen := hbounded.count
    split_ifs <;> omega
  · have hcast : (s.gross + (m.natAbs - n.natAbs : ℤ) : ℤ) =
        ((s.gross + m.natAbs - n.natAbs : ℕ) : ℤ) := by omega
    rw [hcast, Int.cast_natCast]
    exact (hworth _ _ (by omega)).trans hdeployed

/-! ## One order at a time -/

/-- Nothing is in flight, or one order, any part of which may fill. -/
structure Sound (account : String) (limits : RiskLimits) (price : Money) (d : Desk) : Prop where
  ledgered : d.store.Ledgered account
  priced : d.store.PricedAt price
  bounded : d.store.Bounded limits price
  flight : d.Idle ∨
    (∃ signal, d.approved = [signal] ∧ d.working = [] ∧
      d.store.Room account limits price signal signal.quantity) ∨
    ∃ o, d.approved = [] ∧ d.working = [o] ∧
      d.store.Room account limits price o.signal o.remaining

omit [DecimalContext] in
theorem signed_eq (fill : ExecutionRecord) :
    fill.signed = signedQuantity fill.side fill.quantity := by
  unfold ExecutionRecord.signed signedQuantity
  rfl

/-- **A fill there is room for** leaves the rows within the caps. -/
theorem bounded_of_fits (h : s.Ledgered account) (hbounded : s.Bounded limits price)
    (hs : settle account s fill = .ok s')
    (hfits : s.Fits limits price (s.net account fill.instrumentId)
      (s.net account fill.instrumentId + fill.signed)) : s'.Bounded limits price := by
  obtain ⟨after, hafter, -, hinst, hrows⟩ := settle_eq_ok h hs
  have hnet : after.netQuantity = s.net account fill.instrumentId + fill.signed := by
    have hheld : (heldFor account s fill).netQuantity = s.net account fill.instrumentId :=
      congrArg Prod.fst (lot_heldFor account s fill)
    rw [← hheld]
    exact (PositionCalculator.apply_net hafter).1
  refine ⟨fun q hq => ?_, ?_, ?_⟩
  · rw [hrows, Table.mem_upsert] at hq
    rcases hq with rfl | ⟨hq, -⟩
    · show price.amount * after.netQuantity.natAbs ≤ _
      rw [hnet]
      exact hfits.value
    · exact hbounded.value q hq
  · have hcount := hfits.count
    have := Store.length_opens_of_settle h hs
    omega
  · have hdeployed := hfits.deployed
    rw [← Store.gross_of_settle h hs, Int.cast_natCast] at hdeployed
    exact hdeployed

/-- What is left of the order there is room for after a part of it
filled. -/
theorem room_of_settle {o : Placed} (h : s.Ledgered account)
    (hroom : s.Room account limits price o.signal o.remaining)
    (hs : settle account s fill = .ok s') (hinst : fill.instrumentId = o.signal.instrumentId)
    (hside : fill.side = o.signal.side) (hfits : fill.quantity ≤ o.remaining) :
    s'.Room account limits price o.signal (o.remaining - fill.quantity) := by
  intro k hk
  have hnext : s'.net account o.signal.instrumentId =
      s.net account o.signal.instrumentId + fill.signed := by
    rw [Store.net_of_settle h hs, if_pos hinst.symm]
  have hboth : s.net account o.signal.instrumentId + fill.signed + signedQuantity o.signal.side k =
      s.net account o.signal.instrumentId +
        signedQuantity o.signal.side (fill.quantity + k) := by
    rw [signed_eq, hside]
    unfold signedQuantity
    cases o.signal.side <;> dsimp only <;> omega
  have hold := hroom (fill.quantity + k) (by omega)
  rw [hnext, hboth]
  refine ⟨hold.value, ?_, ?_⟩
  · have hcount := hold.count
    have hlen := Store.length_opens_of_settle h hs
    rw [hinst] at hlen
    omega
  · have hgross := Store.gross_of_settle h hs
    rw [hinst] at hgross
    have hdeployed := hold.deployed
    refine le_of_eq_of_le ?_ hdeployed
    rw [hgross]
    congr 2
    omega

omit [DecimalContext] in
/-- An order that works is the one in flight. -/
theorem eq_singleton {α : Type} {l r : List α} {x y : α} (h : [x] = l ++ y :: r) :
    x = y ∧ l = [] ∧ r = [] := by
  cases l with
  | nil => simpa using h
  | cons a l => simp at h

/-- **One step.** Where a review finds nothing in flight, the desk stays
sound. -/
theorem Sound.step (hticked : Ticked limits price) (hd : d.Sound account limits price)
    (hstep : Step account limits price Idle d d') : d'.Sound account limits price := by
  cases hstep with
  | review snapshot asked hlimit seen allowed =>
      rename_i signal
      have hroom := room_of_allows hticked hd.ledgered hd.priced hd.bounded seen.1 hlimit allowed
      refine ⟨hd.ledgered, hd.priced, hd.bounded, Or.inr (Or.inl ⟨signal, ?_, asked.2, hroom⟩)⟩
      simp [asked.1]
  | place placedAt waiting =>
      rename_i l r signal
      rcases hd.flight with ⟨hnone, -⟩ | ⟨one, hone, hworking, hroom⟩ | ⟨o, hnone, -⟩
      · rw [hnone] at waiting; simp at waiting
      · rw [hone] at waiting
        obtain ⟨rfl, rfl, rfl⟩ := eq_singleton waiting
        refine ⟨hd.ledgered, hd.priced, hd.bounded, Or.inr (Or.inr
          ⟨⟨one, placedAt, one.quantity⟩, rfl, ?_, hroom⟩)⟩
        simp [hworking]
      · rw [hnone] at waiting; simp at waiting
  | fill fill works hinst hside hprice hfits hsettled =>
      rename_i l r o store
      rcases hd.flight with ⟨-, hnone⟩ | ⟨-, -, hnone, -⟩ | ⟨one, happroved, hone, hroom⟩
      · rw [hnone] at works; simp at works
      · rw [hnone] at works; simp at works
      · rw [hone] at works
        obtain ⟨rfl, rfl, rfl⟩ := eq_singleton works
        have hroomed := hroom fill.quantity hfits
        rw [← hinst, ← hside, ← signed_eq] at hroomed
        refine ⟨ledgered_of_settle hd.ledgered hsettled, ?_,
          bounded_of_fits hd.ledgered hd.bounded hsettled hroomed,
          Or.inr (Or.inr ⟨_, happroved, rfl, ?_⟩)⟩
        · exact Store.pricedAt_of_settle hticked hd.ledgered hd.priced hsettled hprice
            (hroomed.value.trans (le_max_left ..))
        · exact room_of_settle hd.ledgered hroom hsettled hinst hside hfits
  | dropped waiting =>
      rename_i l r signal
      rcases hd.flight with ⟨hnone, -⟩ | ⟨one, hone, hworking, -⟩ | ⟨o, hnone, -⟩
      · rw [hnone] at waiting; simp at waiting
      · rw [hone] at waiting
        obtain ⟨-, rfl, rfl⟩ := eq_singleton waiting
        exact ⟨hd.ledgered, hd.priced, hd.bounded, Or.inl ⟨rfl, hworking⟩⟩
      · rw [hnone] at waiting; simp at waiting
  | ended works =>
      rename_i l r o
      rcases hd.flight with ⟨-, hnone⟩ | ⟨-, -, hnone, -⟩ | ⟨one, happroved, hone, -⟩
      · rw [hnone] at works; simp at works
      · rw [hnone] at works; simp at works
      · rw [hone] at works
        obtain ⟨-, rfl, rfl⟩ := eq_singleton works
        exact ⟨hd.ledgered, hd.priced, hd.bounded, Or.inl ⟨happroved, rfl⟩⟩

omit [DecimalContext] in
theorem sound_start : Sound account limits price start where
  ledgered := Store.Ledgered.empty
  priced := by simp [start, Store.PricedAt, Store.empty]
  bounded :=
    ⟨by simp [start, Store.empty], by simp [start, Store.empty, opens],
      by
        have hcap : (0 : ℚ) ≤ limits.maxCapitalDeployed.amount := le_of_lt limits.values_pos.2
        simpa [start, Store.empty, Store.gross] using hcap⟩
  flight := Or.inl ⟨rfl, rfl⟩

theorem sound_of_reach (hticked : Ticked limits price)
    (h : Reach account limits price Idle start d) : d.Sound account limits price := by
  induction h with
  | refl => exact sound_start
  | tail _ hstep ih => exact ih.step hticked hstep

omit [DecimalContext] in
theorem ticked_sample : @Ticked Decimal.standard Sources.sampleLimits ⟨100⟩ := by
  let _ := Decimal.standard
  refine ⟨by decide, Decimal.roundSignificant_monotone, fun n hn => ?_⟩
  · have hsmall : (100 : ℚ) * n ≤ max 100000 100000 + 100 := hn
    rw [max_self] at hsmall
    have hint : (100 : ℚ) * n = ((100 * n : ℕ) : ℤ) := by push_cast; ring
    have hbound : |((100 * n : ℕ) : ℤ)| < 10 ^ Decimal.precision := by
      have : (100 * n : ℕ) ≤ 100100 := by
        have : ((100 * n : ℕ) : ℚ) ≤ 100100 := by push_cast; linarith
        exact_mod_cast this
      rw [abs_of_nonneg (by positivity), Decimal.precision]
      omega
    show Decimal.roundSignificant (100 * n) = 100 * n
    rw [hint]
    exact Decimal.roundSignificant_intCast hbound

/-- Six hundred shares at 100. -/
def sampleSignal : Signal := .sample .buy 600 (by decide)

/-- So many of them fill. -/
def samplePart (quantity : ℕ) : ExecutionRecord := { sampleFill .buy 100 with quantity := quantity }

/-- The desk with orders of the sample that wait, and with orders that
work. -/
def sampleDesk (fills : List ℕ) (approved : List Signal) (working : List Placed) : Desk :=
  ⟨@sampleBook Decimal.standard Store.empty (fills.map samplePart), approved, working⟩

/-- The desk as a snapshot at `now`. -/
def sampleSnapshot (d : Desk) (now : Timestamp) : RiskSnapshot where
  now := now
  account := { positions := held d.store.positions }
  flow := { working := d.working.map fun o => ⟨o.signal.instrumentId, o.signal.side, o.placedAt⟩ }

end Desk

end Emporos
