import Emporos.Persistence.Records
import Mathlib.Data.List.Sort
/-!
# Average-cost position accounting

`PositionCalculator.apply` folds one fill into a position: additions,
reductions, flat closes and reversals. `PortfolioValuator.value` marks a
book to market, and gives no unrealised figure when a mark is missing.
-/

namespace Emporos

variable [DecimalContext]

namespace ExecutionRecord

/-- The fill's quantity, negative for a sale. -/
def signed (fill : ExecutionRecord) : ℤ :=
  match fill.side with
  | .buy => fill.quantity
  | .sell => -fill.quantity

/-- The charges of the fill, none counting as zero. -/
def charges (fill : ExecutionRecord) : Money := fill.fees.getD Money.zero

end ExecutionRecord

namespace PositionCalculator

/-- The realised profit before charges, rebuilt for a row without it. -/
def grossBefore (before : PositionRecord) : Money :=
  match before.grossRealisedPnl with
  | some gross => gross
  | none => before.realisedPnl + before.fees.getD Money.zero

/-- The fill opens the position or adds to it. -/
def Extends (before : PositionRecord) (fill : ExecutionRecord) : Prop :=
  before.netQuantity = 0 ∨ (0 < before.netQuantity ↔ 0 < fill.signed)

instance (before : PositionRecord) (fill : ExecutionRecord) : Decidable (Extends before fill) :=
  inferInstanceAs (Decidable (_ ∨ _))

def averageAfter (before : PositionRecord) (fill : ExecutionRecord) : Money :=
  let net := before.netQuantity
  let after := net + fill.signed
  if Extends before fill then
    ⟨((before.averagePrice.amount.mul net.natAbs).add (fill.price.amount.mul fill.quantity)).div
      after.natAbs⟩
  else if after = 0 then Money.zero
  else if 0 < after ↔ 0 < net then before.averagePrice
  else fill.price

def grossAfter (before : PositionRecord) (fill : ExecutionRecord) : Money :=
  let net := before.netQuantity
  if Extends before fill then grossBefore before
  else
    let closed : ℤ := min net.natAbs fill.quantity * (if 0 < net then 1 else -1)
    grossBefore before + (fill.price - before.averagePrice).times closed

/-- Apply one fill to a position. -/
def apply (before : PositionRecord) (fill : ExecutionRecord) : Except PyError PositionRecord :=
  if fill.instrumentId ≠ before.instrumentId ∨ fill.accountId ≠ some before.accountId then
    .error (.valueError "fill does not belong to the position")
  else if fill.quantity = 0 ∨ fill.price ≤ Money.zero then
    .error (.valueError "fill quantity and price must be positive")
  else if fill.charges < Money.zero then .error (.valueError "fees cannot be negative")
  else
    let totalFees := before.fees.getD Money.zero + fill.charges
    .ok { before with
      netQuantity := before.netQuantity + fill.signed
      averagePrice := averageAfter before fill
      grossRealisedPnl := some (grossAfter before fill)
      fees := some totalFees
      realisedPnl := grossAfter before fill - totalFees
      updatedAt := fill.ts }

variable {before after : PositionRecord} {fill : ExecutionRecord}

/-- **When a fill is accepted.** It is of the position, of a positive
quantity at a positive price, and its charges are not negative. -/
theorem apply_isOk : (∃ after, apply before fill = .ok after) ↔
    fill.instrumentId = before.instrumentId ∧ fill.accountId = some before.accountId ∧
      0 < fill.quantity ∧ Money.zero < fill.price ∧ ¬ fill.charges < Money.zero := by
  unfold apply
  constructor
  · rintro ⟨after, h⟩
    split_ifs at h with h₁ h₂ h₃
    rw [not_or] at h₁ h₂
    exact ⟨not_not.mp h₁.1, not_not.mp h₁.2, Nat.pos_of_ne_zero h₂.1, not_le.mp h₂.2, h₃⟩
  · rintro ⟨hi, ha, hq, hp, hf⟩
    rw [if_neg (by simp [hi, ha]), if_neg (not_or.mpr ⟨hq.ne', not_le.mpr hp⟩), if_neg hf]
    exact ⟨_, rfl⟩

/-- The whole of an accepted fill's effect. -/
theorem apply_eq_ok (h : apply before fill = .ok after) :
    after = { before with
      netQuantity := before.netQuantity + fill.signed
      averagePrice := averageAfter before fill
      grossRealisedPnl := some (grossAfter before fill)
      fees := some (before.fees.getD Money.zero + fill.charges)
      realisedPnl := grossAfter before fill - (before.fees.getD Money.zero + fill.charges)
      updatedAt := fill.ts } := by
  unfold apply at h
  split_ifs at h
  exact (Except.ok.inj h).symm

/-- A fill changes the net quantity by its own, and leaves whose position
it is. -/
theorem apply_net (h : apply before fill = .ok after) :
    after.netQuantity = before.netQuantity + fill.signed ∧ after.id = before.id ∧
      after.accountId = before.accountId ∧ after.instrumentId = before.instrumentId ∧
      after.updatedAt = fill.ts := by
  rw [apply_eq_ok h]
  exact ⟨rfl, rfl, rfl, rfl, rfl⟩

/-- When the position was last touched has no influence on a fill. -/
theorem apply_updatedAt (before : PositionRecord) (fill : ExecutionRecord) (t : Timestamp) :
    apply { before with updatedAt := t } fill = apply before fill := rfl

end PositionCalculator

structure PortfolioValuation where
  realised : Money
  unrealised : Option Money
  fees : Money
  missingMarks : List String

namespace PortfolioValuator

/-- What one pass over the book has added up so far. -/
structure Totals where
  realised : Money
  unrealised : Money
  fees : Money
  missing : List String

def Totals.zero : Totals := ⟨Money.zero, Money.zero, Money.zero, []⟩

/-- The profit not yet taken on a position, at a mark. -/
def unrealisedOf (p : PositionRecord) (mark : Money) : Money :=
  (mark - p.averagePrice).times p.netQuantity

def Totals.add (marks : String → Option Money) (t : Totals) (p : PositionRecord) : Totals :=
  let t := { t with realised := t.realised + p.realisedPnl,
                    fees := t.fees + p.fees.getD Money.zero }
  if p.netQuantity = 0 then t
  else
    match marks p.instrumentId with
    | none => { t with missing := t.missing ++ [p.instrumentId] }
    | some mark => { t with unrealised := t.unrealised + unrealisedOf p mark }

/-- Never substitute the cost price for a missing mark. -/
def value (positions : List PositionRecord) (marks : String → Option Money) :
    PortfolioValuation :=
  let t := positions.foldl (Totals.add marks) Totals.zero
  ⟨t.realised, if t.missing = [] then some t.unrealised else none, t.fees,
    t.missing.insertionSort (· ≤ ·)⟩

end PortfolioValuator

end Emporos
