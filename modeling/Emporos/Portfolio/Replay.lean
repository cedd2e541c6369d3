import Emporos.Common.Table
import Emporos.Portfolio.Ledger
import Mathlib.Data.List.Sort
/-!
# Replaying the fill history

The stored position is a running total kept fill by fill; replaying every
execution from nothing must give the same. `ledger` is the order an
account's executions are read back in.
-/

namespace Emporos

namespace ExecutionRecord

/-- The place in the session as a sort key: a missing one sorts first. -/
def place (e : ExecutionRecord) : ℕ := (e.sessionTradeNo.map (· + 1)).getD 0

/-- `ts`, then the place in the session, then the id. -/
def before (a b : ExecutionRecord) : Prop :=
  a.ts < b.ts ∨ (a.ts = b.ts ∧ (a.place < b.place ∨ (a.place = b.place ∧ a.id ≤ b.id)))

instance : DecidableRel before := fun _ _ => inferInstanceAs (Decidable (_ ∨ _))

end ExecutionRecord

/-- `for_account`: every fill of an account, in the ledger's order. -/
def ledger (account : String) (executions : List ExecutionRecord) : List ExecutionRecord :=
  (executions.filter fun e => e.accountId = some account).insertionSort ExecutionRecord.before

/-- A position with nothing in it. -/
def PositionRecord.flat (account instrumentId : String) (updatedAt : Timestamp) :
    PositionRecord where
  id := account ++ ":" ++ instrumentId
  accountId := account
  instrumentId := instrumentId
  netQuantity := 0
  averagePrice := Money.zero
  realisedPnl := Money.zero
  updatedAt := updatedAt
  grossRealisedPnl := some Money.zero
  fees := some Money.zero

/-- How a stored position contradicts its own history. -/
inductive Difference
  | existence
  | facts (ours theirs : ℤ × Money × Money × Money)
  deriving DecidableEq

namespace PositionReplay

variable [DecimalContext]

/-- One fill of the replay. -/
def step (account : String) (positions : List PositionRecord) (fill : ExecutionRecord) :
    Except PyError (List PositionRecord) := do
  let held := (Table.lookup (·.instrumentId) fill.instrumentId positions).getD
    (.flat account fill.instrumentId fill.ts)
  let after ← PositionCalculator.apply held fill
  pure (Table.upsert (·.instrumentId) after positions)

/-- A fill that replays is accepted by the position it is of, which takes
its place. -/
theorem step_eq_ok {account : String} {positions positions' : List PositionRecord}
    {fill : ExecutionRecord} : step account positions fill = .ok positions' ↔
      ∃ after, PositionCalculator.apply
          ((Table.lookup (·.instrumentId) fill.instrumentId positions).getD
            (.flat account fill.instrumentId fill.ts)) fill = .ok after ∧
        Table.upsert (·.instrumentId) after positions = positions' := by
  unfold step
  constructor
  · intro h
    cases hap : PositionCalculator.apply ((Table.lookup (·.instrumentId) fill.instrumentId
        positions).getD (.flat account fill.instrumentId fill.ts)) fill with
    | error _ =>
        simp only [hap] at h
        cases h
    | ok after =>
        simp only [hap] at h
        exact ⟨after, rfl, Except.ok.inj h⟩
  · rintro ⟨after, hap, rfl⟩
    simp only [hap]
    rfl

/-- Rebuild the positions of an account from its executions. -/
def replay (account : String) (executions : List ExecutionRecord) :
    Except PyError (List PositionRecord) :=
  executions.foldlM (step account) []

omit [DecimalContext] in
/-- What each order's executions add up to. -/
def filledByOrder (executions : List ExecutionRecord) (orderId : String) : ℕ :=
  ((executions.filter fun e => e.orderId = orderId).map (·.quantity)).sum

end PositionReplay

namespace PositionRecord

/-- What a stored position and a replayed one are compared on. -/
def facts (p : PositionRecord) : ℤ × Money × Money × Money :=
  (p.netQuantity, p.averagePrice, p.realisedPnl, p.fees.getD Money.zero)

end PositionRecord

namespace PositionReplay

/-- Where the stored positions and the replayed ones differ, by
instrument. -/
def differences (stored replayed : List PositionRecord) : List (String × Difference) :=
  let held := Table.dict (·.instrumentId) stored
  let instruments := (held.map (·.instrumentId) ∪ replayed.map (·.instrumentId)).insertionSort (· ≤ ·)
  instruments.filterMap fun i =>
    match Table.lookup (·.instrumentId) i held, Table.lookup (·.instrumentId) i replayed with
    | some ours, some theirs =>
        if ours.facts = theirs.facts then none else some (i, .facts ours.facts theirs.facts)
    | _, _ => some (i, .existence)

end PositionReplay

namespace ReconciliationComparator

variable [DecimalContext]

/-- The part of a reconciliation that checks positions against the fill
history: the `POSITION_HISTORY_MISMATCH` rows it raises. -/
def positionHistory (positions : List PositionRecord) (history : List ExecutionRecord) :
    Except PyError (List (String × Difference)) := do
  let account := (positions.head?.map (·.accountId)).getD ""
  let replayed ← PositionReplay.replay account history
  pure (PositionReplay.differences positions replayed)

end ReconciliationComparator

end Emporos
