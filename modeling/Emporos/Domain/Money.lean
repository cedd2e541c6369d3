import Emporos.Common.Decimal
/-!
# Money

An exact rupee amount over decimals. Arithmetic goes through the decimal
context; comparison does not.
-/

namespace Emporos

structure Money where
  amount : Decimal
  deriving DecidableEq

namespace Money

def zero : Money := ⟨0⟩

theorem amount_injective : Function.Injective amount := fun a b h => by
  cases a
  cases b
  exact congrArg _ h

instance : LinearOrder Money := LinearOrder.lift' amount amount_injective

theorem lt_iff {a b : Money} : a < b ↔ a.amount < b.amount := Iff.rfl

theorem le_iff {a b : Money} : a ≤ b ↔ a.amount ≤ b.amount := Iff.rfl

@[simp] theorem zero_amount : zero.amount = 0 := rfl

variable [DecimalContext]

instance : Add Money := ⟨fun a b => ⟨a.amount.add b.amount⟩⟩

instance : Sub Money := ⟨fun a b => ⟨a.amount.sub b.amount⟩⟩

instance : Neg Money := ⟨fun a => ⟨a.amount.neg⟩⟩

/-- The amount scaled by an exact factor, such as a quantity. -/
def times (a : Money) (factor : Decimal) : Money := ⟨a.amount.mul factor⟩

@[simp] theorem add_amount (a b : Money) : (a + b).amount = a.amount.add b.amount := rfl

@[simp] theorem sub_amount (a b : Money) : (a - b).amount = a.amount.sub b.amount := rfl

@[simp] theorem neg_amount (a : Money) : (-a).amount = a.amount.neg := rfl

@[simp] theorem times_amount (a : Money) (q : Decimal) : (a.times q).amount = a.amount.mul q := rfl

/-- A running total, by its amounts. -/
theorem foldl_amount {α : Type} (f : α → Money) (l : List α) (total : Money) :
    (l.foldl (fun total x => total + f x) total).amount =
      (l.map fun x => (f x).amount).foldl Decimal.add total.amount := by
  induction l generalizing total with
  | nil => rfl
  | cons x l ih =>
      rw [List.foldl_cons, ih, List.map_cons, List.foldl_cons]
      rfl

end Money

end Emporos
