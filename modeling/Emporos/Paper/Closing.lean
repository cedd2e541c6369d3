import Emporos.Paper.Agreement
/-!
# Closing orders and the free cash

The margin of an order is that of the part that would open a position, so
an order that only closes needs none. The screen holds it against the free
cash all the same, and charges, losses and other orders can take that below
nothing: then the position cannot be left.
-/

namespace Emporos

namespace PaperBroker

section Screen

variable [DecimalContext] {settings : PaperSettings} {s : PaperBroker} {request : PlaceOrderRequest}
  {instrument : Instrument}

omit [DecimalContext] in
variable (s request) in
/-- The net position an order of this side works against. -/
def opposing : ℤ :=
  let net : ℤ := ((s.account.position request.instrumentId).map (·.netQuantity)).getD 0
  match request.side with
  | .buy => -net
  | .sell => net

omit [DecimalContext] in
variable (s request) in
/-- The order closes, and opens nothing. -/
def Closes : Prop := (request.quantity : ℤ) ≤ s.opposing request

/-- The rejection of an order the cash is not enough for. -/
def insufficientFunds (context : OrderContext) : Rejection where
  reason := s!"insufficient funds: need {context.marginRequired.amount}, " ++
    s!"available {context.availableCash.amount}"
  stage := .atExchange

variable (settings s request instrument) in
/-- The default screen refuses the order for its margin. -/
def RefusedForFunds : Prop :=
  firstRejection defaultRules (s.context settings request instrument) =
    .ok (some (insufficientFunds (s.context settings request instrument)))

/-- **An order that closes needs no margin.** -/
theorem marginRequired_of_closes (h : s.Closes request) :
    s.marginRequired settings request = Money.zero := by
  have hquantity := request.quantity_pos
  have hopening : (request.quantity : ℤ) -
      min (request.quantity : ℤ) (max (s.opposing request) 0) = 0 := by
    unfold Closes at h
    omega
  have hmargin : s.marginRequired settings request =
      ⟨(request.price.amount.mul ((request.quantity : ℤ) -
        min (request.quantity : ℤ) (max (s.opposing request) 0) : ℤ)).div settings.leverage⟩ := rfl
  rw [hmargin, hopening, Int.cast_zero, Decimal.mul_zero, Decimal.div, zero_div,
    DecimalContext.round_zero]
  rfl

omit [DecimalContext] in
/-- A screen that goes on to a last rule: the rules before it object, or it
decides. -/
theorem firstRejection_append {rules : List RejectRule} {rule : RejectRule} {context : OrderContext}
    (h : firstRejection rules context = .ok none) :
    firstRejection (rules ++ [rule]) context = firstRejection [rule] context := by
  induction rules with
  | nil => rfl
  | cons first rest ih =>
      rw [firstRejection] at h
      rw [List.cons_append, firstRejection]
      rcases hreason : first.reason context with error | reason
      · rw [hreason] at h
        cases h
      · rw [hreason] at h
        rcases reason with _ | reason
        · exact ih h
        · cases h

omit [DecimalContext] in
theorem firstRejection_append_of_some {rules more : List RejectRule} {rejection : Rejection}
    {context : OrderContext} (h : firstRejection rules context = .ok (some rejection)) :
    firstRejection (rules ++ more) context = .ok (some rejection) := by
  induction rules with
  | nil => cases h
  | cons first rest ih =>
      rw [firstRejection] at h
      rw [List.cons_append, firstRejection]
      rcases hreason : first.reason context with error | reason
      · rw [hreason] at h
        cases h
      · rw [hreason] at h
        rcases reason with _ | reason
        · exact ih h
        · exact h

omit [DecimalContext] in
/-- The rules that validate a request raise nothing, and refuse it before
the exchange has it. -/
theorem validation_spec (context : OrderContext) :
    firstRejection [tickSizeRule, stopPlacementRule] context = .ok none ∨
      ∃ reason, firstRejection [tickSizeRule, stopPlacementRule] context =
        .ok (some ⟨reason, .atAcceptance⟩) := by
  have htick : ∃ reason, tickSizeRule.reason context = .ok reason := by
    simp only [tickSizeRule]
    split
    · exact ⟨_, rfl⟩
    · split <;> exact ⟨_, rfl⟩
  have hstop : ∃ reason, stopPlacementRule.reason context = .ok reason := by
    simp only [stopPlacementRule]
    split
    · exact ⟨_, rfl⟩
    · split
      · exact ⟨_, rfl⟩
      · cases context.request.side <;> dsimp only <;> split
        · exact ⟨_, rfl⟩
        · split <;> exact ⟨_, rfl⟩
        · exact ⟨_, rfl⟩
        · split <;> exact ⟨_, rfl⟩
  obtain ⟨tick, htick⟩ := htick
  obtain ⟨stop, hstop⟩ := hstop
  simp only [firstRejection, htick, hstop]
  rcases tick with _ | tick
  · rcases stop with _ | stop
    · exact .inl rfl
    · exact .inr ⟨stop, rfl⟩
  · exact .inr ⟨tick, rfl⟩

/-- **When an order is refused for its margin**: no rule before objects, and
the margin is more than the free cash. -/
theorem refusedForFunds_iff : s.RefusedForFunds settings request instrument ↔
    firstRejection [tickSizeRule, stopPlacementRule] (s.context settings request instrument) =
        .ok none ∧
      s.availableCash settings < s.marginRequired settings request := by
  have hrules : defaultRules = [tickSizeRule, stopPlacementRule] ++ [sufficientFundsRule] := rfl
  rw [RefusedForFunds, hrules]
  rcases validation_spec (s.context settings request instrument) with hnone | ⟨reason, hsome⟩
  · rw [firstRejection_append hnone, and_iff_right hnone]
    simp only [firstRejection, sufficientFundsRule, context]
    by_cases hshort : s.availableCash settings < s.marginRequired settings request
    · rw [if_pos hshort]
      exact iff_of_true rfl hshort
    · rw [if_neg hshort]
      exact iff_of_false (fun h => by cases h) hshort
  · rw [firstRejection_append_of_some hsome, hsome]
    refine iff_of_false (fun h => ?_) fun h => ?_
    · have hstage := congrArg Rejection.stage (Option.some.inj (Except.ok.inj h))
      cases hstage
    · cases h.1

end Screen

/-! ## Ten bought with all the cash -/

/-- The calls of a purchase of ten at 100, under the default screen. -/
def screenedCalls : List PaperCall :=
  [.place { sampleAnswers with screen := defaultRules }
    ⟨"BSE:1", .buy, .limit, 10, ⟨100⟩, "T", none, Sample.ten_pos, samplePrice_pos, trivial,
      sampleTag_fits⟩,
    .tick 1 ⟨"BSE:1", 1, 1, ⟨100⟩, 0, none, false, samplePrice_pos⟩]

/-- The account after it, where a trade is charged so much. -/
def screenedRun (charge : ℚ) : PaperBroker :=
  @run Decimal.standard (sampleSettings fun _ => .ok ⟨charge⟩) (new ⟨1000⟩ sampleCash_nonneg)
    screenedCalls

/-- The sale of all of it. -/
def closingSale : PlaceOrderRequest :=
  ⟨"BSE:1", .sell, .limit, 10, ⟨100⟩, "T", none, Sample.ten_pos, samplePrice_pos, trivial,
    sampleTag_fits⟩

theorem tickOfOne_pos : Money.zero < ⟨1⟩ := by simp [Money.lt_iff, Money.zero]

end PaperBroker

end Emporos
