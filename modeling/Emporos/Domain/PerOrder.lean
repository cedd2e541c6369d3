import Emporos.Common.HalfUp
import Emporos.Domain.Fees
import Mathlib.Algebra.BigOperators.Ring.List
import Mathlib.Data.List.Forall2
/-!
# The charges of an order that fills in parts

The schedule's cap and minimum are for one executed order, and they are
taken of each fill. What the fills together are charged is compared here
with what one fill of the same turnover is charged.

The brokerage of the fills stays within that of the order exactly if what
the cap and the minimum, taken of each fill, put on it is no more than half
a paisa and what rounding the fills takes off; and then the other charges
differ by rounding alone.
-/

namespace Emporos

open HalfUp

/-- To the paisa is to the nearest hundredth. -/
theorem abs_paisa_sub_le (x : Decimal) : |(paisa x).amount - x| ≤ 1 / 200 := by
  rw [paisa]
  split
  · have hgain := abs_gain_le (x := x * 100)
    rw [abs_le] at hgain ⊢
    simp only [gain, halfUp] at hgain
    constructor <;> push_cast <;> linarith [hgain.1, hgain.2]
  · have hgain := abs_gain_le (x := -x * 100)
    rw [abs_le] at hgain ⊢
    simp only [gain, halfUp] at hgain
    constructor <;> push_cast <;> linarith [hgain.1, hgain.2]

theorem paisa_of_nonneg {x : Decimal} (h : 0 ≤ x) :
    (paisa x).amount = halfUp (x * 100) / 100 := by
  rw [paisa, if_pos h]
  rfl

theorem paisa_mono {x y : Decimal} (hx : 0 ≤ x) (h : x ≤ y) : paisa x ≤ paisa y := by
  rw [Money.le_iff, paisa_of_nonneg hx, paisa_of_nonneg (hx.trans h)]
  have : halfUp (x * 100) ≤ halfUp (y * 100) := halfUp_mono (by linarith)
  have : (halfUp (x * 100) : ℚ) ≤ halfUp (y * 100) := by exact_mod_cast this
  linarith

/-- A fill of an order. -/
structure OrderFill where
  quantity : ℕ
  price : Money
  deriving DecidableEq

namespace IntradayCharges

section Charges

variable [DecimalContext] {schedule : FeeSchedule} {rate : Decimal} {exchange : Exchange}
  {side : OrderSide}

def turnover (fill : OrderFill) : Decimal := Decimal.mul fill.price.amount fill.quantity

/-- What a fill is charged. -/
def charges (schedule : FeeSchedule) (exchange : Exchange) (side : OrderSide) (fill : OrderFill) :
    Except PyError ChargeBreakdown :=
  forTrade schedule exchange side fill.quantity fill.price

/-- A trade that is charged is charged the breakdown of its turnover. -/
theorem charges_eq_ok {fill : OrderFill} {c : ChargeBreakdown}
    (h : charges schedule exchange side fill = .ok c) : ∃ rate,
      schedule.exchangeTransactionPercent exchange = some rate ∧
        c = breakdown schedule rate side (turnover fill) := by
  unfold charges forTrade at h
  split_ifs at h
  cases hrate : schedule.exchangeTransactionPercent exchange with
  | none =>
      rw [hrate] at h
      cases h
  | some rate =>
      rw [hrate] at h
      exact ⟨rate, rfl, (Except.ok.inj h).symm⟩

/-- Brokerage before it is put to the paisa: the share of the turnover, at
most the cap and at least the minimum. -/
def due (schedule : FeeSchedule) (turnover : Decimal) : Decimal :=
  max schedule.brokerageMinimum.amount
    (min schedule.brokerageFlat.amount (percent turnover schedule.brokeragePercent))

/-- What the cap and the minimum put on the fills over the whole, taken of
each: in paise. -/
def excess (schedule : FeeSchedule) (turnovers : List Decimal) : ℚ :=
  (turnovers.map fun t => due schedule t * 100).sum - due schedule turnovers.sum * 100

/-- What rounding puts on the brokerage of the fills, in paise. -/
def gained (schedule : FeeSchedule) (turnovers : List Decimal) : ℚ :=
  (turnovers.map fun t => gain (due schedule t * 100)).sum

/-- What is charged in exact arithmetic. -/
abbrev exactly (schedule : FeeSchedule) (rate : Decimal) (side : OrderSide) (turnover : Decimal) :
    ChargeBreakdown :=
  @breakdown Decimal.rational schedule rate side turnover

/-- The context has the digits for the charges on each turnover. -/
def Fits (schedule : FeeSchedule) (exchange : Exchange) (side : OrderSide)
    (turnovers : List Decimal) : Prop :=
  ∀ rate, schedule.exchangeTransactionPercent exchange = some rate → ∀ t ∈ turnovers,
    breakdown schedule rate side t = exactly schedule rate side t

/-- A charge of the fills differs from that of the whole by the rounding of
each. -/
def ByRounding (component : ChargeBreakdown → Money) (booked : List ChargeBreakdown)
    (whole : ChargeBreakdown) : Prop :=
  |(booked.map fun c => (component c).amount).sum - (component whole).amount| ≤
    (booked.length + 1) / 200

/-- **The charges of an order's fills are those of one order.** The tax is
on three charges that are put to the paisa themselves. -/
structure PerOrder (schedule : FeeSchedule) (exchange : Exchange) (side : OrderSide)
    (turnovers : List Decimal) (booked : List ChargeBreakdown) (whole : ChargeBreakdown) : Prop where
  brokerage : (booked.map fun c => c.brokerage.amount).sum ≤ whole.brokerage.amount
  capped : (booked.map fun c => c.brokerage.amount).sum ≤
    (paisa (max schedule.brokerageFlat.amount schedule.brokerageMinimum.amount)).amount
  linear : Fits schedule exchange side (turnovers.sum :: turnovers) →
    ∀ component ∈ [ChargeBreakdown.stt, ChargeBreakdown.exchangeTransaction, ChargeBreakdown.sebi,
      ChargeBreakdown.stampDuty, ChargeBreakdown.dp], ByRounding component booked whole
  gst : Fits schedule exchange side (turnovers.sum :: turnovers) →
    |(booked.map fun c => c.gst.amount).sum - whole.gst.amount| ≤
      (booked.length + 1) / 200 * (1 + 3 * schedule.gstPercent / 100)

/-! ## Brokerage -/

variable {turnovers : List Decimal} {booked : List ChargeBreakdown} {whole : ChargeBreakdown}

theorem due_nonneg (turnover : Decimal) : 0 ≤ due schedule turnover :=
  le_max_of_le_left schedule.charges_nonneg.2.1

theorem brokerage_amount (turnover : Decimal) :
    (breakdown schedule rate side turnover).brokerage.amount =
      halfUp (due schedule turnover * 100) / 100 :=
  paisa_of_nonneg (due_nonneg turnover)

theorem sum_brokerage : ((turnovers.map (breakdown schedule rate side)).map
    fun c => c.brokerage.amount).sum =
      ((turnovers.map fun t => due schedule t * 100).map halfUp).sum / 100 := by
  induction turnovers with
  | nil => simp
  | cons t turnovers ih =>
      simp only [List.map_cons, List.sum_cons, brokerage_amount, Int.cast_add, ih]
      ring

variable (rate side) in
/-- **When the brokerage of the fills is within that of the order.** -/
theorem brokerage_le_iff : ((turnovers.map (breakdown schedule rate side)).map
    fun c => c.brokerage.amount).sum ≤
      (breakdown schedule rate side turnovers.sum).brokerage.amount ↔
    excess schedule turnovers + gained schedule turnovers ≤ 1 / 2 := by
  have hroom := sum_halfUp_le_iff (l := turnovers.map fun t => due schedule t * 100)
    (t := due schedule turnovers.sum * 100)
  have hgains : ((turnovers.map fun t => due schedule t * 100).map gain).sum =
      gained schedule turnovers := by
    rw [List.map_map]
    rfl
  rw [hgains] at hroom
  rw [sum_brokerage, brokerage_amount, excess, div_le_div_iff_of_pos_right (by norm_num),
    Int.cast_le]
  exact hroom

theorem whole_le_cap (turnover : Decimal) :
    (breakdown schedule rate side turnover).brokerage.amount ≤
      (paisa (max schedule.brokerageFlat.amount schedule.brokerageMinimum.amount)).amount := by
  refine paisa_mono (due_nonneg turnover) (max_le (le_max_right _ _) ?_)
  exact (min_le_left _ _).trans (le_max_left _ _)

/-! ## Charges that are a share of the turnover -/

omit [DecimalContext] in
theorem exactly_percent (t r : Decimal) : @percent Decimal.rational t r = t * (r / 100) := by
  change t * r / hundred = t * (r / 100)
  rw [hundred]
  ring

omit [DecimalContext] in
variable (schedule rate side) in
/-- Each of these charges is a fixed share of the turnover, put to the
paisa. -/
theorem linear_share : ∀ component ∈ [ChargeBreakdown.stt, ChargeBreakdown.exchangeTransaction,
    ChargeBreakdown.sebi, ChargeBreakdown.stampDuty, ChargeBreakdown.dp],
    ∃ share : ℚ, ∀ t, component (exactly schedule rate side t) = paisa (t * share) := by
  have hnone (t : ℚ) : paisa 0 = paisa (t * 0) := by
    congr 1
    ring
  intro component hcomponent
  simp only [List.mem_cons, List.not_mem_nil, or_false] at hcomponent
  obtain rfl | rfl | rfl | rfl | rfl := hcomponent
  · exact ⟨_, fun t => congrArg paisa (exactly_percent t _)⟩
  · exact ⟨_, fun t => congrArg paisa (exactly_percent t _)⟩
  · refine ⟨schedule.sebiPerCrore.amount / crore, fun t => ?_⟩
    change paisa (t * schedule.sebiPerCrore.amount / crore) = _
    rw [mul_div_assoc]
  · cases side with
    | buy => exact ⟨_, fun t => congrArg paisa (exactly_percent t _)⟩
    | sell => exact ⟨0, hnone⟩
  · exact ⟨0, hnone⟩

omit [DecimalContext] in
variable (turnovers) in
/-- **A share of the turnover differs by rounding alone.** -/
theorem byRounding_of_share {component : ChargeBreakdown → Money} {share : ℚ}
    (h : ∀ t, component (exactly schedule rate side t) = paisa (t * share)) :
    ByRounding component (turnovers.map (exactly schedule rate side))
      (exactly schedule rate side turnovers.sum) := by
  have hsum : (turnovers.map (· * share)).sum = turnovers.sum * share := by
    rw [List.sum_map_mul_right, List.map_id']
  have hall := abs_sum_sub_le (g := fun t => (paisa (t * share)).amount) hsum
    (fun t _ => abs_paisa_sub_le (t * share)) (abs_paisa_sub_le (turnovers.sum * share))
  have hbooked : ((turnovers.map (exactly schedule rate side)).map fun c =>
      (component c).amount) = turnovers.map fun t => (paisa (t * share)).amount := by
    rw [List.map_map]
    exact List.map_congr_left fun t _ => congrArg Money.amount (h t)
  rw [ByRounding, hbooked, h, List.length_map]
  calc |(turnovers.map fun t => (paisa (t * share)).amount).sum -
        (paisa (turnovers.sum * share)).amount| ≤ (turnovers.length + 1) * (1 / 200) := hall
    _ = (turnovers.length + 1) / 200 := by ring

/-! ## The tax -/

/-- What the tax is on. -/
def taxed (c : ChargeBreakdown) : ℚ :=
  c.brokerage.amount + c.exchangeTransaction.amount + c.sebi.amount

omit [DecimalContext] in
theorem exactly_gst (t : Decimal) : (exactly schedule rate side t).gst =
    paisa (taxed (exactly schedule rate side t) * (schedule.gstPercent / 100)) := by
  have hdp : (paisa 0).amount = 0 := by norm_num [paisa]
  change paisa ((_ + (paisa 0).amount) * schedule.gstPercent / hundred) = _
  rw [hdp, add_zero, hundred, mul_div_assoc]
  rfl

omit [DecimalContext] in
/-- The cap and the minimum never take from the fills. -/
theorem due_add_le (t u : Decimal) : @due Decimal.rational schedule (t + u) ≤
    @due Decimal.rational schedule t + @due Decimal.rational schedule u := by
  have ht := @due_nonneg Decimal.rational schedule t
  have hu := @due_nonneg Decimal.rational schedule u
  have hsplit : (t + u) * (schedule.brokeragePercent / 100) =
      t * (schedule.brokeragePercent / 100) + u * (schedule.brokeragePercent / 100) := by ring
  simp only [due, exactly_percent] at ht hu ⊢
  rw [hsplit]
  generalize t * (schedule.brokeragePercent / 100) = a at *
  generalize u * (schedule.brokeragePercent / 100) = b at *
  grind

omit [DecimalContext] in
variable (schedule) in
theorem due_sum_le (h : turnovers ≠ []) : @due Decimal.rational schedule turnovers.sum ≤
    (turnovers.map (@due Decimal.rational schedule)).sum := by
  induction turnovers with
  | nil => exact absurd rfl h
  | cons t turnovers ih =>
      cases turnovers with
      | nil => simp
      | cons u turnovers =>
          rw [List.sum_cons, List.map_cons, List.sum_cons]
          exact (due_add_le t _).trans (add_le_add le_rfl (ih (by simp)))

omit [DecimalContext] in
/-- Brokerage within the order's is short of it by rounding alone. -/
theorem byRounding_brokerage (h : turnovers ≠ [])
    (hwithin : ((turnovers.map (exactly schedule rate side)).map fun c => c.brokerage.amount).sum ≤
      (exactly schedule rate side turnovers.sum).brokerage.amount) :
    ByRounding ChargeBreakdown.brokerage (turnovers.map (exactly schedule rate side))
      (exactly schedule rate side turnovers.sum) := by
  have hpaise := abs_sum_le (l := turnovers) (c := 1 / 200) (f := fun t =>
    (exactly schedule rate side t).brokerage.amount - @due Decimal.rational schedule t)
    fun t _ => abs_paisa_sub_le _
  have hwhole := abs_paisa_sub_le (@due Decimal.rational schedule turnovers.sum)
  have hdue := due_sum_le schedule h
  have hsums : (turnovers.map fun t => (exactly schedule rate side t).brokerage.amount -
      @due Decimal.rational schedule t).sum =
      ((turnovers.map (exactly schedule rate side)).map fun c => c.brokerage.amount).sum -
        (turnovers.map (@due Decimal.rational schedule)).sum := by
    rw [List.map_map]
    clear h hwithin hpaise hwhole hdue
    induction turnovers with
    | nil => simp
    | cons t turnovers ih =>
        simp only [List.map_cons, List.sum_cons, ih, Function.comp_apply]
        ring
  rw [hsums] at hpaise
  rw [ByRounding, List.length_map, abs_le]
  have hlow := (abs_le.mp hpaise).1
  have hup : (exactly schedule rate side turnovers.sum).brokerage.amount -
      @due Decimal.rational schedule turnovers.sum ≤ 1 / 200 := (abs_le.mp hwhole).2
  constructor
  · linarith
  · have : (0 : ℚ) ≤ (turnovers.length + 1) / 200 := by positivity
    linarith

omit [DecimalContext] in
/-- **The tax follows what it is on.** -/
theorem gst_byRounding (h : turnovers ≠ [])
    (hwithin : ((turnovers.map (exactly schedule rate side)).map fun c => c.brokerage.amount).sum ≤
      (exactly schedule rate side turnovers.sum).brokerage.amount) :
    |((turnovers.map (exactly schedule rate side)).map fun c => c.gst.amount).sum -
      (exactly schedule rate side turnovers.sum).gst.amount| ≤
        (turnovers.length + 1) / 200 * (1 + 3 * schedule.gstPercent / 100) := by
  let c : ℚ := schedule.gstPercent / 100
  let whole := exactly schedule rate side turnovers.sum
  let booked := turnovers.map (exactly schedule rate side)
  have hc : 0 ≤ c := div_nonneg schedule.rates_nonneg.2.2.2 (by norm_num)
  -- what the tax is on differs by the rounding of three charges
  have htaxed : |(booked.map taxed).sum - taxed whole| ≤ 3 * ((turnovers.length + 1) / 200) := by
    have hbrokerage := byRounding_brokerage h hwithin
    obtain ⟨_, htransaction⟩ := linear_share schedule rate side
      ChargeBreakdown.exchangeTransaction (by simp)
    obtain ⟨_, hsebi⟩ := linear_share schedule rate side ChargeBreakdown.sebi (by simp)
    have htransaction := byRounding_of_share turnovers htransaction
    have hsebi := byRounding_of_share turnovers hsebi
    have hsum : (booked.map taxed).sum = (booked.map fun c => c.brokerage.amount).sum +
        (booked.map fun c => c.exchangeTransaction.amount).sum +
        (booked.map fun c => c.sebi.amount).sum := by
      induction booked with
      | nil => simp
      | cons b booked ih =>
          simp only [List.map_cons, List.sum_cons, ih, taxed]
          ring
    rw [ByRounding, List.length_map, abs_le] at hbrokerage htransaction hsebi
    rw [hsum, taxed, abs_le]
    constructor
    · linarith [hbrokerage.1, htransaction.1, hsebi.1]
    · linarith [hbrokerage.2, htransaction.2, hsebi.2]
  have hgst : (booked.map fun c => c.gst.amount) =
      turnovers.map fun t => (paisa (taxed (exactly schedule rate side t) * c)).amount := by
    rw [List.map_map]
    exact List.map_congr_left fun t _ => congrArg Money.amount (exactly_gst t)
  have hshare : (turnovers.map fun t => taxed (exactly schedule rate side t) * c).sum =
      (booked.map taxed).sum * c := by
    rw [List.sum_map_mul_right, List.map_map]
    rfl
  have hoff : |(paisa (taxed whole * c)).amount + ((booked.map taxed).sum * c - taxed whole * c) -
      (booked.map taxed).sum * c| ≤ 1 / 200 := by
    have := abs_paisa_sub_le (taxed whole * c)
    rwa [add_sub_assoc, sub_sub_cancel_left, ← sub_eq_add_neg]
  have hrounded := abs_sum_sub_le hshare
    (g := fun t => (paisa (taxed (exactly schedule rate side t) * c)).amount)
    (fun t _ => abs_paisa_sub_le _) hoff
  have hbase : |(booked.map taxed).sum * c - taxed whole * c| ≤
      3 * ((turnovers.length + 1) / 200) * c := by
    rw [← sub_mul, abs_mul, abs_of_nonneg hc]
    exact mul_le_mul_of_nonneg_right htaxed hc
  have hwhole : (exactly schedule rate side turnovers.sum).gst = paisa (taxed whole * c) :=
    exactly_gst _
  have hbound : (turnovers.length + 1) / 200 * (1 + 3 * schedule.gstPercent / 100) =
      (turnovers.length + 1) * (1 / 200) + 3 * ((turnovers.length + 1) / 200) * c := by
    change _ = _ + _ * (schedule.gstPercent / 100)
    ring
  rw [hgst, hwhole, hbound]
  rw [abs_le] at hrounded hbase ⊢
  constructor
  · linarith [hrounded.1, hbase.1]
  · linarith [hrounded.2, hbase.2]

/-! ## An order and its fills -/

/-- Fills that are charged are charged the breakdown of each turnover. -/
theorem booked_eq {fills : List OrderFill} {rate : Decimal}
    (hrate : schedule.exchangeTransactionPercent exchange = some rate)
    (h : fills.mapM (charges schedule exchange side) = .ok booked) :
    booked = (fills.map turnover).map (breakdown schedule rate side) := by
  have hall := mapM_eq_ok.mp h
  clear h
  induction hall with
  | nil => rfl
  | cons hfill _ ih =>
      obtain ⟨_, hown, rfl⟩ := charges_eq_ok hfill
      obtain rfl := Option.some.inj (hrate.symm.trans hown)
      rw [ih]
      rfl

end Charges

/-! ## Two fills -/

/-- The exchange rates of the intraday tariff. -/
def tariffRate : Exchange → Option Decimal
  | .nse => some (30699 / 10000000)
  | .bse => none

theorem tariff_rates_nonneg : (0 : Decimal) ≤ 1 / 10 ∧ (0 : Decimal) ≤ 25 / 1000 ∧
    (0 : Decimal) ≤ 3 / 1000 ∧ (0 : Decimal) ≤ 18 := by norm_num

theorem tariffRate_nonneg (exchange : Exchange) (rate : Decimal) (h : tariffRate exchange = some rate) :
    0 ≤ rate := by
  cases exchange with
  | nse =>
      obtain rfl := Option.some.inj h
      norm_num
  | bse => cases h

theorem tariff_charges_nonneg : Money.zero ≤ ⟨20⟩ ∧ Money.zero ≤ ⟨5⟩ ∧ Money.zero ≤ ⟨10⟩ := by
  simp [Money.le_iff, Money.zero]

theorem tariffRate_some : ∃ exchange, (tariffRate exchange).isSome := ⟨.nse, rfl⟩

/-- The intraday tariff, with its rate for the NSE. -/
def tariff : FeeSchedule where
  brokerageFlat := ⟨20⟩
  brokeragePercent := 1 / 10
  brokerageMinimum := ⟨5⟩
  sttSellPercent := 25 / 1000
  exchangeTransactionPercent := tariffRate
  sebiPerCrore := ⟨10⟩
  stampDutyBuyPercent := 3 / 1000
  gstPercent := 18
  rates_nonneg := tariff_rates_nonneg
  transaction_nonneg := tariffRate_nonneg
  charges_nonneg := tariff_charges_nonneg
  some_rate := tariffRate_some

/-- Shares bought at 100. -/
def bought (quantity : ℕ) : OrderFill := ⟨quantity, ⟨100⟩⟩

theorem charges_bought (quantity : ℕ) (h : 0 < quantity) :
    ∃ c, @charges Decimal.standard tariff .nse .buy (bought quantity) = .ok c :=
  (@forTrade_isOk Decimal.standard tariff .nse .buy quantity ⟨100⟩ h).mpr rfl

end IntradayCharges

end Emporos
