import Emporos.Risk.Worse
/-!
# Orders that flip a position

The position value is measured where an order adds exposure. An order that
crosses zero to at most the former size adds none, so it passes like a
reduction, whatever the position it opens is worth now.
-/

namespace Emporos

open RiskEngine

/-- The order only reduces: what is left is less, on the same side or flat. -/
structure PureReduction (signal : Signal) (snapshot : RiskSnapshot) : Prop where
  smaller : (netAfter signal snapshot).2.natAbs < (netAfter signal snapshot).1.natAbs
  side : 0 ≤ (netAfter signal snapshot).1 * (netAfter signal snapshot).2

/-- The order opens a position on the other side, of at most the size of the
one it closes. -/
structure CrossesWithin (signal : Signal) (snapshot : RiskSnapshot) : Prop where
  size : (netAfter signal snapshot).2.natAbs ≤ (netAfter signal snapshot).1.natAbs
  crosses : (netAfter signal snapshot).1 * (netAfter signal snapshot).2 < 0

variable [DecimalContext]

/-- What the position is worth at the order's limit once it fills. -/
def valueAfter (signal : Signal) (snapshot : RiskSnapshot) : Money :=
  signal.limitPrice.times (netAfter signal snapshot).2.natAbs

/-- The order reduces, or the position it leaves is within the cap. -/
def Measured (cap : Money) (signal : Signal) (snapshot : RiskSnapshot) : Prop :=
  PureReduction signal snapshot ∨ valueAfter signal snapshot ≤ cap

/-- The rules on how much, in the order they run. -/
def exposureRules (limits : RiskLimits) : List RiskRule :=
  [duplicateOrderGuard limits.duplicateWindow, maxDailyLossGuard limits.maxDailyLoss,
   maxStrategyLossGuard limits.maxStrategyLoss, maxPositionValueGuard limits.maxPositionValue] ++
  (limits.maxRiskPerTrade.map maxRiskPerTradeGuard).toList ++
  [maxOpenPositionsGuard limits.maxOpenPositions, maxCapitalDeployedGuard limits.maxCapitalDeployed,
   maxOrderQuantityGuard limits.maxOrderQuantity, priceSanityGuard limits.maxPriceDeviationPct,
   abnormalSpreadGuard limits.maxSpreadBps,
   orderRateGuard limits.maxOrdersPerSecond limits.maxOrdersPerMinute]

variable {limits : RiskLimits} {cap : Money} {signal : Signal} {snapshot : RiskSnapshot}

/-- **What the guard on the position's value asks.** -/
theorem maxPositionValueGuard_allows : Allows (maxPositionValueGuard cap) signal snapshot ↔
    ((netAfter signal snapshot).1.natAbs < (netAfter signal snapshot).2.natAbs →
      valueAfter signal snapshot ≤ cap) := by
  have hadded : addedExposure signal snapshot ≠ 0 ↔
      (netAfter signal snapshot).1.natAbs < (netAfter signal snapshot).2.natAbs := by
    change (netAfter signal snapshot).2.natAbs - (netAfter signal snapshot).1.natAbs ≠ 0 ↔ _
    omega
  rw [maxPositionValueGuard, allows_blockIf, decide_eq_false_iff_not, hadded, not_and, not_lt]
  rfl

omit [DecimalContext] in
/-- An order moves the position. -/
theorem netAfter_ne : (netAfter signal snapshot).2 ≠ (netAfter signal snapshot).1 := by
  have := signal.quantity_pos
  unfold netAfter signedQuantity
  cases signal.side <;> simp only <;> omega

omit [DecimalContext] in
/-- An order that adds nothing reduces, or crosses. -/
theorem reduces_or_crosses
    (h : (netAfter signal snapshot).2.natAbs ≤ (netAfter signal snapshot).1.natAbs) :
    PureReduction signal snapshot ∨ CrossesWithin signal snapshot := by
  have hne : (netAfter signal snapshot).2 ≠ (netAfter signal snapshot).1 := netAfter_ne
  rcases lt_or_ge ((netAfter signal snapshot).1 * (netAfter signal snapshot).2) 0 with hcross | hside
  · exact .inr ⟨h, hcross⟩
  · refine .inl ⟨lt_of_le_of_ne h fun heq => hne ?_, hside⟩
    rcases Int.natAbs_eq_natAbs_iff.mp heq with heq | heq
    · exact heq
    · rw [heq] at hside ⊢
      nlinarith

/-- **When an approved order is measured**: unless it crosses zero within
the former size, or what it opens is within the cap anyway. -/
theorem measured_iff (h : ∀ rule ∈ exposureRules limits, Allows rule signal snapshot) :
    Measured limits.maxPositionValue signal snapshot ↔
      (CrossesWithin signal snapshot → valueAfter signal snapshot ≤ limits.maxPositionValue) := by
  have hguard := maxPositionValueGuard_allows.1
    (h (maxPositionValueGuard limits.maxPositionValue) (by simp [exposureRules]))
  constructor
  · rintro (hreduces | hvalue) hcrosses
    · exact absurd hreduces.side hcrosses.crosses.not_ge
    · exact hvalue
  · intro hcond
    rcases lt_or_ge (netAfter signal snapshot).1.natAbs (netAfter signal snapshot).2.natAbs with
      hadds | hadds
    · exact .inr (hguard hadds)
    · rcases reduces_or_crosses hadds with hreduces | hcrosses
      · exact .inl hreduces
      · exact .inr (hcond hcrosses)

omit [DecimalContext]

/-! ## A long position sold through zero -/

namespace Sample

theorem roomy_counts_pos : 0 < 5 ∧ 0 < 2000 ∧ 0 < 5 ∧ 0 < 50 := by decide

/-- The sample limits, for orders of up to two thousand. -/
def roomy : RiskLimits := { Sources.sampleLimits with
  maxOrderQuantity := 2000
  counts_pos := roomy_counts_pos }

/-- Six hundred shares bought at 100 trade at `price` now. -/
def risen (price : Decimal) : RiskSnapshot where
  now := 0
  account := { positions := [⟨"I", 600, ⟨100⟩⟩] }
  markets _ := some { ltp := some ⟨price⟩, bid := some ⟨price⟩, ask := some ⟨price⟩, stale := false }

theorem limit_300_pos : Money.zero < ⟨300⟩ := by simp [Money.lt_iff, Money.zero]

theorem quantity_1100_pos : 0 < 1100 := by decide

theorem quantity_100_pos : 0 < 100 := by decide

/-- Eleven hundred are sold at 300. -/
def sold : Signal := { Signal.sample .sell 1100 quantity_1100_pos with
  limitPrice := ⟨300⟩
  limit_pos := limit_300_pos
  stop_fits := trivial }

end Sample

open Sample

theorem measured_sample :
    @Measured Decimal.standard roomy.maxPositionValue (.sample .buy 100 quantity_100_pos)
      (risen 100) :=
  (@measured_iff Decimal.standard roomy _ _ (by decide +kernel)).mpr fun _ => by decide +kernel

/-- **A flip that is not measured.** It leaves five hundred short, at 300
each, with a cap of a hundred thousand. -/
theorem flip_not_measured :
    (∀ rule ∈ @exposureRules Decimal.standard roomy, Allows rule sold (risen 300)) ∧
      ¬ @Measured Decimal.standard roomy.maxPositionValue sold (risen 300) := by
  refine ⟨by decide +kernel, ?_⟩
  rintro (hreduces | hvalue)
  · exact absurd hreduces.side (by decide)
  · exact absurd hvalue (by decide +kernel)

end Emporos
