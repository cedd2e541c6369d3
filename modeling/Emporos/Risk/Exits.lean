import Emporos.Risk.Worse
/-!
# Exits while entries are blocked

The guards that stop new entries let a signal through by its declared
kind, and none of them reads the position an exit acts on. So what is
approved while entries must be blocked is an exit, and whether it reduces
is up to who built it: an exit of what a strategy thinks it holds opens a
position if the account has been closed in the meantime.
-/

namespace Emporos

namespace Signal

/-- The order takes at most what is held, and from the side it is held
on: a sale out of a long position, a purchase into a short one. -/
def Covered (signal : Signal) (held : ℤ) : Prop :=
  match signal.side with
  | .sell => signal.quantity ≤ held
  | .buy => signal.quantity ≤ -held

instance (signal : Signal) (held : ℤ) : Decidable (signal.Covered held) := by
  unfold Covered
  split <;> infer_instance

/-- The side and the quantity that close a holding, as square-off and the
strategies build their exits. -/
def Closes (signal : Signal) (held : ℤ) : Prop :=
  signal.side = (if 0 < held then .sell else .buy) ∧ signal.quantity = held.natAbs

/-- The exit of a holding is covered where the account still holds that
much of it. -/
theorem Closes.covered_iff {signal : Signal} {held net : ℤ} (h : signal.Closes held) :
    signal.Covered net ↔ if 0 < held then held ≤ net else net ≤ held := by
  obtain ⟨hside, hquantity⟩ := h
  have hpos := signal.quantity_pos
  unfold Covered
  by_cases hheld : 0 < held
  · rw [hside, if_pos hheld, if_pos hheld, hquantity]
    simp only
    omega
  · rw [hside, if_neg hheld, if_neg hheld, hquantity]
    simp only
    omega

/-- The kind of a manual order: an exit when it trades against what is
held, whatever its quantity. -/
def manualKind (net : ℤ) (side : OrderSide) : SignalKind :=
  if (0 < net ∧ side = .sell) ∨ (net < 0 ∧ side = .buy) then .exit else .entry

/-- A manual exit is covered unless it is larger than the holding, and
then it flips it. -/
theorem covered_of_manualKind {signal : Signal} {net : ℤ}
    (h : manualKind net signal.side = .exit) :
    signal.Covered net ↔ signal.quantity ≤ net.natAbs := by
  have hagainst : (0 < net ∧ signal.side = .sell) ∨ (net < 0 ∧ signal.side = .buy) := by
    unfold manualKind at h
    split at h
    · assumption
    · cases h
  unfold Covered
  rcases hagainst with ⟨hnet, hside⟩ | ⟨hnet, hside⟩
  · rw [hside]
    simp only
    omega
  · rw [hside]
    simp only
    omega

end Signal

namespace RiskEngine

/-- Filled in full, the order leaves less of the position, on the side it
was on. -/
def Reduces (signal : Signal) (snapshot : RiskSnapshot) : Prop :=
  let (now, after) := netAfter signal snapshot
  after.natAbs < now.natAbs ∧ (0 < after → 0 < now) ∧ (after < 0 → now < 0)

instance (signal : Signal) (snapshot : RiskSnapshot) : Decidable (Reduces signal snapshot) :=
  inferInstanceAs (Decidable (_ ∧ _))

theorem reduces_iff_covered {signal : Signal} {snapshot : RiskSnapshot} :
    Reduces signal snapshot ↔
      signal.Covered (snapshot.account.position signal.instrumentId).netQuantity := by
  have hpos := signal.quantity_pos
  unfold Reduces netAfter Signal.Covered
  simp only
  generalize (snapshot.account.position signal.instrumentId).netQuantity = now
  cases hside : signal.side
  · simp only [signedQuantity]
    omega
  · simp only [signedQuantity]
    omega

variable [DecimalContext] {limits : RiskLimits} {window : SessionWindow} {signal : Signal}
  {snapshot : RiskSnapshot}

/-- New entries have to be blocked: a loss is over its cap, the feed of
the instrument is stale, or the switch is halted by a tripwire. -/
def EntriesBlocked (limits : RiskLimits) (signal : Signal) (snapshot : RiskSnapshot) : Prop :=
  lossBlocked limits.maxDailyLoss snapshot.account.dailyPnl ∨
  lossBlocked limits.maxStrategyLoss
    ((snapshot.account.strategyPnl signal.strategyRunId).getD Money.zero) ∨
  (snapshot.market signal.instrumentId).stale ∨
  (snapshot.system.killSwitch.halted ∧ snapshot.system.killSwitch.exitsPermitted)

instance : Decidable (EntriesBlocked limits signal snapshot) :=
  inferInstanceAs (Decidable (_ ∨ _ ∨ _ ∨ _))

/-- What the rules let through while entries have to be blocked is an
exit: each fact stops entries at one of the rules. -/
theorem exit_of_allows (hblocked : EntriesBlocked limits signal snapshot)
    (hall : ∀ rule ∈ StandardRuleSet.rules limits window, Allows rule signal snapshot) :
    signal.kind = .exit := by
  simp only [StandardRuleSet.rules, List.forall_mem_append, List.forall_mem_cons] at hall
  obtain ⟨⟨⟨-, hswitch, -, hstale, -, -, -, hdaily, hstrategy, -⟩, -⟩, -⟩ := hall
  cases hkind : signal.kind with
  | exit => rfl
  | entry =>
      have hentry : isEntry signal = true := by simp [isEntry, hkind]
      rcases hblocked with h | h | h | ⟨hhalted, -⟩
      · rw [maxDailyLossGuard, lossGuard, allows_blockIf, h, hentry] at hdaily
        cases hdaily
      · rw [maxStrategyLossGuard, lossGuard, allows_blockIf, h, hentry] at hstrategy
        cases hstrategy
      · rw [staleDataGuard, allows_blockIf] at hstale
        simp [h, hentry] at hstale
      · have := (killSwitchGuard_allows.mp hswitch).2 hhalted
        rw [hentry] at this
        cases this.2

omit [DecimalContext]

/-- An exit that sells ten. -/
def sampleExit : Signal := { Signal.sample .sell 10 Sample.ten_pos with
  kind := .exit, stop_fits := trivial }

/-- A healthy venue, with the feed of `I` stale and a holding of it. -/
def sampleStale (held : ℤ) : RiskSnapshot where
  now := 0
  system :=
    { mode := .paper, killSwitch := { halted := false, known := true }, brokerSessionOk := true,
      orderFeedOk := true, reconciliation := .clean }
  account := { positions := [⟨"I", held, ⟨100⟩⟩] }
  markets := fun _ => some { ltp := some ⟨100⟩, stale := true }

/-- The review of that exit. -/
def sampleReview (held : ℤ) : Except PyError RiskDecision :=
  @review (@StandardRuleSet.rules Decimal.standard Sources.sampleLimits
    ⟨0, 86400 * Timestamp.second, fun _ => true⟩) (by simp [StandardRuleSet.rules])
    ⟨.ok (sampleStale held), .ok (), "P", 0⟩ sampleExit "S"

/-- The exit is approved where entries are blocked, and does not reduce. -/
def Opens (held : ℤ) : Prop :=
  approves (sampleReview held) ∧
    @EntriesBlocked Decimal.standard Sources.sampleLimits sampleExit (sampleStale held) ∧
    ¬ Reduces sampleExit (sampleStale held)

end RiskEngine

end Emporos
