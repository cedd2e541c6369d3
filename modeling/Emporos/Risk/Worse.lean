import Emporos.Risk.Facts
/-!
# Less known is never more allowed

Two reviews of one signal, the second on facts that are the first's with
something lost: marks, the quote or a part of it, the reading of the
switch, the health of the venue, a clean reconciliation. What the second
approves the first should.

Three checks lose their block with the information. The two loss caps
count an unrealised loss as nothing without its mark, and a circuit limit
that is not known is not checked. `Lossy` is a signal those checks let
through on the worse facts only. Every other rule is monotone
(`allows_of_worse`).
-/

namespace Emporos

/-- A fact, or nothing in its place. -/
def LostOf {α : Type} (worse full : Option α) : Prop := worse = full ∨ worse = none

/-- A quote with the last price of another, and no more than its fields. -/
structure Quote.LessThan (worse full : Quote) : Prop where
  ltp : worse.ltp = full.ltp
  bid : LostOf worse.bid full.bid
  ask : LostOf worse.ask full.ask
  lowerCircuit : LostOf worse.lowerCircuit full.lowerCircuit
  upperCircuit : LostOf worse.upperCircuit full.upperCircuit

/-- The same facts, made worse. -/
structure Sources.Worse (worse full : Sources) : Prop where
  marks : ∀ instrumentId, LostOf (worse.marks instrumentId) (full.marks instrumentId)
  quote : ∀ instrumentId, ∀ q ∈ QuotedMarketFacts.quoteOf worse.quotes instrumentId,
    ∃ q' ∈ QuotedMarketFacts.quoteOf full.quotes instrumentId, q.LessThan q'
  killSwitch : worse.killSwitch = full.killSwitch ∨ worse.killSwitch.known = false
  sessionOk : worse.sessionOk → full.sessionOk
  orderFeedOk : worse.orderFeedOk → full.orderFeedOk
  reconciliation : worse.reconciliation = full.reconciliation ∨ worse.reconciliation ≠ .clean
  same : worse.now = full.now ∧ worse.mode = full.mode ∧
    worse.liveTradingEnabled = full.liveTradingEnabled ∧ worse.positions = full.positions ∧
    worse.book = full.book ∧ worse.active = full.active ∧ worse.recent = full.recent

/-- The same for the snapshots they make, as far as the rules read one
instrument's market. -/
structure RiskSnapshot.Worse (instrumentId : String) (worse full : RiskSnapshot) : Prop where
  now : worse.now = full.now
  mode : worse.system.mode = full.system.mode
  liveTradingEnabled : worse.system.liveTradingEnabled = full.system.liveTradingEnabled
  killSwitch : worse.system.killSwitch = full.system.killSwitch ∨
    worse.system.killSwitch.known = false
  sessionOk : worse.system.brokerSessionOk → full.system.brokerSessionOk
  orderFeedOk : worse.system.orderFeedOk → full.system.orderFeedOk
  reconciliation : worse.system.reconciliation = full.system.reconciliation ∨
    worse.system.reconciliation ≠ .clean
  positions : worse.account.positions = full.account.positions
  flow : worse.flow = full.flow
  ltp : LostOf (worse.market instrumentId).ltp (full.market instrumentId).ltp
  bid : LostOf (worse.market instrumentId).bid (full.market instrumentId).bid
  ask : LostOf (worse.market instrumentId).ask (full.market instrumentId).ask
  stale : (full.market instrumentId).stale → (worse.market instrumentId).stale

theorem LostOf.eq_of_some {α : Type} {worse full : Option α} {a : α} (h : LostOf worse full)
    (hw : worse = some a) : full = some a := by
  rcases h with h | h
  · rw [← h, hw]
  · rw [hw] at h
    cases h

/-! ## Rules -/

namespace RiskEngine

variable {signal : Signal} {worse full snapshot : RiskSnapshot}

/-- A rule with an equal verdict on both. -/
theorem allows_of_eq {rule : RiskRule} (h : rule.evaluate signal worse = rule.evaluate signal full)
    (ha : Allows rule signal worse) : Allows rule signal full := by
  unfold Allows run at ha ⊢
  rwa [← h]

theorem killSwitchGuard_allows : Allows killSwitchGuard signal snapshot ↔
    snapshot.system.killSwitch.known ∧ (snapshot.system.killSwitch.halted →
      snapshot.system.killSwitch.exitsPermitted ∧ isEntry signal = false) := by
  cases hk : snapshot.system.killSwitch.known <;>
    cases hh : snapshot.system.killSwitch.halted <;>
    cases he : snapshot.system.killSwitch.exitsPermitted <;> cases hs : isEntry signal <;>
    simp [Allows, run, killSwitchGuard, blockIf, hk, hh, he, hs]

theorem brokerHealthGuard_allows : Allows brokerHealthGuard signal snapshot ↔
    snapshot.system.brokerSessionOk ∧ snapshot.system.orderFeedOk := by
  cases hs : snapshot.system.brokerSessionOk <;> cases hf : snapshot.system.orderFeedOk <;>
    simp [Allows, run, brokerHealthGuard, blockIf, hs, hf]

theorem reconciliationGuard_allows : Allows reconciliationGuard signal snapshot ↔
    snapshot.system.reconciliation = .clean := by
  cases hr : snapshot.system.reconciliation <;> simp [Allows, run, reconciliationGuard, hr]

theorem killSwitchGuard_of_worse (h : worse.Worse signal.instrumentId full)
    (ha : Allows killSwitchGuard signal worse) : Allows killSwitchGuard signal full := by
  rcases h.killSwitch with heq | hunknown
  · rw [killSwitchGuard_allows] at ha ⊢
    rwa [← heq]
  · rw [killSwitchGuard_allows, hunknown] at ha
    exact absurd ha.1 (by simp)

theorem reconciliationGuard_of_worse (h : worse.Worse signal.instrumentId full)
    (ha : Allows reconciliationGuard signal worse) : Allows reconciliationGuard signal full := by
  rw [reconciliationGuard_allows] at ha ⊢
  rcases h.reconciliation with heq | hne
  · rwa [← heq]
  · exact absurd ha hne

theorem staleDataGuard_of_worse (h : worse.Worse signal.instrumentId full)
    (ha : Allows staleDataGuard signal worse) : Allows staleDataGuard signal full := by
  rw [staleDataGuard, allows_blockIf] at ha ⊢
  have := h.stale
  cases hs : (full.market signal.instrumentId).stale <;> simp_all

variable [DecimalContext]

/-- The limit price is outside a circuit limit that is known. -/
def circuitBlocked (signal : Signal) (lower upper : Option Money) : Bool :=
  (lower.any fun lower => signal.limitPrice < lower) ||
    upper.any fun upper => upper < signal.limitPrice

theorem priceSanityGuard_allows {maxDeviationPct : Decimal} :
    Allows (priceSanityGuard maxDeviationPct) signal snapshot ↔
      circuitBlocked signal (snapshot.market signal.instrumentId).lowerCircuit
        (snapshot.market signal.instrumentId).upperCircuit = false ∧
      ∃ ltp, (snapshot.market signal.instrumentId).ltp = some ltp ∧ ltp.amount ≠ 0 ∧
        ¬ maxDeviationPct < (((signal.limitPrice.amount.sub ltp.amount).abs).div ltp.amount).mul 100 := by
  cases hltp : (snapshot.market signal.instrumentId).ltp with
  | none => simp [Allows, run, priceSanityGuard, hltp]
  | some ltp =>
      simp only [Allows, run, priceSanityGuard, blockIf, circuitBlocked, hltp, Option.elim_some]
      split_ifs <;> simp_all

theorem abnormalSpreadGuard_of_worse {maxSpreadBps : Decimal}
    (h : worse.Worse signal.instrumentId full)
    (ha : Allows (abnormalSpreadGuard maxSpreadBps) signal worse) :
    Allows (abnormalSpreadGuard maxSpreadBps) signal full := by
  unfold Allows run abnormalSpreadGuard at ha ⊢
  by_cases hentry : isEntry signal
  · cases hbid : (worse.market signal.instrumentId).bid with
    | none => simp [hentry, hbid] at ha
    | some bid =>
        cases hask : (worse.market signal.instrumentId).ask with
        | none => simp [hentry, hbid, hask] at ha
        | some ask =>
            simp only [hbid, hask] at ha
            simp only [h.bid.eq_of_some hbid, h.ask.eq_of_some hask]
            exact ha
  · simp [hentry]

/-- The rules that know of no lossy fact but the circuit limits. -/
def otherRules (limits : RiskLimits) (window : SessionWindow) : List RiskRule :=
  (StandardRuleSet.rules limits window).filter fun rule =>
    rule.name ≠ "MaxDailyLossGuard" ∧ rule.name ≠ "MaxStrategyLossGuard"

theorem mem_rules {limits : RiskLimits} {window : SessionWindow} {rule : RiskRule} :
    rule ∈ StandardRuleSet.rules limits window ↔ rule = tradingModeGuard ∨ rule = killSwitchGuard ∨
      rule = marketSessionGuard window ∨ rule = staleDataGuard ∨ rule = brokerHealthGuard ∨
      rule = reconciliationGuard ∨ rule = duplicateOrderGuard limits.duplicateWindow ∨
      rule = maxDailyLossGuard limits.maxDailyLoss ∨
      rule = maxStrategyLossGuard limits.maxStrategyLoss ∨
      rule = maxPositionValueGuard limits.maxPositionValue ∨
      (∃ cap, limits.maxRiskPerTrade = some cap ∧ maxRiskPerTradeGuard cap = rule) ∨
      rule = maxOpenPositionsGuard limits.maxOpenPositions ∨
      rule = maxCapitalDeployedGuard limits.maxCapitalDeployed ∨
      rule = maxOrderQuantityGuard limits.maxOrderQuantity ∨
      rule = priceSanityGuard limits.maxPriceDeviationPct ∨
      rule = abnormalSpreadGuard limits.maxSpreadBps ∨
      rule = orderRateGuard limits.maxOrdersPerSecond limits.maxOrdersPerMinute := by
  simp only [StandardRuleSet.rules, List.mem_append, List.mem_cons, List.not_mem_nil, or_false,
    Option.mem_toList, Option.map_eq_some_iff, or_assoc]

/-- Only the loss guards have their names. -/
theorem mem_otherRules {limits : RiskLimits} {window : SessionWindow} {rule : RiskRule} :
    rule ∈ otherRules limits window ↔ rule ∈ StandardRuleSet.rules limits window ∧
      rule ≠ maxDailyLossGuard limits.maxDailyLoss ∧
      rule ≠ maxStrategyLossGuard limits.maxStrategyLoss := by
  rw [otherRules, List.mem_filter, decide_eq_true_eq]
  refine and_congr_right fun hr => ⟨fun ⟨hd, hs⟩ => ⟨?_, ?_⟩, fun ⟨hd, hs⟩ => ?_⟩
  · rintro rfl
    exact hd rfl
  · rintro rfl
    exact hs rfl
  · rw [mem_rules] at hr
    rcases hr with rfl | rfl | rfl | rfl | rfl | rfl | rfl | rfl | rfl | rfl | ⟨cap, -, rfl⟩ | rfl |
      rfl | rfl | rfl | rfl | rfl <;>
    first
      | exact absurd rfl hd
      | exact absurd rfl hs
      | simp [tradingModeGuard, killSwitchGuard, marketSessionGuard, staleDataGuard,
          brokerHealthGuard, reconciliationGuard, duplicateOrderGuard, maxPositionValueGuard,
          maxRiskPerTradeGuard, maxOpenPositionsGuard, maxCapitalDeployedGuard,
          maxOrderQuantityGuard, priceSanityGuard, abnormalSpreadGuard, orderRateGuard]

/-- The standard rules are the other rules and the two loss guards. -/
theorem allows_rules {limits : RiskLimits} {window : SessionWindow} :
    (∀ rule ∈ StandardRuleSet.rules limits window, Allows rule signal snapshot) ↔
      (∀ rule ∈ otherRules limits window, Allows rule signal snapshot) ∧
      Allows (maxDailyLossGuard limits.maxDailyLoss) signal snapshot ∧
      Allows (maxStrategyLossGuard limits.maxStrategyLoss) signal snapshot := by
  constructor
  · intro h
    refine ⟨fun rule hr => h rule (mem_otherRules.1 hr).1, h _ (mem_rules.2 ?_),
      h _ (mem_rules.2 ?_)⟩ <;> simp
  · rintro ⟨hothers, hdaily, hstrategy⟩ rule hr
    by_cases hd : rule = maxDailyLossGuard limits.maxDailyLoss
    · exact hd ▸ hdaily
    · by_cases hs : rule = maxStrategyLossGuard limits.maxStrategyLoss
      · exact hs ▸ hstrategy
      · exact hothers rule (mem_otherRules.2 ⟨hr, hd, hs⟩)

/-- **Every other rule is monotone**, where the price is within the
circuit limits of the full facts. -/
theorem allows_of_worse {limits : RiskLimits} {window : SessionWindow} {rule : RiskRule}
    (h : worse.Worse signal.instrumentId full) (hr : rule ∈ otherRules limits window)
    (hcircuit : circuitBlocked signal (full.market signal.instrumentId).lowerCircuit
      (full.market signal.instrumentId).upperCircuit = false)
    (ha : Allows rule signal worse) : Allows rule signal full := by
  have hposition : worse.account.position = full.account.position := by
    unfold AccountFacts.position
    rw [h.positions]
  have hnet : netAfter signal worse = netAfter signal full := by
    unfold netAfter
    rw [hposition]
  have hadded : addedExposure signal worse = addedExposure signal full := by
    unfold addedExposure
    rw [hnet]
  obtain ⟨hr, hdaily, hstrategy⟩ := mem_otherRules.1 hr
  rw [mem_rules] at hr
  rcases hr with rfl | rfl | rfl | rfl | rfl | rfl | rfl | rfl | rfl | rfl | ⟨cap, -, rfl⟩ | rfl |
    rfl | rfl | rfl | rfl | rfl
  · exact allows_of_eq (by simp [tradingModeGuard, h.mode, h.liveTradingEnabled]) ha
  · exact killSwitchGuard_of_worse h ha
  · exact allows_of_eq (by simp [marketSessionGuard, h.now]) ha
  · exact staleDataGuard_of_worse h ha
  · rw [brokerHealthGuard_allows] at ha ⊢
    exact ⟨h.sessionOk ha.1, h.orderFeedOk ha.2⟩
  · exact reconciliationGuard_of_worse h ha
  · exact allows_of_eq (by simp [duplicateOrderGuard, h.flow, h.now]) ha
  · exact absurd rfl hdaily
  · exact absurd rfl hstrategy
  · exact allows_of_eq (by simp [maxPositionValueGuard, hnet, hadded]) ha
  · exact allows_of_eq rfl ha
  · refine allows_of_eq ?_ ha
    simp only [maxOpenPositionsGuard, hposition, AccountFacts.openPositionCount, h.positions]
    congr
  · refine allows_of_eq ?_ ha
    simp [maxCapitalDeployedGuard, hadded, AccountFacts.capitalDeployed, h.positions]
  · exact allows_of_eq rfl ha
  · rw [priceSanityGuard_allows] at ha ⊢
    obtain ⟨-, ltp, hltp, hrest⟩ := ha
    exact ⟨hcircuit, ltp, h.ltp.eq_of_some hltp, hrest⟩
  · exact abnormalSpreadGuard_of_worse h ha
  · exact allows_of_eq (by simp [orderRateGuard, h.flow, h.now]) ha

end RiskEngine

/-! ## Two reviews -/

namespace Sources

variable [DecimalContext] {signal : Signal} {worse full s : Sources} {limits : RiskLimits}
  {window : SessionWindow}

theorem snapshot_eq_ok {snapshot : RiskSnapshot} : s.snapshot signal = .ok snapshot ↔
    ∃ positions active recent, s.positions = .ok positions ∧ s.active = .ok active ∧
      s.recent = .ok recent ∧ snapshot =
        { now := s.now
          system := MonitoredSystemFacts.systemFacts s
          account := LedgerAccountFacts.accountFacts s positions
          flow := JournalOrderFlow.orderFlow active recent
          markets := fun instrumentId =>
            if instrumentId = signal.instrumentId then
              some (QuotedMarketFacts.marketFacts s signal.instrumentId)
            else none } := by
  unfold Sources.snapshot
  cases s.positions <;> cases s.active <;> cases s.recent <;>
    simp [bind, Except.bind, pure, Except.pure, eq_comm]

/-- What the three lossy checks read, on some facts. -/
def lossyBlocks (limits : RiskLimits) (signal : Signal) (s : Sources)
    (positions : List PositionRecord) : Bool :=
  (isEntry signal && lossBlocked limits.maxDailyLoss
      (LedgerAccountFacts.dailyPnl positions s.marks)) ||
    (isEntry signal && lossBlocked limits.maxStrategyLoss
      ((StrategyPositionBook.pnlByRun s.book s.marks signal.strategyRunId).getD Money.zero)) ||
    (QuotedMarketFacts.quoteOf s.quotes signal.instrumentId).any fun quote =>
      RiskEngine.circuitBlocked signal quote.lowerCircuit quote.upperCircuit

/-- The review of a signal on these facts, by the standard rules. -/
def review (limits : RiskLimits) (window : SessionWindow) (record : Except PyError Unit)
    (approvalId : String) (approvedAt : Timestamp) (signal : Signal) (signalId : String)
    (s : Sources) : Except PyError RiskDecision :=
  RiskEngine.review (StandardRuleSet.rules limits window) (by simp [StandardRuleSet.rules])
    ⟨s.snapshot signal, record, approvalId, approvedAt⟩ signal signalId

theorem market_of_snapshot {snapshot : RiskSnapshot} (h : s.snapshot signal = .ok snapshot) :
    snapshot.market signal.instrumentId = QuotedMarketFacts.marketFacts s signal.instrumentId := by
  obtain ⟨positions, active, recent, -, -, -, rfl⟩ := snapshot_eq_ok.1 h
  simp [RiskSnapshot.market]

omit [DecimalContext] in
/-- A market read from worse facts. -/
theorem Worse.market (h : worse.Worse full) (instrumentId : String) :
    LostOf (QuotedMarketFacts.marketFacts worse instrumentId).ltp
        (QuotedMarketFacts.marketFacts full instrumentId).ltp ∧
      LostOf (QuotedMarketFacts.marketFacts worse instrumentId).bid
        (QuotedMarketFacts.marketFacts full instrumentId).bid ∧
      LostOf (QuotedMarketFacts.marketFacts worse instrumentId).ask
        (QuotedMarketFacts.marketFacts full instrumentId).ask ∧
      ((QuotedMarketFacts.marketFacts full instrumentId).stale →
        (QuotedMarketFacts.marketFacts worse instrumentId).stale) := by
  unfold QuotedMarketFacts.marketFacts
  cases hq : QuotedMarketFacts.quoteOf worse.quotes instrumentId with
  | none => exact ⟨Or.inr rfl, Or.inr rfl, Or.inr rfl, fun _ => rfl⟩
  | some q =>
      obtain ⟨q', hq', hless⟩ := h.quote _ q hq
      rw [Option.mem_def] at hq'
      simp only [hq', hless.ltp]
      refine ⟨Or.inl rfl, hless.bid, hless.ask, ?_⟩
      rcases h.marks instrumentId with hm | hm <;> simp [hm]

/-- Worse facts make a worse snapshot. -/
theorem Worse.snapshot (h : worse.Worse full) {snapshot : RiskSnapshot}
    (hs : worse.snapshot signal = .ok snapshot) :
    ∃ snapshot', full.snapshot signal = .ok snapshot' ∧
      snapshot.Worse signal.instrumentId snapshot' := by
  have hm := market_of_snapshot hs
  obtain ⟨hltp, hbid, hask, hstale⟩ := h.market signal.instrumentId
  rw [← hm] at hltp hbid hask hstale
  obtain ⟨positions, active, recent, hp, ha, hr, rfl⟩ := snapshot_eq_ok.1 hs
  obtain ⟨hnow, hmode, hlive, hpositions, -, hactive, hrecent⟩ := h.same
  have hs' := (@snapshot_eq_ok _ signal _ _).mpr ⟨positions, active, recent, hpositions ▸ hp, hactive ▸ ha,
    hrecent ▸ hr, rfl⟩
  have hm' := market_of_snapshot hs'
  rw [← hm'] at hltp hbid hask hstale
  exact ⟨_, hs', hnow, hmode, hlive, h.killSwitch, h.sessionOk, h.orderFeedOk, h.reconciliation,
    rfl, rfl, hltp, hbid, hask, hstale⟩

/-- The lossy checks, as the rules make them. -/
theorem lossyBlocks_eq_false {snapshot : RiskSnapshot} {positions : List PositionRecord}
    (hp : s.positions = .ok positions) (hs : s.snapshot signal = .ok snapshot) :
    lossyBlocks limits signal s positions = false ↔
      RiskEngine.Allows (maxDailyLossGuard limits.maxDailyLoss) signal snapshot ∧
      RiskEngine.Allows (maxStrategyLossGuard limits.maxStrategyLoss) signal snapshot ∧
      RiskEngine.circuitBlocked signal (snapshot.market signal.instrumentId).lowerCircuit
        (snapshot.market signal.instrumentId).upperCircuit = false := by
  have hm := market_of_snapshot hs
  obtain ⟨positions', active, recent, hp', -, -, rfl⟩ := snapshot_eq_ok.1 hs
  obtain rfl : positions = positions' := Except.ok.inj (hp.symm.trans hp')
  rw [hm, maxDailyLossGuard, maxStrategyLossGuard, lossGuard, lossGuard, RiskEngine.allows_blockIf,
    RiskEngine.allows_blockIf]
  have hcircuit : ((QuotedMarketFacts.quoteOf s.quotes signal.instrumentId).any fun quote =>
      RiskEngine.circuitBlocked signal quote.lowerCircuit quote.upperCircuit) = false ↔
      RiskEngine.circuitBlocked signal
        (QuotedMarketFacts.marketFacts s signal.instrumentId).lowerCircuit
        (QuotedMarketFacts.marketFacts s signal.instrumentId).upperCircuit = false := by
    unfold QuotedMarketFacts.marketFacts
    cases QuotedMarketFacts.quoteOf s.quotes signal.instrumentId <;>
      simp [RiskEngine.circuitBlocked]
  rw [lossyBlocks, Bool.or_eq_false_iff, Bool.or_eq_false_iff, hcircuit, and_assoc]
  simp [LedgerAccountFacts.accountFacts]

/-- A review approves what every rule allows. -/
theorem approves_review {record : Except PyError Unit} {approvalId signalId : String}
    {approvedAt : Timestamp} :
    RiskEngine.approves (s.review limits window record approvalId approvedAt signal signalId) ↔
      ∃ snapshot, s.snapshot signal = .ok snapshot ∧
        ∀ rule ∈ StandardRuleSet.rules limits window, RiskEngine.Allows rule signal snapshot :=
  RiskEngine.approves_review

/-- A healthy venue and a long holding of `H` bought at 100, with marks and
a quote of `I`. -/
def sample (marks : String → Option Money) : Sources where
  now := 0
  mode := .paper
  liveTradingEnabled := false
  killSwitch := { halted := false, known := true, source := "all" }
  sessionOk := true
  orderFeedOk := true
  reconciliation := .clean
  positions := .ok [⟨"A:H", "A", "H", 10, ⟨100⟩, Money.zero, 0, some Money.zero, some Money.zero⟩]
  book := []
  marks := marks
  quotes := .ok [⟨"I", ⟨100⟩, some ⟨90⟩, some ⟨110⟩, some ⟨100⟩, some ⟨100⟩⟩]
  active := .ok []
  recent := .ok []

def sampleLimits : RiskLimits where
  maxDailyLoss := ⟨500⟩
  maxStrategyLoss := ⟨500⟩
  maxPositionValue := ⟨100000⟩
  maxOpenPositions := 5
  maxCapitalDeployed := ⟨100000⟩
  maxOrderQuantity := 100
  maxPriceDeviationPct := 5
  maxSpreadBps := 50
  duplicateWindow := Timestamp.second
  maxOrdersPerSecond := 5
  maxOrdersPerMinute := 50
  maxRiskPerTrade := none
  losses_pos := by decide
  values_pos := by decide
  counts_pos := by decide
  deviation_fits := by decide
  spread_pos := by decide
  window_pos := Timestamp.second_pos
  risk_pos := by simp

/-- The mark of `I`, and of `H` if there is one. -/
def sampleMarks (held : Option Money) (instrumentId : String) : Option Money :=
  if instrumentId = "I" then some ⟨100⟩ else if instrumentId = "H" then held else none

def sampleReview (signal : Signal) (s : Sources) : Except PyError RiskDecision :=
  @review Decimal.standard sampleLimits ⟨0, 86400 * Timestamp.second, fun _ => true⟩ (.ok ()) "P" 0
    signal "S" s

omit [DecimalContext] in
theorem sample_worse (held : Option Money) (switch : KillSwitchReading) :
    Worse { sample (sampleMarks none) with killSwitch := switch }
      { sample (sampleMarks held) with killSwitch := switch } where
  marks instrumentId := by
    unfold LostOf sampleMarks sample
    dsimp only
    split_ifs <;> simp
  quote _ q hq := ⟨q, hq, rfl, Or.inl rfl, Or.inl rfl, Or.inl rfl, Or.inl rfl⟩
  killSwitch := Or.inl rfl
  sessionOk h := h
  orderFeedOk h := h
  reconciliation := Or.inl rfl
  same := ⟨rfl, rfl, rfl, rfl, rfl, rfl, rfl⟩

end Sources

end Emporos
