import Emporos.Execution.Scripts
import Emporos.Risk.Worse
/-!
# What a replacement is judged on

A replacement is rebuilt from the persisted order, and the order does not
keep the signal's protective stop. Every rule reads the same of the
replacement as of the signal it stands for, but the one that caps the risk
to the stop: where that rule is in force it blocks the replacement of every
entry.
-/

namespace Emporos

open Async Program RiskEngine

/-- Two signals that ask for the same trade, whatever their stops. -/
structure Signal.Alike (a b : Signal) : Prop where
  strategyRunId : a.strategyRunId = b.strategyRunId
  instrumentId : a.instrumentId = b.instrumentId
  kind : a.kind = b.kind
  side : a.side = b.side
  orderType : a.orderType = b.orderType
  quantity : a.quantity = b.quantity
  limitPrice : a.limitPrice = b.limitPrice

/-- The signal asks for what `root` did, at another quantity and price and
with its stop. -/
structure Signal.Rest (root full : Signal) (quantity : ℕ) (price : Money) : Prop where
  strategyRunId : full.strategyRunId = root.strategyRunId
  instrumentId : full.instrumentId = root.instrumentId
  kind : full.kind = root.kind
  side : full.side = root.side
  orderType : full.orderType = root.orderType
  quantity : full.quantity = quantity
  limitPrice : full.limitPrice = price
  protectiveStop : full.protectiveStop = root.protectiveStop

namespace OrderRecord

/-- The order was placed for the signal, or replaces one that was: with
every change of state, it keeps what it was asked to do. -/
inductive CameFrom (cfg : EngineSettings) (root : Signal) : OrderRecord → Prop
  | placed {o : OrderRecord} {approval : RiskApprovedSignal} {parentOrderId : Option String}
      {orderId : String} {limit : Money} {trigger : Option Money} {now : Timestamp}
      (signal : approval.signal = root)
      (intent : o.intent = (ExecutionEngine.newOrder cfg approval none parentOrderId orderId limit
        trigger now).intent) : CameFrom cfg root o
  | replaced {order o parent : OrderRecord} {approval : RiskApprovedSignal} {runId kind : String}
      {signalKind : SignalKind} {remaining : ℕ} {candidate limit : Money} {trigger : Option Money}
      {orderId : String} {parentOrderId : Option String} {asked now : Timestamp}
      (chain : CameFrom cfg root order) (run : order.strategyRunId = some runId)
      (kinded : order.signalKind = some kind) (read : SignalKind.ofValue kind = .ok signalKind)
      (signal : Signal.make runId order.instrumentId signalKind order.side order.orderType remaining
        candidate asked (RepriceCoordinator.replacementOf order runId kind remaining
          candidate).reason none none = .ok approval.signal)
      (intent : o.intent = (ExecutionEngine.newOrder cfg approval (some parent) parentOrderId orderId
        limit trigger now).intent) : CameFrom cfg root o

/-- What an order keeps of the signal it came from. -/
structure Keeps (root : Signal) (o : OrderRecord) : Prop where
  strategyRunId : o.strategyRunId = some root.strategyRunId
  signalKind : o.signalKind = some root.kind.value
  instrumentId : o.instrumentId = root.instrumentId
  side : o.side = root.side
  orderType : o.orderType = root.orderType

theorem Keeps.of_intent {root : Signal} {o p : OrderRecord} (h : p.Keeps root)
    (hintent : o.intent = p.intent) : o.Keeps root where
  strategyRunId := (congrArg (·.strategyRunId) hintent).trans h.strategyRunId
  signalKind := (congrArg (·.signalKind) hintent).trans h.signalKind
  instrumentId := (instrumentId_of_intent hintent).trans h.instrumentId
  side := (side_of_intent hintent).trans h.side
  orderType := (orderType_of_intent hintent).trans h.orderType

/-- **The chain of an order keeps its signal**, but for the stop. -/
theorem CameFrom.keeps {cfg : EngineSettings} {root : Signal} {o : OrderRecord}
    (h : CameFrom cfg root o) : o.Keeps root := by
  induction h with
  | placed signal intent =>
      subst signal
      exact Keeps.of_intent ⟨rfl, rfl, rfl, rfl, rfl⟩ intent
  | replaced _ run kinded read signal intent ih =>
      obtain ⟨hrun, hinstrument, hkind, hside, htype, -⟩ := Signal.make_eq_ok signal
      rw [ih.strategyRunId] at run
      rw [ih.signalKind] at kinded
      obtain rfl := Option.some.inj run
      obtain rfl := Option.some.inj kinded
      rw [SignalKind.ofValue_value] at read
      obtain rfl := Except.ok.inj read
      refine Keeps.of_intent ⟨?_, ?_, ?_, ?_, ?_⟩ intent
      · exact congrArg some hrun
      · exact congrArg (fun k => some (SignalKind.value k)) hkind
      · exact hinstrument.trans ih.instrumentId
      · exact hside.trans ih.side
      · exact htype.trans ih.orderType

end OrderRecord

variable [DecimalContext] {limits : RiskLimits} {window : SessionWindow} {snapshot : RiskSnapshot}
  {full replaced : Signal}

/-- **The rules but one judge the trade alone.** -/
theorem allows_of_alike {rule : RiskRule} (h : full.Alike replaced)
    (hrule : rule ∈ StandardRuleSet.rules limits window)
    (hstop : ∀ cap, limits.maxRiskPerTrade = some cap → rule ≠ maxRiskPerTradeGuard cap) :
    Allows rule full snapshot ↔ Allows rule replaced snapshot := by
  have hentry : isEntry full = isEntry replaced := by rw [isEntry, isEntry, h.kind]
  have hnet : netAfter full snapshot = netAfter replaced snapshot := by
    rw [netAfter, netAfter, h.instrumentId, h.side, h.quantity]
  have hadded : addedExposure full snapshot = addedExposure replaced snapshot := by
    rw [addedExposure, addedExposure, hnet]
  have heq : rule.evaluate full snapshot = rule.evaluate replaced snapshot := by
    rw [mem_rules] at hrule
    rcases hrule with rfl | rfl | rfl | rfl | rfl | rfl | rfl | rfl | rfl | rfl | ⟨cap, hcap, rfl⟩ |
      rfl | rfl | rfl | rfl | rfl | rfl
    · rfl
    · simp only [killSwitchGuard, hentry]
    · rfl
    · simp only [staleDataGuard, hentry, h.instrumentId]
    · rfl
    · rfl
    · simp only [duplicateOrderGuard, h.instrumentId, h.side]
    · simp only [maxDailyLossGuard, lossGuard, hentry]
    · simp only [maxStrategyLossGuard, lossGuard, hentry, h.strategyRunId]
    · simp only [maxPositionValueGuard, hadded, hnet, h.limitPrice]
    · exact absurd rfl (hstop cap hcap)
    · simp only [maxOpenPositionsGuard, h.instrumentId]
    · simp only [maxCapitalDeployedGuard, hadded, h.limitPrice]
    · simp only [maxOrderQuantityGuard, h.quantity]
    · simp only [priceSanityGuard, h.instrumentId, h.limitPrice]
    · simp only [abnormalSpreadGuard, hentry, h.instrumentId]
    · rfl
  rw [Allows, Allows, run, run, heq]

/-- Without a stop, the risk to it blocks every entry and nothing else. -/
theorem maxRiskPerTradeGuard_allows {cap : Money} (h : replaced.protectiveStop = none) :
    Allows (maxRiskPerTradeGuard cap) replaced snapshot ↔ replaced.kind = .exit := by
  rw [Allows, run]
  simp only [maxRiskPerTradeGuard, isEntry, h]
  cases replaced.kind <;> simp

/-- **When what is left of an approved signal is approved without its
stop.** -/
theorem allows_replaced_iff (h : full.Alike replaced) (hstop : replaced.protectiveStop = none)
    (hfull : ∀ rule ∈ StandardRuleSet.rules limits window, Allows rule full snapshot) :
    (∀ rule ∈ StandardRuleSet.rules limits window, Allows rule replaced snapshot) ↔
      limits.maxRiskPerTrade = none ∨ replaced.kind = .exit := by
  constructor
  · intro hall
    cases hcap : limits.maxRiskPerTrade with
    | none => exact .inl rfl
    | some cap =>
        have hmem : maxRiskPerTradeGuard cap ∈ StandardRuleSet.rules limits window := by
          rw [mem_rules]
          simp [hcap]
        exact .inr ((maxRiskPerTradeGuard_allows hstop).mp (hall _ hmem))
  · intro hcond rule hrule
    by_cases hguard : ∃ cap, limits.maxRiskPerTrade = some cap ∧ rule = maxRiskPerTradeGuard cap
    · obtain ⟨cap, hcap, rfl⟩ := hguard
      rw [hcap] at hcond
      exact (maxRiskPerTradeGuard_allows hstop).mpr (hcond.resolve_left (by simp))
    · refine (allows_of_alike h hrule fun cap hcap heq => ?_).mp (hfull rule hrule)
      exact hguard ⟨cap, hcap, heq⟩

/-! ## The review of a replacement -/

/-- What execution is told of a decision. -/
def RiskDecision.verdict : RiskDecision → RiskVerdict
  | .approved a => .approved a.approvalId a.approvedAt a.rulesPassed a.passed_ne_nil
  | .rejected r => .rejected r.rule r.reason

/-- The risk engine and the clock answer. -/
def judge (rules : List RiskRule) (hrules : rules ≠ []) (ctx : Context) (now : Timestamp) :
    (c : Call) → Unit → c.Answer × Unit
  | .now, _ => (.ok now, ())
  | .review signal signalId, _ =>
      ((RiskEngine.review rules hrules ctx signal signalId).map RiskDecision.verdict, ())
  | _, _ => (.error (.other "unasked"), ())

omit [DecimalContext] in
/-- A replacement that is a signal is judged as it. -/
theorem approves_replacement {rules : List RiskRule} {hrules : rules ≠ []} {ctx : Context}
    {now : Timestamp} {r : Replacement} {kind : SignalKind} {signal : Signal}
    (hkind : SignalKind.ofValue r.kind = .ok kind)
    (hsignal : Signal.make r.strategyRunId r.instrumentId kind r.side r.orderType r.quantity
      r.limitPrice now r.reason none none = .ok signal) :
    approves (Task.exec (judge rules hrules ctx now) (RiskReplacementReviewer.review r) ()).1 ↔
      approves (RiskEngine.review rules hrules ctx signal r.key) := by
  have hnow : Task.exec (judge rules hrules ctx now) (await .now) () = (.ok now, ()) := rfl
  have hasked : Task.exec (judge rules hrules ctx now) (await (.review signal r.key)) () =
      ((RiskEngine.review rules hrules ctx signal r.key).map RiskDecision.verdict, ()) := rfl
  unfold RiskReplacementReviewer.review
  simp only [Task.exec_bind, hkind, hsignal, hnow, Program.lift, Task.exec_lift, hasked]
  cases hreview : RiskEngine.review rules hrules ctx signal r.key with
  | error e => rfl
  | ok decision =>
      cases decision with
      | approved approval => exact Iff.rfl
      | rejected rejection => exact Iff.rfl

omit [DecimalContext] in
/-- The reason of a replacement says something. -/
theorem explained (n id : String) : Text.isMeaningful ("reprice " ++ n ++ " of " ++ id) := by
  simp only [Text.isMeaningful, String.toList_append, List.any_append, Bool.or_eq_true]
  exact .inl (.inl (.inl (by decide)))

theorem rules_ne_nil : StandardRuleSet.rules limits window ≠ [] := by
  simp [StandardRuleSet.rules]

/-- **When a replacement is judged like the order it replaces**: no cap on
the risk to the stop is in force, or the order is an exit. -/
theorem replacement_approved_iff {cfg : Settings} {root full : Signal} {order : OrderRecord}
    {candidate : Money} {age : Duration} {remaining : ℕ} {runId kind signalId : String}
    {ctx : Context} {now : Timestamp} (hfrom : order.CameFrom cfg.engine root)
    (hrun : order.strategyRunId = some runId) (hkind : order.signalKind = some kind)
    (hpolicy : cfg.policy.validate order order.repriceCount order.chainPrice candidate age = .ok ())
    (hremaining : 0 < remaining) (hfull : root.Rest full remaining candidate)
    (happroved : approves (RiskEngine.review (StandardRuleSet.rules limits window) rules_ne_nil ctx
      full signalId)) :
    approves (Task.exec (judge (StandardRuleSet.rules limits window) rules_ne_nil ctx now)
      (RiskReplacementReviewer.review
        (RepriceCoordinator.replacementOf order runId kind remaining candidate)) ()).1 ↔
      limits.maxRiskPerTrade = none ∨ root.kind = .exit := by
  have hkeeps := hfrom.keeps
  obtain rfl := Option.some.inj (hrun.symm.trans hkeeps.strategyRunId)
  obtain rfl := Option.some.inj (hkind.symm.trans hkeeps.signalKind)
  obtain ⟨htype, -, -, -, hcandidate, -⟩ := RepricePolicy.validate_eq_ok.mp hpolicy
  let r := RepriceCoordinator.replacementOf order root.strategyRunId root.kind.value remaining
    candidate
  -- what the policy lets pass makes a signal, one without a stop
  have hmade : ∃ replaced, Signal.make r.strategyRunId r.instrumentId root.kind r.side r.orderType
      r.quantity r.limitPrice now r.reason none none = .ok replaced := by
    have hnamed : root.strategyRunId ≠ "" ∧ order.instrumentId ≠ "" :=
      hkeeps.instrumentId ▸ root.named
    have hfits : triggerFits order.orderType none := by rw [htype]; trivial
    exact Signal.exists_make hnamed (explained _ _) hremaining hcandidate hfits trivial
  obtain ⟨replaced, hmade⟩ := hmade
  obtain ⟨hrun', hinstrument, hkind', hside, htype', hquantity, hlimit, -, -, -, hstop⟩ :=
    Signal.make_eq_ok hmade
  have halike : full.Alike replaced :=
    ⟨hfull.strategyRunId.trans hrun'.symm,
      hfull.instrumentId.trans (hkeeps.instrumentId.symm.trans hinstrument.symm),
      hfull.kind.trans hkind'.symm, hfull.side.trans (hkeeps.side.symm.trans hside.symm),
      hfull.orderType.trans (hkeeps.orderType.symm.trans htype'.symm),
      hfull.quantity.trans hquantity.symm, hfull.limitPrice.trans hlimit.symm⟩
  obtain ⟨snapshot, hsnapshot, hall⟩ := approves_review.mp happroved
  rw [approves_replacement (SignalKind.ofValue_value _) hmade, approves_review, ← hkind',
    ← allows_replaced_iff halike hstop hall]
  constructor
  · rintro ⟨snapshot', hsnapshot', hall'⟩
    obtain rfl := Except.ok.inj (hsnapshot.symm.trans hsnapshot')
    exact hall'
  · exact fun hall' => ⟨snapshot, hsnapshot, hall'⟩

omit [DecimalContext]

/-! ## An entry with a stop -/

namespace Sample

theorem stop_fits : stopFits .entry .buy ⟨100⟩ (some ⟨99⟩) := by
  norm_num [stopFits, Money.lt_iff, Money.zero]

/-- Ten of `I` are bought at 100, with a stop at 99. -/
def stopped : Signal := { Signal.sample .buy 10 ten_pos with
  protectiveStop := some ⟨99⟩
  stop_fits := stop_fits }

def stoppedApproval : RiskApprovedSignal := { approval "S" .buy 10 ten_pos with signal := stopped }

/-- The order placed for it. -/
def stoppedOrder : OrderRecord :=
  ExecutionEngine.newOrder settings.engine stoppedApproval none none "O" ⟨100⟩ none 0

theorem stoppedOrder_cameFrom : stoppedOrder.CameFrom settings.engine stopped :=
  have hsignal : stoppedApproval.signal = stopped := rfl
  .placed hsignal rfl

/-- A session that is open all day. -/
def allDay : SessionWindow := ⟨0, 86400 * Timestamp.second, fun _ => true⟩

/-- A healthy state, and what is judged in it. -/
def healthy : Context where
  snapshot := @Sources.snapshot Decimal.standard (Sources.sample (Sources.sampleMarks (some ⟨100⟩)))
    stopped
  record := .ok ()
  approvalId := "P"
  approvedAt := 0

/-- What becomes of the order's replacement at 100. -/
def judged (limits : RiskLimits) : Except PyError RiskDecision :=
  (Task.exec (judge (@StandardRuleSet.rules Decimal.standard limits allDay)
      (@rules_ne_nil Decimal.standard limits allDay) healthy 0)
    (RiskReplacementReviewer.review
      (RepriceCoordinator.replacementOf stoppedOrder "R" "ENTRY" 10 ⟨100⟩)) ()).1

/-- The same review of the signal itself. -/
def judgedItself (limits : RiskLimits) : Except PyError RiskDecision :=
  RiskEngine.review (@StandardRuleSet.rules Decimal.standard limits allDay)
    (@rules_ne_nil Decimal.standard limits allDay) healthy stopped "S"

theorem thousand_pos : ∀ cap ∈ some (Money.mk 1000), Money.zero < cap := by
  simp [Money.lt_iff, Money.zero]

/-- The sample limits, with at most a thousand at risk on a trade. -/
def capped : RiskLimits := { Sources.sampleLimits with
  maxRiskPerTrade := some ⟨1000⟩
  risk_pos := thousand_pos }

end Sample

open Sample

theorem replacement_approved_sample : approves (judged Sources.sampleLimits) :=
  (@replacement_approved_iff Decimal.standard _ _ settings _ _ _ ⟨100⟩ Timestamp.second 10 _ _ "S"
    healthy 0 stoppedOrder_cameFrom rfl rfl (by decide +kernel) ten_pos
    ⟨rfl, rfl, rfl, rfl, rfl, rfl, rfl, rfl⟩ (by decide +kernel)).mpr (.inl rfl)

/-- **The stop is lost.** With ten of the thousand at risk the signal is
approved, and the rest of its order is refused. -/
theorem replacement_refused : approves (judgedItself capped) ∧ ¬ approves (judged capped) := by
  decide +kernel

end Emporos
