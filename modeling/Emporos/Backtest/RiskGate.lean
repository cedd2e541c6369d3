import Emporos.Backtest.Portfolio
import Emporos.Risk.Worse
/-!
# The platform's rules over a simulated book

`RiskRuleGate` runs the live rules over a snapshot built from the
backtest's book. The day's profit it puts there takes the charges from a
realised profit that has them taken already, and is of the whole backtest
and not of the session. So the loss guard judges the day exactly where the
profit the session began with happens to equal all charges so far.
-/

namespace Emporos

namespace RiskRuleGate

/-- What a gate may look at, and what it remembers: the clock, the book,
the orders that rest in the broker, and when it let orders through. -/
structure Context where
  now : Timestamp
  portfolio : BacktestPortfolio
  openOrders : List (String × OrderSide)
  sent : List Timestamp

/-- The times the order-rate rule still counts. -/
def recent (ctx : Context) : List Timestamp :=
  ctx.sent.dropWhile fun t => 60 * Timestamp.second < ctx.now - t

variable [DecimalContext]

/-- Half the width of the band assumed around the last price. -/
def circuitBand : Decimal := 1 / 5

/-- `_snapshot`'s profit. -/
def pnl (portfolio : BacktestPortfolio) : Money :=
  portfolio.realised - portfolio.fees + portfolio.unrealised

/-- `_snapshot`. An instrument without a price raises. -/
def snapshot (ctx : Context) (signal : Signal) : Except PyError RiskSnapshot := do
  let last ← ctx.portfolio.lastPrice signal.instrumentId
  let band := last.amount.mul circuitBand
  let pnl := pnl ctx.portfolio
  pure {
    now := ctx.now
    system :=
      { mode := .paper, liveTradingEnabled := false,
        killSwitch := { halted := false, known := true, source := "backtest" },
        brokerSessionOk := true, orderFeedOk := true, reconciliation := .clean }
    account :=
      { positions := ctx.portfolio.openPositions
        dailyPnl := pnl
        strategyPnl := fun run => if run = signal.strategyRunId then some pnl else none }
    flow :=
      { working := ctx.openOrders.map fun o => ⟨o.1, o.2, ctx.now⟩
        recentOrderTimes := recent ctx }
    markets := fun i =>
      if i = signal.instrumentId then
        some { ltp := some last, bid := some last, ask := some last,
               lowerCircuit := some ⟨last.amount.sub band⟩,
               upperCircuit := some ⟨last.amount.add band⟩, stale := false }
      else none }

/-- The profit the rules are given is `pnl`. -/
theorem dailyPnl_of_snapshot {ctx : Context} {signal : Signal} {s : RiskSnapshot}
    (h : snapshot ctx signal = .ok s) : s.account.dailyPnl = pnl ctx.portfolio := by
  unfold snapshot at h
  cases hlast : ctx.portfolio.lastPrice signal.instrumentId with
  | error e =>
      rw [hlast] at h
      cases h
  | ok last =>
      rw [hlast] at h
      rw [← Except.ok.inj h]

/-- The verdict of the first rule that blocks, by its text. A rule that
raises ends the review. -/
def firstBlock (signal : Signal) (snapshot : RiskSnapshot) :
    List RiskRule → Except PyError (Option String)
  | [] => .ok none
  | rule :: rest => do
      let verdict ← rule.evaluate signal snapshot
      if verdict.allowed then firstBlock signal snapshot rest
      else pure (some (rule.name ++ ": " ++ verdict.reason))

/-- `review`: why the signal may not be traded, or the times the gate
remembers once it is let through. -/
def review (rules : List RiskRule) (ctx : Context) (signal : Signal) :
    Except PyError (String ⊕ List Timestamp) :=
  match snapshot ctx signal with
  | .error _ => .ok (.inl ("no price has been seen for " ++ signal.instrumentId))
  | .ok snapshot => do
      match ← firstBlock signal snapshot rules with
      | some reason => pure (.inl reason)
      | none => pure (.inr (recent ctx ++ [ctx.now]))

end RiskRuleGate

/-! ## Runs over sessions -/

/-- What happens to the book: a fill with its charges, a price seen, and
the start of a session. -/
inductive BookEvent
  | fill (fill : Fill) (charges : Money)
  | mark (instrumentId : String) (price : Money)
  | session

/-- The book, and its equity when the session started. -/
structure DayBook where
  portfolio : BacktestPortfolio
  opening : Money

namespace DayBook

variable [DecimalContext]

def new (startingCash : Money) (h : Money.zero < startingCash) : DayBook :=
  ⟨.new startingCash h, startingCash⟩

def step (book : DayBook) : BookEvent → Except PyError DayBook
  | .fill fill charges => do
      let portfolio ← book.portfolio.apply fill charges
      pure { book with portfolio }
  | .mark instrumentId price => pure { book with portfolio := book.portfolio.mark instrumentId price }
  | .session => pure { book with opening := book.portfolio.equity }

def run (book : DayBook) (events : List BookEvent) : Except PyError DayBook :=
  events.foldlM step book

/-- What the session has made: the equity now less the equity it started
with. -/
def dayPnl (book : DayBook) : ℚ := book.portfolio.equity.amount - book.opening.amount

/-- The snapshot has the day's profit, so that the loss guard blocks an
entry exactly when the day's loss exceeds the cap. -/
structure Checked (book : DayBook) (signal : Signal) (snapshot : RiskSnapshot) : Prop where
  pnl : snapshot.account.dailyPnl.amount = book.dayPnl
  guard : isEntry signal → ∀ cap : Money,
    ¬ RiskEngine.Allows (maxDailyLossGuard cap) signal snapshot ↔ cap.amount < -book.dayPnl

/-- The context has the digits for the sums of the valuation. -/
def Unrounded (book : DayBook) : Prop :=
  let p := book.portfolio
  Decimal.KeptSums p.startingCash.amount [p.realised.amount, p.unrealised.amount] ∧
  Decimal.KeptSums p.realised.amount [-p.fees.amount, p.unrealised.amount] ∧
  Decimal.Kept (-(p.realised.amount - p.fees.amount + p.unrealised.amount))

instance (book : DayBook) : Decidable book.Unrounded :=
  inferInstanceAs (Decidable (_ ∧ _ ∧ _))

variable {startingCash : Money} {hcash : Money.zero < startingCash} {book book' : DayBook}
  {event : BookEvent} {events : List BookEvent} {ctx : RiskRuleGate.Context} {signal : Signal}
  {snapshot : RiskSnapshot}

/-- No event changes the starting cash, and only a session the opening. -/
theorem step_keeps (h : book.step event = .ok book') :
    book'.portfolio.startingCash = book.portfolio.startingCash ∧
      (event ≠ .session → book'.opening = book.opening) := by
  cases event with
  | fill fill charges =>
      rw [step] at h
      cases hp : book.portfolio.apply fill charges with
      | error e =>
          rw [hp] at h
          cases h
      | ok portfolio =>
          rw [hp] at h
          obtain rfl := Except.ok.inj h
          exact ⟨BacktestPortfolio.startingCash_of_apply hp, fun _ => rfl⟩
  | mark instrumentId price =>
      obtain rfl := Except.ok.inj h
      exact ⟨rfl, fun _ => rfl⟩
  | session =>
      obtain rfl := Except.ok.inj h
      exact ⟨rfl, fun hne => absurd rfl hne⟩

theorem run_keeps (h : book.run events = .ok book') :
    book'.portfolio.startingCash = book.portfolio.startingCash ∧
      (BookEvent.session ∉ events → book'.opening = book.opening) := by
  induction events generalizing book with
  | nil =>
      obtain rfl := Except.ok.inj h
      exact ⟨rfl, fun _ => rfl⟩
  | cons event events ih =>
      rw [run, List.foldlM_cons] at h
      cases hstep : book.step event with
      | error e =>
          rw [hstep] at h
          cases h
      | ok next =>
          rw [hstep] at h
          obtain ⟨hcash, hopening⟩ := step_keeps hstep
          obtain ⟨hcash', hopening'⟩ := ih h
          refine ⟨hcash'.trans hcash, fun hnone => ?_⟩
          rw [List.mem_cons, not_or] at hnone
          exact (hopening' hnone.2).trans (hopening (Ne.symm hnone.1))

/-- **When the gate checks the day's profit.** After any run of fills,
marks and sessions, the profit in the snapshot is the session's, and the
loss guard blocks on the session's loss, exactly if the profit the session
began with equals all charges so far. -/
theorem checked_iff (hrun : (new startingCash hcash).run events = .ok book)
    (hportfolio : ctx.portfolio = book.portfolio)
    (hsnapshot : RiskRuleGate.snapshot ctx signal = .ok snapshot) (hkept : book.Unrounded) :
    book.Checked signal snapshot ↔
      book.opening.amount - startingCash.amount = book.portfolio.fees.amount := by
  obtain ⟨⟨hsum, hequity, -⟩, ⟨hnet, htotal, -⟩, hneg⟩ := hkept
  have hcash : book.portfolio.startingCash = startingCash := (run_keeps hrun).1
  have hpnl : snapshot.account.dailyPnl.amount = book.portfolio.realised.amount -
      book.portfolio.fees.amount + book.portfolio.unrealised.amount := by
    rw [RiskRuleGate.dailyPnl_of_snapshot hsnapshot, hportfolio, RiskRuleGate.pnl, Money.add_amount,
      Money.sub_amount, Decimal.sub, sub_eq_add_neg, hnet, Decimal.add, htotal]
  have hday : book.dayPnl = startingCash.amount + book.portfolio.realised.amount +
      book.portfolio.unrealised.amount - book.opening.amount := by
    rw [dayPnl, BacktestPortfolio.equity, Money.add_amount, Money.add_amount, Decimal.add,
      Decimal.add, hsum, hequity, hcash]
  have hpnl_iff : snapshot.account.dailyPnl.amount = book.dayPnl ↔
      book.opening.amount - startingCash.amount = book.portfolio.fees.amount := by
    rw [hpnl, hday]
    constructor
    · intro h
      linarith
    · intro h
      linarith
  refine ⟨fun h => hpnl_iff.mp h.pnl, fun h => ⟨hpnl_iff.mpr h, fun hentry cap => ?_⟩⟩
  -- the guard negates the profit, which the context keeps
  have hloss : (-snapshot.account.dailyPnl).amount = -book.dayPnl := by
    rw [← hpnl_iff.mpr h, Money.neg_amount, Decimal.neg, hpnl, hneg]
  rw [maxDailyLossGuard, lossGuard, RiskEngine.allows_blockIf, hentry, Bool.true_and,
    Bool.not_eq_false, lossBlocked, decide_eq_true_eq, Money.lt_iff, hloss]

/-- In the first session that is: as long as there are no charges. -/
theorem checked_first_iff (hrun : (new startingCash hcash).run events = .ok book)
    (hfirst : BookEvent.session ∉ events) (hportfolio : ctx.portfolio = book.portfolio)
    (hsnapshot : RiskRuleGate.snapshot ctx signal = .ok snapshot) (hkept : book.Unrounded) :
    book.Checked signal snapshot ↔ book.portfolio.fees.amount = 0 := by
  have hopening : book.opening = startingCash := (run_keeps hrun).2 hfirst
  rw [checked_iff hrun hportfolio hsnapshot hkept, hopening, sub_self, eq_comm]

/-! ## Small sessions -/

omit [DecimalContext]

theorem sample_named : "R" ≠ "" := by decide

/-- Ten of `I` at a price, with charges. -/
def sampleFill (side : OrderSide) (price charges : Decimal) : BookEvent :=
  .fill ⟨1, "O", "I", side, 10, ⟨price⟩, 0, "R", sample_named, Sample.ten_pos⟩ ⟨charges⟩

theorem sampleCash : Money.zero < ⟨1000⟩ := by simp [Money.lt_iff, Money.zero]

/-- The run of a thousand of cash. -/
def sampleRun (events : List BookEvent) : Except PyError DayBook :=
  @run Decimal.standard (@new ⟨1000⟩ sampleCash) events

/-- An entry of `I`, reviewed over a book. -/
def sampleSignal : Signal := .sample .buy 10 Sample.ten_pos

def sampleSnapshot (book : DayBook) : Except PyError RiskSnapshot :=
  @RiskRuleGate.snapshot Decimal.standard ⟨0, book.portfolio, [], []⟩ sampleSignal

/-- The profit of the snapshot and of the session. -/
def samplePnl (events : List BookEvent) : Except PyError (ℚ × ℚ) := do
  let book ← sampleRun events
  let snapshot ← sampleSnapshot book
  pure (snapshot.account.dailyPnl.amount, @dayPnl Decimal.standard book)

/-- A session makes twenty, half of it charges; the next one has no
trade. -/
def sampleEvents : List BookEvent :=
  [sampleFill .buy 100 5, sampleFill .sell 102 5, .session, .mark "I" ⟨102⟩]

theorem checked_sample : ∃ book snapshot, sampleRun sampleEvents = .ok book ∧
    sampleSnapshot book = .ok snapshot ∧ @Checked Decimal.standard book sampleSignal snapshot := by
  let _ := Decimal.standard
  have hall : (sampleRun sampleEvents).toOption.all (fun book => book.Unrounded ∧
      book.opening.amount - 1000 = book.portfolio.fees.amount ∧ (sampleSnapshot book).isOk) := by
    decide +kernel
  have hok : (sampleRun sampleEvents).isOk := by decide
  cases hrun : sampleRun sampleEvents with
  | error e =>
      rw [hrun] at hok
      cases hok
  | ok book =>
      rw [hrun] at hall
      obtain ⟨hkept, hopening, hsnapshot⟩ := of_decide_eq_true hall
      cases hs : sampleSnapshot book with
      | error e =>
          rw [hs] at hsnapshot
          cases hsnapshot
      | ok snapshot => exact ⟨book, snapshot, rfl, hs, (checked_iff hrun rfl hs hkept).mpr hopening⟩

/-- **Charges counted twice, and yesterday's loss.** After one purchase
with five of charges the snapshot has ten lost and the session five; in the
session after a loss of a hundred the snapshot still has it. -/
theorem charges_counted_twice :
    samplePnl [sampleFill .buy 100 5] = .ok (-10, -5) ∧
    samplePnl [sampleFill .buy 100 0, sampleFill .sell 90 0, .session] = .ok (-100, 0) := by
  constructor <;> decide +kernel

end DayBook

end Emporos
