import Emporos.Broker.Model
import Emporos.Common.Table
import Emporos.Portfolio.Ledger
import Emporos.Risk.Rules
/-!
# The facts a signal is judged on

How the snapshot is read from the platform's books and the market: the
account from the stored positions and the marks, each strategy run from
its own book, one instrument's market from a fresh quote, the order flow
from the journal. `Sources` is all of it at one moment, and
`Sources.snapshot` puts it together.
-/

namespace Emporos

structure Sources where
  now : Timestamp
  mode : TradingMode
  liveTradingEnabled : Bool
  /-- The monitor's reading of the switch. -/
  killSwitch : KillSwitchReading
  sessionOk : Bool
  orderFeedOk : Bool
  reconciliation : ReconciliationStatus
  /-- The account's positions, or why they could not be read. -/
  positions : Except PyError (List PositionRecord)
  /-- Each run's position in each instrument. -/
  book : List ((String × String) × PositionRecord)
  marks : String → Option Money
  /-- What the broker answers when it is asked for quotes. -/
  quotes : Except PyError (List Quote)
  active : Except PyError (List OrderRecord)
  /-- The orders created within the last minute. -/
  recent : Except PyError (List OrderRecord)

namespace MonitoredSystemFacts

def systemFacts (s : Sources) : SystemFacts where
  mode := s.mode
  liveTradingEnabled := s.liveTradingEnabled
  killSwitch := s.killSwitch
  brokerSessionOk := s.sessionOk
  orderFeedOk := s.orderFeedOk
  reconciliation := s.reconciliation

end MonitoredSystemFacts

namespace QuotedMarketFacts

/-- The quote of the instrument, if the broker could be asked and gave
one. -/
def quoteOf (quotes : Except PyError (List Quote)) (instrumentId : String) : Option Quote :=
  match quotes with
  | .ok list => list.find? fun q => q.instrumentId = instrumentId
  | .error _ => none

/-- A market that cannot be read is stale. -/
def marketFacts (s : Sources) (instrumentId : String) : InstrumentMarket :=
  match quoteOf s.quotes instrumentId with
  | none => { stale := true }
  | some quote =>
      { ltp := some quote.ltp, bid := quote.bid, ask := quote.ask,
        lowerCircuit := quote.lowerCircuit, upperCircuit := quote.upperCircuit,
        stale := (s.marks instrumentId).isNone }

end QuotedMarketFacts

namespace JournalOrderFlow

/-- Every order that is not terminal works. -/
def orderFlow (active recent : List OrderRecord) : OrderFlowFacts where
  working := (active.filter fun o => !o.state.terminal).map fun o =>
    ⟨o.instrumentId, o.side, o.createdAt⟩
  recentOrderTimes := recent.map (·.createdAt)

end JournalOrderFlow

variable [DecimalContext]

namespace StrategyPositionBook

/-- What a run's position is worth. Without a mark it is valued at cost. -/
def worth (marks : String → Option Money) (instrumentId : String) (held : PositionRecord) : Money :=
  match marks instrumentId with
  | some mark =>
      if held.netQuantity = 0 then held.realisedPnl
      else held.realisedPnl + PortfolioValuator.unrealisedOf held mark
  | none => held.realisedPnl

/-- Each run's profit, realised and unrealised. -/
def pnlByRun (book : List ((String × String) × PositionRecord)) (marks : String → Option Money) :
    String → Option Money :=
  book.foldl (fun totals entry =>
    Function.update totals entry.1.1
      (some ((totals entry.1.1).getD Money.zero + worth marks entry.1.2 entry.2))) fun _ => none

end StrategyPositionBook

namespace LedgerAccountFacts

omit [DecimalContext] in
/-- The positions that are not flat, one for each instrument. -/
def held (positions : List PositionRecord) : List Position :=
  (positions.filter fun p => p.netQuantity ≠ 0).foldl
    (fun rows p => Table.upsert (·.instrumentId) ⟨p.instrumentId, p.netQuantity, p.averagePrice⟩ rows)
    []

/-- The day's profit. Without every mark the unrealised part counts as
nothing. -/
def dailyPnl (positions : List PositionRecord) (marks : String → Option Money) : Money :=
  let valuation := PortfolioValuator.value positions marks
  valuation.realised + valuation.unrealised.getD Money.zero

def accountFacts (s : Sources) (positions : List PositionRecord) : AccountFacts where
  positions := held positions
  dailyPnl := dailyPnl positions s.marks
  strategyPnl := StrategyPositionBook.pnlByRun s.book s.marks

end LedgerAccountFacts

/-- `SnapshotAssembler.snapshot`: ask each source once. What cannot be
read fails the whole. -/
def Sources.snapshot (s : Sources) (signal : Signal) : Except PyError RiskSnapshot := do
  let positions ← s.positions
  let active ← s.active
  let recent ← s.recent
  pure
    { now := s.now
      system := MonitoredSystemFacts.systemFacts s
      account := LedgerAccountFacts.accountFacts s positions
      flow := JournalOrderFlow.orderFlow active recent
      markets := fun instrumentId =>
        if instrumentId = signal.instrumentId then
          some (QuotedMarketFacts.marketFacts s signal.instrumentId)
        else none }

end Emporos
