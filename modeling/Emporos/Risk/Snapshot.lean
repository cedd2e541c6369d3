import Emporos.Domain.Signal
/-!
# The risk snapshot

The picture of the world a risk rule judges a signal against. Every
default is the one that blocks. A mapping is a function here where rules
only look keys up, and a list of its values where they run over it.
-/

namespace Emporos

inductive TradingMode
  | paper
  | live
  deriving DecidableEq

namespace TradingMode

def value : TradingMode → String
  | paper => "PAPER"
  | live => "LIVE"

end TradingMode

inductive ReconciliationStatus
  | pending
  | clean
  | failed
  deriving DecidableEq

namespace ReconciliationStatus

def value : ReconciliationStatus → String
  | pending => "PENDING"
  | clean => "CLEAN"
  | failed => "FAILED"

/-- The value in lower case. -/
def lower : ReconciliationStatus → String
  | pending => "pending"
  | clean => "clean"
  | failed => "failed"

end ReconciliationStatus

/-- Until the switch has been read it is not known, and that is treated as
halted. -/
structure KillSwitchReading where
  halted : Bool := true
  known : Bool := false
  source : String := "unread"
  reason : String := ""
  /-- Every source that is halted was set by a protective tripwire: new
  orders stay blocked, exits go through. -/
  exitsPermitted : Bool := false
  deriving DecidableEq

structure SystemFacts where
  mode : TradingMode := .live
  liveTradingEnabled : Bool := false
  killSwitch : KillSwitchReading := {}
  brokerSessionOk : Bool := false
  orderFeedOk : Bool := false
  reconciliation : ReconciliationStatus := .pending

/-- What is known about one instrument's market right now. -/
structure InstrumentMarket where
  ltp : Option Money := none
  bid : Option Money := none
  ask : Option Money := none
  lowerCircuit : Option Money := none
  upperCircuit : Option Money := none
  stale : Bool := true

/-- An order that is live, or unresolved, at the broker. -/
structure WorkingOrder where
  instrumentId : String
  side : OrderSide
  placedAt : Timestamp

structure AccountFacts where
  positions : List Position := []
  /-- Realised and unrealised, after charges. -/
  dailyPnl : Money := Money.zero
  strategyPnl : String → Option Money := fun _ => none

namespace AccountFacts

/-- The position in an instrument, flat if there is none. -/
def position (a : AccountFacts) (instrumentId : String) : Position :=
  (a.positions.find? fun p => p.instrumentId = instrumentId).getD (.flat instrumentId)

def openPositionCount (a : AccountFacts) : ℕ :=
  (a.positions.filter fun p => !p.isFlat).length

def capitalDeployed [DecimalContext] (a : AccountFacts) : Money :=
  a.positions.foldl (fun total p => total + p.averagePrice.times p.netQuantity.natAbs) Money.zero

end AccountFacts

structure OrderFlowFacts where
  working : List WorkingOrder := []
  /-- When orders were sent. -/
  recentOrderTimes : List Timestamp := []

structure RiskSnapshot where
  now : Timestamp
  system : SystemFacts := {}
  account : AccountFacts := {}
  flow : OrderFlowFacts := {}
  markets : String → Option InstrumentMarket := fun _ => none

namespace RiskSnapshot

/-- The market of an instrument, nothing being known of one that is not
listed. -/
def market (s : RiskSnapshot) (instrumentId : String) : InstrumentMarket :=
  (s.markets instrumentId).getD {}

end RiskSnapshot

end Emporos
