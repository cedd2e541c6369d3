import Emporos.Paper.Account
/-!
# The backtest's book

The positions are the paper account's; the book adds the marks that value
them. Equity is the starting cash, what is realised after charges, and
what is unrealised. Its round trips are a module of their own; the curve
it reports is not modelled.
-/

namespace Emporos

/-- A fill of the simulated broker. -/
structure Fill where
  sequence : ℕ
  orderId : String
  instrumentId : String
  side : OrderSide
  quantity : ℕ
  price : Money
  ts : Timestamp
  strategyRunId : String
  run_named : strategyRunId ≠ ""
  quantity_pos : 0 < quantity

/-- The fill as the account books it. -/
def Fill.trade (fill : Fill) : BrokerTrade where
  tradeId := toString fill.sequence
  brokerOrderId := fill.orderId
  instrumentId := fill.instrumentId
  side := fill.side
  quantity := fill.quantity
  price := fill.price
  executedAt := some fill.ts
  quantity_pos := fill.quantity_pos

structure BacktestPortfolio where
  account : PaperAccount
  /-- The last price seen of an instrument. -/
  marks : String → Option Money
  cash_pos : Money.zero < account.startingCash

namespace BacktestPortfolio

def new (startingCash : Money) (h : Money.zero < startingCash) : BacktestPortfolio where
  account := .new startingCash h.le
  marks := fun _ => none
  cash_pos := h

def mark (p : BacktestPortfolio) (instrumentId : String) (price : Money) : BacktestPortfolio :=
  { p with marks := fun i => if i = instrumentId then some price else p.marks i }

def startingCash (p : BacktestPortfolio) : Money := p.account.startingCash

/-- The price the open quantity of a position is valued at: its cost where
nothing was seen. -/
def valuation (p : BacktestPortfolio) (state : PositionState) : Money :=
  (p.marks state.instrumentId).getD state.averagePrice

/-- What the strategy and the gate see as held. -/
def openPositions (p : BacktestPortfolio) : List Position :=
  (p.account.positions.filter fun s => s.netQuantity ≠ 0).map fun s =>
    ⟨s.instrumentId, s.netQuantity, s.averagePrice⟩

/-- The latest price seen of an instrument: its last bar close or fill. -/
def lastPrice (p : BacktestPortfolio) (instrumentId : String) : Except PyError Money :=
  match p.marks instrumentId with
  | some price => .ok price
  | none => .error (.other "LookupError")

variable [DecimalContext]

/-- Book one fill and the charges on it; its price marks the
instrument. -/
def apply (p : BacktestPortfolio) (fill : Fill) (charges : Money) :
    Except PyError BacktestPortfolio :=
  match h : p.account.apply fill.trade charges with
  | .error e => .error e
  | .ok account =>
      .ok { account := account
            marks := fun i => if i = fill.instrumentId then some fill.price else p.marks i
            cash_pos := by rw [PaperAccount.startingCash_of_apply h]; exact p.cash_pos }

theorem startingCash_of_apply {p p' : BacktestPortfolio} {fill : Fill} {charges : Money}
    (h : p.apply fill charges = .ok p') : p'.startingCash = p.startingCash := by
  unfold apply at h
  split at h
  · cases h
  · rename_i account haccount
    obtain rfl := Except.ok.inj h
    exact PaperAccount.startingCash_of_apply haccount

/-- Booked, after charges. -/
def realised (p : BacktestPortfolio) : Money := p.account.realised

def fees (p : BacktestPortfolio) : Money := p.account.fees

def unrealised (p : BacktestPortfolio) : Money :=
  (p.account.positions.filter fun s => s.netQuantity ≠ 0).foldl
    (fun total s =>
      total + ⟨((p.valuation s).amount.sub s.averagePrice.amount).mul s.netQuantity⟩) Money.zero

def equity (p : BacktestPortfolio) : Money := p.startingCash + p.realised + p.unrealised

end BacktestPortfolio

end Emporos
