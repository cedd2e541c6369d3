import Emporos.Execution.Calls
/-!
# The price execution sends

A marketable limit is placed a little through the market and rounded to
the tick in the direction that keeps it marketable. A replacement is
priced by the repricing policy already, so it is not widened again.
-/

namespace Emporos

variable [DecimalContext]

/-- The buffer, as a fraction of the price. -/
structure MarketableLimit where
  buffer : Decimal
  nonneg : 0 ≤ buffer

namespace MarketableLimit

/-- The rule of `bps` basis points. -/
def ofBps (bps : Decimal) : Except PyError MarketableLimit :=
  if 0 ≤ bps then
    if nonneg : 0 ≤ Decimal.div bps 10000 then .ok ⟨Decimal.div bps 10000, nonneg⟩
    else .error (.other "InvalidOperation")
  else .error (.valueError "the limit buffer cannot be negative")

/-- A price rounded to the tick: up for a buy, down for a sale. -/
def toTick (price : Decimal) (tick : Money) (buying : Bool) : Money :=
  let ticks := price.div tick.amount
  ⟨Decimal.mul (if buying then (⌈ticks⌉ : ℚ) else (⌊ticks⌋ : ℚ)) tick.amount⟩

/-- The limit and the trigger to send for a signal. -/
def prices (rule : MarketableLimit) (signal : Signal) (tick : Money) :
    Except PyError (Money × Option Money) :=
  if tick ≤ Money.zero then .error (.valueError "a tick size must be positive")
  else
    let buying : Bool := signal.side = .buy
    let factor := if buying then Decimal.add 1 rule.buffer else Decimal.sub 1 rule.buffer
    let limit := match signal.orderType with
      | .limit => signal.limitPrice.amount.mul factor
      | .stoplossLimit => signal.limitPrice.amount
    .ok (toTick limit tick buying, signal.triggerPrice.map fun t => toTick t.amount tick buying)

end MarketableLimit

namespace MarketableLimitPricer

/-- Refuse a price the exchange would: not positive, or off the tick grid. -/
def requireLegal (instrumentId : String) (tick : Money) : Option Money → Except PyError Unit
  | none => .ok ()
  | some price =>
      if price ≤ Money.zero then
        .error (.invalidOrderPrice price.amount instrumentId tick.amount)
      else if tick.amount = 0 then .error (.other "InvalidOperation")
      else if (price.amount / tick.amount).isInt then .ok ()
      else .error (.invalidOrderPrice price.amount instrumentId tick.amount)

/-- The limit and the trigger sent, `rule` being the one of the signal's
run. -/
def price (rule : String → MarketableLimit) (signal : Signal) (marketable : Bool) :
    Program (Money × Option Money) := do
  let tick ← Program.await (.tickSize signal.instrumentId)
  let (limit, trigger) ←
    if marketable then Program.lift ((rule signal.strategyRunId).prices signal tick)
    else pure (signal.limitPrice, signal.triggerPrice)
  Program.lift (requireLegal signal.instrumentId tick (some limit))
  Program.lift (requireLegal signal.instrumentId tick trigger)
  pure (limit, trigger)

end MarketableLimitPricer

end Emporos
