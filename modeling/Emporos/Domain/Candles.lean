import Emporos.Domain.Money
import Emporos.Core.Errors
/-!
# Candles

One closed bar of an instrument in a timeframe. The checks a bar makes when
it is built are fields.
-/

namespace Emporos

inductive Timeframe
  | m1
  | m5
  | m15
  | h1
  | d1
  deriving DecidableEq, Repr

namespace Timeframe

def value : Timeframe → String
  | m1 => "1m"
  | m5 => "5m"
  | m15 => "15m"
  | h1 => "1h"
  | d1 => "1d"

/-- Every timeframe, in the source's order. -/
def all : List Timeframe := [m1, m5, m15, h1, d1]

theorem mem_all (t : Timeframe) : t ∈ all := by cases t <;> decide

end Timeframe

/-- A closed bar; `isPartial` when it spans a gap of the feed. -/
structure Candle where
  instrumentId : String
  timeframe : Timeframe
  ts : Timestamp
  openPrice : Money
  high : Money
  low : Money
  close : Money
  volume : ℕ
  isPartial : Bool
  low_le_open : low ≤ openPrice
  open_le_high : openPrice ≤ high
  low_le_close : low ≤ close
  close_le_high : close ≤ high
  deriving DecidableEq

end Emporos
