import Emporos.Core.FloatTime
/-!
# Moments with a wall clock

An aware `datetime`: a moment, and by how much its clock is ahead of UTC.
What the clock shows lies in the years 1 to 9999. Comparison is that of the
moments.
-/

namespace Emporos

structure Zoned where
  moment : Timestamp
  offset : Duration
  offset_lt : |offset| < 86400 * Timestamp.second
  earliest_le : Timestamp.earliest ≤ moment + offset
  le_latest : moment + offset ≤ Timestamp.latest

/-- What the clock shows, as a moment of UTC. -/
def Zoned.wall (z : Zoned) : Timestamp := z.moment + z.offset

end Emporos
