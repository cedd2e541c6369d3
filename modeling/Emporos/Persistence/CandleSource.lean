import Emporos.Core.Errors
import Emporos.Domain.Candles
import Mathlib.Data.List.Sort
/-!
# A source of candles

What a reader of candles reads from: of each instrument and timeframe the
bars there are, oldest first.
-/

namespace Emporos

/-- What is read from: the bars of an instrument and timeframe. -/
structure CandleSource where
  bars : String → Timeframe → List Candle
  oldest_first : ∀ i tf, (bars i tf).Pairwise (·.ts < ·.ts)
  of_instrument : ∀ i tf, ∀ c ∈ bars i tf, c.instrumentId = i

namespace CandleSource

/-- Bars with `start <= ts < stop`. -/
def getRange (s : CandleSource) (i : String) (tf : Timeframe) (start stop : Timestamp) :
    List Candle :=
  (s.bars i tf).filter fun c => start ≤ c.ts ∧ c.ts < stop

theorem mem_getRange {s : CandleSource} {i : String} {tf : Timeframe} {start stop : Timestamp}
    {c : Candle} : c ∈ s.getRange i tf start stop ↔ c ∈ s.bars i tf ∧ start ≤ c.ts ∧ c.ts < stop := by
  simp only [getRange, List.mem_filter, decide_eq_true_eq]

/-- The same bars, but for some that the one or the other lacks or has
otherwise. -/
def AgreeBut (except : Candle → Prop) (s s' : CandleSource) : Prop :=
  ∀ i tf c, ¬except c → (c ∈ s.bars i tf ↔ c ∈ s'.bars i tf)

/-- **A range that has none of the bars two sources differ in reads the same
from both.** -/
theorem AgreeBut.getRange_eq {except : Candle → Prop} {s s' : CandleSource} {i : String}
    {tf : Timeframe} {start stop : Timestamp} (h : AgreeBut except s s')
    (hrange : ∀ c : Candle, c.instrumentId = i → start ≤ c.ts → c.ts < stop → ¬except c) :
    s.getRange i tf start stop = s'.getRange i tf start stop := by
  -- both are in the order of their times, so their members decide
  have : Std.Irrefl fun a b : Candle => a.ts < b.ts := ⟨fun a => lt_irrefl a.ts⟩
  have : Std.Antisymm fun a b : Candle => a.ts < b.ts := ⟨fun a b hab hba => absurd hba hab.asymm⟩
  refine ((s.oldest_first i tf).filter _).eq_of_mem_iff ((s'.oldest_first i tf).filter _) ?_
  intro c
  change c ∈ s.getRange i tf start stop ↔ c ∈ s'.getRange i tf start stop
  rw [mem_getRange, mem_getRange]
  constructor
  · rintro ⟨hc, hstart, hstop⟩
    have hsame := h i tf c (hrange c (s.of_instrument i tf c hc) hstart hstop)
    exact ⟨hsame.mp hc, hstart, hstop⟩
  · rintro ⟨hc, hstart, hstop⟩
    have hsame := h i tf c (hrange c (s'.of_instrument i tf c hc) hstart hstop)
    exact ⟨hsame.mpr hc, hstart, hstop⟩

end CandleSource

end Emporos
