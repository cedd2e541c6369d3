import Emporos.Execution.Requests
import Emporos.Execution.Scripts
import Emporos.Risk.Worse
/-!
# The band the price must lie in

`PriceSanityGuard` asks of a price that it lies within the circuit limits
and not too far from the last price, and it asks that of the signal's own
price. What execution sends is that price widened by the buffer and put on
the tick grid, away from it: the price sent is in the band exactly if some
price of the grid at or past the widened one has not left the band on that
side, and none is still outside it on the other.
-/

namespace Emporos

open Async Program

variable [DecimalContext]

namespace InstrumentMarket

/-- How far a price is from the last one, in percent of it. -/
def deviation (ltp price : Money) : Decimal :=
  (((price.amount.sub ltp.amount).abs).div ltp.amount).mul 100

/-- Within the circuit limits, and at most so far from the last price. -/
structure Sane (market : InstrumentMarket) (cap : Decimal) (price : Money) : Prop where
  lower : ∀ lower ∈ market.lowerCircuit, lower ≤ price
  upper : ∀ upper ∈ market.upperCircuit, price ≤ upper
  near : ∃ ltp ∈ market.ltp, ltp.amount ≠ 0 ∧ deviation ltp price ≤ cap

/-- Below the lower circuit, or too far below the last price. -/
def TooLow (market : InstrumentMarket) (cap : Decimal) (price : Money) : Prop :=
  (∃ lower ∈ market.lowerCircuit, price < lower) ∨
    ∃ ltp ∈ market.ltp, price ≤ ltp ∧ cap < deviation ltp price

/-- Above the upper circuit, or too far above the last price. -/
def TooHigh (market : InstrumentMarket) (cap : Decimal) (price : Money) : Prop :=
  (∃ upper ∈ market.upperCircuit, upper < price) ∨
    ∃ ltp ∈ market.ltp, ltp ≤ price ∧ cap < deviation ltp price

variable {market : InstrumentMarket} {cap : Decimal} {price lower higher : Money}

/-- **What the guard asks.** -/
theorem allows_iff_sane {signal : Signal} {snapshot : RiskSnapshot} :
    RiskEngine.Allows (priceSanityGuard cap) signal snapshot ↔
      (snapshot.market signal.instrumentId).Sane cap signal.limitPrice := by
  rw [RiskEngine.priceSanityGuard_allows, RiskEngine.circuitBlocked, Bool.or_eq_false_iff]
  simp only [Option.any_eq_false, decide_eq_false_iff_not, not_lt]
  constructor
  · rintro ⟨⟨hlower, hupper⟩, hnear⟩
    exact ⟨hlower, hupper, hnear⟩
  · exact fun h => ⟨⟨h.lower, h.upper⟩, h.near⟩

theorem sane_iff : market.Sane cap price ↔ (∃ ltp ∈ market.ltp, ltp.amount ≠ 0) ∧
    ¬ market.TooLow cap price ∧ ¬ market.TooHigh cap price := by
  constructor
  · rintro ⟨hlower, hupper, ltp, hltp, hzero, hnear⟩
    refine ⟨⟨ltp, hltp, hzero⟩, ?_, ?_⟩
    · rintro (⟨lower, hl, hlt⟩ | ⟨ltp', hltp', -, hfar⟩)
      · exact not_le.mpr hlt (hlower lower hl)
      · obtain rfl := Option.mem_unique hltp hltp'
        exact not_le.mpr hfar hnear
    · rintro (⟨upper, hu, hlt⟩ | ⟨ltp', hltp', -, hfar⟩)
      · exact not_le.mpr hlt (hupper upper hu)
      · obtain rfl := Option.mem_unique hltp hltp'
        exact not_le.mpr hfar hnear
  · rintro ⟨⟨ltp, hltp, hzero⟩, hlow, hhigh⟩
    rw [TooLow, not_or] at hlow
    rw [TooHigh, not_or] at hhigh
    refine ⟨fun lower hl => not_lt.mp fun h => hlow.1 ⟨lower, hl, h⟩,
      fun upper hu => not_lt.mp fun h => hhigh.1 ⟨upper, hu, h⟩, ltp, hltp, hzero, not_lt.mp ?_⟩
    intro hfar
    rcases le_total price ltp with hle | hle
    · exact hlow.2 ⟨ltp, hltp, hle, hfar⟩
    · exact hhigh.2 ⟨ltp, hltp, hle, hfar⟩

section Ordered

variable [Decimal.Ordered]

theorem deviation_le {ltp near far : Money} (hltp : 0 ≤ ltp.amount)
    (h : |near.amount.sub ltp.amount| ≤ |far.amount.sub ltp.amount|) :
    deviation ltp near ≤ deviation ltp far :=
  Decimal.mul_le_mul_right (Decimal.div_le_div_right (Decimal.abs_le_abs h) hltp) (by norm_num)

/-- A price is never too far from a last price that is not positive. -/
theorem deviation_nonpos {ltp : Money} (hltp : ltp.amount ≤ 0) : deviation ltp price ≤ 0 := by
  have habs : 0 ≤ (price.amount.sub ltp.amount).abs := by
    have := Decimal.abs_le_abs (a := 0) (b := price.amount.sub ltp.amount) (by simp)
    simpa [Decimal.abs, DecimalContext.round_zero] using this
  have hquotient : (price.amount.sub ltp.amount).abs.div ltp.amount ≤ 0 := by
    have := Decimal.Ordered.round_le (div_nonpos_of_nonneg_of_nonpos habs hltp)
    rwa [DecimalContext.round_zero] at this
  have := Decimal.mul_le_mul_right hquotient (c := 100) (by norm_num)
  simpa [deviation, Decimal.mul, DecimalContext.round_zero] using this

/-- Too high stays too high further up. -/
theorem TooHigh.mono (hcap : 0 < cap) (h : market.TooHigh cap lower) (hle : lower ≤ higher) :
    market.TooHigh cap higher := by
  rcases h with ⟨upper, hu, hlt⟩ | ⟨ltp, hltp, hle', hfar⟩
  · exact .inl ⟨upper, hu, hlt.trans_le hle⟩
  · rcases le_total ltp.amount 0 with hneg | hpos
    · exact absurd (hfar.trans_le (deviation_nonpos hneg)) hcap.le.not_gt
    · refine .inr ⟨ltp, hltp, hle'.trans hle, hfar.trans_le (deviation_le hpos ?_)⟩
      have hnear : 0 ≤ lower.amount.sub ltp.amount := Decimal.sub_nonneg hle'
      have : lower.amount.sub ltp.amount ≤ higher.amount.sub ltp.amount :=
        Decimal.sub_le_sub_right hle _
      exact abs_le_abs_of_nonneg hnear this

/-- Too low stays too low further down. -/
theorem TooLow.mono (hcap : 0 < cap) (h : market.TooLow cap higher) (hle : lower ≤ higher) :
    market.TooLow cap lower := by
  rcases h with ⟨least, hl, hlt⟩ | ⟨ltp, hltp, hle', hfar⟩
  · exact .inl ⟨least, hl, hle.trans_lt hlt⟩
  · rcases le_total ltp.amount 0 with hneg | hpos
    · exact absurd (hfar.trans_le (deviation_nonpos hneg)) hcap.le.not_gt
    · refine .inr ⟨ltp, hltp, hle.trans hle', hfar.trans_le (deviation_le hpos ?_)⟩
      have hnear : higher.amount.sub ltp.amount ≤ 0 := Decimal.sub_nonpos hle'
      have : lower.amount.sub ltp.amount ≤ higher.amount.sub ltp.amount :=
        Decimal.sub_le_sub_right hle _
      rw [abs_of_nonpos hnear, abs_of_nonpos (this.trans hnear)]
      linarith

end Ordered

/-- Out of the band on the side a price is widened to. -/
def Overshot (market : InstrumentMarket) (cap : Decimal) (side : OrderSide) (price : Money) : Prop :=
  match side with
  | .buy => market.TooHigh cap price
  | .sell => market.TooLow cap price

/-- Out of the band on the other side. -/
def Short (market : InstrumentMarket) (cap : Decimal) (side : OrderSide) (price : Money) : Prop :=
  match side with
  | .buy => market.TooLow cap price
  | .sell => market.TooHigh cap price

theorem sane_iff_side (side : OrderSide) : market.Sane cap price ↔
    (∃ ltp ∈ market.ltp, ltp.amount ≠ 0) ∧ ¬ market.Short cap side price ∧
      ¬ market.Overshot cap side price := by
  cases side with
  | buy => exact sane_iff
  | sell => rw [sane_iff, and_comm (a := ¬ market.TooLow cap price)]; rfl

end InstrumentMarket

/-! ## The price of a signal -/

namespace MarketableLimit

/-- The price a signal's limit is widened to, before the grid. -/
def widened (rule : MarketableLimit) (signal : Signal) : Decimal :=
  match signal.orderType with
  | .limit => signal.limitPrice.amount.mul
      (if signal.side = .buy then Decimal.add 1 rule.buffer else Decimal.sub 1 rule.buffer)
  | .stoplossLimit => signal.limitPrice.amount

/-- A price of the tick grid. -/
def grid (tick : Money) (n : ℤ) : Money := ⟨Decimal.mul n tick.amount⟩

/-- The price of the grid is at or past the widened one. -/
def Past (rule : MarketableLimit) (signal : Signal) (tick : Money) (n : ℤ) : Prop :=
  match signal.side with
  | .buy => (rule.widened signal).div tick.amount ≤ n
  | .sell => (n : ℚ) ≤ (rule.widened signal).div tick.amount

/-- The band has room for the price widened. -/
structure Room (rule : MarketableLimit) (market : InstrumentMarket) (cap : Decimal)
    (signal : Signal) (tick : Money) : Prop where
  inside : ∃ n, rule.Past signal tick n ∧ ¬ market.Overshot cap signal.side (grid tick n)
  reached : ∀ n, rule.Past signal tick n → ¬ market.Short cap signal.side (grid tick n)

variable {rule : MarketableLimit} {market : InstrumentMarket} {cap : Decimal} {signal : Signal}
  {tick limit : Money} {trigger : Option Money}

/-- The limit sent is the first price of the grid at or past the widened
one. -/
theorem limit_of_prices (h : rule.prices signal tick = .ok (limit, trigger)) :
    Money.zero < tick ∧ ∃ n, limit = grid tick n ∧ rule.Past signal tick n ∧
      ∀ m, rule.Past signal tick m → match signal.side with
        | .buy => n ≤ m
        | .sell => m ≤ n := by
  unfold prices at h
  split_ifs at h with htick
  obtain ⟨rfl, -⟩ := Prod.mk.inj (Except.ok.inj h)
  refine ⟨not_le.mp htick, ?_⟩
  cases hside : signal.side with
  | buy =>
      refine ⟨⌈(rule.widened signal).div tick.amount⌉, ?_, ?_, fun m hm => ?_⟩
      · cases hkind : signal.orderType <;> simp [grid, toTick, widened, hside, hkind]
      · simpa only [Past, hside] using Int.le_ceil _
      · simp only [Past, hside] at hm
        exact Int.ceil_le.mpr hm
  | sell =>
      refine ⟨⌊(rule.widened signal).div tick.amount⌋, ?_, ?_, fun m hm => ?_⟩
      · cases hkind : signal.orderType <;> simp [grid, toTick, widened, hside, hkind]
      · simpa only [Past, hside] using Int.floor_le _
      · simp only [Past, hside] at hm
        exact Int.le_floor.mpr hm

variable [Decimal.Ordered]

theorem grid_mono (htick : Money.zero < tick) {n m : ℤ} (h : n ≤ m) : grid tick n ≤ grid tick m :=
  Decimal.mul_le_mul_right (by exact_mod_cast h) (Money.lt_iff.mp htick).le

/-- **When the price sent is in the band.** -/
theorem sane_iff_room (hcap : 0 < cap) (hltp : ∃ ltp ∈ market.ltp, ltp.amount ≠ 0)
    (h : rule.prices signal tick = .ok (limit, trigger)) :
    market.Sane cap limit ↔ rule.Room market cap signal tick := by
  obtain ⟨htick, n, rfl, hpast, hfirst⟩ := limit_of_prices h
  rw [InstrumentMarket.sane_iff_side signal.side, and_iff_right hltp]
  constructor
  · rintro ⟨hshort, hover⟩
    refine ⟨⟨n, hpast, hover⟩, fun m hm hshort' => hshort ?_⟩
    have hnm := hfirst m hm
    cases hside : signal.side with
    | buy =>
        rw [hside] at hshort' hnm
        exact InstrumentMarket.TooLow.mono hcap hshort' (grid_mono htick hnm)
    | sell =>
        rw [hside] at hshort' hnm
        exact InstrumentMarket.TooHigh.mono hcap hshort' (grid_mono htick hnm)
  · rintro ⟨⟨m, hm, hinside⟩, hreached⟩
    refine ⟨hreached n hpast, fun hover => hinside ?_⟩
    have hnm := hfirst m hm
    cases hside : signal.side with
    | buy =>
        rw [hside] at hover hnm
        exact InstrumentMarket.TooHigh.mono hcap hover (grid_mono htick hnm)
    | sell =>
        rw [hside] at hover hnm
        exact InstrumentMarket.TooLow.mono hcap hover (grid_mono htick hnm)

end MarketableLimit

namespace ExecutionEngine

/-- **When the price a placement sends is in the band** its signal's own was
in: the order is a replacement, which is not widened, or the band has room
for what it is widened to. -/
theorem price_sent_iff [Decimal.Ordered] (cfg : EngineSettings) (limits : RiskLimits)
    (approval : RiskApprovedSignal) (parentOrderId : Option String) (marketable : Bool)
    (snapshot : RiskSnapshot) (tick : Money)
    (h : RiskEngine.Allows (priceSanityGuard limits.maxPriceDeviationPct) approval.signal
      snapshot) :
    Submits tick (fun r =>
      (snapshot.market approval.signal.instrumentId).Sane limits.maxPriceDeviationPct r.price ↔
        (marketable → (cfg.rule approval.signal.strategyRunId).Room
          (snapshot.market approval.signal.instrumentId) limits.maxPriceDeviationPct
          approval.signal tick))
      (fun _ => True) (place cfg approval parentOrderId marketable) := by
  have hown := InstrumentMarket.allows_iff_sane.1 h
  have hltp := (InstrumentMarket.sane_iff.1 hown).1
  refine (submits_place parentOrderId).mono (fun r hlimit => ?_) fun _ h => h
  cases marketable with
  | true =>
      obtain ⟨trigger, hprices⟩ := hlimit
      rw [MarketableLimit.sane_iff_room limits.deviation_fits.1 hltp hprices]
      simp
  | false =>
      have hprice : r.price = approval.signal.limitPrice := hlimit
      rw [hprice]
      simp [hown]

end ExecutionEngine

omit [DecimalContext]

/-! ## A buy at the upper circuit -/

namespace Sample

theorem buffer_nonneg : (0 : Decimal) ≤ 5 / 10000 := by norm_num

/-- An engine that widens by five basis points. -/
def widening : EngineSettings := { settings.engine with rule := fun _ => ⟨5 / 10000, buffer_nonneg⟩ }

/-- The instrument last traded at 100; its circuits are 90 and `upper`. -/
def banded (upper : Decimal) : RiskSnapshot where
  now := 0
  markets _ := some { ltp := some ⟨100⟩, lowerCircuit := some ⟨90⟩, upperCircuit := some ⟨upper⟩ }

/-- A tick of five paise. -/
def fivePaise : Money := ⟨5 / 100⟩

/-- Every call is answered at once, and the requests are noted. -/
def exchange : (c : Call) → List PlaceOrderRequest → c.Answer × List PlaceOrderRequest
  | .submit r, sent => (.ok ⟨"B", some r.clientTag⟩, r :: sent)
  | .byKey _, sent => (.ok none, sent)
  | .unresolved _, sent => (.ok false, sent)
  | .now, sent => (.ok 0, sent)
  | .newUlid, sent => (.ok "N", sent)
  | .tickSize _, sent => (.ok fivePaise, sent)
  | .create _, sent => (.ok (), sent)
  | .transition .., sent => (.ok (), sent)
  | .acquireLock, sent => (.ok (), sent)
  | .releaseLock, sent => (.ok (), sent)
  | .acquireOrders, sent => (.ok (), sent)
  | _, sent => (.error (.other "unscripted"), sent)

/-- What placing a buy of ten at 100 sends. -/
def sent : List PlaceOrderRequest :=
  (Task.exec exchange (@ExecutionEngine.place widening Decimal.standard
    (approval "S" .buy 10 ten_pos) none true) []).2

end Sample

namespace ExecutionEngine

open Sample

/-- With the circuit at 110 there is room for the widening. -/
theorem price_sent_sample : Submits fivePaise
    (fun r => @InstrumentMarket.Sane Decimal.standard ((banded 110).market "I") 5 r.price)
    (fun _ => True) (@place widening Decimal.standard (approval "S" .buy 10 ten_pos) none true) := by
  let _ := Decimal.standard
  have := Decimal.ordered_standard
  have hallowed : RiskEngine.Allows (priceSanityGuard Sources.sampleLimits.maxPriceDeviationPct)
      (approval "S" .buy 10 ten_pos).signal (banded 110) := by decide +kernel
  have hprices : (widening.rule "R").prices (approval "S" .buy 10 ten_pos).signal fivePaise =
      .ok (⟨2001 / 20⟩, none) := by decide +kernel
  have hsane : ((banded 110).market "I").Sane 5 ⟨2001 / 20⟩ :=
    ⟨by decide +kernel, by decide +kernel, ⟨100⟩, rfl, by decide +kernel, by decide +kernel⟩
  have hroom := (MarketableLimit.sane_iff_room (by norm_num) ⟨⟨100⟩, rfl, by decide +kernel⟩
    hprices).mp hsane
  exact (price_sent_iff widening Sources.sampleLimits _ none true (banded 110) fivePaise
    hallowed).mono (fun r h => h.mpr fun _ => hroom) fun _ h => h

/-- **A price past the circuit.** A buy at the upper circuit is let through,
and sent above it. -/
theorem sent_past_the_circuit :
    RiskEngine.Allows (@priceSanityGuard Decimal.standard 5) (approval "S" .buy 10 ten_pos).signal
      (banded 100) ∧
    sent.map (·.price) = [⟨2001 / 20⟩] ∧
    ∀ r ∈ sent, ¬ @InstrumentMarket.Sane Decimal.standard ((banded 100).market "I") 5 r.price := by
  have hprice : sent.map (·.price) = [⟨2001 / 20⟩] := by decide +kernel
  refine ⟨by decide +kernel, hprice, fun r hr h => ?_⟩
  have hr : r.price = ⟨2001 / 20⟩ := by
    have := List.mem_map_of_mem (f := (·.price)) hr
    rw [hprice] at this
    exact List.mem_singleton.mp this
  have := @InstrumentMarket.Sane.upper Decimal.standard _ _ _ h ⟨100⟩ rfl
  rw [hr] at this
  exact absurd this (by decide +kernel)

end ExecutionEngine

end Emporos
