import Emporos.EventTrader.Fills
/-!
# Exits behind their entries

An exit must not be earlier than the end of the bar that its position was
entered in, and its price must be one that the bar of that moment traded at.
The scans keep to this, for they start behind the entry; so do the daily
bars. The square-off picks from the whole day, so it keeps to this exactly
if the bar of the entry completes by the square-off time, or no bar does
(`exits_follow_iff`).
-/

namespace Emporos

namespace Timestamp

/-- Within a day, times of day are ordered as moments are. -/
theorem localTime_le_iff {s t : Timestamp} (h : sessionDate s = sessionDate t) :
    localTime s ≤ localTime t ↔ s ≤ t := by
  simp only [sessionDate, localTime, indiaOffset, Timestamp.day, second, Timestamp, Duration] at *
  omega

end Timestamp

namespace EventTrader

open Timestamp

/-! ## What is said of an exit -/

def Bar.Holds (b : Bar) (price : Decimal) : Prop := b.low ≤ price ∧ price ≤ b.high

def DailyBar.Holds (b : DailyBar) (price : Decimal) : Prop := b.low ≤ price ∧ price ≤ b.high

/-- What the bars of a market are promised to be: oldest first, each on its
day, and with opens and closes within their ranges. -/
structure MarketData.Orderly (market : MarketData) : Prop where
  oldest_first : ∀ name day, (market.fiveMinuteBars name day).Pairwise (·.ts ≤ ·.ts)
  on_day : ∀ name day, ∀ b ∈ market.fiveMinuteBars name day,
    sessionDate b.ts = day ∧ sessionDate b.closesAt = day
  bars : ∀ name day, ∀ b ∈ market.fiveMinuteBars name day, b.Holds b.openPrice ∧ b.Holds b.close
  later_days : ∀ name after count, ∀ b ∈ market.dailyBars name after count, after < b.day
  daily : ∀ name after count, ∀ b ∈ market.dailyBars name after count,
    b.Holds b.openPrice ∧ b.Holds b.close

/-- A price of a bar that ends at a moment. -/
inductive Traded (bars : List Bar) (daily : List DailyBar) (at_ : Timestamp) (price : Decimal) : Prop
  | intraday (b : Bar) (hmem : b ∈ bars) (hends : b.closesAt = at_) (hprice : b.Holds price)
  | session (b : DailyBar) (hmem : b ∈ daily) (hends : dailyClose b.day = at_)
      (hprice : b.Holds price)

/-- An exit that comes behind the bar of the entry, at a traded price. -/
structure ExitFill.Follows (x : ExitFill) (entry : Bar) (bars : List Bar) (daily : List DailyBar) :
    Prop where
  later : entry.closesAt ≤ x.ts
  traded : Traded bars daily x.ts x.price

/-- The bar that an order is tried on completes by the square-off time, or
no bar of the session does. -/
def CompletesInTime (execution : ScanExecution) (bars : List Bar) (placedAt : Timestamp) : Prop :=
  ∀ entry ∈ bars.find? (placedAt ≤ ·.ts),
    localTime entry.closesAt ≤ execution.squareOffAt ∨
      ∀ b ∈ bars, execution.squareOffAt < localTime b.closesAt

/-! ## Prices and scans -/

section Scans

variable {side : Side} {stop target : Decimal} {bars : List Bar} {x : ExitFill}

/-- The lower of an open and a level that the bar fell to is within its
range. -/
theorem min_within {openPrice high low level : Decimal} (hlow : low ≤ openPrice)
    (hhigh : openPrice ≤ high) (hlevel : low ≤ level) :
    low ≤ min openPrice level ∧ min openPrice level ≤ high :=
  ⟨le_min hlow hlevel, (min_le_left _ _).trans hhigh⟩

theorem max_within {openPrice high low level : Decimal} (hlow : low ≤ openPrice)
    (hhigh : openPrice ≤ high) (hlevel : level ≤ high) :
    low ≤ max openPrice level ∧ max openPrice level ≤ high :=
  ⟨hlow.trans (le_max_left _ _), max_le hhigh hlevel⟩

/-- A touched level is left within the range of its bar. -/
theorem touch_within {openPrice high low price : Decimal} {reason : ExitReason}
    (hlow : low ≤ openPrice) (hhigh : openPrice ≤ high)
    (h : touch openPrice high low side stop target = some (price, reason)) :
    low ≤ price ∧ price ≤ high := by
  cases side with
  | long =>
      simp only [touch] at h
      split_ifs at h with hstop htarget
      · rw [← (Prod.mk.inj (Option.some.inj h)).1]
        exact min_within hlow hhigh hstop
      · rw [← (Prod.mk.inj (Option.some.inj h)).1]
        exact max_within hlow hhigh htarget
  | short =>
      simp only [touch] at h
      split_ifs at h with hstop htarget
      · rw [← (Prod.mk.inj (Option.some.inj h)).1]
        exact max_within hlow hhigh hstop
      · rw [← (Prod.mk.inj (Option.some.inj h)).1]
        exact min_within hlow hhigh htarget

/-- A hit of a scan is a bar of it that ends in time. -/
theorem scanBars_spec {endAt : Duration} (h : scanBars side stop target endAt bars = some x) :
    ∃ b ∈ bars, b.closesAt = x.ts ∧ localTime b.closesAt ≤ endAt ∧
      touch b.openPrice b.high b.low side stop target = some (x.price, x.reason) := by
  induction bars with
  | nil => cases h
  | cons b bars ih =>
      rw [scanBars] at h
      split_ifs at h with hlate
      split at h
      · rename_i price reason htouch
        obtain rfl := Option.some.inj h
        exact ⟨b, List.mem_cons_self, rfl, not_lt.mp hlate, htouch⟩
      · obtain ⟨b', hmem, hspec⟩ := ih h
        exact ⟨b', List.mem_cons_of_mem _ hmem, hspec⟩

/-- The last of a sorted list is the greatest. -/
theorem ts_le_getLast {last b : Bar} (hsorted : bars.Pairwise (·.ts ≤ ·.ts))
    (hlast : bars.getLast? = some last) (hb : b ∈ bars) : b.ts ≤ last.ts := by
  obtain ⟨init, rfl⟩ := List.getLast?_eq_some_iff.mp hlast
  rcases List.mem_append.mp hb with hb | hb
  · exact (List.pairwise_append.mp hsorted).2.2 b hb last (List.mem_singleton_self _)
  · rw [List.mem_singleton.mp hb]

end Scans

/-! ## The day of an entry -/

/-- A filled order was tried on the first bar that starts at or after it,
and the entry says which that is. -/
theorem entry_of_fill [DecimalContext] {market : MarketData} {execution : ScanExecution}
    {name : String} {side : Side} {placedAt : Timestamp} {quantity : ℕ} {f : EntryFill}
    (h : fill market execution name side placedAt quantity = .inl f) :
    f.day = sessionDate placedAt ∧ ∃ before entry rest,
      market.fiveMinuteBars name f.day = before ++ entry :: rest ∧ f.barIndex = before.length ∧
        (market.fiveMinuteBars name f.day).find? (placedAt ≤ ·.ts) = some entry := by
  unfold fill at h
  simp only at h
  generalize hbars : market.fiveMinuteBars name (sessionDate placedAt) = bars at h
  split at h
  · cases h
  · rename_i index hindex
    split at h
    · cases h
    · cases h
    · rename_i anchor entry _ hentry
      split_ifs at h
      obtain rfl := Sum.inl.inj h
      obtain ⟨hlt, hfirst, hbefore⟩ := List.findIdx?_eq_some_iff_getElem.mp hindex
      obtain ⟨_, rfl⟩ := List.getElem?_eq_some_iff.mp hentry
      refine ⟨rfl, bars.take index, bars[index], bars.drop (index + 1), ?_, ?_, ?_⟩
      · rw [hbars, ← List.drop_eq_getElem_cons, List.take_append_drop]
      · rw [List.length_take, min_eq_left hlt.le]
      · rw [hbars, List.find?_eq_some_iff_getElem]
        exact ⟨hfirst, index, hlt, rfl, fun j hj => by simpa using hbefore j hj⟩

/-- The bars of a day around the one that a position was entered in. -/
structure EntryDay (bars : List Bar) (index : ℕ) (entry : Bar) : Prop where
  sorted : bars.Pairwise (·.ts ≤ ·.ts)
  same_day : ∀ b ∈ bars, sessionDate b.closesAt = sessionDate entry.closesAt
  valid : ∀ b ∈ bars, b.Holds b.openPrice ∧ b.Holds b.close
  at_index : ∃ before rest, bars = before ++ entry :: rest ∧ index = before.length

namespace EntryDay

variable {bars : List Bar} {index : ℕ} {entry b : Bar}

theorem mem (h : EntryDay bars index entry) : entry ∈ bars := by
  obtain ⟨before, rest, rfl, -⟩ := h.at_index
  simp

/-- What is scanned lies behind the entry. -/
theorem behind (h : EntryDay bars index entry) (hb : b ∈ bars.drop (index + 1)) :
    b ∈ bars ∧ entry.closesAt ≤ b.closesAt := by
  obtain ⟨before, rest, rfl, rfl⟩ := h.at_index
  have hdrop : (before ++ entry :: rest).drop (before.length + 1) = rest := by
    rw [List.drop_append]
    simp
  rw [hdrop] at hb
  have hle : entry.ts ≤ b.ts :=
    (List.pairwise_cons.mp (List.pairwise_append.mp h.sorted).2.1).1 b hb
  exact ⟨by simp [hb], add_le_add_left hle _⟩

/-- A hit of a scan follows the entry. -/
theorem scanBars_follows {side : Side} {stop target : Decimal} {endAt : Duration} {x : ExitFill}
    (h : EntryDay bars index entry)
    (hx : scanBars side stop target endAt (bars.drop (index + 1)) = some x)
    (daily : List DailyBar) : x.Follows entry bars daily := by
  obtain ⟨b, hb, hends, -, htouch⟩ := scanBars_spec hx
  obtain ⟨hmem, hle⟩ := h.behind hb
  obtain ⟨hlow, hhigh⟩ := (h.valid b hmem).1
  exact ⟨hends ▸ hle, .intraday b hmem hends (touch_within hlow hhigh htouch)⟩

/-- The close of a bar is a traded price. -/
theorem close_follows {reason : ExitReason} (h : EntryDay bars index entry) (hb : b ∈ bars)
    (hle : entry.ts ≤ b.ts) (daily : List DailyBar) :
    ExitFill.Follows ⟨b.closesAt, b.close, reason⟩ entry bars daily :=
  ⟨add_le_add_left hle _, .intraday b hb rfl (h.valid b hb).2⟩

variable {execution : ScanExecution} {market : MarketData} {name : String} {side : Side}
  {stop target : Decimal}

/-- The newest of some bars of the day that the entry is among. -/
theorem last_follows {bars' : List Bar} (h : EntryDay bars index entry)
    (hsub : bars'.Sublist bars) (hentry : entry ∈ bars') (daily : List DailyBar)
    (reason : ExitReason) :
    ∃ last, bars'.getLast? = some last ∧
      ExitFill.Follows ⟨last.closesAt, last.close, reason⟩ entry bars daily := by
  have hne : bars' ≠ [] := List.ne_nil_of_mem hentry
  have hlast : bars'.getLast? = some (bars'.getLast hne) := List.getLast?_eq_some_getLast hne
  exact ⟨_, hlast, h.close_follows (hsub.subset (List.getLast_mem hne))
    (ts_le_getLast (h.sorted.sublist hsub) hlast hentry) daily⟩

/-- The square-off follows an entry whose bar completes in time, and one on a
day without a bar that does. -/
theorem squareOff_follows (h : EntryDay bars index entry)
    (htime : localTime entry.closesAt ≤ execution.squareOffAt ∨
      ∀ b ∈ bars, execution.squareOffAt < localTime b.closesAt) :
    ∃ x, squareOff execution bars = .ok x ∧ x.Follows entry bars [] := by
  unfold squareOff
  dsimp only
  rcases htime with htime | hnone
  · have heligible : entry ∈ bars.filter fun b => localTime b.closesAt ≤ execution.squareOffAt :=
      List.mem_filter.mpr ⟨h.mem, decide_eq_true htime⟩
    obtain ⟨last, hlast, hfollows⟩ :=
      h.last_follows List.filter_sublist heligible [] .squareOff
    exact ⟨_, by rw [hlast]; rfl, hfollows⟩
  · have heligible : (bars.filter fun b => localTime b.closesAt ≤ execution.squareOffAt) = [] :=
      List.filter_eq_nil_iff.mpr fun b hb => by simpa using hnone b hb
    obtain ⟨last, hlast, hfollows⟩ := h.last_follows (List.Sublist.refl bars) h.mem [] .squareOff
    exact ⟨_, by rw [heligible, hlast]; rfl, hfollows⟩

/-- Behind the square-off time, what is squared off is a bar of before. -/
theorem squareOff_precedes (h : EntryDay bars index entry)
    (hlate : execution.squareOffAt < localTime entry.closesAt)
    (hsome : ∃ b ∈ bars, localTime b.closesAt ≤ execution.squareOffAt) :
    ∃ x, squareOff execution bars = .ok x ∧ x.ts < entry.closesAt := by
  obtain ⟨b, hb, hcut⟩ := hsome
  have hne : (bars.filter fun b => localTime b.closesAt ≤ execution.squareOffAt) ≠ [] :=
    List.ne_nil_of_mem (List.mem_filter.mpr ⟨hb, decide_eq_true hcut⟩)
  obtain ⟨hmem, heligible⟩ := List.mem_filter.mp (List.getLast_mem hne)
  refine ⟨_, by rw [squareOff, List.getLast?_eq_some_getLast hne]; rfl, not_le.mp fun hle => ?_⟩
  -- An eligible bar behind the entry would end in time, and so would the entry's.
  have hdate := (h.same_day _ hmem).symm
  have htime := (localTime_le_iff hdate).mpr hle
  exact absurd (htime.trans (of_decide_eq_true heligible)) (not_le.mpr hlate)

end EntryDay

/-! ## When exits follow their entries -/

section Exits

variable {market : MarketData} {execution : ScanExecution} {name : String} {side : Side}
  {stop target : Decimal} {f : EntryFill} {entry : Bar}

theorem intradayExit_follows_iff
    (h : EntryDay (market.fiveMinuteBars name f.day) f.barIndex entry) :
    (∃ x, intradayExit market execution side stop target name f = .ok x ∧
        x.Follows entry (market.fiveMinuteBars name f.day) []) ↔
      localTime entry.closesAt ≤ execution.squareOffAt ∨
        ∀ b ∈ market.fiveMinuteBars name f.day, execution.squareOffAt < localTime b.closesAt := by
  unfold intradayExit
  simp only
  constructor
  · rintro ⟨x, hx, hfollows⟩
    by_contra hcon
    rw [not_or, not_le] at hcon
    obtain ⟨hlate, hsome⟩ := hcon
    push Not at hsome
    split at hx
    · rename_i hit hscan
      obtain ⟨b, hb, -, htime, -⟩ := scanBars_spec hscan
      obtain ⟨hmem, hle⟩ := h.behind hb
      have := (localTime_le_iff (h.same_day b hmem).symm).mpr hle
      exact absurd (this.trans htime) (not_le.mpr hlate)
    · obtain ⟨x', hx', hbefore⟩ := h.squareOff_precedes hlate hsome
      rw [hx'] at hx
      obtain rfl := Except.ok.inj hx
      exact absurd hfollows.later (not_le.mpr hbefore)
  · intro htime
    split
    · rename_i hit hscan
      exact ⟨hit, rfl, h.scanBars_follows hscan []⟩
    · exact h.squareOff_follows htime

/-- A swing position always leaves behind its entry. -/
theorem swingExit_follows (hm : market.Orderly)
    (h : EntryDay (market.fiveMinuteBars name f.day) f.barIndex entry) (holdDays : ℤ) :
    ∃ x, swingExit market side stop target name f holdDays = .ok x ∧
      x.Follows entry (market.fiveMinuteBars name f.day)
        (market.dailyBars name f.day holdDays) := by
  have hday := (hm.on_day name f.day entry h.mem).2
  have hlater : ∀ b ∈ market.dailyBars name f.day holdDays, entry.closesAt ≤ dailyClose b.day := by
    intro b hb
    have := hm.later_days name f.day holdDays b hb
    simp only [dailyClose, combine, sessionEnd, timeOfDay, sessionDate, indiaOffset, Timestamp.day,
      minute, second, Timestamp, Duration] at *
    omega
  unfold swingExit
  simp only
  split
  · rename_i hit hscan
    exact ⟨hit, rfl, h.scanBars_follows hscan _⟩
  · obtain ⟨last, hlast, hfollows⟩ := h.last_follows (List.Sublist.refl _) h.mem
      (market.dailyBars name f.day holdDays) .endOfData
    split
    · rename_i out _ _ hout
      obtain ⟨b, hb, hhit⟩ := List.exists_of_findSome?_eq_some hout
      rw [dailyHit, Option.map_eq_some_iff] at hhit
      obtain ⟨⟨price, reason⟩, htouch, rfl⟩ := hhit
      obtain ⟨hlow, hhigh⟩ := (hm.daily name f.day holdDays b hb).1
      exact ⟨_, rfl, hlater b hb, .session b hb rfl (touch_within hlow hhigh htouch)⟩
    · rename_i b _ hb
      have hmem : b ∈ market.dailyBars name f.day holdDays := List.mem_of_getLast? hb
      exact ⟨_, rfl, hlater b hmem, .session b hmem rfl (hm.daily name f.day holdDays b hmem).2⟩
    · rename_i bar _ _ hbar
      rw [hlast] at hbar
      obtain rfl := Option.some.inj hbar
      exact ⟨_, rfl, hfollows⟩
    · rename_i _ _ hnone
      rw [hlast] at hnone
      cases hnone

/-- Both exits of an entry follow the bar that it was filled in. -/
def ExitsFollow (market : MarketData) (execution : ScanExecution) (name : String) (side : Side)
    (stop target : Decimal) (holdDays : ℤ) (f : EntryFill) : Prop :=
  ∃ entry, (market.fiveMinuteBars name f.day)[f.barIndex]? = some entry ∧
    (∃ x, intradayExit market execution side stop target name f = .ok x ∧
      x.Follows entry (market.fiveMinuteBars name f.day) []) ∧
    ∃ x, swingExit market side stop target name f holdDays = .ok x ∧
      x.Follows entry (market.fiveMinuteBars name f.day) (market.dailyBars name f.day holdDays)

/-- **When the exits of an entry follow it.** On an orderly market, for every
stop, target and hold: exactly if the bar that the order was tried on
completes by the square-off time, or no bar of its session does. -/
theorem exits_follow_iff [DecimalContext] {placedAt : Timestamp} {quantity : ℕ}
    (hm : market.Orderly) (hf : fill market execution name side placedAt quantity = .inl f)
    (holdDays : ℤ) :
    ExitsFollow market execution name side stop target holdDays f ↔
      CompletesInTime execution (market.fiveMinuteBars name (sessionDate placedAt)) placedAt := by
  obtain ⟨hday, before, entry, rest, hbars, hindex, hfirst⟩ := entry_of_fill hf
  have hentry : EntryDay (market.fiveMinuteBars name f.day) f.barIndex entry :=
    ⟨hm.oldest_first name f.day, fun b hb => (hm.on_day name f.day b hb).2.trans
      (hm.on_day name f.day entry (by rw [hbars]; simp)).2.symm,
      hm.bars name f.day, before, rest, hbars, hindex⟩
  have hat : (market.fiveMinuteBars name f.day)[f.barIndex]? = some entry := by
    rw [hbars, hindex]
    simp
  rw [CompletesInTime, ← hday, hfirst]
  simp only [Option.mem_def, Option.some.injEq, forall_eq']
  rw [← @intradayExit_follows_iff _ _ _ side stop target _ _ hentry]
  constructor
  · rintro ⟨e, he, hintraday, -⟩
    rw [hat] at he
    obtain rfl := Option.some.inj he
    exact hintraday
  · intro hintraday
    exact ⟨entry, hat, hintraday, swingExit_follows hm hentry holdDays⟩

end Exits

/-! ## An afternoon -/

namespace Afternoon

def clock (hours minutes : ℤ) : Timestamp := combine 1 (timeOfDay hours minutes)

/-- A five-minute bar at 100. -/
def bar (hours minutes : ℤ) : Bar := ⟨clock hours minutes, 100, 100, 100, 100, 10000⟩

/-- The last bars before the square-off, and the first behind it. -/
def market : MarketData where
  fiveMinuteBars _ day := if day = 1 then [bar 15 5, bar 15 10, bar 15 15] else []
  dailyBars _ _ _ := []
  nextSession _ := none
  isSession day := day = 1
  lastClose _ _ := some 100

def execution : ScanExecution := ⟨5, 1 / 20, 1 / 10, timeOfDay 15 15⟩

theorem orderly_market : market.Orderly where
  oldest_first _ day := by
    simp only [market]
    split
    · decide
    · exact .nil
  on_day _ day b hb := by
    simp only [market] at hb
    split_ifs at hb with hday
    · subst hday
      revert b
      decide
    · cases hb
  bars _ day b hb := by
    simp only [market] at hb
    split_ifs at hb
    · rw [List.mem_cons, List.mem_cons, List.mem_singleton] at hb
      rcases hb with rfl | rfl | rfl <;> exact ⟨⟨le_rfl, le_rfl⟩, le_rfl, le_rfl⟩
    · cases hb
  later_days _ _ _ _ hb := by cases hb
  daily _ _ _ _ hb := by cases hb

deriving instance DecidableEq for EntryFill

/-- What ten shares bought at a minute are filled at. -/
def bought (minutes : ℤ) : EntryFill ⊕ NoEntry :=
  @fill Decimal.standard market execution "NSE:1" .long (clock 15 minutes) 10

end Afternoon

/-- Bought at 15:10 in the bar that completes at the square-off. -/
theorem exits_follow_sample :
    Afternoon.bought 10 = .inl ⟨Afternoon.clock 15 10, 1, 100, 1⟩ ∧
      ExitsFollow Afternoon.market Afternoon.execution "NSE:1" .long 95 110 0
        ⟨Afternoon.clock 15 10, 1, 100, 1⟩ := by
  have hf : Afternoon.bought 10 = .inl ⟨Afternoon.clock 15 10, 1, 100, 1⟩ := by decide +kernel
  refine ⟨hf, (@exits_follow_iff _ _ _ _ _ _ _ Decimal.standard _ _ Afternoon.orderly_market hf
    0).mpr fun entry hentry => .inl ?_⟩
  obtain rfl : Afternoon.bar 15 10 = entry := Option.some.inj hentry
  decide

/-- Bought at 15:12 in the bar that starts at the square-off: squared off at
the close of the bar before. -/
theorem exits_not_follow : ¬ ∀ (market : MarketData) (execution : ScanExecution) (name : String)
    (side : Side) (placedAt : Timestamp) (quantity : ℕ) (f : EntryFill) (stop target : Decimal)
    (holdDays : ℤ), market.Orderly →
      @fill Decimal.standard market execution name side placedAt quantity = .inl f →
      ExitsFollow market execution name side stop target holdDays f := by
  intro h
  have hf : Afternoon.bought 12 = .inl ⟨Afternoon.clock 15 15, 1, 100, 2⟩ := by decide +kernel
  obtain ⟨entry, hentry, ⟨x, hx, hfollows⟩, -⟩ := h _ _ _ _ _ _ _ 95 110 0 Afternoon.orderly_market hf
  obtain rfl : Afternoon.bar 15 15 = entry := Option.some.inj hentry
  have hsquared : (intradayExit Afternoon.market Afternoon.execution .long 95 110 "NSE:1"
      ⟨Afternoon.clock 15 15, 1, 100, 2⟩).map (·.ts) = .ok (Afternoon.clock 15 15) := by
    decide
  rw [hx] at hsquared
  have hts : x.ts = Afternoon.clock 15 15 := Except.ok.inj hsquared
  have hlater := hfollows.later
  rw [hts] at hlater
  exact absurd hlater (by decide)

end EventTrader

end Emporos
