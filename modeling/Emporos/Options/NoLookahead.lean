import Emporos.Options.LadderB1
import Emporos.Options.Ledger
/-!
# The ladder does not look ahead

Two sets of inputs that agree up to a day give the same run up to that
day: the same books, the same trades and the same figures, whatever comes
after it. Every regime rule reads its series up to the day, and the loop
reads the chain of the day.
-/

namespace Emporos

namespace Options

/-! ## A list that rises -/

section Rising

variable {α : Type} {f : α → ℤ} {l : List α} {t : ℤ}

/-- What is up to `t` comes before what is past it. -/
theorem filter_append_filter (h : l.Pairwise fun x y => f x < f y) :
    l = l.filter (fun x => f x ≤ t) ++ l.filter fun x => t < f x := by
  induction l with
  | nil => rfl
  | cons x rest ih =>
      obtain ⟨hx, hrest⟩ := List.pairwise_cons.mp h
      by_cases hle : f x ≤ t
      · have hnot : ¬ t < f x := hle.not_gt
        rw [List.filter_cons_of_pos (by simpa using hle),
          List.filter_cons_of_neg (by simpa using hnot), List.cons_append, ← ih hrest]
      · have hlt : t < f x := not_le.mp hle
        have hnone : rest.filter (fun y => f y ≤ t) = [] := by
          refine List.filter_eq_nil_iff.mpr fun y hy => ?_
          have := hx y hy
          simp only [decide_eq_true_eq]
          omega
        have hall : rest.filter (fun y => t < f y) = rest := by
          refine List.filter_eq_self.mpr fun y hy => ?_
          have := hx y hy
          simp only [decide_eq_true_eq]
          omega
        rw [List.filter_cons_of_neg (by simpa using hle), hnone, List.nil_append,
          List.filter_cons_of_pos (by simpa using hlt), hall]

end Rising

/-! ## The series -/

namespace Closes

variable {c c' : Closes} {t day : Day} {last : ℕ}

/-- What is known at the close of `t`. -/
def upTo (c : Closes) (t : Day) : List (Day × Decimal) := c.rows.filter fun x => x.1 ≤ t

def past (c : Closes) (t : Day) : List (Day × Decimal) := c.rows.filter fun x => t < x.1

theorem rows_eq (c : Closes) (t : Day) : c.rows = c.upTo t ++ c.past t :=
  filter_append_filter c.sorted

theorem ne_of_past (h : day ≤ t) : ∀ x ∈ c.past t, x.1 ≠ day := by
  intro x hx heq
  have hlt : t < x.1 := by simpa using (List.mem_filter.mp hx).2
  exact hlt.not_ge (heq.le.trans h)

/-- A session up to `t` stands where it stands in what is known. -/
theorem position_eq (h : day ≤ t) :
    c.position day = ((c.upTo t).map Prod.fst).idxOf? day := by
  have hnone : ((c.past t).map Prod.fst).idxOf? day = none := by
    rw [List.idxOf?_eq_none_iff]
    intro hmem
    obtain ⟨x, hx, hday⟩ := List.mem_map.mp hmem
    exact ne_of_past h x hx hday
  rw [position, c.rows_eq t, List.map_append, List.idxOf?, List.findIdx?_append]
  rw [List.idxOf?] at hnone
  rw [hnone]
  simp

theorem lt_of_position (h : day ≤ t) (hlast : c.position day = some last) :
    last < (c.upTo t).length := by
  rw [position_eq h, List.idxOf?_eq_some_iff] at hlast
  obtain ⟨hlt, -⟩ := hlast
  rwa [List.length_map] at hlt

/-- A window that ends in what is known is known. -/
theorem window_eq {k n : ℕ} (hk : k < (c.upTo t).length) : c.window k n =
    if k + 1 < n then none
    else some ((((c.upTo t).map Prod.snd).drop (k + 1 - n)).take n) := by
  unfold window
  split_ifs with hlen
  · rfl
  · rw [c.rows_eq t, List.map_append, List.drop_append_of_le_length (by
      rw [List.length_map]
      omega), List.take_append_of_le_length (by
      rw [List.length_drop, List.length_map]
      omega)]

theorem value_eq (hlast : last < (c.upTo t).length) :
    c.value last = ((c.upTo t).map Prod.snd).getD last 0 := by
  rw [value, c.rows_eq t, List.map_append, List.getD_eq_getElem?_getD,
    List.getD_eq_getElem?_getD, List.getElem?_append_left (by rwa [List.length_map])]

theorem lookup_eq (h : day ≤ t) : c.rows.lookup day = (c.upTo t).lookup day := by
  have hnone : (c.past t).lookup day = none := by
    rw [List.lookup_eq_none_iff]
    intro x hx
    have := ne_of_past h x hx
    simpa using fun heq => this heq.symm
  rw [c.rows_eq t, List.lookup_append, hnone, Option.or_none]

end Closes

/-! ## The rules read what is known -/

/-- The same up to the close of `t`. -/
def Agree (t : Day) (x y : DayCondition) : Prop := ∀ day ≤ t, x day = y day

section Conditions

variable {c c' : Closes} {t day : Day}

theorem trendAboveSma_agree {n : {n : ℕ // 2 ≤ n}} (h : c.upTo t = c'.upTo t) :
    Agree t (trendAboveSma c n) (trendAboveSma c' n) := by
  intro day hday
  have hposition : c.position day = c'.position day := by
    rw [Closes.position_eq hday, Closes.position_eq hday, h]
  unfold trendAboveSma
  rw [← hposition]
  cases hlast : c.position day with
  | none => rfl
  | some last =>
      have hlt := Closes.lt_of_position hday hlast
      dsimp only
      rw [Closes.window_eq hlt, Closes.window_eq (h ▸ hlt), Closes.value_eq hlt,
        Closes.value_eq (h ▸ hlt), h]

theorem smaStack_agree {fast slow : ℕ} (h : c.upTo t = c'.upTo t) :
    Agree t (smaStack c fast slow) (smaStack c' fast slow) := by
  intro day hday
  have hposition : c.position day = c'.position day := by
    rw [Closes.position_eq hday, Closes.position_eq hday, h]
  unfold smaStack
  rw [← hposition]
  cases hlast : c.position day with
  | none => rfl
  | some last =>
      have hlt := Closes.lt_of_position hday hlast
      dsimp only
      rw [Closes.window_eq hlt, Closes.window_eq hlt, Closes.window_eq (h ▸ hlt),
        Closes.window_eq (h ▸ hlt), Closes.value_eq hlt, Closes.value_eq (h ▸ hlt), h]

theorem trailingPercentileBand_agree {low high : Decimal} {lookback : ℕ}
    (h : c.upTo t = c'.upTo t) : Agree t (trailingPercentileBand c low high lookback)
      (trailingPercentileBand c' low high lookback) := by
  intro day hday
  have hposition : c.position day = c'.position day := by
    rw [Closes.position_eq hday, Closes.position_eq hday, h]
  unfold trailingPercentileBand
  rw [← hposition]
  cases hlast : c.position day with
  | none => rfl
  | some last =>
      have hlt := Closes.lt_of_position hday hlast
      have hbefore : last - 1 < (c.upTo t).length := (Nat.sub_le last 1).trans_lt hlt
      dsimp only
      rw [Closes.window_eq hbefore, Closes.window_eq (h ▸ hbefore), Closes.value_eq hlt,
        Closes.value_eq (h ▸ hlt), h]

theorem allOf_agree {l l' : List DayCondition} (h : List.Forall₂ (Agree t) l l') :
    Agree t (allOf l) (allOf l') := by
  intro day hday
  unfold allOf
  induction h with
  | nil => rfl
  | cons hx _ ih => rw [List.all_cons, List.all_cons, hx day hday, ih]

theorem vixVolatility_agree (h : c.upTo t = c'.upTo t) {day : Day} (hday : day ≤ t) :
    vixVolatility c day = vixVolatility c' day := by
  unfold vixVolatility
  rw [Closes.lookup_eq hday, Closes.lookup_eq hday, h]

/-- The sessions of a week that matter are those before the day. -/
theorem firstSessionOfWeek_agree {sessions sessions' : List Day} {s : ChainSnapshot} {expiry : Day}
    (h : sessions.filter (· ≤ t) = sessions'.filter (· ≤ t)) (hday : s.day ≤ t) :
    firstSessionOfWeek sessions s expiry = firstSessionOfWeek sessions' s expiry := by
  have hmem : ∀ day ≤ t, (day ∈ sessions ↔ day ∈ sessions') := by
    intro day hle
    have := congrArg (day ∈ ·) h
    simpa [List.mem_filter, hle] using this
  unfold firstSessionOfWeek
  rw [decide_eq_decide, hmem s.day hday]
  refine and_congr_right fun _ => ⟨fun hfirst day hd hweek => ?_, fun hfirst day hd hweek => ?_⟩
  · rcases le_or_gt day t with hle | hgt
    · exact hfirst day ((hmem day hle).mpr hd) hweek
    · exact hday.trans hgt.le
  · rcases le_or_gt day t with hle | hgt
    · exact hfirst day ((hmem day hle).mp hd) hweek
    · exact hday.trans hgt.le

end Conditions

/-! ## The loop reads the chain of the day -/

namespace SpreadBacktester

/-- The same up to the close of `t`: the chains, and what entry and depth
make of them. -/
structure AgreeUntil (t : Day) (b b' : SpreadBacktester) : Prop where
  days : b.chains.days.filter (· ≤ t) = b'.chains.days.filter (· ≤ t)
  snapshot : ∀ day ≤ t, b.chains.snapshot day = b'.chains.snapshot day
  entry : ∀ s, s.day ≤ t → b.entry s = b'.entry s
  depth : ∀ s, s.day ≤ t → b.depth s = b'.depth s
  exits : b.exits = b'.exits
  margin : b.margin = b'.margin
  fees : b.fees = b'.fees
  settings : b.settings = b'.settings

variable {b b' : SpreadBacktester} {t : Day} {s : ChainSnapshot} {books books' : Books}

theorem AgreeUntil.manage (h : b.AgreeUntil t b') :
    b.manage = b'.manage := by
  have hexits := h.exits
  have hfees := h.fees
  have hsettings := h.settings
  cases b
  cases b'
  subst hexits hfees hsettings
  rfl

theorem AgreeUntil.manageAll (h : b.AgreeUntil t b') (l : List OpenSpread) :
    b.manageAll s l books = b'.manageAll s l books := by
  induction l generalizing books with
  | nil => rfl
  | cons held rest ih =>
      unfold SpreadBacktester.manageAll
      rw [h.manage]
      exact congrArg _ (funext fun _ => ih)

theorem AgreeUntil.enter (h : b.AgreeUntil t b') (hs : s.day ≤ t) :
    b.enter s books = b'.enter s books := by
  have hentry := h.entry s hs
  have hmargin := h.margin
  have hfees := h.fees
  have hsettings := h.settings
  cases b
  cases b'
  subst hmargin hfees hsettings
  unfold SpreadBacktester.enter
  dsimp only at hentry ⊢
  rw [hentry]
  rfl

theorem AgreeUntil.enterIfRoom (h : b.AgreeUntil t b') (hs : s.day ≤ t) :
    b.enterIfRoom s books = b'.enterIfRoom s books := by
  unfold SpreadBacktester.enterIfRoom
  rw [h.depth s hs, h.enter hs, h.entry s hs]

theorem AgreeUntil.capitalNow (h : b.AgreeUntil t b') :
    b.capitalNow s books = b'.capitalNow s books := by
  unfold SpreadBacktester.capitalNow
  rw [h.settings]

theorem AgreeUntil.step (h : b.AgreeUntil t b') {day : Day} (hday : day ≤ t) :
    b.step books day = b'.step books day := by
  unfold SpreadBacktester.step
  rw [h.snapshot day hday]
  cases hsnapshot : b'.chains.snapshot day with
  | none => rfl
  | some s =>
      have hs : s.day ≤ t := by rwa [b'.chains.day_of_snapshot hsnapshot]
      dsimp only
      rw [h.manageAll]
      simp only [h.enterIfRoom hs, h.capitalNow]

/-- **Up to `t` the runs are one run.** -/
theorem AgreeUntil.loop (h : b.AgreeUntil t b') {first last : Day} (hlast : last ≤ t) :
    b.loop first last = b'.loop first last := by
  have hwindow : b.window first last = b'.window first last := by
    have hcut : ∀ c : SpreadBacktester, c.window first last =
        (c.chains.days.filter (· ≤ t)).filter fun day => first ≤ day ∧ day ≤ last := by
      intro c
      rw [window, List.filter_filter]
      refine List.filter_congr fun day _ => ?_
      rw [Bool.eq_iff_iff]
      simp only [Bool.and_eq_true, decide_eq_true_eq]
      exact ⟨fun hd => ⟨hd, hd.2.trans hlast⟩, fun hd => hd.1⟩
    rw [hcut, hcut, h.days]
  have hstart : b.start = b'.start := by
    unfold start
    rw [h.settings]
  unfold SpreadBacktester.loop
  rw [hwindow, hstart]
  generalize b'.start = books
  have hle : ∀ day ∈ b'.window first last, day ≤ t := fun day hd =>
    (of_decide_eq_true (List.mem_filter.mp hd).2).2.trans hlast
  generalize b'.window first last = l at hle
  induction l generalizing books with
  | nil => rfl
  | cons day rest ih =>
      rw [List.foldlM_cons, List.foldlM_cons, h.step (hle day (List.mem_cons_self ..))]
      exact congrArg _ (funext fun _ => ih _ fun d hd => hle d (List.mem_cons_of_mem _ hd))

/-! ## What later days add -/

/-- What a day adds to the records is of that day. -/
structure Adds (day : Day) (books books' : Books) : Prop where
  trades : ∃ new, books'.trades = books.trades ++ new ∧ ∀ t ∈ new, t.exitDay = day
  days : ∃ new, books'.days = books.days ++ new ∧ ∀ d ∈ new, d.day = day

theorem Adds.refl (day : Day) (books : Books) : Adds day books books :=
  ⟨⟨[], (List.append_nil _).symm, fun _ ht => by cases ht⟩,
    ⟨[], (List.append_nil _).symm, fun _ hd => by cases hd⟩⟩

theorem Adds.trans {day : Day} {books₁ books₂ books₃ : Books} (h : Adds day books₁ books₂)
    (h' : Adds day books₂ books₃) : Adds day books₁ books₃ := by
  obtain ⟨new, htrades, hnew⟩ := h.trades
  obtain ⟨new', htrades', hnew'⟩ := h'.trades
  obtain ⟨figures, hdays, hfigures⟩ := h.days
  obtain ⟨figures', hdays', hfigures'⟩ := h'.days
  refine ⟨⟨new ++ new', by rw [htrades', htrades, List.append_assoc], fun t ht => ?_⟩,
    ⟨figures ++ figures', by rw [hdays', hdays, List.append_assoc], fun d hd => ?_⟩⟩
  · exact (List.mem_append.mp ht).elim (hnew t) (hnew' t)
  · exact (List.mem_append.mp hd).elim (hfigures d) (hfigures' d)

theorem adds_of_same (htrades : books'.trades = books.trades) (hdays : books'.days = books.days)
    (day : Day) : Adds day books books' :=
  ⟨⟨[], by rw [htrades, List.append_nil], fun _ ht => by cases ht⟩,
    ⟨[], by rw [hdays, List.append_nil], fun _ hd => by cases hd⟩⟩

theorem adds_of_manageAll {l : List OpenSpread} (h : b.manageAll s l books = .ok books') :
    Adds s.day books books' := by
  refine manageAll_rule (I := fun now _ => Adds s.day books now) ?_ ?_ (Adds.refl _ _) h
  · intro now held q rest skipped cash _ hnow
    exact ⟨hnow.trades, hnow.days⟩
  · intro now held rest t skipped cash _ hday hnow
    refine hnow.trans ⟨⟨[t], rfl, fun u hu => ?_⟩,
      ⟨[], (List.append_nil _).symm, fun _ hd => by cases hd⟩⟩
    rw [List.mem_singleton.mp hu]
    exact hday

theorem adds_of_step {day : Day} (h : b.step books day = .ok books') : Adds day books books' := by
  rcases step_cases h with ⟨-, rfl⟩ | ⟨s, mid, traded, -, rfl, -, hmanage, henter, rfl⟩
  · exact ⟨⟨[], (List.append_nil _).symm, fun _ ht => by cases ht⟩,
      ⟨[], (List.append_nil _).symm, fun _ hd => by cases hd⟩⟩
  · obtain ⟨hsame, -⟩ := of_enterIfRoom henter
    have hall : Adds s.day { books with held := [] } mid := adds_of_manageAll hmanage
    have hmanaged : Adds s.day books mid := ⟨hall.trades, hall.days⟩
    refine (hmanaged.trans (adds_of_same hsame.trades hsame.days _)).trans
      ⟨⟨[], (List.append_nil _).symm, fun _ ht => by cases ht⟩, ⟨[_], rfl, fun d hd => ?_⟩⟩
    rw [List.mem_singleton.mp hd]

/-- The records of the days up to `t`. -/
def recordsUpTo (t : Day) (books : Books) : List SpreadTrade × List DayPnl :=
  (books.trades.filter fun trade => trade.exitDay ≤ t, books.days.filter fun d => d.day ≤ t)

/-- A later day leaves them as they are. -/
theorem Adds.recordsUpTo {day : Day} (h : Adds day books books') (hday : t < day) :
    recordsUpTo t books' = recordsUpTo t books := by
  obtain ⟨new, htrades, hnew⟩ := h.trades
  obtain ⟨figures, hdays, hfigures⟩ := h.days
  have hlater : new.filter (fun trade => trade.exitDay ≤ t) = [] :=
    List.filter_eq_nil_iff.mpr fun trade htrade => by simp [hnew trade htrade, hday]
  have hlater' : figures.filter (fun d => d.day ≤ t) = [] :=
    List.filter_eq_nil_iff.mpr fun d hd => by simp [hfigures d hd, hday]
  rw [SpreadBacktester.recordsUpTo, htrades, hdays, List.filter_append, List.filter_append, hlater,
    hlater', List.append_nil, List.append_nil]
  rfl

/-- What a run has of the days up to `t` it has when they are over. -/
theorem recordsUpTo_of_loop {first last : Day} (h : b.loop first last = .ok books) :
    ∃ mid, b.loop first (min last t) = .ok mid ∧ recordsUpTo t books = recordsUpTo t mid := by
  have hwindow : b.window first last = b.window first (min last t) ++
      (b.window first last).filter fun day => t < day := by
    have hcut : b.window first (min last t) = (b.window first last).filter fun day => day ≤ t := by
      rw [window, window, List.filter_filter]
      refine List.filter_congr fun day _ => ?_
      rw [Bool.eq_iff_iff]
      simp only [Bool.and_eq_true, decide_eq_true_eq, le_min_iff]
      exact ⟨fun hd => ⟨hd.2.2, hd.1, hd.2.1⟩, fun hd => ⟨hd.2.1, hd.2.2, hd.1⟩⟩
    rw [hcut]
    exact filter_append_filter (f := id) sorted_window
  obtain ⟨mid, hmid, hrest⟩ := exists_of_prefix h hwindow
  refine ⟨mid, hmid, ?_⟩
  have hlater : ∀ day ∈ (b.window first last).filter fun day => t < day, t < day :=
    fun day hd => of_decide_eq_true (List.mem_filter.mp hd).2
  generalize (b.window first last).filter (fun day => t < day) = later at hrest hlater
  clear hmid h hwindow
  induction later generalizing mid with
  | nil =>
      obtain rfl := Except.ok.inj hrest
      rfl
  | cons day later ih =>
      rw [List.foldlM_cons] at hrest
      cases hstep : b.step mid day with
      | error e =>
          rw [hstep] at hrest
          cases hrest
      | ok next =>
          rw [hstep] at hrest
          rw [ih next hrest fun d hd => hlater d (List.mem_cons_of_mem _ hd)]
          exact (adds_of_step hstep).recordsUpTo (hlater day (List.mem_cons_self ..))

end SpreadBacktester

/-! ## The ladder -/

namespace B1

open SpreadBacktester

/-- Inputs that are the same up to the close of `t`. What is published
ahead, the blackout days and the fees, is the same throughout. -/
structure B1Inputs.AgreeUntil (t : Day) (i j : B1Inputs) : Prop where
  days : i.chains.days.filter (· ≤ t) = j.chains.days.filter (· ≤ t)
  snapshot : ∀ day ≤ t, i.chains.snapshot day = j.chains.snapshot day
  nifty : i.niftyCloses.upTo t = j.niftyCloses.upTo t
  vix : i.vixCloses.upTo t = j.vixCloses.upTo t
  monthly : ∀ day ≤ t, i.monthlyExpiries day = j.monthlyExpiries day
  blackout : i.blackoutDays = j.blackoutDays
  fees : i.fees = j.fees
  capital : i.capital = j.capital

variable {t : Day} {i j : B1Inputs} {arm : B1Parameters} {sqrt : Decimal → Decimal}
variable {scenario : SlippageScenario} {s : ChainSnapshot}

theorem B1Inputs.AgreeUntil.regime (h : i.AgreeUntil t j) : Agree t (regime i) (regime j) :=
  allOf_agree (.cons (trendAboveSma_agree h.nifty)
    (.cons (trailingPercentileBand_agree h.vix) .nil))

theorem B1Inputs.AgreeUntil.conviction (h : i.AgreeUntil t j) :
    Agree t (conviction i) (conviction j) :=
  allOf_agree (.cons (trailingPercentileBand_agree h.vix) (.cons (smaStack_agree h.nifty) .nil))

theorem B1Inputs.AgreeUntil.depth (h : i.AgreeUntil t j) (hs : s.day ≤ t) :
    depth i arm s = depth j arm s := by
  unfold B1.depth
  split_ifs
  · unfold convictionDepth
    rw [h.conviction s.day hs]
  · rfl

theorem B1Inputs.AgreeUntil.filters (h : i.AgreeUntil t j) (hs : s.day ≤ t) (expiry : Day) :
    ((filters i arm).all fun allows => allows s expiry) =
      (filters j arm).all fun allows => allows s expiry := by
  unfold B1.filters
  rw [List.all_cons, List.all_cons, firstSessionOfWeek_agree h.days hs, h.blackout]
  split_ifs
  · simp only [List.all_cons, conditionFilter, h.regime s.day hs]
  · rfl

theorem B1Inputs.AgreeUntil.chooser (h : i.AgreeUntil t j) (hs : s.day ≤ t) :
    Options.monthlyExpiries i.monthlyExpiries minDte maxDte s =
      Options.monthlyExpiries j.monthlyExpiries minDte maxDte s := by
  unfold Options.monthlyExpiries
  rw [h.monthly s.day hs]

theorem B1Inputs.AgreeUntil.template (h : i.AgreeUntil t j) (hs : s.day ≤ t) (expiry : Day)
    {cap : Decimal} {k : Decimal} {hk : 0 < k} {hcap : 0 < cap} :
    RiskCappedPutSpread.build sqrt ⟨vixVolatility i.vixCloses, k, cap, hk, hcap⟩ s expiry =
      RiskCappedPutSpread.build sqrt ⟨vixVolatility j.vixCloses, k, cap, hk, hcap⟩ s expiry := by
  unfold RiskCappedPutSpread.build knownVolatility
  dsimp only
  rw [vixVolatility_agree h.vix hs]

theorem B1Inputs.AgreeUntil.entry (h : i.AgreeUntil t j) (hs : s.day ≤ t) :
    entry sqrt i arm s = entry sqrt j arm s := by
  unfold B1.entry spreadEntry
  rw [h.chooser hs]
  cases Options.monthlyExpiries j.monthlyExpiries minDte maxDte s with
  | none => rfl
  | some expiry =>
      dsimp only
      rw [h.filters hs, h.template hs]

theorem B1Inputs.AgreeUntil.build (h : i.AgreeUntil t j) :
    (build sqrt i arm scenario).AgreeUntil t (build sqrt j arm scenario) where
  days := h.days
  snapshot := h.snapshot
  entry _ hs := h.entry hs
  depth _ hs := h.depth hs
  exits := rfl
  margin := rfl
  fees := h.fees
  settings := by
    have hcapital := h.capital
    cases i
    cases j
    subst hcapital
    rfl

/-- **The ladder does not look ahead.** For every arm and scenario, every
window and every two sets of inputs that are the same up to the close of a
day `t`: over the part of the window up to `t` the two runs are in the same
books, or stopped by the same error; and where both come through the whole
window, the trades closed by `t` and the figures up to `t` of their results
are the same. -/
theorem no_lookahead (h : i.AgreeUntil t j) (first last : Day) :
    (build sqrt i arm scenario).loop first (min last t) =
        (build sqrt j arm scenario).loop first (min last t) ∧
      ∀ r r', (build sqrt i arm scenario).run first last = .ok r →
        (build sqrt j arm scenario).run first last = .ok r' →
        r.trades.filter (fun trade => trade.exitDay ≤ t) =
            r'.trades.filter (fun trade => trade.exitDay ≤ t) ∧
          r.days.filter (fun d => d.day ≤ t) = r'.days.filter (fun d => d.day ≤ t) := by
  have hloop : (build sqrt i arm scenario).loop first (min last t) =
      (build sqrt j arm scenario).loop first (min last t) :=
    h.build.loop (min_le_right last t)
  refine ⟨hloop, fun r r' hr hr' => ?_⟩
  obtain ⟨books, hbooks, rfl⟩ := exists_of_run hr
  obtain ⟨books', hbooks', rfl⟩ := exists_of_run hr'
  obtain ⟨mid, hmid, hrecords⟩ := recordsUpTo_of_loop (t := t) hbooks
  obtain ⟨mid', hmid', hrecords'⟩ := recordsUpTo_of_loop (t := t) hbooks'
  have hsame : mid = mid' := Except.ok.inj (hmid.symm.trans (hloop.trans hmid'))
  have hall : recordsUpTo t books = recordsUpTo t books' := by rw [hrecords, hrecords', hsame]
  exact Prod.mk.inj hall

/-! ## Two futures -/

namespace TwoFutures

/-- The two puts of the other sample, with a month left on the first day. -/
def chainOn (day : Day) (short long : Decimal) (h : 0 ≤ short ∧ 0 ≤ long) : ChainSnapshot :=
  { OneSpread.chainOn day short long h with
    expiries := (OneSpread.chainOn day short long h).expiries.map fun e =>
      (31, { e.2 with expiry := 31 })
    settlements := [] }

theorem first_quoted : (0 : Decimal) ≤ 5 ∧ (0 : Decimal) ≤ 2 := by norm_num

theorem second_quoted : (0 : Decimal) ≤ 2 ∧ (0 : Decimal) ≤ 1 := by norm_num

/-- Only the last day differs. -/
def chains (short : {x : Decimal // 0 ≤ x}) : ChainSource where
  days := [1, 8, 9]
  snapshot day :=
    if day = 1 then some (chainOn 1 5 2 first_quoted)
    else if day = 8 then some (chainOn 8 2 1 second_quoted)
    else if day = 9 then some (chainOn 9 short 0 ⟨short.2, le_rfl⟩)
    else none
  sorted := by decide
  day_of_snapshot := by
    intro day s h
    split_ifs at h with h1 h8 h9
    · rw [← Option.some.inj h, h1]
      rfl
    · rw [← Option.some.inj h, h8]
      rfl
    · rw [← Option.some.inj h, h9]
      rfl

def inputs (short : {x : Decimal // 0 ≤ x}) : B1Inputs where
  chains := chains short
  niftyCloses := ⟨[], .nil⟩
  vixCloses := ⟨[(1, 15), (8, 15), (9, 15 + short)], by simp⟩
  blackoutDays := []
  monthlyExpiries _ := [31]
  fees := ⟨20, 1 / 10, 1 / 8, 3 / 100, 10, 3 / 1000, 0, 18⟩
  capital := 100000
  capital_pos := OneSpread.capital_pos

def plainArm : B1Parameters := ⟨1, false, 2, 5000, none, by norm_num, .inl rfl, by norm_num⟩

theorem half_nonneg : (0 : Decimal) ≤ 1 / 2 := by norm_num

theorem twenty_nonneg : (0 : Decimal) ≤ 20 := by norm_num

/-- The last close of the short put, in a calm future. -/
def calm : {x : Decimal // 0 ≤ x} := ⟨1 / 2, half_nonneg⟩

/-- And in a falling one. -/
def falling : {x : Decimal // 0 ≤ x} := ⟨20, twenty_nonneg⟩

/-- The roots of 30/365 and 23/365, to four digits. -/
def root (x : Decimal) : Decimal := if x = 30 / 365 then 2867 / 10000 else 2510 / 10000

theorem agreeUntil (x y : {x : Decimal // 0 ≤ x}) : (inputs x).AgreeUntil 8 (inputs y) where
  days := rfl
  snapshot day hday := by
    have hnine : day ≠ 9 := fun h => absurd (h ▸ hday) (by decide)
    simp only [inputs, chains, if_neg hnine]
  nifty := rfl
  vix := rfl
  monthly _ _ := rfl
  blackout := rfl
  fees := rfl
  capital := rfl

def outcome (short : {x : Decimal // 0 ≤ x}) : Except RunError BacktestResult :=
  (build root (inputs short) plainArm benchmark).run 1 9

/-- What the ladder shows of a future: its closed trades, and its figures. -/
def shown (short : {x : Decimal // 0 ≤ x}) : Option (List (Day × Day) × List Decimal) :=
  match outcome short with
  | .ok r => some (r.trades.map fun t => (t.entryDay, t.exitDay), r.days.map (·.pnl))
  | .error _ => none

end TwoFutures

open TwoFutures in
theorem no_lookahead_sample :
    shown calm = some ([(1, 8)], [-57572463 / 1000000, -7325677 / 500000, 25]) ∧
      shown falling = some ([(1, 8)], [-57572463 / 1000000, -7325677 / 500000, -950]) ∧
      ∀ r r', outcome calm = .ok r → outcome falling = .ok r' →
        r.days.filter (fun d => d.day ≤ 8) = r'.days.filter fun d => d.day ≤ 8 :=
  ⟨by decide +kernel, by decide +kernel, fun r r' hr hr' =>
    ((no_lookahead (agreeUntil calm falling) 1 9).2 r r' hr hr').2⟩

end B1

end Options

end Emporos
