import Emporos.Marketdata.Minutes
/-!
# What the minute bars count

A tick in order adds to its bar what its cumulative volume is above the
baseline, and becomes the baseline. So a tick that falls behind the counter
puts the baseline back, and the next one adds again what was counted before;
and a state that begins again at the open counts the day from nothing. Where
volume is only added to a baseline that nothing counted before is above, the
bars of a day count no more than the counter has shown.
-/

namespace Emporos

open Timestamp

/-- The volume of some bars. -/
def volumeOf (bars : List Candle) : ℕ := (bars.map (·.volume)).sum

@[simp] theorem volumeOf_nil : volumeOf [] = 0 := rfl

@[simp] theorem volumeOf_append (a b : List Candle) : volumeOf (a ++ b) = volumeOf a + volumeOf b := by
  simp [volumeOf]

/-- The volume of the bar being built. -/
def InstrumentState.openVolume (s : InstrumentState) : ℕ := (s.openBar.map (·.volume)).getD 0

namespace MinuteCandleAggregator

open InstrumentState

variable {w : MinuteWindow} {gaps : List Gap} {s : InstrumentState} {stats : AggregatorStats} {t : Tick}
  {c c' : Closing} {cutoff start : Timestamp} {n : ℕ}

/-- An in-order tick that is not late: it is folded into a bar. -/
def Folds (s : InstrumentState) (t : Tick) : Prop := t.outOfOrder = false ∧ late s t = false

instance (s : InstrumentState) (t : Tick) : Decidable (Folds s t) := inferInstanceAs (Decidable (_ ∧ _))

/-- The state a tick meets. -/
def met (w : MinuteWindow) (a : MinuteCandleAggregator) (t : Tick) : InstrumentState :=
  match Table.lookup (·.instrumentId) t.instrumentId a.states with
  | none => begin w t
  | some s => if s.day < sessionDate (floorMinute t.exchangeTs) then begin w t else s

/-! ## Closing keeps the volume -/

theorem emit_volume (h : emit gaps c start = .ok c') :
    volumeOf c'.closed + c'.state.openVolume = volumeOf c.closed + c.state.openVolume ∧
      c'.state.lastCumulativeVolume = c.state.lastCumulativeVolume := by
  unfold emit at h
  split at h
  · rename_i bar hbar
    obtain ⟨hopen, -⟩ := Option.filter_eq_some_iff.mp hbar
    obtain rfl := Except.ok.inj h
    refine ⟨?_, rfl⟩
    simp [openVolume, hopen, volumeOf, candle]
  · obtain rfl := Except.ok.inj h
    refine ⟨?_, rfl⟩
    simp [openVolume, volumeOf, candle, OpenBar.flat]
  · cases h

/-- **What is counted stays counted**, in a bar that is closed or in the open
one. -/
theorem closeMinutes_volume (h : closeMinutes w gaps cutoff n c = .ok c') :
    volumeOf c'.closed + c'.state.openVolume = volumeOf c.closed + c.state.openVolume ∧
      c'.state.lastCumulativeVolume = c.state.lastCumulativeVolume := by
  induction n generalizing c with
  | zero =>
      obtain rfl := Except.ok.inj h
      exact ⟨rfl, rfl⟩
  | succ n ih =>
      unfold closeMinutes at h
      split at h
      · obtain rfl := Except.ok.inj h
        exact ⟨rfl, rfl⟩
      · split at h
        · split at h
          · have hpassed := ih h
            exact hpassed
          · split at h
            · rename_i moved hemit
              obtain ⟨hvolume, hlast⟩ := emit_volume hemit
              obtain ⟨hvolume', hlast'⟩ := ih h
              exact ⟨hvolume'.trans hvolume, hlast'.trans hlast⟩
            · cases h
        · obtain rfl := Except.ok.inj h
          exact ⟨rfl, rfl⟩

theorem closeDue_volume (h : closeDue w gaps s stats cutoff = .ok c) :
    volumeOf c.closed + c.state.openVolume = s.openVolume ∧
      c.state.lastCumulativeVolume = s.lastCumulativeVolume := by
  simpa using closeMinutes_volume h

/-! ## A tick -/

/-- What a tick adds. -/
def added (s : InstrumentState) (t : Tick) : ℕ :=
  if Folds s t then traded s.lastCumulativeVolume t.volume else 0

/-- The baseline after a tick. -/
def baseline (s : InstrumentState) (t : Tick) : Option ℕ :=
  if Folds s t then t.volume.orElse fun _ => s.lastCumulativeVolume else s.lastCumulativeVolume

/-- An in-order tick trades what it is above the baseline. -/
theorem fold_of_inOrder {bar : OpenBar} (h : t.outOfOrder = false) :
    (fold s stats bar t).1.openVolume = bar.volume + traded s.lastCumulativeVolume t.volume ∧
      (fold s stats bar t).1.lastCumulativeVolume = t.volume.orElse fun _ => s.lastCumulativeVolume := by
  unfold fold
  rw [if_neg (by simp [h])]
  exact ⟨rfl, rfl⟩

/-- An older one widens the bar at most. -/
theorem fold_of_outOfOrder {bar : OpenBar} (h : t.outOfOrder = true) (hopen : s.openBar = some bar) :
    (fold s stats bar t).1.openVolume = s.openVolume ∧
      (fold s stats bar t).1.lastCumulativeVolume = s.lastCumulativeVolume := by
  unfold fold
  rw [if_pos h]
  split
  · exact ⟨by simp [openVolume, hopen, OpenBar.widen], rfl⟩
  · exact ⟨rfl, rfl⟩

/-- **What a tick counts**: what it adds, on top of what was counted. -/
theorem handle_volume (h : handle w gaps s stats t = .ok c) :
    volumeOf c.closed + c.state.openVolume ≤ s.openVolume + added s t ∧
      c.state.lastCumulativeVolume = baseline s t := by
  unfold handle at h
  split at h
  · rename_i hlate
    obtain rfl := Except.ok.inj h
    have hnot : ¬ Folds s t := fun hf => by simp [hf.2] at hlate
    simp [drop, added, baseline, hnot]
  · rename_i hlate
    have hlate : late s t = false := Bool.eq_false_iff.mpr hlate
    split at h
    · rename_i bar hbar
      obtain ⟨hopen, -⟩ := Option.filter_eq_some_iff.mp hbar
      obtain rfl := Except.ok.inj h
      have hvolume : s.openVolume = bar.volume := by simp [openVolume, hopen]
      cases hold : t.outOfOrder with
      | false =>
          have hfolds : Folds s t := ⟨hold, hlate⟩
          obtain ⟨hfold, hlast⟩ := @fold_of_inOrder s stats t bar hold
          simp only [added, baseline, if_pos hfolds, hvolume, volumeOf_nil, Nat.zero_add]
          exact ⟨hfold.le, hlast⟩
      | true =>
          have hfolds : ¬ Folds s t := fun hf => by simp [hf.1] at hold
          obtain ⟨hfold, hlast⟩ := @fold_of_outOfOrder s stats t bar hold hopen
          simp only [added, baseline, if_neg hfolds, volumeOf_nil, Nat.zero_add, Nat.add_zero]
          exact ⟨hfold.le, hlast⟩
    · split at h
      · rename_i hold
        obtain rfl := Except.ok.inj h
        have hnot : ¬ Folds s t := fun hf => by simp [hf.1] at hold
        simp [drop, added, baseline, hnot]
      · rename_i hold
        cases hclose : closeDue w gaps s stats (floorMinute t.exchangeTs) with
        | error e =>
            rw [hclose] at h
            cases h
        | ok y =>
            rw [hclose] at h
            obtain rfl := Except.ok.inj h
            obtain ⟨hvolume, hlast⟩ := closeDue_volume hclose
            have hfolds : Folds s t := ⟨Bool.eq_false_iff.mpr hold, hlate⟩
            obtain ⟨hfold, hlast'⟩ := @fold_of_inOrder y.state y.stats t
              (newBar y.state t (floorMinute t.exchangeTs)) hfolds.1
            have hnew : (newBar y.state t (floorMinute t.exchangeTs)).volume = 0 := rfl
            rw [hnew, hlast] at hfold
            rw [hlast] at hlast'
            simp only [added, baseline, if_pos hfolds, opened]
            exact ⟨by omega, hlast'⟩

end MinuteCandleAggregator

/-! ## Runs -/

namespace MinuteFeed

open MinuteCandleAggregator InstrumentState

variable (w : MinuteWindow) (grace : Duration)

/-- Volume is added only to a baseline at least as high as every volume
folded before. -/
def Steady (f : MinuteFeed) (highest : ℕ) : AggregatorEvent → Prop
  | .tick t => Folds (met w f.aggregator t) t →
      ∀ b ∈ (met w f.aggregator t).lastCumulativeVolume, ∀ v ∈ t.volume, b < v → highest ≤ b
  | .advance _ | .connected _ | .disconnected _ => True

instance (f : MinuteFeed) (highest : ℕ) : (e : AggregatorEvent) → Decidable (f.Steady w highest e)
  | .tick _ => inferInstanceAs (Decidable (_ → _))
  | .advance _ | .connected _ | .disconnected _ => inferInstanceAs (Decidable True)

/-- The highest volume folded, after an event. -/
def raised (f : MinuteFeed) (highest : ℕ) : AggregatorEvent → ℕ
  | .tick t => if Folds (met w f.aggregator t) t then max highest (t.volume.getD 0) else highest
  | .advance _ | .connected _ | .disconnected _ => highest

/-- Every event is steady in the state before it. -/
def SteadyRun : MinuteFeed → ℕ → List AggregatorEvent → Prop
  | _, _, [] => True
  | f, highest, e :: rest => f.Steady w highest e ∧
      match f.apply w grace e with
      | .ok f' => SteadyRun f' (f.raised w highest e) rest
      | .error _ => True

instance SteadyRun.decide : (f : MinuteFeed) → (highest : ℕ) → (events : List AggregatorEvent) →
    Decidable (f.SteadyRun w grace highest events)
  | _, _, [] => .isTrue trivial
  | f, highest, e :: rest =>
      have : Decidable (match f.apply w grace e with
          | .ok f' => SteadyRun w grace f' (f.raised w highest e) rest
          | .error _ => True) :=
        match f.apply w grace e with
        | .ok f' => SteadyRun.decide f' (f.raised w highest e) rest
        | .error _ => .isTrue trivial
      inferInstanceAs (Decidable (_ ∧ _))

/-- The highest cumulative volume the ticks carry. -/
def highestCarried (events : List AggregatorEvent) : ℕ :=
  events.foldr (fun e highest => match e with
    | .tick t => max (t.volume.getD 0) highest
    | .advance _ | .connected _ | .disconnected _ => highest) 0

/-- A tick of the instrument, on the day, in the session. -/
def IsOf (instrumentId : String) (date : ℤ) (t : Tick) : Prop :=
  t.instrumentId = instrumentId ∧ sessionDate t.exchangeTs = date ∧ w.contains t.exchangeTs

/-- A state of the instrument and day, with what is counted so far. -/
structure Counts (instrumentId : String) (date : ℤ) (bars : List Candle) (highest : ℕ)
    (s : InstrumentState) : Prop where
  id_eq : s.instrumentId = instrumentId
  day_eq : s.day = date
  valid : s.Valid w
  counted : volumeOf bars + s.openVolume ≤ highest
  baseline : ∀ b ∈ s.lastCumulativeVolume, b ≤ highest

/-- What a steady run of one instrument and day keeps. -/
def Booked (instrumentId : String) (date : ℤ) (f : MinuteFeed) (highest : ℕ) : Prop :=
  (f.aggregator.states = [] ∧ volumeOf f.bars ≤ highest) ∨
    ∃ s, f.aggregator.states = [s] ∧ Counts w instrumentId date f.bars highest s

variable {w grace} {instrumentId : String} {date : ℤ} {f : MinuteFeed} {highest : ℕ} {t : Tick}
  {e : AggregatorEvent} {events : List AggregatorEvent}

theorem Booked.volume_le (h : Booked w instrumentId date f highest) : volumeOf f.bars ≤ highest := by
  rcases h with ⟨-, hcounted⟩ | ⟨s, -, hs⟩
  · exact hcounted
  · exact (Nat.le_add_right _ _).trans hs.counted

/-- What a steady tick adds stays below the highest volume. -/
theorem Counts.add_le {s : InstrumentState} {bars : List Candle} (h : Counts w instrumentId date bars highest s)
    (hsteady : Folds s t → ∀ b ∈ s.lastCumulativeVolume, ∀ v ∈ t.volume, b < v → highest ≤ b) :
    volumeOf bars + (s.openVolume + added s t) ≤
      if Folds s t then max highest (t.volume.getD 0) else highest := by
  have hcounted := h.counted
  by_cases hfolds : Folds s t
  · simp only [added, if_pos hfolds]
    cases hlast : s.lastCumulativeVolume with
    | none => exact le_max_of_le_left hcounted
    | some b =>
        cases hvolume : t.volume with
        | none => exact le_max_of_le_left hcounted
        | some v =>
            have hbase : b ≤ highest := h.baseline b hlast
            simp only [traded, Option.getD_some]
            by_cases hlt : b < v
            · have := hsteady hfolds b hlast v hvolume hlt
              omega
            · omega
  · simp only [added, if_neg hfolds]
    exact hcounted

/-- No baseline is above the highest volume. -/
theorem Counts.baseline_le {s : InstrumentState} {bars : List Candle}
    (h : Counts w instrumentId date bars highest s) :
    ∀ b ∈ MinuteCandleAggregator.baseline s t,
      b ≤ if Folds s t then max highest (t.volume.getD 0) else highest := by
  intro b hb
  by_cases hfolds : Folds s t
  · rw [if_pos hfolds]
    rw [MinuteCandleAggregator.baseline, if_pos hfolds] at hb
    cases hvolume : t.volume with
    | none =>
        rw [hvolume] at hb
        exact le_max_of_le_left (h.baseline b hb)
    | some v =>
        rw [hvolume] at hb
        obtain rfl : v = b := Option.some.inj hb
        exact le_max_right _ _
  · rw [if_neg hfolds]
    rw [MinuteCandleAggregator.baseline, if_neg hfolds] at hb
    exact h.baseline b hb

/-- A state that counts, after a tick of its day. -/
theorem Counts.tick {s : InstrumentState} {bars : List Candle} (h : Counts w instrumentId date bars highest s)
    (gaps : List Gap) (stats : AggregatorStats) (ht : IsOf w instrumentId date t)
    (hsteady : Folds s t → ∀ b ∈ s.lastCumulativeVolume, ∀ v ∈ t.volume, b < v → highest ≤ b) :
    ∃ c, handle w gaps s stats t = .ok c ∧
      Counts w instrumentId date (bars ++ c.closed)
        (if Folds s t then max highest (t.volume.getD 0) else highest) c.state := by
  obtain ⟨-, hday, hin⟩ := ht
  obtain ⟨c, hrun, hid, hcday, hvalid, -⟩ :=
    handle_spec gaps h.valid stats hin (hday.trans h.day_eq.symm)
  obtain ⟨hvolume, hlast⟩ := handle_volume hrun
  refine ⟨c, hrun, hid.trans h.id_eq, hcday.trans h.day_eq, hvalid, ?_, ?_⟩
  · refine le_trans ?_ (h.add_le hsteady)
    rw [volumeOf_append]
    omega
  · rw [hlast]
    exact h.baseline_le

/-- A state that begins with a tick counts nothing of its own. -/
theorem counts_begin {bars : List Candle} (hcounted : volumeOf bars ≤ highest)
    (ht : IsOf w instrumentId date t) : Counts w instrumentId date bars highest (begin w t) := by
  obtain ⟨hid, hday, hin⟩ := ht
  obtain ⟨hgood, -⟩ := begin_good (w := w) [] hin
  refine ⟨hid, (sessionDate_floorMinute _).trans hday, hgood.valid, hcounted, fun b hb => ?_⟩
  simp only [begin] at hb
  split at hb
  · obtain rfl : 0 = b := Option.some.inj hb
    exact Nat.zero_le _
  · cases hb

/-- **A tick.** -/
theorem Booked.tick (h : Booked w instrumentId date f highest) (ht : IsOf w instrumentId date t)
    (hsteady : f.Steady w highest (.tick t)) :
    ∃ f', f.apply w grace (.tick t) = .ok f' ∧
      Booked w instrumentId date f' (f.raised w highest (.tick t)) := by
  rcases h with ⟨hnone, hcounted⟩ | ⟨s, hone, hs⟩
  · have hlookup : Table.lookup (·.instrumentId) t.instrumentId f.aggregator.states = none := by
      rw [hnone]
      rfl
    have hmet : met w f.aggregator t = begin w t := by rw [met, hlookup]
    rw [Steady, hmet] at hsteady
    obtain ⟨c, hrun, hc⟩ := (counts_begin hcounted ht).tick f.aggregator.gaps f.aggregator.stats ht hsteady
    refine ⟨⟨f.aggregator.put c, f.bars ++ c.closed⟩, ?_, .inr ⟨c.state, ?_, ?_⟩⟩
    · simp [apply, onTick, hlookup, hrun, Except.map, bind, Except.bind, pure, Except.pure]
    · simp [put, hnone, Table.upsert]
    · rwa [raised, hmet]
  · have hlookup : Table.lookup (·.instrumentId) t.instrumentId f.aggregator.states = some s := by
      rw [hone]
      simp [Table.lookup, hs.id_eq, ht.1]
    have hday : ¬ s.day < sessionDate t.exchangeTs := by
      rw [ht.2.1, hs.day_eq]
      exact lt_irrefl _
    have hmet : met w f.aggregator t = s := by
      simp only [met, hlookup, sessionDate_floorMinute, if_neg hday]
    rw [Steady, hmet] at hsteady
    obtain ⟨c, hrun, hc⟩ := hs.tick f.aggregator.gaps f.aggregator.stats ht hsteady
    refine ⟨⟨f.aggregator.put c, f.bars ++ c.closed⟩, ?_, .inr ⟨c.state, ?_, ?_⟩⟩
    · simp [apply, onTick, hlookup, hday, hrun, Except.map, bind, Except.bind, pure, Except.pure]
    · have hid : s.instrumentId = c.state.instrumentId := hs.id_eq.trans hc.id_eq.symm
      simp [put, hone, Table.upsert, Table.replace, hid]
    · rwa [raised, hmet]

/-- **The clock.** What it closes is counted already. -/
theorem Booked.advance (h : Booked w instrumentId date f highest) (moment : Timestamp) :
    ∃ f', f.apply w grace (.advance moment) = .ok f' ∧ Booked w instrumentId date f' highest := by
  rcases h with ⟨hnone, hcounted⟩ | ⟨s, hone, hs⟩
  · refine ⟨⟨{ f.aggregator with states := [] }, f.bars ++ []⟩, ?_, .inl ⟨rfl, by simpa using hcounted⟩⟩
    simp [apply, MinuteCandleAggregator.advance, hnone, advanceStates, Except.map, bind, Except.bind,
      pure, Except.pure]
  · obtain ⟨c, hclose, hadv, -, -⟩ := closeDue_spec f.aggregator.gaps hs.valid f.aggregator.stats
      (floorMinute (moment - grace))
    obtain ⟨hvolume, hlast⟩ := closeDue_volume hclose
    have hbooked := hs.counted
    refine ⟨⟨{ f.aggregator with
        states := if c.state.nextStart.isNone ∧ c.state.day < sessionDate moment then [] else [c.state]
        stats := c.stats }, f.bars ++ (c.closed ++ [])⟩, ?_, ?_⟩
    · simp [apply, MinuteCandleAggregator.advance, hone, advanceStates, hclose, Except.map, bind,
        Except.bind, pure, Except.pure]
    · have hcounted : volumeOf (f.bars ++ (c.closed ++ [])) + c.state.openVolume ≤ highest := by
        simp only [volumeOf_append, volumeOf_nil]
        omega
      by_cases hdone : c.state.nextStart.isNone ∧ c.state.day < sessionDate moment
      · exact .inl ⟨if_pos hdone, (Nat.le_add_right _ _).trans hcounted⟩
      · refine .inr ⟨c.state, if_neg hdone, hadv.sameId.trans hs.id_eq, hadv.sameDay.trans hs.day_eq,
          hadv.valid, hcounted, ?_⟩
        rw [hlast]
        exact hs.baseline

/-- **One event.** -/
theorem Booked.apply (h : Booked w instrumentId date f highest)
    (hof : ∀ t, e = .tick t → IsOf w instrumentId date t) (hsteady : f.Steady w highest e) :
    ∃ f', f.apply w grace e = .ok f' ∧ Booked w instrumentId date f' (f.raised w highest e) := by
  cases e with
  | tick t => exact h.tick (hof t rfl) hsteady
  | advance moment => exact h.advance moment
  | connected now => exact ⟨_, rfl, h⟩
  | disconnected now =>
      refine ⟨_, rfl, ?_⟩
      rcases h with ⟨hnone, hcounted⟩ | ⟨s, hone, hs⟩
      · exact .inl ⟨by simp [onDisconnected, hnone], hcounted⟩
      · refine .inr ⟨{ s with lastCumulativeVolume := none }, by simp [onDisconnected, hone], hs.id_eq,
          hs.day_eq, ⟨hs.valid.next, hs.valid.bar⟩, hs.counted, fun b hb => by cases hb⟩

/-- A run from a booked state. -/
theorem Booked.run (h : Booked w instrumentId date f highest)
    (hof : ∀ t, .tick t ∈ events → IsOf w instrumentId date t)
    (hsteady : f.SteadyRun w grace highest events) :
    ∃ f', events.foldlM (MinuteFeed.apply w grace) f = .ok f' ∧
      volumeOf f'.bars ≤ max highest (highestCarried events) := by
  induction events generalizing f highest with
  | nil => exact ⟨f, rfl, h.volume_le.trans (le_max_left _ _)⟩
  | cons e rest ih =>
      obtain ⟨hfirst, hrest⟩ := hsteady
      obtain ⟨f', happly, hbooked⟩ : ∃ f', f.apply w grace e = .ok f' ∧
          Booked w instrumentId date f' (f.raised w highest e) :=
        h.apply (fun t ht => hof t (by simp [ht])) hfirst
      rw [happly] at hrest
      obtain ⟨f'', hrun, hle⟩ := ih hbooked (fun t ht => hof t (List.mem_cons_of_mem _ ht)) hrest
      refine ⟨f'', ?_, hle.trans ?_⟩
      · rw [List.foldlM_cons, happly]
        exact hrun
      · cases e with
        | tick t =>
            simp only [raised, highestCarried, List.foldr_cons]
            split <;> omega
        | advance | connected | disconnected => exact le_rfl

/-- **No traded share is counted twice.** In every run of ticks of one
instrument and day, whatever the clock and the connection do between them,
whose steps are steady: the bars emitted count no more than the highest
cumulative volume a tick carried. -/
theorem volume_le_highestCarried (hof : ∀ t, .tick t ∈ events → IsOf w instrumentId date t)
    (hsteady : SteadyRun w grace ⟨.initial, []⟩ 0 events) :
    ∃ f, MinuteFeed.run w grace events = .ok f ∧ volumeOf f.bars ≤ highestCarried events := by
  have hstart : Booked w instrumentId date ⟨.initial, []⟩ 0 := .inl ⟨rfl, le_rfl⟩
  obtain ⟨f, hrun, hle⟩ := hstart.run hof hsteady
  exact ⟨f, hrun, by simpa using hle⟩

/-! ## A morning -/

/-- So many seconds after the open. -/
def morning (seconds : ℤ) : Timestamp := Timestamp.day - indiaOffset + (33300 + seconds) * second

/-- A tick of the morning, so many seconds after the open. -/
def morningTick (seconds : ℤ) (volume : ℕ) : Tick :=
  { fridayTick ((33300 + seconds) * second) with volume := some volume }

/-- The counter rises, the feed goes down and comes back, and the counter
has gone on. -/
def rising : List AggregatorEvent :=
  [.tick (morningTick 5 100), .tick (morningTick 65 150), .disconnected (morning 100),
    .connected (morning 110), .tick (morningTick 125 400), .tick (morningTick 130 420),
    .advance (morning 200)]

theorem volume_le_rising :
    ∃ f, run (.regular SessionWindow.weekdays) second rising = .ok f ∧
      volumeOf f.bars ≤ highestCarried rising := by
  have hof : ∀ t, .tick t ∈ rising → IsOf (.regular SessionWindow.weekdays) "I" 1 t := by
    intro t ht
    obtain rfl | rfl | rfl | rfl : t = morningTick 5 100 ∨ t = morningTick 65 150 ∨
        t = morningTick 125 400 ∨ t = morningTick 130 420 := by simpa [rising] using ht
    all_goals exact ⟨rfl, by decide, by decide⟩
  exact volume_le_highestCarried hof (by decide)

/-- The counter dips and comes back. -/
def dipping : List AggregatorEvent :=
  [.tick (morningTick 5 100), .tick (morningTick 65 50), .tick (morningTick 125 100),
    .advance (morning 200)]

/-- **Shares counted twice.** The bars count a hundred and fifty where no tick
carried more than a hundred. -/
theorem volume_counted_twice :
    ¬ ∀ (w : MinuteWindow) (grace : Duration) (instrumentId : String) (date : ℤ)
      (events : List AggregatorEvent), (∀ t, .tick t ∈ events → IsOf w instrumentId date t) →
        ∃ f, run w grace events = .ok f ∧ volumeOf f.bars ≤ highestCarried events := by
  intro h
  have hof : ∀ t, .tick t ∈ dipping → IsOf (.regular SessionWindow.weekdays) "I" 1 t := by
    intro t ht
    obtain rfl | rfl | rfl : t = morningTick 5 100 ∨ t = morningTick 65 50 ∨ t = morningTick 125 100 := by
      simpa [dipping] using ht
    all_goals exact ⟨rfl, by decide, by decide⟩
  obtain ⟨f, hrun, hle⟩ := h (.regular SessionWindow.weekdays) second "I" 1 dipping hof
  have hbad : ((run (.regular SessionWindow.weekdays) second dipping).toOption.map fun f =>
      (volumeOf f.bars, highestCarried dipping)) = some (150, 100) := by
    decide
  rw [hrun] at hbad
  simp only [Except.toOption, Option.map_some, Option.some.injEq, Prod.mk.injEq] at hbad
  omega

end MinuteFeed

end Emporos
