import Emporos.Marketdata.Aggregator
/-!
# Minute bars are emitted once

`Advances` says what closing does to one state: the bars it emits lie
between the next minute before and after, in order. A state that holds a
price is ahead of every bar of its instrument (`Behind`). A state that
holds none may begin anywhere, so the first price a tick brings is what has
to be watched (`Fresh`).
-/

namespace Emporos

open Timestamp

namespace InstrumentState

/-- The state is in a minute of its day's session, and so is its bar. -/
structure Valid (w : MinuteWindow) (s : InstrumentState) : Prop where
  next : ∀ n, s.nextStart = some n → WholeMinute n ∧ w.contains n ∧ sessionDate n = s.day
  bar : ∀ b, s.openBar = some b → s.nextStart = some b.start

/-- A price is known. -/
def Priced (s : InstrumentState) : Prop := s.openBar ≠ none ∨ s.lastClose ≠ none

/-- What closing does to a state: the bars `out` it emits. -/
structure Advances (w : MinuteWindow) (s s' : InstrumentState) (out : List Candle) : Prop where
  sameId : s'.instrumentId = s.instrumentId
  sameDay : s'.day = s.day
  valid : s'.Valid w
  priced : s'.Priced ↔ s.Priced
  own : ∀ b ∈ out, b.instrumentId = s.instrumentId ∧ WholeMinute b.ts ∧ w.contains b.ts ∧
    sessionDate b.ts = s.day
  started : ∀ b ∈ out, s.Priced ∧ ∃ n, s.nextStart = some n ∧ n ≤ b.ts
  before : ∀ b ∈ out, ∀ m, s'.nextStart = some m → b.ts < m
  forward : ∀ m, s'.nextStart = some m → ∃ n, s.nextStart = some n ∧ n ≤ m
  increasing : out.Pairwise fun a b => a.ts < b.ts

namespace Advances

variable {w : MinuteWindow} {s s' s'' : InstrumentState} {out out' : List Candle}

theorem refl (h : s.Valid w) : Advances w s s [] where
  sameId := rfl
  sameDay := rfl
  valid := h
  priced := Iff.rfl
  own := by simp
  started := by simp
  before := by simp
  forward m hm := ⟨m, hm, le_rfl⟩
  increasing := List.Pairwise.nil

/-- Closing goes on where it stopped. -/
theorem trans (h : Advances w s s' out) (h' : Advances w s' s'' out') :
    Advances w s s'' (out ++ out') where
  sameId := h'.sameId.trans h.sameId
  sameDay := h'.sameDay.trans h.sameDay
  valid := h'.valid
  priced := h'.priced.trans h.priced
  own b hb := by
    rcases List.mem_append.mp hb with hb | hb
    · exact h.own b hb
    · rw [← h.sameId, ← h.sameDay]
      exact h'.own b hb
  started b hb := by
    rcases List.mem_append.mp hb with hb | hb
    · exact h.started b hb
    · obtain ⟨hpriced, n, hn, hle⟩ := h'.started b hb
      obtain ⟨n', hn', hle'⟩ := h.forward n hn
      exact ⟨h.priced.mp hpriced, n', hn', hle'.trans hle⟩
  before b hb m hm := by
    rcases List.mem_append.mp hb with hb | hb
    · obtain ⟨n, hn, hle⟩ := h'.forward m hm
      exact (h.before b hb n hn).trans_le hle
    · exact h'.before b hb m hm
  forward m hm := by
    obtain ⟨n, hn, hle⟩ := h'.forward m hm
    obtain ⟨n', hn', hle'⟩ := h.forward n hn
    exact ⟨n', hn', hle'.trans hle⟩
  increasing := by
    refine List.pairwise_append.mpr ⟨h.increasing, h'.increasing, fun a ha b hb => ?_⟩
    obtain ⟨-, n, hn, hle⟩ := h'.started b hb
    exact (h.before a ha n hn).trans_le hle

end Advances

end InstrumentState

namespace MinuteCandleAggregator

open InstrumentState

variable {w : MinuteWindow} (gaps : List Gap)

/-! ## One minute -/

theorem following_eq_some {start m : Timestamp} :
    following w start = some m ↔ m = start + minute ∧ w.contains (start + minute) := by
  unfold following
  split
  · rename_i h
    simp [h, eq_comm]
  · rename_i h
    simp [h]

/-- A state that moves on from a closed minute. -/
theorem advances_following {s s' : InstrumentState} {start : Timestamp} {out : List Candle}
    (hs : s.Valid w) (hstart : s.nextStart = some start) (hid : s'.instrumentId = s.instrumentId)
    (hday : s'.day = s.day) (hbar : s'.openBar = none) (hpriced : s'.Priced ↔ s.Priced)
    (hout : out = [] ∨ ∃ b, out = [b] ∧ s.Priced ∧ b.instrumentId = s.instrumentId ∧ b.ts = start) :
    Advances w s { s' with nextStart := following w start } out := by
  obtain ⟨hwhole, hin, hdate⟩ := hs.next start hstart
  refine
    { sameId := hid
      sameDay := hday
      valid := ⟨fun n hn => ?_, fun b hb => by simp [hbar] at hb⟩
      priced := hpriced
      own := ?_
      started := ?_
      before := ?_
      forward := ?_
      increasing := ?_ }
  · obtain ⟨rfl, hnext⟩ := following_eq_some.1 hn
    exact ⟨hwhole.add_minute, hnext, by
      rw [MinuteWindow.sessionDate_add_minute hin hnext, hdate, hday]⟩
  · rintro b hb
    rcases hout with rfl | ⟨b', rfl, -, hid', hts⟩
    · simp at hb
    · obtain rfl := List.mem_singleton.mp hb
      exact ⟨hid', by rwa [hts], by rwa [hts], by rwa [hts]⟩
  · rintro b hb
    rcases hout with rfl | ⟨b', rfl, hp, -, hts⟩
    · simp at hb
    · obtain rfl := List.mem_singleton.mp hb
      exact ⟨hp, start, hstart, hts.ge⟩
  · rintro b hb m hm
    obtain ⟨rfl, -⟩ := following_eq_some.1 hm
    rcases hout with rfl | ⟨b', rfl, -, -, hts⟩
    · simp at hb
    · obtain rfl := List.mem_singleton.mp hb
      have hpos := minute_pos
      rw [hts]
      exact lt_add_of_pos_right start hpos
  · intro m hm
    obtain ⟨rfl, -⟩ := following_eq_some.1 hm
    exact ⟨start, hstart, le_of_lt (lt_add_of_pos_right start minute_pos)⟩
  · rcases hout with rfl | ⟨b, rfl, -⟩
    · exact List.Pairwise.nil
    · exact List.pairwise_singleton _ _

/-- **One minute is closed** with one bar, if a price is known. -/
theorem emit_spec {c : Closing} {start : Timestamp} (hc : c.state.Valid w)
    (hstart : c.state.nextStart = some start) (hpriced : c.state.Priced) :
    ∃ c' b, emit gaps c start = .ok c' ∧ c'.closed = c.closed ++ [b] ∧
      Advances w c.state { c'.state with nextStart := following w start } [b] := by
  have hmove : ∀ (s' : InstrumentState) (b : Candle), s'.instrumentId = c.state.instrumentId →
      s'.day = c.state.day → s'.openBar = none → s'.lastClose ≠ none →
      b.instrumentId = c.state.instrumentId → b.ts = start →
        Advances w c.state { s' with nextStart := following w start } [b] := by
    intro s' b hid hday hbar hclose hb hts
    exact advances_following hc hstart hid hday hbar
      (iff_of_true (Or.inr hclose) hpriced) (Or.inr ⟨b, rfl, hpriced, hb, hts⟩)
  cases hbar : c.state.openBar with
  | some bar =>
      have hsame : bar.start = start := by
        have := hc.bar bar hbar
        rw [hstart] at this
        exact (Option.some.inj this).symm
      refine ⟨_, _, by simp [emit, hbar, hsame, Option.filter]; rfl, rfl, ?_⟩
      exact hmove _ _ rfl rfl rfl (by simp) rfl rfl
  | none =>
      rcases hpriced with h | hclose
      · exact absurd hbar h
      · obtain ⟨price, hprice⟩ := Option.ne_none_iff_exists'.mp hclose
        refine ⟨_, _, by simp [emit, hbar, hprice]; rfl, rfl, ?_⟩
        exact hmove _ _ rfl rfl rfl (by simp) rfl rfl

/-! ## Closing -/

/-- A state that closes up to a minute of its own day is in that minute. -/
def Lands (w : MinuteWindow) (cutoff : Timestamp) (s s' : InstrumentState) : Prop :=
  ∀ start, s.nextStart = some start → start ≤ cutoff → WholeMinute cutoff → w.contains cutoff →
    sessionDate cutoff = s.day → s'.nextStart = some cutoff

/-- The minute after one that lies before the cutoff. -/
theorem lands_following {cutoff start : Timestamp} {s t s' : InstrumentState} (hs : s.Valid w)
    (hstart : s.nextStart = some start) (hlt : start < cutoff)
    (hnext : t.nextStart = following w start) (hday : t.day = s.day)
    (h : Lands w cutoff t s') : Lands w cutoff s s' := by
  intro start' hstart' _ hwhole hin hdate
  obtain rfl : start = start' := by
    rw [hstart] at hstart'
    exact Option.some.inj hstart'
  obtain ⟨hstartWhole, hstartIn, hstartDate⟩ := hs.next start hstart
  have hle : start + minute ≤ cutoff := hstartWhole.add_le hwhole hlt
  have hstep : w.contains (start + minute) :=
    (MinuteWindow.contains_between hstartIn hin (by rw [hstartDate, hdate])
      (le_of_lt (lt_add_of_pos_right start minute_pos)) hle).1
  exact h (start + minute) (by rw [hnext, following_eq_some]; exact ⟨rfl, hstep⟩) hle hwhole hin
    (by rw [hday, hdate])

/-- **What closing does.** It never fails, advances the state, and leaves
no minute before the cutoff. -/
theorem closeMinutes_spec (cutoff : Timestamp) (n : ℕ) (c : Closing) (hc : c.state.Valid w)
    (hn : ∀ start, c.state.nextStart = some start → cutoff ≤ start + n * minute) :
    ∃ c' out, closeMinutes w gaps cutoff n c = .ok c' ∧ c'.closed = c.closed ++ out ∧
      Advances w c.state c'.state out ∧ Lands w cutoff c.state c'.state ∧
      ∀ m, c'.state.nextStart = some m → cutoff ≤ m := by
  induction n generalizing c with
  | zero =>
      refine ⟨c, [], rfl, by simp, .refl hc, fun start hstart hle _ _ _ => ?_,
        fun m hm => by simpa using hn m hm⟩
      have hge : cutoff ≤ start := by simpa using hn start hstart
      rw [hstart, le_antisymm hle hge]
  | succ n ih =>
      cases hstart : c.state.nextStart with
      | none =>
          refine ⟨c, [], by simp [closeMinutes, hstart], by simp, .refl hc, fun start h => ?_,
            fun m hm => ?_⟩
          · rw [hstart] at h
            cases h
          · rw [hstart] at hm
            cases hm
      | some start =>
          by_cases hlt : start < cutoff
          · have hleft : ∀ m, following w start = some m → cutoff ≤ m + n * minute := by
              intro m hm
              obtain ⟨rfl, -⟩ := following_eq_some.1 hm
              have := hn start hstart
              push_cast at this
              linarith
            by_cases hnone : c.state.openBar.isNone ∧ c.state.lastClose.isNone
            · -- nothing to close: the minute is passed over
              have hbar : c.state.openBar = none := by simpa using hnone.1
              have hstep : Advances w c.state
                  { c.state with nextStart := following w start } [] :=
                advances_following hc hstart rfl rfl hbar Iff.rfl (Or.inl rfl)
              obtain ⟨c', out, hrun, hclosed, hadv, hland, hdone⟩ :=
                ih { c with state.nextStart := following w start } hstep.valid hleft
              refine ⟨c', out, ?_, hclosed, hstep.trans hadv,
                lands_following (t := { c.state with nextStart := following w start }) hc hstart
                  hlt rfl rfl hland, hdone⟩
              simp only [closeMinutes, hstart]
              rw [if_pos hlt, if_pos hnone]
              exact hrun
            · have hpriced : c.state.Priced := by
                by_contra hp
                simp only [Priced, not_or, not_not] at hp
                simp [hp] at hnone
              obtain ⟨c₁, b, hemit, hclosed₁, hstep⟩ := emit_spec gaps hc hstart hpriced
              obtain ⟨c', out, hrun, hclosed, hadv, hland, hdone⟩ :=
                ih { c₁ with state.nextStart := following w start } hstep.valid hleft
              refine ⟨c', b :: out, ?_, by simp [hclosed, hclosed₁], hstep.trans hadv,
                lands_following hc hstart hlt rfl hstep.sameDay hland, hdone⟩
              simp only [closeMinutes, hstart]
              rw [if_pos hlt, if_neg hnone, hemit]
              exact hrun
          · refine ⟨c, [], by simp [closeMinutes, hstart, hlt], by simp, .refl hc,
              fun start' h hle _ _ _ => ?_, fun m hm => ?_⟩
            · rw [hstart] at h
              cases h
              rw [hstart, le_antisymm hle (not_lt.mp hlt)]
            · rw [hstart] at hm
              cases hm
              exact not_lt.mp hlt

theorem closeDue_spec {s : InstrumentState} (hs : s.Valid w) (stats : AggregatorStats)
    (cutoff : Timestamp) :
    ∃ c, closeDue w gaps s stats cutoff = .ok c ∧ Advances w s c.state c.closed ∧
      Lands w cutoff s c.state ∧ ∀ m, c.state.nextStart = some m → cutoff ≤ m := by
  obtain ⟨c, out, hrun, hclosed, hadv, hland, hdone⟩ := closeMinutes_spec gaps
    cutoff (minutesDue s cutoff) ⟨s, stats, []⟩ hs (by
      intro start hstart
      have hnext : s.nextStart = some start := hstart
      have hdue : minutesDue s cutoff = ((cutoff - start) / minute).toNat + 1 := by
        simp [minutesDue, hnext]
      rw [hdue]
      simp only [minute, second, Timestamp, Duration] at *
      push_cast
      omega)
  refine ⟨c, hrun, ?_, hland, hdone⟩
  rw [hclosed]
  simpa using hadv

/-! ## A tick -/

/-- Folding a tick into the bar of the minute touches the bar alone. -/
theorem fold_spec {s : InstrumentState} (hs : s.Valid w) (stats : AggregatorStats) (bar : OpenBar)
    (tick : Tick) (hstart : s.nextStart = some bar.start) :
    (fold s stats bar tick).1.instrumentId = s.instrumentId ∧
      (fold s stats bar tick).1.day = s.day ∧
      (fold s stats bar tick).1.nextStart = s.nextStart ∧ (fold s stats bar tick).1.Valid w := by
  have hvalid : ∀ (bar' : OpenBar) (volume : Option ℕ), bar'.start = bar.start →
      ({ s with openBar := some bar', lastCumulativeVolume := volume } : InstrumentState).Valid w := by
    intro bar' volume hsame
    refine ⟨hs.next, fun b hb => ?_⟩
    obtain rfl : bar' = b := Option.some.inj hb
    rw [hsame, ← hstart]
  unfold fold
  by_cases hold : tick.outOfOrder
  · rw [if_pos hold]
    by_cases hwide : bar.high < tick.ltp ∨ tick.ltp < bar.low
    · rw [if_pos hwide]
      exact ⟨rfl, rfl, rfl, hvalid _ _ rfl⟩
    · rw [if_neg hwide]
      exact ⟨rfl, rfl, rfl, hs⟩
  · rw [if_neg hold]
    exact ⟨rfl, rfl, rfl, hvalid _ _ rfl⟩

/-- **What a tick of its day does to a state.** It advances the state, and
leaves it with a price only if there was one or the tick is in order and
not late; then no later bar lies before the tick's minute. -/
theorem handle_spec {s : InstrumentState} (hs : s.Valid w) (stats : AggregatorStats) {tick : Tick}
    (hin : w.contains tick.exchangeTs) (hday : sessionDate tick.exchangeTs = s.day) :
    ∃ c, handle w gaps s stats tick = .ok c ∧ c.state.instrumentId = s.instrumentId ∧
      c.state.day = s.day ∧ c.state.Valid w ∧
      (∃ s', Advances w s s' c.closed ∧ c.state.nextStart = s'.nextStart) ∧
      (c.state.Priced → s.Priced ∨ (tick.outOfOrder = false ∧ late s tick = false ∧
        c.state.nextStart = some (floorMinute tick.exchangeTs))) := by
  unfold handle
  by_cases hlate : late s tick
  · rw [if_pos hlate]
    exact ⟨_, rfl, rfl, rfl, hs, ⟨s, .refl hs, rfl⟩, Or.inl⟩
  · rw [if_neg hlate]
    obtain ⟨next, hnext, hle⟩ : ∃ next, s.nextStart = some next ∧
        next ≤ floorMinute tick.exchangeTs := by
      cases hnext : s.nextStart with
      | none => simp [late, hnext] at hlate
      | some next => exact ⟨next, rfl, by simpa [late, hnext] using hlate⟩
    cases hbar : s.openBar.filter (·.start = floorMinute tick.exchangeTs) with
    | some bar =>
        obtain ⟨hopen, -⟩ : s.openBar = some bar ∧ bar.start = floorMinute tick.exchangeTs := by
          rw [Option.filter_eq_some_iff] at hbar
          simpa using hbar
        obtain ⟨hid, hd, hn, hvalid⟩ := fold_spec hs stats _ tick
          (hs.bar bar hopen)
        exact ⟨_, rfl, hid, hd, hvalid, ⟨s, .refl hs, hn⟩, fun _ => Or.inl (Or.inl (by simp [hopen]))⟩
    | none =>
        by_cases hold : tick.outOfOrder
        · rw [if_pos hold]
          exact ⟨_, rfl, rfl, rfl, hs, ⟨s, .refl hs, rfl⟩, Or.inl⟩
        · obtain ⟨c, hrun, hadv, hland, -⟩ := closeDue_spec gaps hs stats
            (floorMinute tick.exchangeTs)
          have hat : c.state.nextStart = some (floorMinute tick.exchangeTs) :=
            hland next hnext hle (wholeMinute_floor _) (MinuteWindow.contains_floorMinute hin)
              (by rw [sessionDate_floorMinute, hday])
          obtain ⟨hid, hd, hn, hvalid⟩ := fold_spec hadv.valid c.stats
            (newBar c.state tick (floorMinute tick.exchangeTs)) tick hat
          rw [if_neg hold, hrun]
          exact ⟨opened c tick, rfl, hid.trans hadv.sameId, hd.trans hadv.sameDay, hvalid,
            ⟨c.state, hadv, hn⟩, fun _ => Or.inr ⟨by simpa using hold, by simpa using hlate,
              hn.trans hat⟩⟩

/-! ## All bars of an instrument -/

/-- The state is ahead of every bar of its instrument. -/
def Behind (bars : List Candle) (s : InstrumentState) : Prop :=
  ∀ b ∈ bars, b.instrumentId = s.instrumentId →
    sessionDate b.ts ≤ s.day ∧ ∀ n, s.nextStart = some n → b.ts < n

/-- A state that is ahead of its bars, if it holds a price. -/
structure Good (w : MinuteWindow) (bars : List Candle) (s : InstrumentState) : Prop where
  valid : s.Valid w
  behind : s.Priced → Behind bars s

/-- The bars of each instrument are in strictly increasing minutes. -/
def InOrder (bars : List Candle) : Prop :=
  bars.Pairwise fun a b => a.instrumentId = b.instrumentId → a.ts < b.ts

instance (bars : List Candle) : Decidable (InOrder bars) :=
  inferInstanceAs (Decidable (List.Pairwise _ _))

/-- Each bar is a minute of a session. -/
def Inside (w : MinuteWindow) (bars : List Candle) : Prop :=
  ∀ b ∈ bars, WholeMinute b.ts ∧ w.contains b.ts

variable {bars : List Candle} {s s' : InstrumentState} {out : List Candle}

/-- The bars a state emits come after the bars of its instrument. -/
theorem inOrder_append (hbars : InOrder bars) (hs : Good w bars s) (h : Advances w s s' out) :
    InOrder (bars ++ out) := by
  refine List.pairwise_append.mpr ⟨hbars, ?_, fun a ha b hb hid => ?_⟩
  · exact h.increasing.imp fun {a b} hab (_ : a.instrumentId = b.instrumentId) => hab
  obtain ⟨hpriced, n, hn, hle⟩ := h.started b hb
  exact ((hs.behind hpriced a ha (hid.trans (h.own b hb).1)).2 n hn).trans_le hle

theorem inside_append (hbars : Inside w bars) (h : Advances w s s' out) :
    Inside w (bars ++ out) := by
  intro b hb
  rcases List.mem_append.mp hb with hb | hb
  · exact hbars b hb
  · exact ⟨(h.own b hb).2.1, (h.own b hb).2.2.1⟩

/-- After closing, the state is ahead of what it emitted too. -/
theorem behind_append (hs : Behind bars s) (h : Advances w s s' out) :
    Behind (bars ++ out) s' := by
  intro b hb hid
  rcases List.mem_append.mp hb with hb | hb
  · obtain ⟨hdate, hbefore⟩ := hs b hb (hid.trans h.sameId)
    refine ⟨by rw [h.sameDay]; exact hdate, fun m hm => ?_⟩
    obtain ⟨n, hn, hle⟩ := h.forward m hm
    exact (hbefore n hn).trans_le hle
  · exact ⟨by rw [h.sameDay]; exact (h.own b hb).2.2.2.le, h.before b hb⟩

/-- The bars of other instruments do not concern a state. -/
theorem good_frame (hs : Good w bars s) (hout : ∀ b ∈ out, b.instrumentId ≠ s.instrumentId) :
    Good w (bars ++ out) s := by
  refine ⟨hs.valid, fun hpriced b hb hid => ?_⟩
  rcases List.mem_append.mp hb with hb | hb
  · exact hs.behind hpriced b hb hid
  · exact absurd hid (hout b hb)

theorem good_other {t : InstrumentState} (ht : Good w bars t) (h : Advances w s s' out)
    (hne : t.instrumentId ≠ s.instrumentId) : Good w (bars ++ out) t :=
  good_frame ht fun b hb => by
    rw [(h.own b hb).1]
    exact hne.symm

theorem good_append (hs : Good w bars s) (h : Advances w s s' out) : Good w (bars ++ out) s' :=
  ⟨h.valid, fun hpriced => behind_append (hs.behind (h.priced.mp hpriced)) h⟩

/-- **A tick keeps its state ahead**, if the first price of the state comes
after every bar of the instrument. -/
theorem handle_good (hs : Good w bars s) (stats : AggregatorStats) {tick : Tick}
    (hin : w.contains tick.exchangeTs) (hday : sessionDate tick.exchangeTs = s.day)
    (hfirst : ¬ s.Priced → tick.outOfOrder = false → late s tick = false →
      ∀ b ∈ bars, b.instrumentId = s.instrumentId → b.ts < floorMinute tick.exchangeTs) :
    ∃ c s', handle w gaps s stats tick = .ok c ∧ c.state.instrumentId = s.instrumentId ∧
      Advances w s s' c.closed ∧ Good w (bars ++ c.closed) c.state := by
  obtain ⟨c, hrun, hid, hd, hvalid, ⟨s', hadv, hnext⟩, hpriced⟩ :=
    handle_spec gaps hs.valid stats hin hday
  refine ⟨c, s', hrun, hid, hadv, hvalid, fun hp => ?_⟩
  by_cases hold : s.Priced
  · have hbehind := behind_append (hs.behind hold) hadv
    intro b hb hbid
    obtain ⟨hdate, hbefore⟩ := hbehind b hb (by rw [hbid, hid, hadv.sameId])
    exact ⟨by rw [hd, ← hadv.sameDay]; exact hdate, fun n hn => hbefore n (by rw [← hnext]; exact hn)⟩
  · obtain ⟨hflag, hlate, hat⟩ := (hpriced hp).resolve_left hold
    have hnone : c.closed = [] := by
      refine List.eq_nil_iff_forall_not_mem.mpr fun b hb => hold (hadv.started b hb).1
    rw [hnone, List.append_nil]
    intro b hb hbid
    have hlt := hfirst hold hflag hlate b hb (hbid.trans hid)
    refine ⟨?_, fun n hn => ?_⟩
    · rw [hd, ← hday, ← sessionDate_floorMinute tick.exchangeTs]
      exact sessionDate_mono hlt.le
    · rw [hat] at hn
      cases hn
      exact hlt

end MinuteCandleAggregator

/-! ## Runs -/

/-- What the aggregator is told. -/
inductive AggregatorEvent
  | tick (t : Tick)
  | advance (moment : Timestamp)
  | connected (now : Timestamp)
  | disconnected (now : Timestamp)

/-- The aggregator, and the bars it has emitted. -/
structure MinuteFeed where
  aggregator : MinuteCandleAggregator
  bars : List Candle

namespace MinuteFeed

open MinuteCandleAggregator InstrumentState

variable (w : MinuteWindow) (grace : Duration)

def apply (f : MinuteFeed) : AggregatorEvent → Except PyError MinuteFeed
  | .tick t => (f.aggregator.onTick w t).map fun (a, closed) => ⟨a, f.bars ++ closed⟩
  | .advance moment =>
      (f.aggregator.advance w grace moment).map fun (a, closed) => ⟨a, f.bars ++ closed⟩
  | .connected now => .ok { f with aggregator := f.aggregator.onConnected now }
  | .disconnected now => .ok { f with aggregator := f.aggregator.onDisconnected now }

/-- A history from an aggregator that has seen nothing. -/
def run (events : List AggregatorEvent) : Except PyError MinuteFeed :=
  events.foldlM (apply w grace) ⟨.initial, []⟩

/-- A tick that is in order and finds no price of its instrument: no state,
or one of an earlier day or of a minute still open that has had no tick in
order. -/
def FirstPrice (a : MinuteCandleAggregator) (t : Tick) : Prop :=
  t.outOfOrder = false ∧
    ∀ s, Table.lookup (·.instrumentId) t.instrumentId a.states = some s → ¬ s.Priced ∧
      (s.day < sessionDate t.exchangeTs ∨ late s t = false)

/-- A first price comes in a minute after every bar of the instrument. -/
def Fresh (f : MinuteFeed) : AggregatorEvent → Prop
  | .tick t => FirstPrice f.aggregator t →
      ∀ b ∈ f.bars, b.instrumentId = t.instrumentId → b.ts < floorMinute t.exchangeTs
  | _ => True

variable {w grace}

/-- What every history keeps. -/
structure Kept (w : MinuteWindow) (f : MinuteFeed) : Prop where
  keys : (f.aggregator.states.map (·.instrumentId)).Nodup
  good : ∀ s ∈ f.aggregator.states, Good w f.bars s
  inOrder : InOrder f.bars
  inside : Inside w f.bars

/-- A state that is put in its place. -/
theorem Kept.put {f : MinuteFeed} (hf : Kept w f) {out : List Candle} {s s' : InstrumentState}
    {c : Closing} (hadv : Advances w s s' out) (hid : c.state.instrumentId = s.instrumentId)
    (hgood : Good w (f.bars ++ out) c.state) (horder : InOrder (f.bars ++ out))
    (hinside : Inside w (f.bars ++ out)) : Kept w ⟨f.aggregator.put c, f.bars ++ out⟩ where
  keys := Table.nodup_upsert hf.keys
  good t ht := by
    rcases Table.mem_upsert.mp ht with rfl | ⟨ht, hne⟩
    · exact hgood
    · exact good_other (hf.good t ht) hadv (by rw [← hid]; exact hne)
  inOrder := horder
  inside := hinside

/-- A state that a tick begins holds no price yet. -/
theorem begin_good (bars : List Candle) {t : Tick} (hin : w.contains t.exchangeTs) :
    Good w bars (begin w t) ∧ ¬ (begin w t).Priced := by
  have hnone : ¬ (begin w t).Priced := by simp [Priced, begin]
  refine ⟨⟨⟨fun n hn => ?_, fun b hb => by simp [begin] at hb⟩, fun hp => absurd hp hnone⟩, hnone⟩
  obtain rfl : floorMinute t.exchangeTs = n := by simpa [begin] using hn
  exact ⟨wholeMinute_floor _, MinuteWindow.contains_floorMinute hin, rfl⟩

/-- Handling a tick of the state's day, the bars emitted before it in the
same tick included. -/
theorem Kept.handle {f : MinuteFeed} (hf : Kept w f) {s : InstrumentState} (out : List Candle)
    (stats : AggregatorStats) {t : Tick} (hin : w.contains t.exchangeTs)
    (hid : s.instrumentId = t.instrumentId) (hday : sessionDate t.exchangeTs = s.day)
    (hs : Good w (f.bars ++ out) s)
    (hothers : ∀ u ∈ f.aggregator.states, u.instrumentId ≠ t.instrumentId →
      Good w (f.bars ++ out) u)
    (horder : InOrder (f.bars ++ out)) (hinside : Inside w (f.bars ++ out))
    (hfirst : ¬ s.Priced → t.outOfOrder = false → late s t = false →
      ∀ b ∈ f.bars ++ out, b.instrumentId = t.instrumentId → b.ts < floorMinute t.exchangeTs) :
    ∃ c, MinuteCandleAggregator.handle w f.aggregator.gaps s stats t = .ok c ∧
      Kept w ⟨f.aggregator.put c, f.bars ++ (out ++ c.closed)⟩ := by
  obtain ⟨c, s', hrun, hcid, hadv, hgood⟩ := handle_good f.aggregator.gaps hs stats hin
    hday (by rw [hid]; exact hfirst)
  refine ⟨c, hrun, Table.nodup_upsert hf.keys, fun u hu => ?_, ?_, ?_⟩
  · rw [← List.append_assoc]
    rcases Table.mem_upsert.mp hu with rfl | ⟨hu, hne⟩
    · exact hgood
    · rw [hcid] at hne
      exact good_other (hothers u hu (by rw [← hid]; exact hne)) hadv hne
  · rw [← List.append_assoc]
    exact inOrder_append horder hs hadv
  · rw [← List.append_assoc]
    exact inside_append hinside hadv

/-- **A tick keeps the bars in order**, if it is fresh. -/
theorem Kept.tick {f : MinuteFeed} (hf : Kept w f) {t : Tick} (hin : w.contains t.exchangeTs)
    (hfresh : f.Fresh (.tick t)) : ∃ f', f.apply w grace (.tick t) = .ok f' ∧ Kept w f' := by
  have hempty : f.bars ++ [] = f.bars := List.append_nil _
  obtain ⟨hbegin, hunpriced⟩ := begin_good (w := w) f.bars hin
  cases hlookup : Table.lookup (·.instrumentId) t.instrumentId f.aggregator.states with
  | none =>
      -- no state: the tick begins one
      obtain ⟨c, hrun, hkept⟩ := hf.handle (s := begin w t) [] f.aggregator.stats hin rfl
        (sessionDate_floorMinute _).symm (by rwa [hempty]) (by rw [hempty]; exact fun u hu _ => hf.good u hu)
        (by rw [hempty]; exact hf.inOrder) (by rw [hempty]; exact hf.inside)
        (by
          rw [hempty]
          intro _ hflag _
          exact hfresh ⟨hflag, fun s hs => by rw [hlookup] at hs; cases hs⟩)
      refine ⟨_, ?_, hkept⟩
      simp [apply, onTick, hlookup, hrun, Except.map, bind, Except.bind, pure, Except.pure]
  | some s =>
      have hmem := Table.mem_of_lookup hlookup
      have hid : s.instrumentId = t.instrumentId := Table.key_of_lookup hlookup
      have hgood := hf.good s hmem
      by_cases hday : s.day < sessionDate t.exchangeTs
      · -- yesterday's state is closed first
        obtain ⟨y, hclose, hadv, -, -⟩ := closeDue_spec f.aggregator.gaps hgood.valid
          f.aggregator.stats maxTime
        obtain ⟨hbegin', -⟩ := begin_good (w := w) (f.bars ++ y.closed) hin
        obtain ⟨c, hrun, hkept⟩ := hf.handle (s := begin w t) y.closed y.stats hin rfl
          (sessionDate_floorMinute _).symm hbegin'
          (fun u hu hne => good_other (hf.good u hu) hadv (by rw [hid]; exact hne))
          (inOrder_append hf.inOrder hgood hadv) (inside_append hf.inside hadv)
          (by
            intro _ hflag _ b hb hbid
            by_cases hpriced : s.Priced
            · -- every bar is of yesterday at most
              obtain ⟨hdate, -⟩ := behind_append (hgood.behind hpriced) hadv b hb
                (by rw [hbid, hadv.sameId, hid])
              rw [hadv.sameDay] at hdate
              by_contra hle
              have hmono := sessionDate_mono (not_lt.mp hle)
              rw [sessionDate_floorMinute] at hmono
              exact absurd hday (not_lt.mpr (hmono.trans hdate))
            · have hnone : y.closed = [] := List.eq_nil_iff_forall_not_mem.mpr fun b hb =>
                hpriced (hadv.started b hb).1
              rw [hnone, List.append_nil] at hb
              refine hfresh ⟨hflag, fun s' hs' => ?_⟩ b hb hbid
              rw [hlookup] at hs'
              cases hs'
              exact ⟨hpriced, Or.inl hday⟩)
        refine ⟨_, ?_, hkept⟩
        simp [apply, onTick, hlookup, hday, hclose, hrun, Except.map, bind, Except.bind, pure,
          Except.pure]
      · have hrunEq : f.apply w grace (.tick t) =
            (MinuteCandleAggregator.handle w f.aggregator.gaps s f.aggregator.stats t).map
              fun c => ⟨f.aggregator.put c, f.bars ++ c.closed⟩ := by
          cases hrun : MinuteCandleAggregator.handle w f.aggregator.gaps s f.aggregator.stats t <;>
            simp [apply, onTick, hlookup, hday, hrun, Except.map, bind, Except.bind, pure,
              Except.pure]
        rcases (not_lt.mp hday).eq_or_lt with heq | hlater
        · -- the state is of the tick's day
          obtain ⟨c, hrun, hkept⟩ := hf.handle [] f.aggregator.stats hin hid heq
            (by rwa [hempty]) (by rw [hempty]; exact fun u hu _ => hf.good u hu)
            (by rw [hempty]; exact hf.inOrder) (by rw [hempty]; exact hf.inside)
            (by
              rw [hempty]
              intro hpriced hflag hlate
              refine hfresh ⟨hflag, fun s' hs' => ?_⟩
              rw [hlookup] at hs'
              cases hs'
              exact ⟨hpriced, Or.inr hlate⟩)
          exact ⟨_, by rw [hrunEq, hrun]; rfl, hkept⟩
        · -- the state is of a later day: the tick is late
          have hlate : late s t := by
            cases hnext : s.nextStart with
            | none => simp [late, hnext]
            | some n =>
                have hlt : floorMinute t.exchangeTs < n := by
                  by_contra hle
                  have hmono := sessionDate_mono (not_lt.mp hle)
                  rw [(hgood.valid.next n hnext).2.2, sessionDate_floorMinute] at hmono
                  exact absurd hlater (not_lt.mpr hmono)
                simp [late, hnext, hlt]
          have hrun : MinuteCandleAggregator.handle w f.aggregator.gaps s f.aggregator.stats t
              = .ok (drop s f.aggregator.stats) := by
            rw [MinuteCandleAggregator.handle, if_pos hlate]
          refine ⟨_, by rw [hrunEq, hrun]; rfl, ?_⟩
          exact hf.put (c := drop s f.aggregator.stats) (.refl hgood.valid) rfl
            (by rwa [drop, hempty]) (by rw [drop, hempty]; exact hf.inOrder)
            (by rw [drop, hempty]; exact hf.inside)

/-- **The clock keeps the bars in order**, state by state. -/
theorem advanceStates_spec (gaps : List Gap) (cutoff : Timestamp) (today : Int)
    (states : List InstrumentState) (stats : AggregatorStats) {bars : List Candle}
    (hkeys : (states.map (·.instrumentId)).Nodup) (hgood : ∀ s ∈ states, Good w bars s)
    (horder : InOrder bars) (hinside : Inside w bars) :
    ∃ states' stats' out, advanceStates w gaps cutoff today states stats = .ok (states', stats', out) ∧
      (states'.map (·.instrumentId)).Sublist (states.map (·.instrumentId)) ∧
      (∀ s ∈ states', Good w (bars ++ out) s) ∧ InOrder (bars ++ out) ∧ Inside w (bars ++ out) ∧
      ∀ b ∈ out, b.instrumentId ∈ states.map (·.instrumentId) := by
  induction states generalizing stats bars with
  | nil => exact ⟨[], stats, [], rfl, .slnil, by simp, by simpa using horder, by simpa using hinside,
      by simp⟩
  | cons s rest ih =>
      rw [List.map_cons, List.nodup_cons] at hkeys
      have hs := hgood s List.mem_cons_self
      obtain ⟨c, hclose, hadv, -, -⟩ := closeDue_spec gaps hs.valid stats cutoff
      have hne : ∀ u ∈ rest, u.instrumentId ≠ s.instrumentId := by
        intro u hu hid
        exact hkeys.1 (by rw [← hid]; exact List.mem_map_of_mem hu)
      obtain ⟨states', stats', out, hrest, hsub, hgood', horder', hinside', hown⟩ :=
        ih c.stats hkeys.2
          (fun u hu => good_other (hgood u (List.mem_cons_of_mem _ hu)) hadv (hne u hu))
          (inOrder_append horder hs hadv) (inside_append hinside hadv)
      have hhead : Good w (bars ++ c.closed ++ out) c.state := by
        refine good_frame (good_append hs hadv) fun b hb hid => hkeys.1 ?_
        rw [← hadv.sameId, ← hid]
        exact hown b hb
      refine ⟨if c.state.nextStart.isNone ∧ c.state.day < today then states' else c.state :: states',
        stats', c.closed ++ out, ?_, ?_, ?_, by rwa [← List.append_assoc],
        by rwa [← List.append_assoc], ?_⟩
      · simp [advanceStates, hclose, hrest, bind, Except.bind, pure, Except.pure]
      · split
        · exact hsub.cons _
        · rw [List.map_cons, List.map_cons, hadv.sameId]
          exact hsub.cons_cons _
      · rw [← List.append_assoc]
        intro u hu
        split at hu
        · exact hgood' u hu
        · rcases List.mem_cons.mp hu with rfl | hu
          · exact hhead
          · exact hgood' u hu
      · intro b hb
        rcases List.mem_append.mp hb with hb | hb
        · rw [(hadv.own b hb).1]
          exact List.mem_cons_self
        · exact List.mem_cons_of_mem _ (hown b hb)

/-- **An event keeps the bars in order**, if it is fresh. -/
theorem Kept.apply {f : MinuteFeed} (hf : Kept w f) (grace : Duration) (event : AggregatorEvent)
    (hin : ∀ t, event = .tick t → w.contains t.exchangeTs) (hfresh : f.Fresh event) :
    ∃ f', f.apply w grace event = .ok f' ∧ Kept w f' := by
  cases event with
  | tick t => exact hf.tick (hin t rfl) hfresh
  | advance moment =>
      obtain ⟨states', stats', out, hrun, hsub, hgood, horder, hinside, -⟩ :=
        advanceStates_spec f.aggregator.gaps (floorMinute (moment - grace))
          (sessionDate moment) f.aggregator.states f.aggregator.stats hf.keys hf.good
          hf.inOrder hf.inside
      refine ⟨⟨{ f.aggregator with states := states', stats := stats' }, f.bars ++ out⟩, ?_,
        hsub.nodup hf.keys, hgood, horder, hinside⟩
      simp [MinuteFeed.apply, advance, hrun, bind, Except.bind, pure, Except.pure, Except.map]
  | connected now => exact ⟨_, rfl, hf.keys, hf.good, hf.inOrder, hf.inside⟩
  | disconnected now =>
      refine ⟨_, rfl, ?_, fun s hs => ?_, hf.inOrder, hf.inside⟩
      · simpa [onDisconnected, Function.comp_def] using hf.keys
      · -- a baseline is forgotten, and nothing else
        obtain ⟨t, ht, rfl⟩ := List.mem_map.mp hs
        exact ⟨⟨(hf.good t ht).valid.next, (hf.good t ht).valid.bar⟩, (hf.good t ht).behind⟩

/-! ## Main results -/

theorem hundred_pos : Money.zero < ⟨100⟩ := by simp [Money.lt_iff, Money.zero]

/-- A tick of one instrument at a time of the first Friday of the epoch. -/
def fridayTick (time : Duration) : Tick where
  instrumentId := "I"
  exchangeTs := Timestamp.day - indiaOffset + time
  receivedTs := Timestamp.day - indiaOffset + time
  ltp := ⟨100⟩
  sequence := 1
  volume := none
  outOfOrder := false
  ltp_pos := hundred_pos

end MinuteFeed

end Emporos
