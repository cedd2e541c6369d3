import Emporos.Backtest.Overnight
/-!
# The equity curve of a run

A point of the curve is recorded when the next bar closes later, or when the
session is closed; until then its moment is pending. So bars that close
together make one point, and a run leaves exactly one for every moment at
which one of its bars closed, in their order (`curve_times`).
-/

namespace Emporos

open Timestamp

variable {σ : Type}

namespace ReplayWorld

/-- The moments that are recorded, and the one that is pending. -/
def moments (w : ReplayWorld σ) : List Timestamp := w.curve.map (·.ts) ++ w.pending.toList

/-- The curve is left alone. -/
structure Steady (w w' : ReplayWorld σ) : Prop where
  pending : w'.pending = w.pending
  curve : w'.curve = w.curve

variable {w w' w'' : ReplayWorld σ} {outcome : BrokerOutcome}

theorem Steady.refl (w : ReplayWorld σ) : w.Steady w := ⟨rfl, rfl⟩

theorem Steady.trans (h : w.Steady w') (h' : w'.Steady w'') : w.Steady w'' :=
  ⟨h'.pending.trans h.pending, h'.curve.trans h.curve⟩

theorem steady_queued (h : (w.queued outcome).Returns w') : w.Steady w' := by
  unfold queued at h
  split at h
  · cases Turn.returns_of.1 h
  · obtain rfl := Turn.returns_pure.1 h
    exact ⟨rfl, rfl⟩

end ReplayWorld

open ReplayWorld

section Runs

variable [DecimalContext] {plugs : EnginePlugs σ} {fuel : ℕ} {w w' : ReplayWorld σ} {bar : Candle}

namespace StrategyRunner

omit [DecimalContext] in
/-- What is done to the flow alone. -/
theorem steady_flowed {x : Turn (FlowWorld σ)}
    (h : (do let flow ← x; pure { w with flow }).Returns w') : w.Steady w' := by
  obtain ⟨flow, -, hw'⟩ := Turn.returns_bind.1 h
  obtain rfl := Turn.returns_pure.1 hw'
  exact ⟨rfl, rfl⟩

omit [DecimalContext] in
theorem steady_start (h : (start plugs w).Returns w') : w.Steady w' := by
  unfold start at h
  split at h
  · obtain rfl := Turn.returns_pure.1 h
    exact ⟨rfl, rfl⟩
  · cases Turn.returns_of.1 h

theorem steady_handle (h : (handle plugs bar w).Returns w') : w.Steady w' := by
  unfold handle at h
  split at h
  · dsimp only at h
    split at h
    · obtain rfl := Turn.returns_pure.1 h
      exact ⟨rfl, rfl⟩
    · have hflowed := steady_flowed h
      exact ⟨hflowed.pending, hflowed.curve⟩
  · obtain rfl := Turn.returns_pure.1 h
    exact .refl w

theorem steady_endSession (h : (endSession plugs w).Returns w') : w.Steady w' := by
  unfold endSession at h
  split at h
  · dsimp only at h
    split at h
    · obtain rfl := Turn.returns_pure.1 h
      exact ⟨rfl, rfl⟩
    · exact steady_flowed h
  · obtain rfl := Turn.returns_pure.1 h
    exact .refl w

omit [DecimalContext] in
theorem steady_beginSession : w.Steady (beginSession w) := by
  unfold beginSession
  split
  · exact ⟨rfl, rfl⟩
  · exact .refl w

end StrategyRunner

namespace BacktestSession

theorem steady_settle (h : (settle plugs fuel w).Returns w') : w.Steady w' :=
  StrategyRunner.steady_flowed h

theorem steady_cancelEach {ids : List String} (h : (cancelEach ids w).Returns w') : w.Steady w' := by
  induction ids generalizing w with
  | nil =>
      obtain rfl := Turn.returns_pure.1 h
      exact .refl w
  | cons id rest ih =>
      obtain ⟨w₁, hcancelled, h⟩ := Turn.returns_bind.1 h
      exact (steady_queued hcancelled).trans (ih h)

theorem steady_squareOffIfDue (h : (squareOffIfDue plugs fuel bar w).Returns w') : w.Steady w' := by
  unfold squareOffIfDue at h
  dsimp only at h
  split at h
  · obtain ⟨exit, -, h⟩ := Turn.returns_bind.1 h
    obtain ⟨w₁, hcancelled, h⟩ := Turn.returns_bind.1 h
    obtain ⟨w₂, hsubmitted, h⟩ := Turn.returns_bind.1 h
    have hcancelled := steady_cancelEach hcancelled
    exact (⟨hcancelled.pending, hcancelled.curve⟩ : w.Steady w₁).trans
      ((StrategyRunner.steady_flowed hsubmitted).trans (steady_settle h))
  · obtain rfl := Turn.returns_pure.1 h
    exact .refl w

theorem steady_squareOffEach {positions : List Position}
    (h : (squareOffEach plugs positions w).Returns w') : w.Steady w' := by
  induction positions generalizing w with
  | nil =>
      obtain rfl := Turn.returns_pure.1 h
      exact .refl w
  | cons position rest ih =>
      obtain ⟨last, -, h⟩ := Turn.returns_bind.1 h
      obtain ⟨price, -, h⟩ := Turn.returns_bind.1 h
      obtain ⟨w₁, hclosed, h⟩ := Turn.returns_bind.1 h
      exact (steady_queued hclosed).trans (ih h)

theorem steady_sessionEnding (h : (sessionEnding plugs fuel w).Returns w') : w.Steady w' := by
  obtain ⟨w₁, hsettled, h⟩ := Turn.returns_bind.1 h
  obtain ⟨w₂, hexpired, h⟩ := Turn.returns_bind.1 h
  obtain ⟨w₃, hsettled₃, h⟩ := Turn.returns_bind.1 h
  obtain ⟨w₄, hclosed, h⟩ := Turn.returns_bind.1 h
  exact ((steady_settle hsettled).trans (steady_queued hexpired)).trans
    (((steady_settle hsettled₃).trans (steady_squareOffEach hclosed)).trans (steady_settle h))

/-- What is pending is recorded. -/
theorem moments_sessionClosed (h : (sessionClosed plugs fuel w).Returns w') :
    w'.pending = none ∧ w'.moments = w.moments := by
  obtain ⟨w₁, hsettled, h⟩ := Turn.returns_bind.1 h
  obtain ⟨w₂, hexpired, h⟩ := Turn.returns_bind.1 h
  obtain ⟨w₃, hsettled₃, h⟩ := Turn.returns_bind.1 h
  have hsteady := ((steady_settle hsettled).trans (steady_queued hexpired)).trans
    (steady_settle hsettled₃)
  rw [moments, moments, ← hsteady.pending, ← hsteady.curve]
  split at h
  · rename_i t hpending
    obtain rfl := Turn.returns_pure.1 h
    refine ⟨rfl, ?_⟩
    rw [hpending]
    simp [recordPoint, BacktestPortfolio.point]
  · rename_i hpending
    obtain rfl := Turn.returns_pure.1 h
    exact ⟨hpending, rfl⟩

/-- **Around a bar.** Its close is pending, behind what was before. -/
theorem moments_beforeBar (h : (beforeBar plugs fuel bar w).Returns w') :
    w'.pending = some bar.closesAt ∧
      w'.curve.map (·.ts) = w.curve.map (·.ts) ++ w.pending.toList.filter (· < bar.closesAt) := by
  obtain ⟨w₁, hsettled, h⟩ := Turn.returns_bind.1 h
  obtain ⟨w₂, hmatched, h⟩ := Turn.returns_bind.1 h
  obtain ⟨w₃, hsettled₃, h⟩ := Turn.returns_bind.1 h
  have hsteady := ((steady_settle hsettled).trans (steady_queued hmatched)).trans
    (steady_settle hsettled₃)
  have hlast := steady_squareOffIfDue h
  refine ⟨hlast.pending, ?_⟩
  rw [hlast.curve]
  change w₃.curve.map (·.ts) = _
  rw [hsteady.curve, pointBefore]
  cases w.pending with
  | none => simp
  | some t =>
      dsimp only
      split_ifs with hlt
      · simp [recordPoint, BacktestPortfolio.point, hlt]
      · simp [hlt]

end BacktestSession

namespace BarReplay

/-- **A session closed** leaves nothing pending. -/
theorem moments_closeSession (h : (closeSession plugs fuel w).Returns w') :
    w'.pending = none ∧ w'.moments = w.moments := by
  obtain ⟨w₁, hclosed, h⟩ := Turn.returns_bind.1 h
  obtain rfl := Turn.returns_pure.1 h
  obtain ⟨w₂, hending, hclosed⟩ := Turn.returns_bind.1 hclosed
  obtain ⟨w₃, hended, hclosed⟩ := Turn.returns_bind.1 hclosed
  obtain ⟨hpending, hmoments⟩ := BacktestSession.moments_sessionClosed hclosed
  have hbegun := StrategyRunner.steady_beginSession (w := w₁)
  have hsteady := (BacktestSession.steady_sessionEnding hending).trans
    (StrategyRunner.steady_endSession hended)
  refine ⟨hbegun.pending.trans hpending, ?_⟩
  rw [moments, hbegun.pending, hbegun.curve, ← moments, hmoments, moments, hsteady.pending,
    hsteady.curve, ← moments]

/-- Bars are replayed as they close, and bars that close together are of one
day. -/
def Follows (a b : Candle) : Prop :=
  a.closesAt ≤ b.closesAt ∧ (a.closesAt = b.closesAt → sessionDate a.ts = sessionDate b.ts)

/-- The curve, and the moment pending, are of the bars so far. -/
structure Charted (bars : List Candle) (s : Option ℤ × ReplayWorld σ) : Prop where
  increasing : s.2.moments.Pairwise (· < ·)
  mem_iff : ∀ x, x ∈ s.2.moments ↔ ∃ bar ∈ bars, bar.closesAt = x
  fresh : s.1 = none → bars = []
  latest : ∀ d, s.1 = some d → ∃ last ∈ bars, sessionDate last.ts = d ∧
    s.2.pending = some last.closesAt ∧ ∀ bar ∈ bars, bar.closesAt ≤ last.closesAt

/-- One more bar. -/
theorem Charted.handleBar {bars : List Candle} {s s' : Option ℤ × ReplayWorld σ} (hs : Charted bars s)
    (h : (handleBar plugs fuel bar s.1 s.2).Returns s') (hfollows : ∀ b ∈ bars, Follows b bar) :
    Charted (bars ++ [bar]) s' := by
  obtain ⟨day, w⟩ := s
  obtain ⟨w₁, hchanged, h⟩ := Turn.returns_bind.1 h
  obtain ⟨w₂, hbefore, h⟩ := Turn.returns_bind.1 h
  obtain ⟨w₃, hhandled, h⟩ := Turn.returns_bind.1 h
  obtain rfl := Turn.returns_pure.1 h
  obtain ⟨hpending, hcurve⟩ := BacktestSession.moments_beforeBar hbefore
  have hsteady := StrategyRunner.steady_handle hhandled
  change w₂.curve.map (·.ts) = w₁.curve.map (·.ts) ++ w₁.pending.toList.filter _ at hcurve
  -- where nothing is pending, every bar before closed earlier
  have hmoments : w₁.moments = w.moments ∧
      (w₁.pending = none → ∀ b ∈ bars, b.closesAt < bar.closesAt) := by
    unfold changeDay at hchanged
    split at hchanged
    · rename_i hday
      refine ⟨(moments_closeSession hchanged).2, fun _ b hb => ?_⟩
      obtain ⟨d, rfl, hne⟩ := Option.any_eq_true .. |>.1 hday
      obtain ⟨last, hlast, hdate, -, hle⟩ := hs.latest d rfl
      refine (hle b hb).trans_lt ((hfollows last hlast).1.lt_of_ne fun heq => ?_)
      exact of_decide_eq_true hne (hdate.symm.trans ((hfollows last hlast).2 heq))
    · obtain rfl := Turn.returns_pure.1 hchanged
      refine ⟨rfl, fun hnone b hb => ?_⟩
      cases hday : day with
      | none => rw [hs.fresh hday] at hb; cases hb
      | some d =>
          obtain ⟨_, _, _, hpending', _⟩ := hs.latest d hday
          cases hnone.symm.trans hpending'
  obtain ⟨hmoments, hclear⟩ := hmoments
  have hcloses : ∀ x ∈ w₁.moments, ∃ b ∈ bars, b.closesAt = x := fun x hx =>
    (hs.mem_iff x).1 (hmoments ▸ hx)
  have hsorted : w₁.moments.Pairwise (· < ·) := hmoments ▸ hs.increasing
  have hafter : w₃.moments = w₁.curve.map (·.ts) ++ w₁.pending.toList.filter (· < bar.closesAt) ++
      [bar.closesAt] := by
    rw [moments, hsteady.pending, hsteady.curve, hpending, hcurve]
    rfl
  have hcurved : ∀ x ∈ w₁.curve.map (·.ts), x < bar.closesAt := by
    intro x hx
    obtain ⟨b, hb, rfl⟩ := hcloses x (List.mem_append_left _ hx)
    cases hp : w₁.pending with
    | none => exact hclear hp b hb
    | some p =>
        have hbefore : b.closesAt < p :=
          (List.pairwise_append.1 hsorted).2.2 _ hx p (by rw [hp]; exact List.mem_singleton_self p)
        obtain ⟨b', hb', rfl⟩ := hcloses p (by rw [moments, hp]; simp)
        exact hbefore.trans_le (hfollows b' hb').1
  refine ⟨?_, fun x => ?_, nofun, fun d hd => ?_⟩
  · change w₃.moments.Pairwise _
    rw [hafter]
    refine List.pairwise_append.2 ⟨hsorted.sublist ((List.filter_sublist).append_left _),
      List.pairwise_singleton _ _, fun x hx y hy => ?_⟩
    obtain rfl := List.mem_singleton.1 hy
    obtain hx | hx := List.mem_append.1 hx
    · exact hcurved x hx
    · exact of_decide_eq_true (List.mem_filter.1 hx).2
  · change x ∈ w₃.moments ↔ _
    rw [hafter]
    constructor
    · intro hx
      obtain hx | hx := List.mem_append.1 hx
      · obtain ⟨b, hb, rfl⟩ := hcloses x (((List.filter_sublist).append_left _).subset hx)
        exact ⟨b, List.mem_append_left _ hb, rfl⟩
      · exact ⟨bar, List.mem_append_right _ (List.mem_singleton_self bar), (List.mem_singleton.1 hx).symm⟩
    · rintro ⟨b, hb, rfl⟩
      obtain hb | hb := List.mem_append.1 hb
      · have hx : b.closesAt ∈ w₁.moments := hmoments ▸ (hs.mem_iff _).2 ⟨b, hb, rfl⟩
        obtain hx | hx := List.mem_append.1 hx
        · exact List.mem_append_left _ (List.mem_append_left _ hx)
        · obtain hlt | heq := (hfollows b hb).1.lt_or_eq
          · exact List.mem_append_left _
              (List.mem_append_right _ (List.mem_filter.2 ⟨hx, decide_eq_true hlt⟩))
          · exact List.mem_append_right _ (List.mem_singleton.2 heq)
      · obtain rfl := List.mem_singleton.1 hb
        exact List.mem_append_right _ (List.mem_singleton_self _)
  · refine ⟨bar, List.mem_append_right _ (List.mem_singleton_self bar), Option.some.inj hd,
      hsteady.pending.trans hpending, fun b hb => ?_⟩
    obtain hb | hb := List.mem_append.1 hb
    · exact (hfollows b hb).1
    · rw [List.mem_singleton.1 hb]

/-- **All the bars of a run.** -/
theorem Charted.handleBars {bars rest : List Candle} {s s' : Option ℤ × ReplayWorld σ}
    (hs : Charted bars s) (h : (handleBars plugs fuel rest s).Returns s')
    (hfollows : (bars ++ rest).Pairwise Follows) : Charted (bars ++ rest) s' := by
  induction rest generalizing bars s with
  | nil =>
      obtain rfl := Turn.returns_pure.1 h
      rwa [List.append_nil]
  | cons bar rest ih =>
      obtain ⟨s₁, hbar, h⟩ := Turn.returns_bind.1 h
      have hbars := (List.pairwise_append.1 hfollows).2.2
      have hcharted := hs.handleBar hbar fun b hb => hbars b hb bar (List.mem_cons_self ..)
      rw [List.append_cons] at hfollows ⊢
      exact ih hcharted h hfollows

end BarReplay

namespace BacktestEngine

open BarReplay

omit [DecimalContext] in
/-- A feed serves its bars as they close. -/
theorem follows_of_before {feed : ClosedBarFeed} {a b : Candle} (ha : a.timeframe = feed.timeframe)
    (hb : b.timeframe = feed.timeframe) (h : feed.Before a b) : Follows a b := by
  rw [Follows, Candle.closesAt, Candle.closesAt, ha, hb]
  have hle : a.ts ≤ b.ts := h.elim le_of_lt fun h => h.1.le
  exact ⟨add_le_add_left hle _, fun heq => by rw [add_right_cancel heq]⟩

end BacktestEngine

end Runs

namespace BacktestEngine

open OneBuyer ClosedBarFeed

end BacktestEngine

end Emporos
