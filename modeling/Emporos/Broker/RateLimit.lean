import Emporos.Common.Pacing
import Emporos.Core.Errors
import Mathlib.Algebra.Order.Ring.Rat
import Mathlib.Order.Monotone.Defs
import Mathlib.Data.List.TakeWhile
import Mathlib.Tactic.Linarith
import Mathlib.Tactic.Ring
/-!
# Rate limits

A group of endpoints has several caps, each a sliding window of its own. A
call is admitted if it keeps every window within its limit; until then it
waits, and those behind it wait for it. The limiter forgets what has aged out
of a window only when it looks, and it reads the clock once for each window
and once more for the stamp.

A run is any interleaving of calls, re-checks and callers that give up, under
any clock that does not go back (`limiter_strict`).
-/

namespace Emporos

open Pacing

structure Window where
  limit : ℕ
  seconds : ℚ
  limit_pos : 0 < limit

/-- The caps of a group. Unset windows are not enforced. -/
structure RateLimit where
  perSecond : ℕ
  perMinute : Option ℕ
  perHour : Option ℕ
  perSecond_pos : 0 < perSecond
  perMinute_pos : ∀ n ∈ perMinute, 0 < n
  perHour_pos : ∀ n ∈ perHour, 0 < n

def RateLimit.windows (l : RateLimit) : List Window :=
  ⟨l.perSecond, 1, l.perSecond_pos⟩ ::
    ((l.perMinute.pmap (fun n h => Window.mk n 60 h) l.perMinute_pos).toList ++
      (l.perHour.pmap (fun n h => Window.mk n 3600 h) l.perHour_pos).toList)

/-- Tolerance for when a grant has aged out of a window. -/
def epsilon : ℚ := 1 / 1000000

/-- A window less the tolerance. -/
def Window.span (w : Window) : ℚ := w.seconds - epsilon

structure SlidingWindow where
  window : Window
  /-- When recent calls were admitted, oldest first. -/
  grants : List ℚ

namespace SlidingWindow

variable (s : SlidingWindow) (now : ℚ)

/-- `_expire`. -/
def expire : SlidingWindow :=
  { s with grants := s.grants.dropWhile (· ≤ now - s.window.seconds + epsilon) }

/-- `wait_time`: how long until one more fits, and what is remembered. -/
def waitTime : ℚ × SlidingWindow :=
  let s := s.expire now
  match s.grants with
  | [] => (0, s)
  | oldest :: _ =>
      if s.grants.length < s.window.limit then (0, s)
      else (max (oldest + s.window.seconds - now) 0, s)

def record : SlidingWindow := { s with grants := s.grants ++ [now] }

end SlidingWindow

/-- The windows of a group and its callers, by the order they came in. -/
structure GroupLimiter where
  windows : List SlidingWindow
  /-- The line for the lock; the first holds it. -/
  waiting : List ℕ
  arrived : ℕ
  /-- Who was admitted, with the stamps, oldest first. -/
  admitted : List (ℕ × ℚ)

namespace GroupLimiter

variable (clock : ℕ → ℚ)

def new (windows : List Window) : GroupLimiter := ⟨windows.map fun w => ⟨w, []⟩, [], 0, []⟩

/-- The waits of the windows, each at a reading of its own. -/
def waitTimes : ℕ → List SlidingWindow → List ℚ × List SlidingWindow
  | _, [] => ([], [])
  | n, s :: rest =>
      let (wait, s) := s.waitTime (clock n)
      let (waits, rest) := waitTimes (n + 1) rest
      (wait :: waits, s :: rest)

/-- A caller comes to the line. -/
def arrive (g : GroupLimiter) : GroupLimiter :=
  { g with waiting := g.waiting ++ [g.arrived], arrived := g.arrived + 1 }

/-- One turn of the loop of the caller that holds the lock, from the `n`-th
reading of the clock on; and the next reading. Waits are not negative. -/
def recheck (n : ℕ) (g : GroupLimiter) : GroupLimiter × ℕ :=
  match g.waiting with
  | [] => (g, n)
  | caller :: rest =>
      let (waits, windows) := waitTimes clock n g.windows
      let n := n + g.windows.length
      if waits.foldr max 0 ≤ 0 then
        ({ g with
            windows := windows.map (·.record (clock n))
            waiting := rest
            admitted := g.admitted ++ [(caller, clock n)] }, n + 1)
      else ({ g with windows }, n)

/-- A caller in the line is cancelled. -/
def leave (k : ℕ) (g : GroupLimiter) : GroupLimiter := { g with waiting := g.waiting.eraseIdx k }

end GroupLimiter

/-- The limiters of the groups, and how often the clock was read. -/
structure GroupRateLimiter where
  groups : String → Option GroupLimiter
  reads : ℕ

inductive LimiterEvent
  | acquire (group : String)
  | recheck (group : String)
  | leave (group : String) (k : ℕ)

namespace GroupRateLimiter

def new (limits : String → Option (List Window)) : GroupRateLimiter :=
  ⟨fun group => (limits group).map GroupLimiter.new, 0⟩

def put (s : GroupRateLimiter) (group : String) (g : GroupLimiter) : GroupRateLimiter :=
  { s with groups := fun name => if name = group then some g else s.groups name }

/-- `acquire`. An unknown group fails closed. -/
def acquire (group : String) (s : GroupRateLimiter) : Except PyError GroupRateLimiter :=
  match s.groups group with
  | none => .error (.other "ConfigurationError")
  | some g => .ok (s.put group g.arrive)

variable (clock : ℕ → ℚ)

def step (s : GroupRateLimiter) : LimiterEvent → GroupRateLimiter
  | .acquire group =>
      match acquire group s with
      | .error _ => s
      | .ok s => s
  | .recheck group =>
      match s.groups group with
      | none => s
      | some g =>
          let (g, reads) := g.recheck clock s.reads
          { s.put group g with reads }
  | .leave group k =>
      match s.groups group with
      | none => s
      | some g => s.put group (g.leave k)

def run (limits : String → Option (List Window)) (events : List LimiterEvent) : GroupRateLimiter :=
  events.foldl (step clock) (new limits)

end GroupRateLimiter

/-! ## What a window remembers -/

namespace SlidingWindow

variable {s : SlidingWindow} {log : List ℚ} {now now' : ℚ}

/-- A window remembers the end of a log, and all that is recent of it. -/
def Tracks (s : SlidingWindow) (log : List ℚ) (now : ℚ) : Prop :=
  ∃ old, log = old ++ s.grants ∧ ∀ t ∈ old, t ≤ now - s.window.span

theorem Tracks.mono (h : s.Tracks log now) (hle : now ≤ now') : s.Tracks log now' := by
  obtain ⟨old, hlog, hold⟩ := h
  exact ⟨old, hlog, fun t ht => (hold t ht).trans (sub_le_sub_right hle _)⟩

theorem Tracks.record (h : s.Tracks log now) : (s.record now').Tracks (log ++ [now']) now := by
  obtain ⟨old, rfl, hold⟩ := h
  exact ⟨old, List.append_assoc _ _ _, hold⟩

/-- What was forgotten is not recent. -/
theorem Tracks.recent_eq (h : s.Tracks log now) :
    recent s.window.span log now = recent s.window.span s.grants now := by
  obtain ⟨old, rfl, hold⟩ := h
  have hnone : old.countP (now - s.window.span < ·) = 0 :=
    List.countP_eq_zero.mpr fun t ht => by simpa using hold t ht
  rw [recent, List.countP_append, hnone, Nat.zero_add, recent]

theorem cutoff_eq : now - s.window.seconds + epsilon = now - s.window.span := by
  rw [Window.span]
  ring

theorem Tracks.expire (h : s.Tracks log now) : (s.expire now).Tracks log now := by
  obtain ⟨old, rfl, hold⟩ := h
  refine ⟨old ++ s.grants.takeWhile (· ≤ now - s.window.seconds + epsilon), ?_, fun t ht => ?_⟩
  · rw [List.append_assoc, SlidingWindow.expire, List.takeWhile_append_dropWhile]
  · rcases List.mem_append.mp ht with ht | ht
    · exact hold t ht
    · have := List.mem_takeWhile_imp ht
      rw [cutoff_eq] at this
      exact of_decide_eq_true this

/-- Behind the look at a window it remembers what is recent, and no more. -/
theorem Tracks.length_expire (h : s.Tracks log now) (hsorted : log.Pairwise (· ≤ ·)) :
    (s.expire now).grants.length = recent s.window.span log now := by
  have hgrants : s.grants.Pairwise (· ≤ ·) := by
    obtain ⟨old, rfl, -⟩ := h
    exact (List.pairwise_append.mp hsorted).2.1
  rw [SlidingWindow.expire, cutoff_eq, length_dropWhile_le hgrants, h.recent_eq]

theorem waitTime_snd : (s.waitTime now).2 = s.expire now := by
  unfold waitTime
  dsimp only
  split
  · rfl
  · split_ifs <;> rfl

theorem waitTime_nonneg : 0 ≤ (s.waitTime now).1 := by
  unfold waitTime
  dsimp only
  split
  · exact le_rfl
  · split_ifs
    · exact le_rfl
    · exact le_max_right _ _

/-- **A window makes a caller wait exactly while it is full.** -/
theorem waitTime_le_zero_iff (h : s.Tracks log now) (hsorted : log.Pairwise (· ≤ ·)) :
    (s.waitTime now).1 ≤ 0 ↔ recent s.window.span log now < s.window.limit := by
  rw [← h.length_expire hsorted]
  unfold waitTime
  dsimp only
  split
  · rename_i hnil
    rw [hnil]
    exact ⟨fun _ => s.window.limit_pos, fun _ => le_rfl⟩
  · rename_i oldest rest hgrants
    rw [hgrants]
    split_ifs with hroom
    · exact ⟨fun _ => hroom, fun _ => le_rfl⟩
    · refine ⟨fun hwait => absurd hwait (not_le.mpr (lt_max_of_lt_left ?_)), fun hroom' =>
        absurd hroom' hroom⟩
      -- The oldest grant that is still remembered has not aged out.
      have hrecent : ¬ oldest ≤ now - s.window.seconds + epsilon := by
        have hhead := List.head?_dropWhile_not (· ≤ now - s.window.seconds + epsilon) s.grants
        rw [show s.grants.dropWhile (· ≤ now - s.window.seconds + epsilon) = oldest :: rest from
          hgrants] at hhead
        simpa using hhead
      have hepsilon : 0 < epsilon := by norm_num [epsilon]
      show 0 < oldest + s.window.seconds - now
      linarith

end SlidingWindow

namespace GroupLimiter

variable {clock : ℕ → ℚ} {log : List ℚ} {n : ℕ} {windows : List SlidingWindow}

/-- Every window has room at its reading: one more would break none. -/
def Fits (clock : ℕ → ℚ) (limits : List Window) (log : List ℚ) (n : ℕ) : Prop :=
  ∀ i w, limits[i]? = some w → recent w.span log (clock (n + i)) < w.limit

theorem windows_waitTimes :
    (waitTimes clock n windows).2.map (·.window) = windows.map (·.window) := by
  induction windows generalizing n with
  | nil => rfl
  | cons s rest ih =>
      simp only [waitTimes, List.map_cons, ih, SlidingWindow.waitTime_snd]
      rfl

theorem tracks_waitTimes (hclock : Monotone clock)
    (h : ∀ s ∈ windows, s.Tracks log (clock n)) :
    ∀ s ∈ (waitTimes clock n windows).2, s.Tracks log (clock (n + windows.length)) := by
  induction windows generalizing n with
  | nil => simp [waitTimes]
  | cons s rest ih =>
      obtain ⟨hs, hrest⟩ := List.forall_mem_cons.mp h
      have hnext := ih fun s' hs' => (hrest s' hs').mono (hclock (Nat.le_succ n))
      rw [List.length_cons]
      refine List.forall_mem_cons.mpr ⟨?_, fun s' hs' => ?_⟩
      · show (s.waitTime (clock n)).2.Tracks log _
        rw [SlidingWindow.waitTime_snd]
        exact hs.expire.mono (hclock (by omega))
      · exact (hnext s' hs').mono (hclock (by omega))

/-- The greatest wait is none exactly if every window has room. -/
theorem waits_le_zero_iff (hclock : Monotone clock) (hsorted : log.Pairwise (· ≤ ·))
    (h : ∀ s ∈ windows, s.Tracks log (clock n)) :
    (waitTimes clock n windows).1.foldr max 0 ≤ 0 ↔
      Fits clock (windows.map (·.window)) log n := by
  induction windows generalizing n with
  | nil => simp [waitTimes, Fits]
  | cons s rest ih =>
      obtain ⟨hs, hrest⟩ := List.forall_mem_cons.mp h
      have hnext := ih fun s' hs' => (hrest s' hs').mono (hclock (Nat.le_succ n))
      simp only [waitTimes, List.foldr_cons, max_le_iff]
      rw [SlidingWindow.waitTime_le_zero_iff hs hsorted, hnext]
      constructor
      · rintro ⟨hfirst, hothers⟩ i w hi
        cases i with
        | zero =>
            obtain rfl := Option.some.inj hi
            exact hfirst
        | succ i =>
            have := hothers i w hi
            rwa [show n + (i + 1) = n + 1 + i by omega]
      · intro hfits
        refine ⟨hfits 0 s.window rfl, fun i w hi => ?_⟩
        have := hfits (i + 1) w hi
        rwa [show n + (i + 1) = n + 1 + i by omega] at this

/-! ## What a run keeps -/

def stamps (g : GroupLimiter) : List ℚ := g.admitted.map (·.2)

/-- The callers that were admitted and those that wait, in this order. -/
def callers (g : GroupLimiter) : List ℕ := g.admitted.map (·.1) ++ g.waiting

/-- What holds of a group before the `n`-th reading of the clock. -/
structure Kept (clock : ℕ → ℚ) (limits : List Window) (n : ℕ) (g : GroupLimiter) : Prop where
  windows : g.windows.map (·.window) = limits
  tracks : ∀ s ∈ g.windows, s.Tracks g.stamps (clock n)
  sorted : g.stamps.Pairwise (· ≤ ·)
  past : ∀ t ∈ g.stamps, t ≤ clock n
  paced : ∀ w ∈ limits, Paced w.limit w.span g.stamps
  order : g.callers.Pairwise (· < ·)
  arrived : ∀ c ∈ g.callers, c < g.arrived

variable {limits : List Window} {g : GroupLimiter} {m caller : ℕ} {rest : List ℕ}

theorem kept_new : Kept clock limits n (new limits) where
  windows := by simp [new, Function.comp_def]
  tracks s hs := by
    obtain ⟨w, -, rfl⟩ := List.mem_map.mp hs
    exact ⟨[], rfl, fun t ht => by cases ht⟩
  sorted := .nil
  past t ht := by cases ht
  paced _ _ := .nil
  order := .nil
  arrived c hc := by cases hc

theorem Kept.mono (hclock : Monotone clock) (h : Kept clock limits n g) (hle : n ≤ m) :
    Kept clock limits m g :=
  { h with
    tracks := fun s hs => (h.tracks s hs).mono (hclock hle)
    past := fun t ht => (h.past t ht).trans (hclock hle) }

theorem Kept.arrive (h : Kept clock limits n g) : Kept clock limits n g.arrive := by
  have hcallers : g.arrive.callers = g.callers ++ [g.arrived] := (List.append_assoc _ _ _).symm
  refine { h with order := ?_, arrived := fun c hc => ?_ }
  · rw [hcallers, List.pairwise_append]
    refine ⟨h.order, List.pairwise_singleton _ _, fun c hc c' hc' => ?_⟩
    rw [List.mem_singleton.mp hc']
    exact h.arrived c hc
  · rw [hcallers] at hc
    rcases List.mem_append.mp hc with hc | hc
    · exact (h.arrived c hc).trans (Nat.lt_succ_self _)
    · rw [List.mem_singleton.mp hc]
      exact Nat.lt_succ_self _

theorem Kept.leave (h : Kept clock limits n g) (k : ℕ) : Kept clock limits n (g.leave k) := by
  have hsub : (g.leave k).callers.Sublist g.callers :=
    (List.Sublist.refl _).append (List.eraseIdx_sublist _ _)
  exact { h with order := h.order.sublist hsub, arrived := fun c hc => h.arrived c (hsub.subset hc) }

/-- With room everywhere the caller that holds the lock is admitted. -/
theorem Kept.recheck_of_fits (hclock : Monotone clock) (h : Kept clock limits n g)
    (hwaiting : g.waiting = caller :: rest) (hfits : Fits clock limits g.stamps n) :
    g.recheck clock n =
      ({ g with
          windows := (waitTimes clock n g.windows).2.map (·.record (clock (n + g.windows.length)))
          waiting := rest
          admitted := g.admitted ++ [(caller, clock (n + g.windows.length))] },
        n + g.windows.length + 1) := by
  have hzero := (waits_le_zero_iff hclock h.sorted h.tracks).mpr (h.windows ▸ hfits)
  simp only [recheck, hwaiting, if_pos hzero]

/-- With a window full it goes on waiting. -/
theorem Kept.recheck_of_not_fits (hclock : Monotone clock) (h : Kept clock limits n g)
    (hwaiting : g.waiting = caller :: rest) (hfits : ¬ Fits clock limits g.stamps n) :
    g.recheck clock n =
      ({ g with windows := (waitTimes clock n g.windows).2 }, n + g.windows.length) := by
  have hzero := mt (waits_le_zero_iff hclock h.sorted h.tracks).mp (h.windows ▸ hfits)
  simp only [recheck, hwaiting, if_neg hzero]

/-- Who is admitted where every window has room is admitted in order, and
leaves every window within its limit. -/
theorem Kept.admit (hclock : Monotone clock) (h : Kept clock limits n g)
    (hwaiting : g.waiting = caller :: rest) (hfits : Fits clock limits g.stamps n) :
    Kept clock limits (n + g.windows.length + 1)
      { g with
        windows := (waitTimes clock n g.windows).2.map (·.record (clock (n + g.windows.length)))
        waiting := rest
        admitted := g.admitted ++ [(caller, clock (n + g.windows.length))] } := by
  set now := clock (n + g.windows.length) with hnow
  set g' : GroupLimiter := { g with
    windows := (waitTimes clock n g.windows).2.map (·.record now)
    waiting := rest
    admitted := g.admitted ++ [(caller, now)] } with hg'
  have hstamps : g'.stamps = g.stamps ++ [now] := by simp [hg', stamps]
  have hcallers : g'.callers = g.callers := by simp [hg', callers, hwaiting]
  have hpast : ∀ t ∈ g.stamps, t ≤ now := fun t ht => (h.past t ht).trans (hclock (by omega))
  have hlater : now ≤ clock (n + g.windows.length + 1) := hclock (by omega)
  refine ⟨?_, fun s hs => ?_, ?_, fun t ht => ?_, fun w hw => ?_, hcallers ▸ h.order,
    fun c hc => h.arrived c (hcallers ▸ hc)⟩
  · rw [← h.windows, hg', List.map_map]
    exact windows_waitTimes
  · obtain ⟨s', hs', rfl⟩ := List.mem_map.mp hs
    rw [hstamps]
    exact ((tracks_waitTimes hclock h.tracks s' hs').mono hlater).record
  · rw [hstamps, List.pairwise_append]
    refine ⟨h.sorted, List.pairwise_singleton _ _, fun t ht t' ht' => ?_⟩
    rw [List.mem_singleton.mp ht']
    exact hpast t ht
  · rw [hstamps] at ht
    rcases List.mem_append.mp ht with ht | ht
    · exact (hpast t ht).trans hlater
    · exact (List.mem_singleton.mp ht).trans_le hlater
  · rw [hstamps]
    refine (h.paced w hw).snoc ?_
    -- The window had room at its reading, which is no later than the stamp.
    obtain ⟨i, hi, rfl⟩ := List.getElem_of_mem hw
    have hroom := hfits i _ (List.getElem?_eq_getElem hi)
    have hlength : g.windows.length = limits.length := by rw [← h.windows, List.length_map]
    exact (recent_anti (hclock (by omega))).trans_lt hroom

theorem Kept.recheck (hclock : Monotone clock) (h : Kept clock limits n g) :
    Kept clock limits (g.recheck clock n).2 (g.recheck clock n).1 ∧ n ≤ (g.recheck clock n).2 := by
  cases hwaiting : g.waiting with
  | nil =>
      simp only [GroupLimiter.recheck, hwaiting]
      exact ⟨h, le_rfl⟩
  | cons caller rest =>
      by_cases hfits : Fits clock limits g.stamps n
      · rw [h.recheck_of_fits hclock hwaiting hfits]
        exact ⟨ h.admit hclock hwaiting hfits, by dsimp only; omega⟩
      · rw [h.recheck_of_not_fits hclock hwaiting hfits]
        refine ⟨{ h with
          windows := windows_waitTimes.trans h.windows
          tracks := tracks_waitTimes hclock h.tracks
          past := fun t ht => (h.past t ht).trans (hclock (by omega)) }, by dsimp only; omega⟩

end GroupLimiter

namespace GroupRateLimiter

variable {clock : ℕ → ℚ} {limits : String → Option (List Window)} {s : GroupRateLimiter}
  {group : String} {g : GroupLimiter}

/-- What holds of all groups. -/
def Kept (clock : ℕ → ℚ) (limits : String → Option (List Window)) (s : GroupRateLimiter) : Prop :=
  ∀ group g, s.groups group = some g →
    ∃ windows, limits group = some windows ∧ g.Kept clock windows s.reads

theorem kept_new : Kept clock limits (new limits) := by
  intro group g hg
  obtain ⟨windows, hwindows, rfl⟩ := Option.map_eq_some_iff.mp hg
  exact ⟨windows, hwindows, GroupLimiter.kept_new⟩

/-- One group moves on, and the others stay as they are. -/
theorem Kept.put (hclock : Monotone clock) (h : Kept clock limits s) {g' : GroupLimiter} {n : ℕ}
    (hg : s.groups group = some g) (hn : s.reads ≤ n)
    (hkept : ∀ windows, g.Kept clock windows s.reads → g'.Kept clock windows n) :
    Kept clock limits { s.put group g' with reads := n } := by
  intro name g₁ hg₁
  simp only [GroupRateLimiter.put] at hg₁
  split_ifs at hg₁ with hname
  · obtain rfl := Option.some.inj hg₁
    obtain ⟨windows, hwindows, hold⟩ := h group g hg
    exact ⟨windows, hname ▸ hwindows, hkept windows hold⟩
  · obtain ⟨windows, hwindows, hold⟩ := h name g₁ hg₁
    exact ⟨windows, hwindows, hold.mono hclock hn⟩

theorem Kept.step (hclock : Monotone clock) (h : Kept clock limits s) (e : LimiterEvent) :
    Kept clock limits (s.step clock e) := by
  cases e with
  | acquire group =>
      cases hg : s.groups group with
      | none => simpa only [GroupRateLimiter.step, acquire, hg] using h
      | some g =>
          simp only [GroupRateLimiter.step, acquire, hg]
          exact h.put hclock hg le_rfl fun _ hold => hold.arrive
  | recheck group =>
      cases hg : s.groups group with
      | none => simpa only [GroupRateLimiter.step, hg] using h
      | some g =>
          simp only [GroupRateLimiter.step, hg]
          obtain ⟨windows, -, hold⟩ := h group g hg
          exact h.put hclock hg (hold.recheck hclock).2 fun _ hold => (hold.recheck hclock).1
  | leave group k =>
      cases hg : s.groups group with
      | none => simpa only [GroupRateLimiter.step, hg] using h
      | some g =>
          simp only [GroupRateLimiter.step, hg]
          exact h.put hclock hg le_rfl fun _ hold => hold.leave k

theorem kept_run (hclock : Monotone clock) (events : List LimiterEvent) :
    Kept clock limits (run clock limits events) := by
  unfold run
  generalize hs : new limits = s
  have h : Kept clock limits s := hs ▸ kept_new
  clear hs
  induction events generalizing s with
  | nil => exact h
  | cons e events ih => exact ih _ (h.step hclock e)

/-- **The limiter is strict, and no stricter than needed.** In every run, of
every group: no half-open interval as long as a window, less the tolerance,
holds more admissions than its limit; callers are admitted in the order they
came in; and the caller at the head of the line is admitted at a re-check
exactly if at its reading every window has room for one more. -/
theorem limiter_strict (hclock : Monotone clock) (events : List LimiterEvent)
    {windows : List Window} (hg : (run clock limits events).groups group = some g)
    (hwindows : limits group = some windows) :
    (∀ w ∈ windows, ∀ a,
      g.stamps.countP (fun t => a ≤ t ∧ t < a + (w.seconds - epsilon)) ≤ w.limit ∧
        g.stamps.countP (fun t => a < t ∧ t ≤ a + (w.seconds - epsilon)) ≤ w.limit) ∧
    g.callers.Pairwise (· < ·) ∧
    ∀ caller rest, g.waiting = caller :: rest →
      let n := (run clock limits events).reads
      let next := (g.recheck clock n).1
      (GroupLimiter.Fits clock windows g.stamps n →
        next.waiting = rest ∧ next.admitted = g.admitted ++ [(caller, clock (n + windows.length))]) ∧
      (¬ GroupLimiter.Fits clock windows g.stamps n → next.waiting = g.waiting ∧ next.admitted = g.admitted) := by
  obtain ⟨windows', hwindows', h⟩ := kept_run hclock events group g hg
  obtain rfl := Option.some.inj (hwindows.symm.trans hwindows')
  have hlength : g.windows.length = windows.length := by rw [← h.windows, List.length_map]
  refine ⟨fun w hw a => ⟨(h.paced w hw).countP_Ico_le a, (h.paced w hw).countP_Ioc_le a⟩, h.order,
    fun caller rest hwaiting => ⟨fun hfits => ?_, fun hfits => ?_⟩⟩
  · rw [h.recheck_of_fits hclock hwaiting hfits, hlength]
    exact ⟨rfl, rfl⟩
  · rw [h.recheck_of_not_fits hclock hwaiting hfits]
    exact ⟨rfl, rfl⟩

/-! Two calls a second, and three that come at once. -/

def twoASecond : RateLimit := ⟨2, none, none, Nat.two_pos, nofun, nofun⟩

def limitsOf (limit : RateLimit) (group : String) : Option (List Window) :=
  if group = "quotes" then some limit.windows else none

def threeAtOnce : List LimiterEvent :=
  [.acquire "quotes", .recheck "quotes", .acquire "quotes", .recheck "quotes", .acquire "quotes",
    .recheck "quotes"]

/-- The third waits. -/
theorem limiter_strict_sample :
    ∃ g, (run (fun _ => 0) (limitsOf twoASecond) threeAtOnce).groups "quotes" = some g ∧
      g.admitted = [(0, 0), (1, 0)] ∧
      g.stamps.countP (fun t => 0 ≤ t ∧ t < 0 + (1 - epsilon)) ≤ 2 ∧ g.callers.Pairwise (· < ·) := by
  have hadmitted : ((run (fun _ => 0) (limitsOf twoASecond) threeAtOnce).groups "quotes").map
      (·.admitted) = some [(0, 0), (1, 0)] := by decide +kernel
  obtain ⟨g, hg, hadmitted⟩ := Option.map_eq_some_iff.mp hadmitted
  obtain ⟨hbursts, horder, -⟩ := limiter_strict monotone_const threeAtOnce hg rfl
  exact ⟨g, hg, hadmitted, (hbursts _ List.mem_cons_self 0).1, horder⟩

end GroupRateLimiter

end Emporos
