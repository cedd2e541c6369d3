import Mathlib.Data.List.Nodup
import Mathlib.Order.Nat
import Mathlib.Tactic.Common
/-!
# Maximal runs

The longest stretches of indices on which a predicate holds, of the first
`n`, and a scan that finds them: it closes a run at the first index where
the predicate fails and keeps one open at the end (`mem_runs`). Every index
where it holds is in one of them (`exists_run`).
-/

namespace Emporos

/-- `[start, stop)` is a run of `p` below `n` that no other contains. -/
structure IsRun (p : ℕ → Prop) (n start stop : ℕ) : Prop where
  lt : start < stop
  le : stop ≤ n
  holds : ∀ k, start ≤ k → k < stop → p k
  starts : ∀ k, k + 1 = start → ¬ p k
  stops : stop < n → ¬ p stop

/-- The runs that ended, and where the one still open started. -/
structure RunScan where
  closed : List (ℕ × ℕ)
  opened : Option ℕ

namespace RunScan

variable (p : ℕ → Prop) [DecidablePred p]

def scan : ℕ → RunScan
  | 0 => ⟨[], none⟩
  | n + 1 =>
      if p n then ⟨(scan n).closed, some ((scan n).opened.getD n)⟩
      else ⟨(scan n).closed ++ (scan n).opened.toList.map (·, n), none⟩

/-- The runs below `n`, the open one as far as it goes. -/
def runs (n : ℕ) : List (ℕ × ℕ) := (scan p n).closed ++ (scan p n).opened.toList.map (·, n)

theorem scan_succ_of_pos {n : ℕ} (h : p n) :
    scan p (n + 1) = ⟨(scan p n).closed, some ((scan p n).opened.getD n)⟩ := if_pos h

theorem scan_succ_of_neg {n : ℕ} (h : ¬ p n) : scan p (n + 1) = ⟨runs p n, none⟩ := if_neg h

variable {p} {n i j : ℕ}

omit [DecidablePred p] in
/-- Two runs that end together start together. -/
theorem start_unique {m : ℕ} (hi : IsRun p n i m) (hj : IsRun p n j m) : i = j := by
  have key {a b : ℕ} (ha : IsRun p n a m) (hb : IsRun p n b m) : ¬ a < b := fun hlt => by
    obtain ⟨k, rfl⟩ := Nat.exists_eq_add_of_lt hlt
    exact hb.starts (a + k) rfl (ha.holds _ (by omega) (by have := hb.lt; omega))
  have := key hi hj
  have := key hj hi
  omega

omit [DecidablePred p] in
/-- A run that stopped is one however far the indices go. -/
theorem isRun_succ_of_lt (h : j < n) : IsRun p (n + 1) i j ↔ IsRun p n i j :=
  ⟨fun r => ⟨r.lt, h.le, r.holds, r.starts, fun _ => r.stops (by omega)⟩,
    fun r => ⟨r.lt, by omega, r.holds, r.starts, fun _ => r.stops h⟩⟩

omit [DecidablePred p] in
theorem isRun_succ_self : IsRun p (n + 1) i n ↔ IsRun p n i n ∧ ¬ p n :=
  ⟨fun r => ⟨⟨r.lt, le_rfl, r.holds, r.starts, fun h => absurd h (lt_irrefl n)⟩,
    r.stops (by omega)⟩,
    fun ⟨r, h⟩ => ⟨r.lt, by omega, r.holds, r.starts, fun _ => h⟩⟩

omit [DecidablePred p] in
/-- A run goes on. -/
theorem IsRun.extend (r : IsRun p n i n) (h : p n) : IsRun p (n + 1) i (n + 1) where
  lt := by have := r.lt; omega
  le := le_rfl
  holds k hk hlt := by
    rcases Nat.lt_succ_iff_lt_or_eq.mp hlt with hlt | rfl
    · exact r.holds k hk hlt
    · exact h
  starts := r.starts
  stops hlt := absurd hlt (lt_irrefl _)

/-- What a scan has found: exactly the runs that ended, and the one that is
open if there is one. -/
structure Found (p : ℕ → Prop) (n : ℕ) (s : RunScan) : Prop where
  closed : ∀ r, r ∈ s.closed ↔ r.2 < n ∧ IsRun p n r.1 r.2
  opened : ∀ i, s.opened = some i → IsRun p n i n
  none : s.opened = none → ∀ k, k + 1 = n → ¬ p k
  nodup : s.closed.Nodup

omit [DecidablePred p] in
theorem Found.opened_iff {s : RunScan} (h : Found p n s) : s.opened = some i ↔ IsRun p n i n := by
  refine ⟨h.opened i, fun r => ?_⟩
  cases hs : s.opened with
  | none =>
      obtain ⟨k, rfl⟩ : ∃ k, n = k + 1 := ⟨n - 1, by have := r.lt; omega⟩
      exact absurd (r.holds k (by have := r.lt; omega) (by omega)) (h.none hs k rfl)
  | some j => rw [start_unique (h.opened j hs) r]

theorem found_scan (n : ℕ) : Found p n (scan p n) := by
  induction n with
  | zero =>
      refine ⟨fun r => ?_, fun i hi => (by cases hi), fun _ k hk => absurd hk (by omega),
        List.nodup_nil⟩
      simp [scan]
  | succ n ih =>
      by_cases hp : p n
      · rw [scan_succ_of_pos p hp]
        refine ⟨fun r => ?_, fun i hi => ?_, fun h => (by cases h), ih.nodup⟩
        · rw [ih.closed]
          constructor
          · rintro ⟨hlt, r⟩
            exact ⟨by omega, (isRun_succ_of_lt hlt).mpr r⟩
          · rintro ⟨hlt, hr⟩
            rcases Nat.lt_succ_iff_lt_or_eq.mp hlt with hlt | heq
            · exact ⟨hlt, (isRun_succ_of_lt hlt).mp hr⟩
            · rw [heq] at hr
              exact absurd hp (isRun_succ_self.1 hr).2
        · cases hs : (scan p n).opened with
          | none =>
              -- a new run starts here, since the one before does not hold
              rw [hs] at hi
              obtain rfl := Option.some.inj hi
              exact ⟨by simp, le_rfl, fun k hk hlt => by
                obtain rfl : k = n := by simp at hk; omega
                exact hp, fun k hk => ih.none hs k hk, fun h => absurd h (lt_irrefl _)⟩
          | some j =>
              rw [hs] at hi
              obtain rfl := Option.some.inj hi
              exact IsRun.extend (ih.opened j hs) hp
      · rw [scan_succ_of_neg p hp]
        refine ⟨fun r => ?_, fun i hi => (by cases hi), fun _ k hk => ?_, ?_⟩
        · have hsplit : r ∈ runs p n ↔ r ∈ (scan p n).closed ∨
              ((scan p n).opened = some r.1 ∧ r.2 = n) := by
            simp only [runs, List.mem_append, List.mem_map, Option.mem_toList]
            constructor
            · rintro (h | ⟨i, hi, rfl⟩)
              · exact Or.inl h
              · exact Or.inr ⟨hi, rfl⟩
            · rintro (h | ⟨hi, hn⟩)
              · exact Or.inl h
              · exact Or.inr ⟨r.1, hi, by rw [← hn]⟩
          rw [hsplit, ih.closed, ih.opened_iff]
          constructor
          · rintro (⟨hlt, hr⟩ | ⟨hr, heq⟩)
            · exact ⟨by omega, (isRun_succ_of_lt hlt).mpr hr⟩
            · rw [heq]
              exact ⟨by omega, isRun_succ_self.2 ⟨hr, hp⟩⟩
          · rintro ⟨hlt, hr⟩
            rcases Nat.lt_succ_iff_lt_or_eq.mp hlt with hlt | heq
            · exact Or.inl ⟨hlt, (isRun_succ_of_lt hlt).mp hr⟩
            · rw [heq] at hr
              exact Or.inr ⟨(isRun_succ_self.1 hr).1, heq⟩
        · obtain rfl : k = n := by omega
          exact hp
        · refine List.nodup_append'.mpr ⟨ih.nodup, ?_, fun r hr hr' => ?_⟩
          · cases (scan p n).opened <;> simp
          · have hlt := ((ih.closed r).mp hr).1
            simp only [List.mem_map] at hr'
            obtain ⟨i, -, rfl⟩ := hr'
            exact absurd hlt (lt_irrefl _)

/-- **The scan finds the maximal runs**, each once. -/
theorem mem_runs {r : ℕ × ℕ} : r ∈ runs p n ↔ IsRun p n r.1 r.2 := by
  have h := found_scan (p := p) n
  simp only [runs, List.mem_append, List.mem_map, Option.mem_toList, h.closed]
  constructor
  · rintro (⟨-, hr⟩ | ⟨i, hi, rfl⟩)
    · exact hr
    · exact h.opened_iff.1 hi
  · intro hr
    rcases hr.le.lt_or_eq with hlt | heq
    · exact Or.inl ⟨hlt, hr⟩
    · rw [heq] at hr
      exact Or.inr ⟨r.1, h.opened_iff.2 hr, by rw [← heq]⟩

theorem nodup_runs : (runs p n).Nodup := by
  have h := found_scan (p := p) n
  refine List.nodup_append'.mpr ⟨h.nodup, ?_, fun r hr hr' => ?_⟩
  · cases (scan p n).opened <;> simp
  · have hlt := ((h.closed r).mp hr).1
    simp only [List.mem_map] at hr'
    obtain ⟨i, -, rfl⟩ := hr'
    exact absurd hlt (lt_irrefl _)

/-- Every index where the predicate holds is in a run. -/
theorem exists_run (hi : i < n) (hp : p i) : ∃ r ∈ runs p n, r.1 ≤ i ∧ i < r.2 := by
  induction n with
  | zero => omega
  | succ n ih =>
      by_cases hn : p n
      · have hlast : ((scan p n).opened.getD n, n + 1) ∈ runs p (n + 1) := by
          simp [runs, scan_succ_of_pos p hn]
        rcases Nat.lt_succ_iff_lt_or_eq.mp hi with hlt | rfl
        · obtain ⟨r, hr, hstart, hstop⟩ := ih hlt
          rcases (mem_runs.1 hr).le.lt_or_eq with hend | hend
          · refine ⟨r, ?_, hstart, hstop⟩
            rw [mem_runs, isRun_succ_of_lt hend]
            exact mem_runs.1 hr
          · -- the run that was open goes one further
            refine ⟨_, hlast, ?_, by simp only; omega⟩
            have hr := mem_runs.1 hr
            rw [hend] at hr
            rw [(found_scan n).opened_iff.mpr hr]
            exact hstart
        · refine ⟨_, hlast, ?_, by simp⟩
          cases hs : (scan p i).opened with
          | none => exact le_rfl
          | some j => exact ((found_scan i).opened j hs).lt.le
      · have hlt : i < n := by
          rcases Nat.lt_succ_iff_lt_or_eq.mp hi with hlt | rfl
          · exact hlt
          · exact absurd hp hn
        obtain ⟨r, hr, hstart, hstop⟩ := ih hlt
        refine ⟨r, ?_, hstart, hstop⟩
        simpa [runs, scan_succ_of_neg p hn] using hr

end RunScan

end Emporos
