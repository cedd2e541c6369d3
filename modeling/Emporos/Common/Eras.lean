import Mathlib.Data.Set.Basic
import Mathlib.Order.Lattice
/-!
# A table that keeps its past

A table of values by key in which nothing is forgotten: each row is in
force over a half-open interval of time, and a row that is superseded is
closed instead of changed. `supersede` brings the table to a new content at
a moment; `Recorded` tables are those so brought from nothing to one
content after another, with the contents in a log, newest first.

Of a recorded table the log can be read off (`Recorded.mem_at`): what is in
force at a moment is the content that was the newest then. The intervals of
a key are disjoint, and one ends where the next begins unless the key was
dropped.
-/

namespace Emporos

/-- A value of a key, in force from `start` until `stop`, or still. -/
structure Era (κ ν τ : Type*) where
  key : κ
  value : ν
  start : τ
  stop : Option τ

namespace Era

variable {κ ν τ : Type*} [LinearOrder τ]

/-- In force at a moment. -/
def Covers (e : Era κ ν τ) (t : τ) : Prop := e.start ≤ t ∧ ∀ s, e.stop = some s → t < s

/-- In force up to the other's start at most. -/
def Before (e f : Era κ ν τ) : Prop := ∃ s, e.stop = some s ∧ s ≤ f.start

theorem Before.not_covers {e f : Era κ ν τ} {t : τ} (h : e.Before f) (hf : f.Covers t) :
    ¬ e.Covers t := by
  obtain ⟨s, hs, hle⟩ := h
  exact fun he => absurd (he.2 s hs) (not_lt.mpr (hle.trans hf.1))

/-- The row, superseded at a moment. -/
def closedAt (e : Era κ ν τ) (now : τ) : Era κ ν τ := { e with stop := some now }

/-- The content `next` has the row as it is. -/
def Kept (next : κ → Option ν) (e : Era κ ν τ) : Prop := next e.key = some e.value

/-- What becomes of a table brought to the content `next` at `now`. -/
inductive Supersede (T : Set (Era κ ν τ)) (now : τ) (next : κ → Option ν) : Era κ ν τ → Prop
  /-- What was closed stays. -/
  | past {e : Era κ ν τ} (mem : e ∈ T) (closed : e.stop ≠ none) : Supersede T now next e
  /-- What is as it was stays in force. -/
  | kept {e : Era κ ν τ} (mem : e ∈ T) (live : e.stop = none) (same : e.Kept next) :
      Supersede T now next e
  /-- What changed or went is closed. -/
  | closed {e : Era κ ν τ} (mem : e ∈ T) (live : e.stop = none) (other : ¬ e.Kept next) :
      Supersede T now next (e.closedAt now)
  /-- What is new is in force from now on. -/
  | opened {k : κ} {v : ν} (has : next k = some v)
      (new : ∀ e ∈ T, e.stop = none → e.key = k → e.value ≠ v) :
      Supersede T now next ⟨k, v, now, none⟩

/-- The table brought to the content `next` at `now`. -/
def supersede (T : Set (Era κ ν τ)) (now : τ) (next : κ → Option ν) : Set (Era κ ν τ) :=
  { e | Supersede T now next e }

/-- The content in force at a moment, by a log with the newest first. -/
def contentAt (log : List (τ × (κ → Option ν))) (t : τ) (k : κ) : Option ν :=
  (log.find? fun s => s.1 ≤ t).bind fun s => s.2 k

/-- The tables recorded from nothing, with what they were brought to. -/
inductive Recorded : Set (Era κ ν τ) → List (τ × (κ → Option ν)) → Prop
  | empty : Recorded ∅ []
  | step {T : Set (Era κ ν τ)} {log : List (τ × (κ → Option ν))} {now : τ}
      {next : κ → Option ν} (past : Recorded T log) (later : ∀ s ∈ log, s.1 ≤ now) :
      Recorded (supersede T now next) ((now, next) :: log)

namespace Recorded

variable {T : Set (Era κ ν τ)} {log : List (τ × (κ → Option ν))} {e f : Era κ ν τ}

/-- A row starts at a moment of the log. -/
theorem start_mem (h : Recorded T log) (he : e ∈ T) : ∃ s ∈ log, s.1 = e.start := by
  induction h generalizing e with
  | empty => cases he
  | step _ _ ih =>
      cases he with
      | past mem _ | kept mem _ _ | closed mem _ _ =>
          obtain ⟨s, hs, hstart⟩ := ih mem
          exact ⟨s, List.mem_cons_of_mem _ hs, hstart⟩
      | opened _ _ => exact ⟨_, List.mem_cons_self .., rfl⟩

/-- A row ends at a moment of the log. -/
theorem stop_mem {t : τ} (h : Recorded T log) (he : e ∈ T) (ht : e.stop = some t) :
    ∃ s ∈ log, s.1 = t := by
  induction h generalizing e with
  | empty => cases he
  | step _ _ ih =>
      cases he with
      | past mem _ =>
          obtain ⟨s, hs, hstop⟩ := ih mem ht
          exact ⟨s, List.mem_cons_of_mem _ hs, hstop⟩
      | kept _ live _ => rw [live] at ht; cases ht
      | closed _ _ _ => exact ⟨_, List.mem_cons_self .., Option.some.inj ht⟩
      | opened _ _ => cases ht

theorem start_le {now : τ} (h : Recorded T log) (later : ∀ s ∈ log, s.1 ≤ now) (he : e ∈ T) :
    e.start ≤ now := by
  obtain ⟨s, hs, hstart⟩ := h.start_mem he
  exact hstart ▸ later s hs

theorem stop_le {now t : τ} (h : Recorded T log) (later : ∀ s ∈ log, s.1 ≤ now) (he : e ∈ T)
    (ht : e.stop = some t) : t ≤ now := by
  obtain ⟨s, hs, hstop⟩ := h.stop_mem he ht
  exact hstop ▸ later s hs

/-- A row does not end before it starts. -/
theorem start_le_stop {t : τ} (h : Recorded T log) (he : e ∈ T) (ht : e.stop = some t) :
    e.start ≤ t := by
  induction h generalizing e with
  | empty => cases he
  | step past later ih =>
      cases he with
      | past mem _ => exact ih mem ht
      | kept _ live _ => rw [live] at ht; cases ht
      | @closed g mem _ _ =>
          obtain rfl := Option.some.inj ht
          exact start_le (e := g) past later mem
      | opened _ _ => cases ht

/-- **The rows of a key are disjoint**: one of two ends before the other
starts. -/
theorem disjoint (h : Recorded T log) (he : e ∈ T) (hf : f ∈ T) (hkey : e.key = f.key)
    (hne : e ≠ f) : e.Before f ∨ f.Before e := by
  induction h generalizing e f with
  | empty => cases he
  | @step T log now next past later ih =>
      -- a row in force is the only one of its key
      have hlive : ∀ {e f : Era κ ν τ}, e ∈ T → f ∈ T → e.stop = none → f.stop = none →
          e.key = f.key → e = f := by
        intro e f he hf helive hflive hkey
        by_contra hne
        rcases ih he hf hkey hne with ⟨s, hs, -⟩ | ⟨s, hs, -⟩
        · rw [helive] at hs; cases hs
        · rw [hflive] at hs; cases hs
      -- a row that stays, against one that is closed now
      have hclosed : ∀ {e g : Era κ ν τ}, e ∈ T → g ∈ T → (e.stop = none → e.Kept next) →
          g.stop = none → ¬ g.Kept next → e.key = g.key → e.Before (g.closedAt now) := by
        intro e g he hg hkept hglive hother hkey
        have hne : e ≠ g := by
          rintro rfl
          exact hother (hkept hglive)
        rcases ih he hg hkey hne with hbefore | ⟨s, hs, -⟩
        · exact hbefore
        · rw [hglive] at hs; cases hs
      -- a row that stays, against one that is opened now
      have hopened : ∀ {e : Era κ ν τ} {v : ν}, e ∈ T → (e.stop = none → e.Kept next) →
          next e.key = some v → (∀ g ∈ T, g.stop = none → g.key = e.key → g.value ≠ v) →
          e.Before ⟨e.key, v, now, none⟩ := by
        intro e v he hkept hhas hnew
        rcases hstop : e.stop with _ | s
        · have hsame : some e.value = some v := (hkept hstop).symm.trans hhas
          exact absurd (Option.some.inj hsame) (hnew e he hstop rfl)
        · exact ⟨s, hstop, past.stop_le later he hstop⟩
      cases he with
      | past he hestop =>
          cases hf with
          | past hf _ => exact ih he hf hkey hne
          | kept hf _ _ => exact ih he hf hkey hne
          | closed hg hglive hother =>
              exact .inl (hclosed he hg (fun h => absurd h hestop) hglive hother hkey)
          | opened hhas hnew =>
              subst hkey
              exact .inl (hopened he (fun h => absurd h hestop) hhas hnew)
      | kept he _ hsame =>
          cases hf with
          | past hf _ => exact ih he hf hkey hne
          | kept hf _ _ => exact ih he hf hkey hne
          | closed hg hglive hother =>
              exact .inl (hclosed he hg (fun _ => hsame) hglive hother hkey)
          | opened hhas hnew =>
              subst hkey
              exact .inl (hopened he (fun _ => hsame) hhas hnew)
      | @closed g hg hglive hother =>
          cases hf with
          | past hf hfstop =>
              exact .inr (hclosed hf hg (fun h => absurd h hfstop) hglive hother hkey.symm)
          | kept hf _ hsame => exact .inr (hclosed hf hg (fun _ => hsame) hglive hother hkey.symm)
          | closed hg' hglive' _ => exact absurd (by rw [hlive hg hg' hglive hglive' hkey]) hne
          | opened _ _ => exact .inl ⟨now, rfl, le_rfl⟩
      | opened hhas hnew =>
          cases hf with
          | past hf hfstop =>
              subst hkey
              exact .inr (hopened hf (fun h => absurd h hfstop) hhas hnew)
          | kept hf _ hsame =>
              subst hkey
              exact .inr (hopened hf (fun _ => hsame) hhas hnew)
          | closed _ _ _ => exact .inr ⟨now, rfl, le_rfl⟩
          | opened hhas' _ =>
              subst hkey
              obtain rfl := Option.some.inj (hhas.symm.trans hhas')
              exact absurd rfl hne

/-- A key has one row in force. -/
theorem eq_of_live (h : Recorded T log) (he : e ∈ T) (hf : f ∈ T) (helive : e.stop = none)
    (hflive : f.stop = none) (hkey : e.key = f.key) : e = f := by
  by_contra hne
  rcases h.disjoint he hf hkey hne with ⟨s, hs, -⟩ | ⟨s, hs, -⟩
  · rw [helive] at hs; cases hs
  · rw [hflive] at hs; cases hs

/-- A key has one row in force at a moment. -/
theorem eq_of_covers {t : τ} (h : Recorded T log) (he : e ∈ T) (hf : f ∈ T)
    (hkey : e.key = f.key) (hecovers : e.Covers t) (hfcovers : f.Covers t) : e = f := by
  by_contra hne
  rcases h.disjoint he hf hkey hne with hbefore | hbefore
  · exact hbefore.not_covers hfcovers hecovers
  · exact hbefore.not_covers hecovers hfcovers

/-- **Where a row ends the next one starts**, unless its key was dropped there. -/
theorem contiguous {t : τ} (h : Recorded T log) (he : e ∈ T) (ht : e.stop = some t) :
    (∃ f ∈ T, f.key = e.key ∧ f.start = t) ∨ ∃ s ∈ log, s.1 = t ∧ s.2 e.key = none := by
  induction h generalizing e with
  | empty => cases he
  | @step T log now next past later ih =>
      cases he with
      | past mem closed =>
          rcases ih mem ht with ⟨f, hf, hkey, hstart⟩ | ⟨s, hs, hgone⟩
          · -- that row is still there, closed or not
            rcases hstop : f.stop with _ | s
            · by_cases hsame : f.Kept next
              · exact .inl ⟨f, .kept hf hstop hsame, hkey, hstart⟩
              · exact .inl ⟨f.closedAt now, .closed hf hstop hsame, hkey, hstart⟩
            · exact .inl ⟨f, .past hf (by rw [hstop]; simp), hkey, hstart⟩
          · exact .inr ⟨s, List.mem_cons_of_mem _ hs, hgone⟩
      | kept _ live _ => rw [live] at ht; cases ht
      | @closed g mem live other =>
          obtain rfl := Option.some.inj ht
          rcases hnext : next g.key with _ | v
          · exact .inr ⟨_, List.mem_cons_self .., rfl, hnext⟩
          · refine .inl ⟨_, .opened hnext fun f hf hflive hkey => ?_, rfl, rfl⟩
            rw [past.eq_of_live hf mem hflive live hkey]
            rintro rfl
            exact other hnext
      | opened _ _ => cases ht

/-- What a step does to what is in force, before and after it. -/
theorem mem_supersede_at {now t : τ} {next : κ → Option ν} {k : κ} {v : ν}
    (h : Recorded T log) (later : ∀ s ∈ log, s.1 ≤ now) :
    (∃ e ∈ supersede T now next, e.key = k ∧ e.value = v ∧ e.Covers t) ↔
      if now ≤ t then next k = some v
      else ∃ e ∈ T, e.key = k ∧ e.value = v ∧ e.Covers t := by
  by_cases hnow : now ≤ t
  · rw [if_pos hnow]
    constructor
    · rintro ⟨e, he, rfl, rfl, hcovers⟩
      cases he with
      | past mem closed =>
          obtain ⟨s, hs⟩ := Option.ne_none_iff_exists'.mp closed
          have hle := h.stop_le later mem hs
          exact absurd (hcovers.2 s hs) (not_lt.mpr (hle.trans hnow))
      | kept _ _ same => exact same
      | closed _ _ _ => exact absurd (hcovers.2 now rfl) (not_lt.mpr hnow)
      | opened has _ => exact has
    · intro hnext
      by_cases hold : ∃ e ∈ T, e.stop = none ∧ e.key = k ∧ e.value = v
      · obtain ⟨e, he, hlive, rfl, rfl⟩ := hold
        refine ⟨e, .kept he hlive hnext, rfl, rfl, (h.start_le later he).trans hnow, ?_⟩
        simp [hlive]
      · push Not at hold
        exact ⟨_, .opened hnext hold, rfl, rfl, hnow, by simp⟩
  · rw [if_neg hnow]
    constructor
    · rintro ⟨e, he, rfl, rfl, hcovers⟩
      cases he with
      | past mem _ => exact ⟨_, mem, rfl, rfl, hcovers⟩
      | kept mem _ _ => exact ⟨_, mem, rfl, rfl, hcovers⟩
      | closed mem live _ => exact ⟨_, mem, rfl, rfl, hcovers.1, by simp [live]⟩
      | opened _ _ => exact absurd hcovers.1 hnow
    · rintro ⟨e, he, rfl, rfl, hcovers⟩
      rcases hstop : e.stop with _ | s
      · by_cases hsame : e.Kept next
        · exact ⟨e, .kept he hstop hsame, rfl, rfl, hcovers⟩
        · refine ⟨_, .closed he hstop hsame, rfl, rfl, hcovers.1, fun s hs => ?_⟩
          exact Option.some.inj hs ▸ not_le.mp hnow
      · exact ⟨e, .past he (by rw [hstop]; simp), rfl, rfl, hcovers⟩

/-- **What is in force at a moment is the content that was the newest
then.** -/
theorem mem_at {t : τ} {k : κ} {v : ν} (h : Recorded T log) :
    (∃ e ∈ T, e.key = k ∧ e.value = v ∧ e.Covers t) ↔ contentAt log t k = some v := by
  induction h with
  | empty => simp [contentAt]
  | @step T log now next past later ih =>
      rw [past.mem_supersede_at later, contentAt, List.find?_cons]
      by_cases hnow : now ≤ t
      · simp [hnow]
      · simp only [hnow, if_false, decide_false]
        exact ih

end Recorded

end Era

end Emporos
