import Mathlib.Algebra.Order.Group.Defs
import Mathlib.Algebra.Order.Group.Unbundled.Basic
import Mathlib.Data.List.Basic
import Mathlib.Tactic.Abel
/-!
# A paced log of times

Times are logged one behind the other. A log is paced by a limit and a span
if fewer than the limit were recent whenever a time was logged. Then no
interval shorter than the span holds more than the limit, wherever it lies
(`Paced.countP_le`).
-/

namespace Emporos

namespace Pacing

variable {α : Type*} [AddCommGroup α] [LinearOrder α] [IsOrderedAddMonoid α]

/-- How many times of a log are younger than a span. -/
def recent (span : α) (log : List α) (now : α) : ℕ := log.countP (now - span < ·)

/-- Newest last. -/
inductive Paced (limit : ℕ) (span : α) : List α → Prop
  | nil : Paced limit span []
  | snoc {log : List α} {now : α} (h : Paced limit span log)
      (hroom : recent span log now < limit) : Paced limit span (log ++ [now])

variable {limit : ℕ} {span a t t' : α} {log : List α}

/-- What is recent later was recent before. -/
theorem recent_anti (h : t ≤ t') : recent span log t' ≤ recent span log t :=
  List.countP_mono_left fun s _ hs => by
    simp only [decide_eq_true_eq] at hs ⊢
    exact (sub_le_sub_right h span).trans_lt hs

/-- **A paced log holds no burst.** Of times that lie less than the span
apart there are no more than the limit. -/
theorem Paced.countP_le {p : α → Bool} (h : Paced limit span log)
    (hp : ∀ t t', p t → p t' → t' - t < span) : log.countP p ≤ limit := by
  induction h with
  | nil => exact Nat.zero_le _
  | @snoc log now _ hroom ih =>
      rw [List.countP_append, List.countP_singleton]
      split_ifs with hnow
      · -- With the newest counted, what is counted before it is recent.
        have hle : log.countP p ≤ recent span log now :=
          List.countP_mono_left fun t _ ht => by
            have := hp t now ht hnow
            rw [decide_eq_true_eq]
            exact sub_lt_comm.mp this
        omega
      · exact ih

/-- Half open to the right. -/
theorem Paced.countP_Ico_le (h : Paced limit span log) (a : α) :
    log.countP (fun t => a ≤ t ∧ t < a + span) ≤ limit :=
  h.countP_le fun t t' ht ht' => by
    simp only [decide_eq_true_eq] at ht ht'
    rw [sub_lt_iff_lt_add]
    exact ht'.2.trans_le (by rw [add_comm span t]; exact add_le_add_left ht.1 span)

/-- Half open to the left. -/
theorem Paced.countP_Ioc_le (h : Paced limit span log) (a : α) :
    log.countP (fun t => a < t ∧ t ≤ a + span) ≤ limit :=
  h.countP_le fun t t' ht ht' => by
    simp only [decide_eq_true_eq] at ht ht'
    rw [sub_lt_iff_lt_add]
    exact ht'.2.trans_lt (by rw [add_comm span t]; exact add_lt_add_left ht.1 span)

omit [IsOrderedAddMonoid α] in
/-- Dropping what has aged off the front of a sorted log leaves what is recent. -/
theorem length_dropWhile_le (h : log.Pairwise (· ≤ ·)) (now : α) :
    (log.dropWhile (· ≤ now - span)).length = recent span log now := by
  induction log with
  | nil => rfl
  | cons t log ih =>
      obtain ⟨hfirst, hrest⟩ := List.pairwise_cons.mp h
      rw [List.dropWhile_cons, recent, List.countP_cons]
      split_ifs with hold hrecent hrecent
      · exact absurd (of_decide_eq_true hold) (not_le.mpr (of_decide_eq_true hrecent))
      · exact ih hrest
      · -- What is recent at the front is recent throughout.
        have hall : log.countP (now - span < ·) = log.length :=
          List.countP_eq_length.mpr fun s hs =>
            decide_eq_true ((of_decide_eq_true hrecent).trans_le (hfirst s hs))
        rw [hall, List.length_cons]
      · exact absurd (decide_eq_true (not_lt.mp (by simpa using hrecent))) hold

end Pacing

end Emporos
