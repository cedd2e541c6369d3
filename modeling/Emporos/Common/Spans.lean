import Mathlib.Algebra.Order.Group.Defs
import Mathlib.Algebra.Order.Sub.Basic
import Mathlib.Data.List.Induction
import Mathlib.Data.List.Pairwise
import Mathlib.Tactic.Common
/-!
# Short spans over points in order

Points that come in order are taken together while they stay within a
width of the first one of their span; the next point opens a span of its
own. Which points open a span is a matter of the set of points alone
(`Opens`), and a span reaches from the point that opens it to a point less
than the width after it.
-/

namespace Emporos

/-- From a first point to a last, both included. -/
structure Span (α : Type) where
  first : α
  last : α
  deriving DecidableEq, Repr

namespace Span

variable {α : Type} [AddCommGroup α] [LinearOrder α] [IsOrderedAddMonoid α] {width : α}

def Covers (s : Span α) (x : α) : Prop := s.first ≤ x ∧ x ≤ s.last

instance (s : Span α) (x : α) : Decidable (s.Covers x) := inferInstanceAs (Decidable (_ ∧ _))

/-- One point more; the newest span is first. -/
def extend (width : α) (spans : List (Span α)) (x : α) : List (Span α) :=
  match spans with
  | s :: rest => if x - s.first < width then ⟨s.first, x⟩ :: rest else ⟨x, x⟩ :: s :: rest
  | [] => [⟨x, x⟩]

/-- The spans of points that come in order. -/
def group (width : α) (points : List α) : List (Span α) := (points.foldl (extend width) []).reverse

/-- The points that open a span: the first one, and each first one that is
the width or more after the one before it that opens a span. -/
inductive Opens (width : α) (mem : α → Prop) : α → Prop
  | first {x : α} (h : mem x) (least : ∀ y, mem y → x ≤ y) : Opens width mem x
  | next {s x : α} (hs : Opens width mem s) (h : mem x) (far : s + width ≤ x)
      (least : ∀ y, mem y → s + width ≤ y → x ≤ y) : Opens width mem x

omit [IsOrderedAddMonoid α] in
theorem Opens.mem {mem : α → Prop} {x : α} (h : Opens width mem x) : mem x := by
  cases h with
  | first h _ => exact h
  | next _ h _ _ => exact h

/-- What the spans of the points so far have to do with all of the points. -/
structure Grouped (width : α) (mem : α → Prop) (seen : List α) (spans : List (Span α)) : Prop where
  opens : ∀ s ∈ spans, Opens width mem s.first ∧ mem s.last ∧ s.first ≤ s.last ∧
    s.last < s.first + width
  covered : ∀ x ∈ seen, ∃ s ∈ spans, s.Covers x
  /-- A newer span opens the width or more after an older one. -/
  later : spans.Pairwise fun s s' => s'.first + width ≤ s.first
  newest : ∀ x ∈ seen, ∀ s, spans.head? = some s → x ≤ s.last

/-- **One point more**, after all that were seen. -/
theorem Grouped.extend {mem : α → Prop} {seen : List α} {spans : List (Span α)} {x : α}
    (hpos : 0 < width) (h : Grouped width mem seen spans) (hx : mem x) (hlater : ∀ y ∈ seen, y < x)
    (hseen : ∀ y, mem y → y ∈ seen ∨ x ≤ y) (hlast : ∀ s ∈ spans, s.last ∈ seen) :
    Grouped width mem (seen ++ [x]) (Span.extend width spans x) := by
  have hself : x < x + width := lt_add_of_pos_right x hpos
  rcases spans with _ | ⟨s, rest⟩
  · -- nothing was seen, so the point is the least of all
    have hnone : ∀ y ∈ seen, False := fun y hy => by
      obtain ⟨s, hs, -⟩ := h.covered y hy
      cases hs
    have hleast : ∀ y, mem y → x ≤ y := fun y hy =>
      (hseen y hy).elim (fun hys => (hnone y hys).elim) id
    refine ⟨?_, ?_, List.pairwise_singleton _ _, ?_⟩
    · intro s hs
      obtain rfl := List.mem_singleton.mp hs
      exact ⟨.first hx hleast, hx, le_rfl, hself⟩
    · intro y hy
      rcases List.mem_append.mp hy with hy | hy
      · exact (hnone y hy).elim
      · obtain rfl := List.mem_singleton.mp hy
        exact ⟨⟨y, y⟩, List.mem_singleton_self _, le_rfl, le_rfl⟩
    · intro y hy s hs
      obtain rfl := Option.some.inj hs
      rcases List.mem_append.mp hy with hy | hy
      · exact (hnone y hy).elim
      · exact (List.mem_singleton.mp hy).le
  · obtain ⟨hopens, -, hle, hshort⟩ := h.opens s (List.mem_cons_self ..)
    have hsx : s.last < x := hlater _ (hlast s (List.mem_cons_self ..))
    have hall : ∀ y ∈ seen, y ≤ s.last := fun y hy => h.newest y hy s rfl
    obtain ⟨hbelow, hpairs⟩ := List.pairwise_cons.mp h.later
    rw [Span.extend]
    split
    · rename_i hnear
      refine ⟨?_, ?_, List.pairwise_cons.mpr ⟨hbelow, hpairs⟩, ?_⟩
      · intro s' hs'
        rcases List.mem_cons.mp hs' with rfl | hs'
        · exact ⟨hopens, hx, hle.trans hsx.le, sub_lt_iff_lt_add'.mp hnear⟩
        · exact h.opens s' (List.mem_cons_of_mem _ hs')
      · intro y hy
        rcases List.mem_append.mp hy with hy | hy
        · obtain ⟨s', hs', hcovers⟩ := h.covered y hy
          rcases List.mem_cons.mp hs' with rfl | hs'
          · exact ⟨_, List.mem_cons_self .., hcovers.1, hcovers.2.trans hsx.le⟩
          · exact ⟨s', List.mem_cons_of_mem _ hs', hcovers⟩
        · obtain rfl := List.mem_singleton.mp hy
          exact ⟨_, List.mem_cons_self .., hle.trans hsx.le, le_rfl⟩
      · intro y hy s' hs'
        obtain rfl := Option.some.inj hs'
        rcases List.mem_append.mp hy with hy | hy
        · exact (hall y hy).trans hsx.le
        · exact (List.mem_singleton.mp hy).le
    · rename_i hfar
      have hfar' : s.first + width ≤ x := not_lt.mp fun hlt => hfar (sub_lt_iff_lt_add'.mpr hlt)
      refine ⟨?_, ?_, ?_, ?_⟩
      · intro s' hs'
        rcases List.mem_cons.mp hs' with rfl | hs'
        · refine ⟨.next hopens hx hfar' fun y hy hwide => ?_, hx, le_rfl, hself⟩
          rcases hseen y hy with hys | hxy
          · exact absurd (hwide.trans (hall y hys)) (not_le.mpr hshort)
          · exact hxy
        · exact h.opens s' hs'
      · intro y hy
        rcases List.mem_append.mp hy with hy | hy
        · obtain ⟨s', hs', hcovers⟩ := h.covered y hy
          exact ⟨s', List.mem_cons_of_mem _ hs', hcovers⟩
        · obtain rfl := List.mem_singleton.mp hy
          exact ⟨⟨y, y⟩, List.mem_cons_self .., le_rfl, le_rfl⟩
      · refine List.pairwise_cons.mpr ⟨fun s' hs' => ?_, h.later⟩
        rcases List.mem_cons.mp hs' with rfl | hs'
        · exact hfar'
        · exact (hbelow s' hs').trans (hle.trans hsx.le)
      · intro y hy s' hs'
        obtain rfl := Option.some.inj hs'
        rcases List.mem_append.mp hy with hy | hy
        · exact (hlater y hy).le
        · exact (List.mem_singleton.mp hy).le

omit [IsOrderedAddMonoid α] in
/-- A span ends at a point that was seen. -/
theorem last_mem_extend {seen : List α} {spans : List (Span α)} {x : α}
    (h : ∀ s ∈ spans, s.last ∈ seen) : ∀ s ∈ Span.extend width spans x, s.last ∈ seen ++ [x] := by
  have hx : x ∈ seen ++ [x] := List.mem_append_right _ (List.mem_singleton_self _)
  intro s hs
  rcases spans with _ | ⟨s', rest⟩
  · obtain rfl := List.mem_singleton.mp hs
    exact hx
  · rw [Span.extend] at hs
    split at hs
    · rcases List.mem_cons.mp hs with rfl | hs
      · exact hx
      · exact List.mem_append_left _ (h s (List.mem_cons_of_mem _ hs))
    · rcases List.mem_cons.mp hs with rfl | hs
      · exact hx
      · exact List.mem_append_left _ (h s hs)

/-- **The spans of points in order.** -/
theorem grouped {points : List α} (hpos : 0 < width) (h : points.Pairwise (· < ·)) :
    Grouped width (· ∈ points) points (points.foldl (Span.extend width) []) ∧
      ∀ s ∈ points.foldl (Span.extend width) [], s.last ∈ points := by
  suffices H : ∀ seen later, points = seen ++ later →
      Grouped width (· ∈ points) seen (seen.foldl (Span.extend width) []) ∧
        ∀ s ∈ seen.foldl (Span.extend width) [], s.last ∈ seen by
    simpa using H points [] (List.append_nil _).symm
  intro seen
  induction seen using List.reverseRecOn with
  | nil =>
      intro later _
      exact ⟨⟨by simp, by simp, .nil, by simp⟩, by simp⟩
  | append_singleton seen x ih =>
      intro later hsplit
      rw [List.append_assoc, List.singleton_append] at hsplit
      obtain ⟨hgrouped, hlast⟩ := ih (x :: later) hsplit
      rw [List.foldl_append, List.foldl_cons, List.foldl_nil]
      have horder : (seen ++ x :: later).Pairwise (· < ·) := hsplit ▸ h
      obtain ⟨-, htail, hcross⟩ := List.pairwise_append.mp horder
      refine ⟨hgrouped.extend hpos ?_ (fun y hy => hcross y hy x (List.mem_cons_self ..)) ?_ hlast,
        last_mem_extend hlast⟩
      · rw [hsplit]
        exact List.mem_append_right _ (List.mem_cons_self ..)
      · intro y hy
        rw [hsplit] at hy
        rcases List.mem_append.mp hy with hy | hy
        · exact Or.inl hy
        · rcases List.mem_cons.mp hy with rfl | hy
          · exact Or.inr le_rfl
          · exact Or.inr ((List.pairwise_cons.mp htail).1 y hy).le

variable {points : List α}

/-- A span reaches from a point that opens one to another less than the
width after it. -/
theorem opens_of_mem_group (hpos : 0 < width) (h : points.Pairwise (· < ·)) {s : Span α}
    (hs : s ∈ group width points) : Opens width (· ∈ points) s.first ∧ s.last ∈ points ∧
      s.first ≤ s.last ∧ s.last < s.first + width :=
  (grouped hpos h).1.opens s (List.mem_reverse.mp hs)

/-- Every point is in a span. -/
theorem exists_covers_of_mem (hpos : 0 < width) (h : points.Pairwise (· < ·)) {x : α}
    (hx : x ∈ points) : ∃ s ∈ group width points, s.Covers x := by
  obtain ⟨s, hs, hcovers⟩ := (grouped hpos h).1.covered x hx
  exact ⟨s, List.mem_reverse.mpr hs, hcovers⟩

/-- The spans come in order and do not meet. -/
theorem pairwise_group (hpos : 0 < width) (h : points.Pairwise (· < ·)) :
    (group width points).Pairwise fun s s' => s.last < s'.first := by
  refine (List.pairwise_reverse.mpr (grouped hpos h).1.later).imp_of_mem fun hs _ hlater => ?_
  exact (opens_of_mem_group hpos h hs).2.2.2.trans_le hlater

/-- Two spans open the width or more apart. -/
theorem eq_or_apart (hpos : 0 < width) (h : points.Pairwise (· < ·)) {s t : Span α}
    (hs : s ∈ group width points) (ht : t ∈ group width points) :
    s = t ∨ s.first + width ≤ t.first ∨ t.first + width ≤ s.first := by
  have horder : (group width points).Pairwise fun s t => s.first + width ≤ t.first :=
    List.pairwise_reverse.mpr (grouped hpos h).1.later
  obtain ⟨l, r, hsplit⟩ := List.append_of_mem hs
  rw [hsplit] at horder ht
  obtain ⟨-, hafter, hcross⟩ := List.pairwise_append.mp horder
  rcases List.mem_append.mp ht with ht | ht
  · exact Or.inr (Or.inr (hcross t ht s (List.mem_cons_self ..)))
  · rcases List.mem_cons.mp ht with rfl | ht
    · exact Or.inl rfl
    · exact Or.inr (Or.inl ((List.pairwise_cons.mp hafter).1 t ht))

/-- **A span takes all the points it can**: those less than the width after
the point that opens it. -/
theorem covers_of_lt (hpos : 0 < width) (h : points.Pairwise (· < ·)) {s : Span α}
    (hs : s ∈ group width points) {x : α} (hx : x ∈ points) (hfirst : s.first ≤ x)
    (hlt : x < s.first + width) : s.Covers x := by
  obtain ⟨t, ht, hcovers⟩ := exists_covers_of_mem hpos h hx
  obtain ⟨-, -, -, hshort⟩ := opens_of_mem_group hpos h ht
  rcases eq_or_apart hpos h hs ht with rfl | hafter | hbefore
  · exact hcovers
  · exact absurd (hlt.trans_le hafter) (not_lt.mpr hcovers.1)
  · exact absurd ((hcovers.2.trans_lt hshort).trans_le hbefore) (not_lt.mpr hfirst)

/-- **A point that opens a span** is the first of one. -/
theorem exists_first_of_opens (hpos : 0 < width) (h : points.Pairwise (· < ·)) {x : α}
    (hx : Opens width (· ∈ points) x) : ∃ s ∈ group width points, s.first = x := by
  induction hx with
  | @first x hmem least =>
      obtain ⟨s, hs, hcovers⟩ := exists_covers_of_mem hpos h hmem
      obtain ⟨hopens, -⟩ := opens_of_mem_group hpos h hs
      exact ⟨s, hs, le_antisymm hcovers.1 (least _ hopens.mem)⟩
  | @next y x _ hmem far least ih =>
      obtain ⟨s, hs, rfl⟩ := ih
      obtain ⟨t, ht, hcovers⟩ := exists_covers_of_mem hpos h hmem
      obtain ⟨hopens, -, -, hshort⟩ := opens_of_mem_group hpos h ht
      obtain ⟨-, -, -, hshort'⟩ := opens_of_mem_group hpos h hs
      refine ⟨t, ht, le_antisymm hcovers.1 (least _ hopens.mem ?_)⟩
      rcases eq_or_apart hpos h hs ht with rfl | hafter | hbefore
      · exact absurd (hcovers.2.trans_lt hshort) (not_lt.mpr far)
      · exact hafter
      · -- then the point would be of a span that is over before it
        have hself : s.first < s.first + width := lt_add_of_pos_right _ hpos
        exact absurd ((hcovers.2.trans_lt hshort).trans_le (hbefore.trans hself.le))
          (not_lt.mpr far)

end Span

end Emporos
