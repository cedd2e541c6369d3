import Mathlib.Algebra.BigOperators.Group.List.Basic
import Mathlib.Data.List.Dedup
import Mathlib.Data.List.Nodup
import Mathlib.Data.List.Perm.Basic
import Mathlib.Tactic.Abel
/-!
# Tables of rows with a key

A collection of documents is the list of its rows in the order they were
inserted. `lookup` finds a row by a key, `replace` puts a new row in the
place of the one with the same key, `upsert` adds it when there is none.
A row with a key of its own is the only one `replace` moves, and a table
whose keys are distinct stays one.
-/

namespace Emporos

namespace Table

variable {ρ κ : Type} [DecidableEq κ] (key : ρ → κ)

/-- The row with key `k`. -/
def lookup (k : κ) (rows : List ρ) : Option ρ := rows.find? fun x => key x = k

/-- The table with `row` in the place of the row of its key. -/
def replace (row : ρ) (rows : List ρ) : List ρ :=
  rows.map fun x => if key x = key row then row else x

/-- The same, adding the row when its key is new. -/
def upsert (row : ρ) (rows : List ρ) : List ρ :=
  if rows.any fun x => key x = key row then replace key row rows else rows ++ [row]

variable {key} {k : κ} {row x : ρ} {rows : List ρ}

theorem replace_def :
    replace key row rows = rows.map fun x => if key x = key row then row else x := rfl

theorem upsert_def : upsert key row rows =
    if rows.any fun x => key x = key row then replace key row rows else rows ++ [row] := rfl

theorem mem_of_lookup (h : lookup key k rows = some x) : x ∈ rows :=
  List.mem_of_find?_eq_some h

theorem key_of_lookup (h : lookup key k rows = some x) : key x = k := by
  simpa using List.find?_some h

theorem lookup_eq_none : lookup key k rows = none ↔ ∀ x ∈ rows, key x ≠ k := by
  simp [lookup, List.find?_eq_none]

/-- Where keys are distinct, a row is found by its key. -/
theorem lookup_of_mem (hnd : (rows.map key).Nodup) (hx : x ∈ rows) :
    lookup key (key x) rows = some x := by
  cases h : lookup key (key x) rows with
  | none => exact absurd rfl (lookup_eq_none.1 h x hx)
  | some y =>
      rw [List.inj_on_of_nodup_map hnd (mem_of_lookup h) hx (key_of_lookup h)]

omit [DecidableEq κ] in
/-- Two rows of one key are one row. -/
theorem eq_of_key (hnd : (rows.map key).Nodup) {y : ρ} (hx : x ∈ rows) (hy : y ∈ rows)
    (h : key x = key y) : x = y :=
  List.inj_on_of_nodup_map hnd hx hy h

/-- Replacing a row changes no key. -/
@[simp] theorem map_key_replace : (replace key row rows).map key = rows.map key := by
  simp only [replace_def, List.map_map, List.map_inj_left, Function.comp_apply]
  intro x _
  split
  · rename_i h; exact h.symm
  · rfl

theorem mem_replace : x ∈ replace key row rows ↔
    (x = row ∧ ∃ y ∈ rows, key y = key row) ∨ (x ∈ rows ∧ key x ≠ key row) := by
  simp only [replace_def, List.mem_map]
  constructor
  · rintro ⟨y, hy, rfl⟩
    split
    · rename_i h; exact Or.inl ⟨rfl, y, hy, h⟩
    · rename_i h; exact Or.inr ⟨hy, h⟩
  · rintro (⟨rfl, y, hy, h⟩ | ⟨hx, h⟩)
    · exact ⟨y, hy, if_pos h⟩
    · exact ⟨x, hx, if_neg h⟩

/-- The other rows stay. -/
theorem mem_replace_of_ne (h : key x ≠ key row) : x ∈ replace key row rows ↔ x ∈ rows := by
  rw [mem_replace]
  constructor
  · rintro (⟨rfl, -⟩ | hx)
    · exact absurd rfl h
    · exact hx.1
  · exact fun hx => Or.inr ⟨hx, h⟩

theorem row_mem_replace (hx : x ∈ rows) (h : key x = key row) : row ∈ replace key row rows :=
  mem_replace.2 (Or.inl ⟨rfl, x, hx, h⟩)

/-- What is there after rows of distinct keys took the place of others. -/
theorem mem_foldl_replace {l : List ρ} (hnd : (l.map key).Nodup) :
    x ∈ l.foldl (fun rows r => replace key r rows) rows ↔
      (x ∈ rows ∧ key x ∉ l.map key) ∨ (x ∈ l ∧ key x ∈ rows.map key) := by
  induction l generalizing rows with
  | nil => simp
  | cons r l ih =>
      obtain ⟨hr, hnd⟩ := List.nodup_cons.mp hnd
      rw [List.foldl_cons, ih hnd, map_key_replace, mem_replace, List.map_cons, List.mem_cons,
        List.mem_cons]
      constructor
      · rintro (⟨⟨rfl, y, hy, hkey⟩ | ⟨hx, hne⟩, hl⟩ | ⟨hx, hkey⟩)
        · exact .inr ⟨.inl rfl, hkey ▸ List.mem_map_of_mem hy⟩
        · exact .inl ⟨hx, fun h => h.elim hne hl⟩
        · exact .inr ⟨.inr hx, hkey⟩
      · rintro (⟨hx, hl⟩ | ⟨rfl | hx, hkey⟩)
        · exact .inl ⟨.inr ⟨hx, fun h => hl (.inl h)⟩, fun h => hl (.inr h)⟩
        · obtain ⟨y, hy, hykey⟩ := List.mem_map.mp hkey
          exact .inl ⟨.inl ⟨rfl, y, hy, hykey⟩, hr⟩
        · exact .inr ⟨hx, hkey⟩

/-- What a key finds after `replace`: what it found before, or the new row
in its place. -/
theorem lookup_replace_eq : lookup key k (replace key row rows) =
    (lookup key k rows).map fun x => if key x = key row then row else x := by
  rw [lookup, replace_def, List.find?_map, lookup]
  congr 2
  funext x
  by_cases h : key x = key row <;> simp [h]

/-- A key the table has finds the new row after `replace`, and any other
key what it found before. -/
theorem lookup_replace (hx : x ∈ rows) (h : key x = key row) :
    lookup key k (replace key row rows) = if k = key row then some row
      else lookup key k rows := by
  rw [lookup_replace_eq]
  cases hl : lookup key k rows with
  | none =>
      have hne : ¬ k = key row := fun hk => lookup_eq_none.1 hl x hx (by rw [h, hk])
      rw [if_neg hne, Option.map_none]
  | some y => rw [Option.map_some, key_of_lookup hl]; split <;> rfl

/-- Two keys that tell the row from the others alike put it in one place. -/
theorem upsert_congr {κ' : Type} [DecidableEq κ'] {key' : ρ → κ'}
    (h : ∀ x ∈ rows, (key x = key row ↔ key' x = key' row)) :
    upsert key row rows = upsert key' row rows := by
  have hany : (rows.any fun x => key x = key row) = rows.any fun x => key' x = key' row := by
    rw [Bool.eq_iff_iff, List.any_eq_true, List.any_eq_true]
    exact exists_congr fun x => and_congr_right fun hx => by simp [h x hx]
  have hreplace : replace key row rows = replace key' row rows :=
    List.map_congr_left fun x hx => by simp only [h x hx]
  rw [upsert_def, upsert_def, hany, hreplace]

theorem mem_upsert_self : row ∈ upsert key row rows := by
  rw [upsert_def]
  split
  · rename_i h
    obtain ⟨x, hx, hk⟩ := List.any_eq_true.mp h
    exact row_mem_replace hx (by simpa using hk)
  · simp

/-- What `upsert` leaves is the new row and the rows of other keys. -/
theorem mem_upsert : x ∈ upsert key row rows ↔ x = row ∨ (x ∈ rows ∧ key x ≠ key row) := by
  rw [upsert_def]
  split
  · rename_i h
    obtain ⟨y, hy, hk⟩ := List.any_eq_true.mp h
    rw [mem_replace]
    constructor
    · rintro (⟨rfl, -⟩ | hx)
      · exact Or.inl rfl
      · exact Or.inr hx
    · rintro (rfl | hx)
      · exact Or.inl ⟨rfl, y, hy, by simpa using hk⟩
      · exact Or.inr hx
  · rename_i h
    rw [List.mem_append, List.mem_singleton]
    constructor
    · rintro (hx | rfl)
      · refine Or.inr ⟨hx, fun hk => h (List.any_eq_true.mpr ⟨x, hx, by simpa using hk⟩)⟩
      · exact Or.inl rfl
    · rintro (rfl | hx)
      · exact Or.inr rfl
      · exact Or.inl hx.1

theorem nodup_upsert (hnd : (rows.map key).Nodup) : ((upsert key row rows).map key).Nodup := by
  rw [upsert_def]
  split
  · rwa [map_key_replace]
  · rename_i h
    rw [List.map_append, List.nodup_append]
    refine ⟨hnd, by simp, ?_⟩
    rintro a ha b hb rfl
    obtain ⟨x, hx, hxa⟩ := List.mem_map.mp ha
    rw [List.map_singleton, List.mem_singleton] at hb
    exact h (List.any_eq_true.mpr ⟨x, hx, by simp [hxa, hb]⟩)

/-- After `upsert` the key of the new row finds it, and another key what
it found before. -/
theorem lookup_upsert : lookup key k (upsert key row rows) = if k = key row then some row
    else lookup key k rows := by
  rw [upsert_def]
  split
  · rename_i h
    obtain ⟨y, hy, hk⟩ := List.any_eq_true.mp h
    exact lookup_replace hy (by simpa using hk)
  · rename_i h
    have hnone : lookup key (key row) rows = none :=
      lookup_eq_none.2 fun x hx hk => h (List.any_eq_true.mpr ⟨x, hx, by simpa using hk⟩)
    rw [lookup, List.find?_append, ← lookup]
    by_cases hk : k = key row
    · rw [hk, hnone]; simp
    · have : ¬ key row = k := fun h => hk h.symm
      simp [this, hk]

theorem replace_of_ne (h : ∀ y ∈ rows, key y ≠ key row) : replace key row rows = rows :=
  (List.map_congr_left fun y hy => if_neg (h y hy)).trans (List.map_id _)

theorem upsert_of_ne (h : ∀ y ∈ rows, key y ≠ key row) : upsert key row rows = rows ++ [row] := by
  refine if_neg fun hany => ?_
  obtain ⟨y, hy, hk⟩ := List.any_eq_true.mp hany
  exact h y hy (by simpa using hk)

/-- The row of a key is replaced where it stands. -/
theorem upsert_middle {l r : List ρ} (hnd : ((l ++ x :: r).map key).Nodup) (hk : key x = key row) :
    upsert key row (l ++ x :: r) = l ++ row :: r := by
  rw [List.map_append, List.map_cons, List.nodup_append, List.nodup_cons] at hnd
  obtain ⟨-, ⟨hr, -⟩, hdisj⟩ := hnd
  have hl : replace key row l = l := replace_of_ne fun y hy =>
    hk ▸ hdisj _ (List.mem_map_of_mem hy) _ (List.mem_cons_self ..)
  have hr' : replace key row r = r := replace_of_ne fun y hy hyx =>
    hr (hk ▸ hyx ▸ List.mem_map_of_mem hy)
  have hany : (l ++ x :: r).any (fun y => key y = key row) := by simp [hk]
  rw [upsert_def, if_pos hany, replace_def, List.map_append, List.map_cons, if_pos hk, ← replace_def, ← replace_def,
    hl, hr']

/-- A row that is there already changes nothing. -/
theorem upsert_self (hnd : (rows.map key).Nodup) (hx : x ∈ rows) : upsert key x rows = rows := by
  obtain ⟨l, r, rfl⟩ := List.append_of_mem hx
  exact upsert_middle hnd rfl

/-- Rows of other keys ahead of a table stay ahead of it. -/
theorem upsert_append {l : List ρ} (h : ∀ y ∈ l, key y ≠ key row) :
    upsert key row (l ++ rows) = l ++ upsert key row rows := by
  have hl : l.any (fun y => key y = key row) = false := by
    simpa using h
  rw [upsert_def, upsert_def, List.any_append, hl, Bool.false_or]
  split
  · rw [replace_def, List.map_append, ← replace_def, ← replace_def, replace_of_ne h]
  · rw [List.append_assoc]

theorem lookup_append_of_ne {l : List ρ} (h : ∀ y ∈ l, key y ≠ k) :
    lookup key k (l ++ rows) = lookup key k rows := by
  rw [lookup, List.find?_append, ← lookup, ← lookup, lookup_eq_none.2 h, Option.none_or]

/-- A table seen through a function that keeps the keys. -/
theorem lookup_map {σ : Type} {f : σ → ρ} {l : List σ} :
    lookup key k (l.map f) = (lookup (fun x => key (f x)) k l).map f := by
  rw [lookup, List.find?_map]
  rfl

theorem upsert_map {σ : Type} {f : σ → ρ} {y : σ} {l : List σ} :
    upsert key (f y) (l.map f) = (upsert (fun x => key (f x)) y l).map f := by
  have hany : (l.map f).any (fun x => key x = key (f y)) =
      l.any fun x => key (f x) = key (f y) := by
    rw [List.any_map]
    rfl
  rw [upsert_def, upsert_def, hany]
  split
  · simp only [replace_def, List.map_map]
    refine List.map_congr_left fun x _ => ?_
    simp only [Function.comp_apply]
    split <;> rfl
  · simp

/-- Rows with keys of their own, upserted in turn, are all there. -/
theorem foldl_upsert_of_nodup {l : List ρ} (hnd : ((rows ++ l).map key).Nodup) :
    l.foldl (fun table x => upsert key x table) rows = rows ++ l := by
  induction l generalizing rows with
  | nil => simp
  | cons x l ih =>
      have hnew : ∀ y ∈ rows, key y ≠ key x := by
        rw [List.map_append, List.nodup_append] at hnd
        exact fun y hy => hnd.2.2 _ (List.mem_map_of_mem hy) _ (by simp)
      have hsplit : rows ++ x :: l = rows ++ [x] ++ l := by simp
      rw [List.foldl_cons, upsert_of_ne hnew, ih (hsplit ▸ hnd), hsplit]

/-- Where keys are distinct, a sum over the table changes by what the new
row adds to the one of its key, also where the other rows' values are
taken by another function that agrees on them. -/
theorem sum_upsert_of_agree {M : Type} [AddCommMonoid M] {f g : ρ → M} {m : M}
    (hnd : (rows.map key).Nodup) (hagree : ∀ x ∈ rows, key x ≠ key row → g x = f x)
    (hrow : g row = ((lookup key (key row) rows).map f).getD 0 + m) :
    ((upsert key row rows).map g).sum = (rows.map f).sum + m := by
  rw [upsert_def]
  split
  · rename_i h
    obtain ⟨y, hy, hk⟩ := List.any_eq_true.mp h
    have hkey : key y = key row := by simpa using hk
    rw [← hkey, lookup_of_mem hnd hy] at hrow
    -- the row of the key is at one place, and the others stay
    obtain ⟨l, r, rfl⟩ := List.append_of_mem hy
    have hsplit : replace key row (l ++ y :: r) = l ++ row :: r := by
      rw [← upsert_middle hnd hkey, upsert_def, if_pos h]
    rw [List.map_append, List.map_cons] at hnd
    have hothers := List.nodup_middle.mp hnd
    rw [List.nodup_cons, List.mem_append, not_or] at hothers
    have hleft : l.map g = l.map f := List.map_congr_left fun x hx =>
      hagree x (List.mem_append_left _ hx) fun h =>
        hothers.1.1 (List.mem_map.mpr ⟨x, hx, h.trans hkey.symm⟩)
    have hright : r.map g = r.map f := List.map_congr_left fun x hx =>
      hagree x (List.mem_append_right _ (List.mem_cons_of_mem _ hx)) fun h =>
        hothers.1.2 (List.mem_map.mpr ⟨x, hx, h.trans hkey.symm⟩)
    rw [hsplit, List.map_append, List.map_cons, List.map_append, List.map_cons, List.sum_append,
      List.sum_cons, List.sum_append, List.sum_cons, hrow, Option.map_some, Option.getD_some, hleft,
      hright]
    abel
  · rename_i h
    have hne : ∀ x ∈ rows, key x ≠ key row := fun x hx hk =>
      h (List.any_eq_true.mpr ⟨x, hx, by simpa using hk⟩)
    have hrows : rows.map g = rows.map f := List.map_congr_left fun x hx => hagree x hx (hne x hx)
    rw [lookup_eq_none.2 hne, Option.map_none, Option.getD_none, zero_add] at hrow
    rw [List.map_append, List.sum_append, List.map_singleton, List.sum_singleton, hrow, hrows]

theorem sum_upsert {M : Type} [AddCommMonoid M] {f : ρ → M} {m : M}
    (hnd : (rows.map key).Nodup)
    (hrow : f row = ((lookup key (key row) rows).map f).getD 0 + m) :
    ((upsert key row rows).map f).sum = (rows.map f).sum + m :=
  sum_upsert_of_agree hnd (fun _ _ _ => rfl) hrow

/-! ## The last row of a key -/

variable (key) in
/-- The last row of key `k` in a list that may have several. -/
def latest (k : κ) (rows : List ρ) : Option ρ := rows.reverse.find? fun x => key x = k

section Latest

attribute [local simp] latest

@[simp] theorem latest_nil : latest key k [] = none := rfl

theorem latest_append {l r : List ρ} :
    latest key k (l ++ r) = (latest key k r).or (latest key k l) := by
  rw [latest, List.reverse_append, List.find?_append, ← latest, ← latest]

theorem latest_singleton : latest key k [x] = if key x = k then some x else none := by
  by_cases h : key x = k <;> simp [h]

theorem mem_of_latest (h : latest key k rows = some x) : x ∈ rows :=
  List.mem_reverse.mp (List.mem_of_find?_eq_some h)

theorem key_of_latest (h : latest key k rows = some x) : key x = k := by
  simpa using List.find?_some h

theorem latest_eq_none : latest key k rows = none ↔ ∀ x ∈ rows, key x ≠ k := by
  simp [List.find?_eq_none]

end Latest

/-- Where keys are distinct, the last row of a key is the one there is. -/
theorem latest_of_mem (hnd : (rows.map key).Nodup) (hx : x ∈ rows) :
    latest key (key x) rows = some x := by
  cases h : latest key (key x) rows with
  | none => exact absurd rfl (latest_eq_none.1 h x hx)
  | some y => rw [eq_of_key hnd (mem_of_latest h) hx (key_of_latest h)]

theorem latest_eq_lookup (hnd : (rows.map key).Nodup) : latest key k rows = lookup key k rows := by
  cases h : lookup key k rows with
  | none => exact latest_eq_none.2 (lookup_eq_none.1 h)
  | some x =>
      rw [← key_of_lookup h]
      exact latest_of_mem hnd (mem_of_lookup h)

/-- Where keys are distinct, a part of the rows has the last row of a key or
none. -/
theorem latest_filter {p : ρ → Bool} (hnd : (rows.map key).Nodup) :
    latest key k (rows.filter p) = (latest key k rows).filter p := by
  have hnd' : ((rows.filter p).map key).Nodup := hnd.sublist (List.filter_sublist.map _)
  cases h : latest key k rows with
  | none =>
      exact latest_eq_none.2 fun x hx => latest_eq_none.1 h x (List.mem_of_mem_filter hx)
  | some x =>
      have hx := mem_of_latest h
      have hk := key_of_latest h
      by_cases hp : p x
      · rw [Option.filter_some_pos hp, ← hk]
        exact latest_of_mem hnd' (List.mem_filter.mpr ⟨hx, hp⟩)
      · rw [Option.filter_some_neg (Bool.eq_false_iff.mpr hp)]
        refine latest_eq_none.2 fun y hy hyk => hp ?_
        rw [← eq_of_key hnd (List.mem_of_mem_filter hy) hx (hyk.trans hk.symm)]
        exact (List.mem_filter.mp hy).2

theorem latest_of_perm {l : List ρ} (hnd : (rows.map key).Nodup) (h : l.Perm rows) :
    latest key k l = latest key k rows := by
  have hnd' : (l.map key).Nodup := (h.map key).nodup_iff.mpr hnd
  cases hx : latest key k rows with
  | none => exact latest_eq_none.2 fun x hxl => latest_eq_none.1 hx x (h.mem_iff.mp hxl)
  | some x =>
      rw [← key_of_latest hx]
      exact latest_of_mem hnd' (h.mem_iff.mpr (mem_of_latest hx))

/-- Where a key has at most one row, that is the last one. -/
theorem filter_eq_latest (h : (rows.filter fun x => key x = k).length ≤ 1) :
    rows.filter (fun x => key x = k) = (latest key k rows).toList := by
  have hlast : latest key k rows = latest key k (rows.filter fun x => key x = k) := by
    rw [latest, latest, ← List.filter_reverse, List.find?_filter]
    simp
  rcases hrows : rows.filter (fun x => key x = k) with _ | ⟨x, _ | ⟨y, rest⟩⟩
  · rw [hlast, hrows]
    rfl
  · have hx : key x = k := by
      have : x ∈ rows.filter fun x => key x = k := by rw [hrows]; exact List.mem_singleton_self x
      simpa using (List.mem_filter.mp this).2
    rw [hlast, hrows, latest_singleton, if_pos hx]
    rfl
  · rw [hrows] at h
    simp at h

/-- **Upserting rows one after the other** leaves the last of each key. -/
theorem lookup_foldl_upsert {l : List ρ} :
    lookup key k (l.foldl (fun rows x => upsert key x rows) rows) =
      (latest key k l).or (lookup key k rows) := by
  induction l generalizing rows with
  | nil => rfl
  | cons x l ih =>
      have hsplit : latest key k (x :: l) = (latest key k l).or (latest key k [x]) :=
        latest_append (l := [x])
      rw [List.foldl_cons, ih, lookup_upsert, hsplit, latest_singleton, Option.or_assoc]
      by_cases h : k = key x
      · rw [if_pos h, if_pos h.symm]; rfl
      · rw [if_neg h, if_neg (Ne.symm h)]; rfl

theorem nodup_foldl_upsert {l : List ρ} (hnd : (rows.map key).Nodup) :
    ((l.foldl (fun rows x => upsert key x rows) rows).map key).Nodup := by
  induction l generalizing rows with
  | nil => exact hnd
  | cons x l ih => exact ih (nodup_upsert hnd)

theorem mem_foldl_upsert {l : List ρ}
    (h : x ∈ l.foldl (fun rows x => upsert key x rows) rows) : x ∈ l ∨ x ∈ rows := by
  induction l generalizing rows with
  | nil => exact Or.inr h
  | cons y l ih =>
      rcases ih h with h | h
      · exact Or.inl (List.mem_cons_of_mem _ h)
      · rcases mem_upsert.1 h with rfl | ⟨h, -⟩
        · exact Or.inl (List.mem_cons_self ..)
        · exact Or.inr h

/-! ## Rows by their key -/

/-- **Rows taken key by key are the rows**, each once, where the keys are
distinct and every row has one of them. -/
theorem flatMap_filter_perm {keys : List κ} (hnd : keys.Nodup) (h : ∀ x ∈ rows, key x ∈ keys) :
    (keys.flatMap fun k => rows.filter fun x => key x = k).Perm rows := by
  induction keys generalizing rows with
  | nil =>
      rw [List.eq_nil_iff_forall_not_mem.mpr fun x hx => List.not_mem_nil (h x hx)]
      exact .nil
  | cons k keys ih =>
      obtain ⟨hk, hnd⟩ := List.nodup_cons.mp hnd
      have hrest : (keys.flatMap fun k' => rows.filter fun x => key x = k') =
          keys.flatMap fun k' => (rows.filter fun x => !decide (key x = k)).filter
            fun x => key x = k' := by
        refine List.flatMap_congr fun k' hk' => ?_
        rw [List.filter_filter]
        refine List.filter_congr fun x _ => ?_
        have hne : k' ≠ k := fun he => hk (he ▸ hk')
        by_cases hx : key x = k'
        · simp [hx, hne]
        · simp [hx]
      rw [List.flatMap_cons, hrest]
      refine (List.Perm.append_left _ (ih hnd fun x hx => ?_)).trans
        (List.filter_append_perm _ rows)
      obtain ⟨hx, hne⟩ := List.mem_filter.mp hx
      rcases List.mem_cons.mp (h x hx) with he | hmem
      · simp [he] at hne
      · exact hmem

/-! ## A table built row by row -/

variable (key) in
/-- The table of rows upserted in turn: each key once, with its last
row. -/
def dict (rows : List ρ) : List ρ := rows.foldl (fun table x => upsert key x table) []

theorem lookup_dict : lookup key k (dict key rows) = latest key k rows := by
  rw [dict, lookup_foldl_upsert, lookup, List.find?_nil, Option.or_none]

theorem nodup_dict : ((dict key rows).map key).Nodup :=
  nodup_foldl_upsert (by simp)

theorem mem_of_mem_dict (h : x ∈ dict key rows) : x ∈ rows := by
  rcases mem_foldl_upsert h with h | h
  · exact h
  · cases h

/-- A table has the keys of its rows. -/
theorem mem_map_key_dict : k ∈ (dict key rows).map key ↔ k ∈ rows.map key := by
  constructor
  · intro h
    obtain ⟨x, hx, rfl⟩ := List.mem_map.mp h
    exact List.mem_map_of_mem (mem_of_mem_dict hx)
  · intro h
    obtain ⟨x, hx, rfl⟩ := List.mem_map.mp h
    cases hl : lookup key (key x) (dict key rows) with
    | none =>
        rw [lookup_dict] at hl
        exact absurd rfl (latest_eq_none.1 hl x hx)
    | some y => exact List.mem_map.mpr ⟨y, mem_of_lookup hl, key_of_lookup hl⟩

/-- **The table is as long as its rows** where their keys are distinct, and
shorter everywhere else. -/
theorem length_dict : (dict key rows).length = rows.length ↔ (rows.map key).Nodup := by
  have hperm : ((dict key rows).map key).Perm (rows.map key).dedup :=
    (List.perm_ext_iff_of_nodup nodup_dict (List.nodup_dedup _)).mpr fun k => by
      rw [mem_map_key_dict, List.mem_dedup]
  have hlen : (dict key rows).length = (rows.map key).dedup.length := by
    rw [← hperm.length_eq, List.length_map]
  rw [hlen, ← List.dedup_eq_self]
  constructor
  · exact fun h => (List.dedup_sublist _).eq_of_length (by rw [h, List.length_map])
  · exact fun h => by rw [h, List.length_map]

/-- Rows are related in pairs where those of one key are, and those of
two. -/
theorem pairwise_of_key {R : ρ → ρ → Prop}
    (hsame : ∀ k, (rows.filter fun x => key x = k).Pairwise R)
    (hother : ∀ x ∈ rows, ∀ y ∈ rows, key x ≠ key y → R x y) : rows.Pairwise R := by
  induction rows with
  | nil => exact .nil
  | cons x rows ih =>
      refine List.pairwise_cons.mpr ⟨fun y hy => ?_, ih (fun k => ?_) fun y hy z hz => ?_⟩
      · by_cases hxy : key x = key y
        · have hboth := hsame (key x)
          rw [List.filter_cons_of_pos (by simp)] at hboth
          exact (List.pairwise_cons.mp hboth).1 y (List.mem_filter.mpr ⟨hy, by simp [hxy]⟩)
        · exact hother x (List.mem_cons_self ..) y (List.mem_cons_of_mem _ hy) hxy
      · exact (hsame k).sublist ((List.sublist_cons_self x rows).filter _)
      · exact hother y (List.mem_cons_of_mem _ hy) z (List.mem_cons_of_mem _ hz)

/-- In what order the rows stand has no influence where keys are
distinct. -/
theorem lookup_of_perm {l : List ρ} (hnd : (rows.map key).Nodup) (h : l.Perm rows) :
    lookup key k l = lookup key k rows := by
  have hnd' : (l.map key).Nodup := (h.map key).nodup_iff.mpr hnd
  cases hx : lookup key k rows with
  | none => exact lookup_eq_none.2 fun x hxl => lookup_eq_none.1 hx x (h.mem_iff.mp hxl)
  | some x =>
      rw [← key_of_lookup hx]
      exact lookup_of_mem hnd' (h.mem_iff.mpr (mem_of_lookup hx))

end Table

end Emporos
