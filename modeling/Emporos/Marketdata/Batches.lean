import Emporos.Marketdata.Timeframes
import Mathlib.Data.List.Find
/-!
# Batches of minutes in any order

`derive` of minutes that come in any order, and more than once: a bucket
holds the last bar of each of its minutes, and its bar is that of the
minutes it holds, in whatever order they came.
-/

namespace Emporos

open Timestamp

section Groups

variable {w : SessionWindow} {seen : List (Candle × DerivedTimeframe)} {k : BucketKey}

/-- **The batch is a grouping**, of minutes in any order: one group for each
bucket that has bars, with the last bar of each minute. -/
theorem groupsOf_dict : ((groupsOf w seen).map (·.key)).Nodup ∧
    ∀ g, g ∈ groupsOf w seen ↔ g.bucket.bars = Table.dict Candle.ts (barsIn w seen g.key) := by
  induction seen using List.reverseRecOn with
  | nil =>
      refine ⟨List.nodup_nil, fun g => ⟨fun hg => (by cases hg), fun hbars => ?_⟩⟩
      exact absurd hbars g.bucket.filled
  | append_singleton seen p ih =>
      obtain ⟨bar, t⟩ := p
      obtain ⟨hnodup, hmem⟩ := ih
      have hgroups : groupsOf w (seen ++ [(bar, t)]) = BucketGroup.insert w (groupsOf w seen) bar t := by
        rw [groupsOf, List.foldl_append]
        rfl
      have hdict : ∀ l : List Candle, Table.dict Candle.ts (l ++ [bar]) =
          Table.upsert Candle.ts bar (Table.dict Candle.ts l) := fun l => by
        rw [Table.dict, List.foldl_append]
        rfl
      -- the bucket of the new bar is the old one with the bar in its place
      obtain ⟨new, hnew, hkey, hbars⟩ : ∃ new : BucketGroup,
          groupsOf w (seen ++ [(bar, t)]) = Table.upsert (·.key) new (groupsOf w seen) ∧
          new.key = keyOf w bar t ∧
          new.bucket.bars = Table.dict Candle.ts (barsIn w seen (keyOf w bar t) ++ [bar]) := by
        rw [hgroups, hdict]
        cases hl : Table.lookup (·.key) (bar.instrumentId, t, BucketRule.start w t bar.ts)
            (groupsOf w seen) with
        | none =>
            refine ⟨_, BucketGroup.insert_eq hl, rfl, ?_⟩
            have hempty : Table.dict Candle.ts (barsIn w seen (keyOf w bar t)) = [] := by
              by_contra hne
              exact Table.lookup_eq_none.mp hl ⟨bar.instrumentId, t, ⟨_, _, hne⟩⟩
                ((hmem _).mpr rfl) rfl
            rw [hempty]
            rfl
        | some g =>
            have hgkey : g.key = keyOf w bar t := Table.key_of_lookup hl
            have hgbars := (hmem g).mp (Table.mem_of_lookup hl)
            rw [hgkey] at hgbars
            refine ⟨_, BucketGroup.insert_eq hl, ?_, ?_⟩
            · have hstart : g.bucket.start = BucketRule.start w t bar.ts :=
                congrArg (fun k : BucketKey => k.2.2) hgkey
              simp only [BucketGroup.key, keyOf, Bucket.extend, Option.elim_some, hstart]
            · rw [← hgbars]
              rfl
      rw [hnew]
      refine ⟨Table.nodup_upsert hnodup, fun g => ?_⟩
      rw [Table.mem_upsert, barsIn_append, hkey]
      by_cases hg : g.key = keyOf w bar t
      · rw [if_pos hg.symm, hg]
        constructor
        · rintro (rfl | ⟨-, hne⟩)
          · exact hbars
          · exact absurd rfl hne
        · exact fun hgb => Or.inl (BucketGroup.eq_of_key (hg.trans hkey.symm) (hgb.trans hbars.symm))
      · rw [if_neg (Ne.symm hg), List.append_nil, ← hmem]
        constructor
        · rintro (rfl | ⟨hin, -⟩)
          · exact absurd hkey hg
          · exact hin
        · exact fun hin => Or.inr ⟨hin, hg⟩

end Groups

/-- The minutes of one bucket, in the order in which they came. -/
def minutesIn (w : SessionWindow) (minutes : List Candle) (k : BucketKey) : List Candle :=
  minutes.filter fun c => c.instrumentId = k.1 ∧ BucketRule.start w k.2.1 c.ts = k.2.2

variable {w : SessionWindow} {minutes batch : List Candle} {b c : Candle} {k : BucketKey}

theorem barsIn_inEach : barsIn w (inEach DerivedTimeframe.all minutes) k = minutesIn w minutes k := by
  rw [barsIn, barsFor_inEach, List.filter_filter, minutesIn]
  refine List.filter_congr fun c _ => ?_
  simp only [Bool.decide_and, Bool.and_comm]

/-- The bar of a bucket that holds minutes. -/
def Derived (w : SessionWindow) (minutes : List Candle) (b : Candle) : Prop :=
  ∃ g : BucketGroup, g.bucket.bars = Table.dict Candle.ts (minutesIn w minutes g.key) ∧ b = g.candle w

/-- **What is derived**: the bar of each bucket with minutes. -/
theorem derive_eq_ok : derive w DerivedTimeframe.all minutes = .ok batch →
    (∀ c ∈ minutes, c.timeframe = .m1) ∧ ∀ b, b ∈ batch ↔ Derived w minutes b := by
  intro h
  unfold derive at h
  split at h
  · cases h
  · rename_i hall
    refine ⟨by simpa using hall, fun b => ?_⟩
    have hbatch := Except.ok.inj h
    rw [← hbatch, List.mem_insertionSort, List.mem_map]
    refine exists_congr fun g => ?_
    rw [← barsIn_inEach, ← groupsOf_dict.2, groupsOf]
    exact and_congr_right fun _ => eq_comm

/-- Minutes can be derived from. -/
theorem exists_derive (h : ∀ c ∈ minutes, c.timeframe = .m1) :
    ∃ batch, derive w DerivedTimeframe.all minutes = .ok batch := by
  refine ⟨_, if_neg ?_⟩
  simpa using h

/-- A derived bar is of a bucket that one of the minutes lies in. -/
theorem Derived.exists_minute (h : Derived w minutes b) : ∃ c ∈ minutes, ∃ tf : DerivedTimeframe,
    b.instrumentId = c.instrumentId ∧ b.timeframe = tf.timeframe ∧
      b.ts = BucketRule.start w tf c.ts := by
  obtain ⟨g, hbars, rfl⟩ := h
  have hhead : g.bucket.ordered.head g.bucket.ordered_ne_nil ∈ minutesIn w minutes g.key := by
    have hin : g.bucket.ordered.head g.bucket.ordered_ne_nil ∈
        Table.dict Candle.ts (minutesIn w minutes g.key) := by
      rw [← hbars]
      exact (List.perm_insertionSort _ _).mem_iff.mp (List.head_mem _)
    exact Table.mem_of_mem_dict hin
  obtain ⟨hmem, hin⟩ := List.mem_filter.mp hhead
  obtain ⟨-, hstart⟩ := of_decide_eq_true hin
  exact ⟨_, hmem, g.timeframe, rfl, rfl, hstart.symm⟩

/-! ## The bar of one bucket -/

/-- The bar that is derived for a bucket, if it has minutes. -/
def barAt (w : SessionWindow) (minutes : List Candle) (k : BucketKey) : Option Candle :=
  if h : Table.dict Candle.ts (minutesIn w minutes k) ≠ [] then
    some (Bucket.fold w k.2.1 ⟨k.2.2, Table.dict Candle.ts (minutesIn w minutes k), h⟩)
  else none

/-- What a derived bar of the bucket is told apart by. -/
def BucketKey.identity (k : BucketKey) : String × Timeframe × Timestamp :=
  (k.1, k.2.1.timeframe, k.2.2)

theorem barAt_eq_some : barAt w minutes k = some b ↔ ∃ g : BucketGroup,
    g.bucket.bars = Table.dict Candle.ts (minutesIn w minutes g.key) ∧ g.key = k ∧
      b = g.candle w := by
  unfold barAt
  constructor
  · intro h
    split at h
    · rename_i hne
      exact ⟨⟨k.1, k.2.1, ⟨k.2.2, _, hne⟩⟩, rfl, rfl, (Option.some.inj h).symm⟩
    · cases h
  · rintro ⟨g, hbars, rfl, rfl⟩
    have hne : Table.dict Candle.ts (minutesIn w minutes g.key) ≠ [] := hbars ▸ g.bucket.filled
    rw [dif_pos hne, BucketGroup.candle]
    congr 2
    exact Bucket.ext_of_bars rfl hbars.symm

theorem identity_of_barAt (h : barAt w minutes k = some b) : b.identity = k.identity := by
  obtain ⟨g, hbars, rfl, rfl⟩ := barAt_eq_some.1 h
  have hhead : g.bucket.ordered.head g.bucket.ordered_ne_nil ∈ minutesIn w minutes g.key := by
    have hin : g.bucket.ordered.head g.bucket.ordered_ne_nil ∈
        Table.dict Candle.ts (minutesIn w minutes g.key) := by
      rw [← hbars]
      exact (List.perm_insertionSort _ _).mem_iff.mp (List.head_mem _)
    exact Table.mem_of_mem_dict hin
  have hinst := (of_decide_eq_true (List.mem_filter.mp hhead).2).1
  simp only [Candle.identity, BucketGroup.candle, Bucket.fold, Candle.combine, BucketKey.identity]
  rw [hinst]
  rfl

/-- A bucket with minutes has a bar. -/
theorem exists_barAt (hc : c ∈ minutesIn w minutes k) : ∃ b, barAt w minutes k = some b := by
  have hkey : c.ts ∈ (Table.dict Candle.ts (minutesIn w minutes k)).map Candle.ts :=
    Table.mem_map_key_dict.mpr (List.mem_map_of_mem hc)
  have hne : Table.dict Candle.ts (minutesIn w minutes k) ≠ [] := by
    intro hnil
    rw [hnil] at hkey
    cases hkey
  exact ⟨_, dif_pos hne⟩

/-- A bucket with a bar has minutes. -/
theorem exists_minutesIn (h : barAt w minutes k = some b) : ∃ c, c ∈ minutesIn w minutes k := by
  obtain ⟨g, hbars, rfl, -⟩ := barAt_eq_some.1 h
  obtain ⟨c, hc⟩ := List.exists_mem_of_ne_nil _ g.bucket.filled
  exact ⟨c, Table.mem_of_mem_dict (hbars ▸ hc)⟩

/-- **Derived bars bucket by bucket.** -/
theorem derived_iff_barAt : Derived w minutes b ∧ b.identity = k.identity ↔
    barAt w minutes k = some b := by
  constructor
  · rintro ⟨⟨g, hbars, rfl⟩, hkey⟩
    have hbar : barAt w minutes g.key = some (g.candle w) := barAt_eq_some.2 ⟨g, hbars, rfl, rfl⟩
    have hident := (identity_of_barAt hbar).symm.trans hkey
    simp only [BucketKey.identity, Prod.mk.injEq] at hident
    obtain ⟨hinst, htf, hstart⟩ := hident
    have : g.key = k := Prod.ext hinst (Prod.ext (DerivedTimeframe.timeframe_inj htf) hstart)
    rwa [this] at hbar
  · intro h
    refine ⟨?_, identity_of_barAt h⟩
    obtain ⟨g, hbars, -, rfl⟩ := barAt_eq_some.1 h
    exact ⟨g, hbars, rfl⟩

/-- Bars of distinct minutes fold alike in any order. -/
theorem Bucket.fold_congr {tf : DerivedTimeframe} {x y : Bucket} (hstart : x.start = y.start)
    (hx : (x.bars.map (·.ts)).Nodup) (hperm : x.bars.Perm y.bars) :
    x.fold w tf = y.fold w tf := by
  have hstrict : ∀ z : Bucket, (z.bars.map (·.ts)).Nodup → z.ordered.Pairwise fun a b => a.ts < b.ts := by
    intro z hz
    have hsorted : z.ordered.Pairwise fun a b => a.ts ≤ b.ts := List.pairwise_insertionSort _ _
    have hne : z.ordered.Pairwise fun a b => a.ts ≠ b.ts := by
      have := (List.perm_insertionSort (fun a b : Candle => a.ts ≤ b.ts) z.bars).map Candle.ts
      exact List.pairwise_map.mp (this.nodup_iff.mpr hz)
    exact hsorted.imp₂ (fun _ _ hle hne => lt_of_le_of_ne hle hne) hne
  have hordered : x.ordered = y.ordered := by
    have hy : (y.bars.map (·.ts)).Nodup := (hperm.map _).nodup_iff.mp hx
    refine List.Perm.eq_of_pairwise (fun a b _ _ hab hba => absurd hab hba.asymm) (hstrict x hx)
      (hstrict y hy) ?_
    exact ((List.perm_insertionSort _ _).trans hperm).trans (List.perm_insertionSort _ _).symm
  simp only [Bucket.fold, hstart, hordered]

/-- Two series with the same last bar of each minute of a bucket give it the
same bar. -/
theorem barAt_congr {minutes' : List Candle} (h : ∀ t,
    Table.latest Candle.ts t (minutesIn w minutes k) =
      Table.latest Candle.ts t (minutesIn w minutes' k)) : barAt w minutes k = barAt w minutes' k := by
  have hnodup (m : List Candle) : ((Table.dict Candle.ts m).map (·.ts)).Nodup := Table.nodup_dict
  have hmem (m : List Candle) (c : Candle) :
      c ∈ Table.dict Candle.ts m ↔ Table.latest Candle.ts c.ts m = some c := by
    rw [← Table.lookup_dict]
    exact ⟨fun hc => Table.lookup_of_mem (hnodup m) hc, Table.mem_of_lookup⟩
  have hperm : (Table.dict Candle.ts (minutesIn w minutes k)).Perm
      (Table.dict Candle.ts (minutesIn w minutes' k)) :=
    (List.perm_ext_iff_of_nodup (hnodup _).of_map (hnodup _).of_map).mpr fun c => by
      rw [hmem, hmem, h]
  unfold barAt
  by_cases hne : Table.dict Candle.ts (minutesIn w minutes k) = []
  · rw [hne] at hperm
    rw [dif_neg (not_not.mpr hne), dif_neg (not_not.mpr (List.nil_perm.mp hperm))]
  · have hne' : Table.dict Candle.ts (minutesIn w minutes' k) ≠ [] := fun hnil =>
      hne (List.perm_nil.mp (hnil ▸ hperm))
    rw [dif_pos hne, dif_pos hne']
    exact congrArg some (Bucket.fold_congr rfl (hnodup _) hperm)

/-- The last bar of a minute of a bucket is the last of that minute. -/
theorem latest_minutesIn (hm1 : ∀ c ∈ minutes, c.timeframe = .m1) (t : Timestamp) :
    Table.latest Candle.ts t (minutesIn w minutes k) =
      if BucketRule.start w k.2.1 t = k.2.2 then
        Table.latest Candle.identity (k.1, .m1, t) minutes
      else none := by
  rw [Table.latest, Table.latest, minutesIn, ← List.filter_reverse, List.find?_filter]
  have hm1' : ∀ c ∈ minutes.reverse, c.timeframe = .m1 := fun c hc => hm1 c (List.mem_reverse.mp hc)
  by_cases hin : BucketRule.start w k.2.1 t = k.2.2
  · rw [if_pos hin]
    refine List.find?_congr fun c hc => ?_
    refine decide_eq_decide.mpr ?_
    simp only [decide_eq_true_eq, Candle.identity, Prod.mk.injEq, hm1' c hc, true_and]
    constructor
    · rintro ⟨⟨hinst, -⟩, rfl⟩
      exact ⟨hinst, rfl⟩
    · rintro ⟨hinst, rfl⟩
      exact ⟨⟨hinst, hin⟩, rfl⟩
  · rw [if_neg hin, List.find?_eq_none]
    intro c _ hc
    simp only [Bool.decide_and, Bool.and_eq_true, decide_eq_true_eq] at hc
    exact hin (hc.2 ▸ hc.1.2)

end Emporos
