import Emporos.Common.Eras
import Emporos.Instruments.Store
import Mathlib.Data.Set.List
import Mathlib.Tactic.Push
/-!
# The history of the master

The records of the store, current and closed, are the rows of a table that
keeps its past: each applied difference supersedes it by the new master
(`Superseded.eras`), whichever of the two write paths it takes. So what
`Era.Recorded` says of such tables holds of the store after any sequence of
syncs.

The moments of the records are whole milliseconds. A sync is in force from
the millisecond it was applied in, also at moments of that millisecond
before it.
-/

namespace Emporos

theorem Timestamp.millis_mono {s t : Timestamp} (h : s ≤ t) : s.millis ≤ t.millis := by
  simp only [millis, Timestamp] at *
  omega

namespace Instruments

open InstrumentRecordMapper

namespace MasterStore

/-! ## What holds of every store -/

/-- The records are of instruments, read back as they are, under ids of
their own. -/
structure WellFormed (s : MasterStore) : Prop where
  records : ∀ r ∈ s.instruments, ∃ i f, r = toRecord i f
  kept : ∀ r ∈ s.instruments, r.stored = r
  versions : ∀ v ∈ s.versions, ∃ i f t, v = toClosedVersion (toRecord i f) t
  ids : (s.instruments.map (·.id)).Nodup
  keys : (s.versions.map (·.key)).Nodup

/-- The instrument is in the current master. -/
def Lists (s : MasterStore) (i : Instrument) : Prop := ∃ f, toRecord i f ∈ s.instruments

/-- The records as rows in force, by instrument id. -/
def eras (s : MasterStore) : Set (Era String Instrument Timestamp) :=
  { e | e.key = e.value.instrumentId ∧
    ((e.stop = none ∧ toRecord e.value e.start ∈ s.instruments) ∨
      ∃ t, e.stop = some t ∧ toClosedVersion (toRecord e.value e.start) t ∈ s.versions) }

/-- A master as content by instrument id. -/
def content (master : List Instrument) (id : String) : Option Instrument :=
  Table.lookup Instrument.instrumentId id master

variable {s s' : MasterStore} {i j : Instrument} {f t now : Timestamp}
  {current new : List Instrument}

theorem content_eq_some (hnew : (new.map (·.instrumentId)).Nodup) {id : String} :
    content new id = some i ↔ i ∈ new ∧ i.instrumentId = id := by
  constructor
  · exact fun h => ⟨Table.mem_of_lookup h, Table.key_of_lookup h⟩
  · rintro ⟨hi, rfl⟩
    exact Table.lookup_of_mem hnew hi

namespace WellFormed

theorem empty : WellFormed .empty where
  records := by simp [MasterStore.empty]
  kept := by simp [MasterStore.empty]
  versions := by simp [MasterStore.empty]
  ids := List.nodup_nil
  keys := List.nodup_nil

/-- The current records, by their instruments and starts. -/
theorem exists_live (h : s.WellFormed) : ∃ live : List (Instrument × Timestamp),
    live.map (fun p => toRecord p.1 p.2) = s.instruments := by
  have hrange : s.instruments ∈ Set.range (List.map fun p : Instrument × Timestamp =>
      toRecord p.1 p.2) := by
    rw [Set.range_list_map]
    intro r hr
    obtain ⟨i, f, rfl⟩ := h.records r hr
    exact ⟨(i, f), rfl⟩
  exact hrange

/-- The closed records, by their instruments, starts and ends. -/
theorem exists_closed (h : s.WellFormed) : ∃ closed : List (Instrument × Timestamp × Timestamp),
    closed.map (fun p => toClosedVersion (toRecord p.1 p.2.1) p.2.2) = s.versions := by
  have hrange : s.versions ∈ Set.range (List.map fun p : Instrument × Timestamp × Timestamp =>
      toClosedVersion (toRecord p.1 p.2.1) p.2.2) := by
    rw [Set.range_list_map]
    intro v hv
    obtain ⟨i, f, t, rfl⟩ := h.versions v hv
    exact ⟨(i, f, t), rfl⟩
  exact hrange

/-- The current master can be loaded, and lists what the records are of. -/
theorem loadCurrent (h : s.WellFormed) : ∃ current, s.loadCurrent = .ok current ∧
    current.map (·.instrumentId) = s.instruments.map (·.id) ∧ ∀ i, i ∈ current ↔ s.Lists i := by
  obtain ⟨live, hlive⟩ := h.exists_live
  refine ⟨live.map (·.1), ?_, ?_, fun i => ?_⟩
  · rw [MasterStore.loadCurrent, ← hlive, mapM_eq_ok, List.forall₂_map_left_iff,
      List.forall₂_map_right_iff, List.forall₂_same]
    exact fun p _ => toDomain_toRecord
  · rw [← hlive, List.map_map, List.map_map]
    rfl
  · simp only [Lists, ← hlive, List.mem_map]
    constructor
    · rintro ⟨p, hp, rfl⟩
      exact ⟨p.2, p, hp, rfl⟩
    · rintro ⟨f, p, hp, hrecord⟩
      exact ⟨p, hp, (toRecord_inj.mp hrecord).1⟩

/-- The records of one id are one. -/
theorem eq_of_id (h : s.WellFormed) (hi : toRecord i f ∈ s.instruments)
    (hj : toRecord j t ∈ s.instruments) (hid : i.instrumentId = j.instrumentId) :
    i = j ∧ f = t :=
  toRecord_inj.mp (Table.eq_of_key h.ids hi hj hid)

end WellFormed

/-! ## What a write does -/

/-- What becomes of the records when the master is brought to `new`: those
of unchanged instruments stay, the others are closed, and what is new is in
force from now on. -/
structure Superseded (s s' : MasterStore) (new : List Instrument) (now : Timestamp) : Prop where
  records : ∀ i f, toRecord i f ∈ s'.instruments ↔
    (toRecord i f ∈ s.instruments ∧ i ∈ new) ∨ (f = now.millis ∧ i ∈ new ∧ ¬ s.Lists i)
  versions : ∀ i f t, toClosedVersion (toRecord i f) t ∈ s'.versions ↔
    toClosedVersion (toRecord i f) t ∈ s.versions ∨
      (toRecord i f ∈ s.instruments ∧ i ∉ new ∧ t = now.millis)

/-- **The records are superseded as rows are.** -/
theorem Superseded.eras (h : Superseded s s' new now)
    (hnew : (new.map (·.instrumentId)).Nodup) :
    s'.eras = Era.supersede s.eras now.millis (content new) := by
  have hkept : ∀ {e : Era String Instrument Timestamp}, e.key = e.value.instrumentId →
      (e.Kept (content new) ↔ e.value ∈ new) := fun {e} hkey => by
    rw [Era.Kept, content_eq_some hnew]
    exact and_iff_left hkey.symm
  ext ⟨id, i, f, stop⟩
  constructor
  · rintro ⟨hkey, ⟨hlive, hmem⟩ | ⟨t, hstop, hmem⟩⟩
    · obtain rfl : stop = none := hlive
      obtain rfl : id = i.instrumentId := hkey
      rcases (h.records i f).mp hmem with ⟨hold, hi⟩ | ⟨rfl, hi, hnone⟩
      · exact .kept ⟨rfl, .inl ⟨rfl, hold⟩⟩ rfl ((hkept rfl).mpr hi)
      · refine .opened ((content_eq_some hnew).mpr ⟨hi, rfl⟩) ?_
        rintro e ⟨-, ⟨-, he⟩ | ⟨t, hstop, -⟩⟩ hlive - rfl
        · exact hnone ⟨_, he⟩
        · rw [hlive] at hstop
          cases hstop
    · obtain rfl : stop = some t := hstop
      obtain rfl : id = i.instrumentId := hkey
      rcases (h.versions i f t).mp hmem with hold | ⟨hlive, hi, rfl⟩
      · exact .past ⟨rfl, .inr ⟨t, rfl, hold⟩⟩ (by simp)
      · exact Era.Supersede.closed (e := ⟨i.instrumentId, i, f, none⟩) ⟨rfl, .inl ⟨rfl, hlive⟩⟩ rfl
          fun hsame => hi ((hkept rfl).mp hsame)
  · intro he
    cases he with
    | past mem closed =>
        obtain ⟨hkey, ⟨hlive, -⟩ | ⟨t, hstop, hmem⟩⟩ := mem
        · exact absurd hlive closed
        · exact ⟨hkey, .inr ⟨t, hstop, (h.versions _ _ _).mpr (.inl hmem)⟩⟩
    | kept mem live same =>
        obtain ⟨hkey, ⟨hlive, hmem⟩ | ⟨t, hstop, -⟩⟩ := mem
        · exact ⟨hkey, .inl ⟨hlive, (h.records _ _).mpr (.inl ⟨hmem, (hkept hkey).mp same⟩)⟩⟩
        · cases live.symm.trans hstop
    | @closed e mem live other =>
        obtain ⟨hkey, ⟨hlive, hmem⟩ | ⟨t, hstop, -⟩⟩ := mem
        · exact ⟨hkey, .inr ⟨_, rfl, (h.versions _ _ _).mpr
            (.inr ⟨hmem, fun hi => other ((hkept hkey).mpr hi), rfl⟩)⟩⟩
        · cases live.symm.trans hstop
    | opened has new =>
        obtain ⟨hi, hid⟩ := (content_eq_some hnew).mp has
        refine ⟨hid.symm, .inl ⟨rfl, (h.records _ _).mpr (.inr ⟨rfl, hi, ?_⟩)⟩⟩
        rintro ⟨f, hf⟩
        exact new ⟨id, i, f, none⟩ ⟨hid.symm, .inl ⟨rfl, hf⟩⟩ rfl rfl rfl

/-! ## The two write paths -/

/-- Rows inserted one by one, each refused where the table has its key, are
there at the end under keys of their own. -/
theorem insert_ok {ρ κ : Type} {key : ρ → κ} {stored : ρ → ρ}
    {insert : List ρ → ρ → Except PyError (List ρ)}
    (hinsert : ∀ rows r rows', insert rows r = .ok rows' →
      rows' = rows ++ [stored r] ∧ ∀ x ∈ rows, key x ≠ key (stored r))
    {new rows rows' : List ρ} (h : new.foldlM insert rows = .ok rows')
    (hnd : (rows.map key).Nodup) :
    rows' = rows ++ new.map stored ∧ (rows'.map key).Nodup := by
  induction new generalizing rows with
  | nil =>
      cases h
      exact ⟨by simp, hnd⟩
  | cons r new ih =>
      rw [List.foldlM_cons] at h
      obtain ⟨rows₁, hr, h⟩ := exists_of_bind h
      obtain ⟨rfl, hfresh⟩ := hinsert rows r rows₁ hr
      have hnd₁ : ((rows ++ [stored r]).map key).Nodup := by
        rw [List.map_append, List.nodup_append]
        refine ⟨hnd, by simp, ?_⟩
        rintro a ha b hb rfl
        obtain ⟨x, hx, hxa⟩ := List.mem_map.mp ha
        rw [List.map_singleton, List.mem_singleton] at hb
        exact hfresh x hx (hxa.trans hb)
      obtain ⟨heq, hnd'⟩ := ih h hnd₁
      exact ⟨by rw [heq]; simp, hnd'⟩

theorem insertRecords_ok {rows new rows' : List InstrumentRecord}
    (h : insertRecords rows new = .ok rows') (hnd : (rows.map (·.id)).Nodup) :
    rows' = rows ++ new.map (·.stored) ∧ (rows'.map (·.id)).Nodup := by
  refine insert_ok (fun rows r rows' hr => ?_) h hnd
  split at hr
  case isTrue => cases hr
  case isFalse hid =>
    split at hr
    case isTrue => cases hr
    case isFalse =>
      cases hr
      exact ⟨rfl, fun x hx hxr => hid ⟨x, hx, hxr⟩⟩

theorem insertVersions_ok {rows new rows' : List InstrumentVersionRecord}
    (h : insertVersions rows new = .ok rows') (hnd : (rows.map (·.key)).Nodup) :
    rows' = rows ++ new.map (·.stored) ∧ (rows'.map (·.key)).Nodup := by
  refine insert_ok (fun rows v rows' hv => ?_) h hnd
  split at hv
  case isTrue => cases hv
  case isFalse hkey =>
    cases hv
    exact ⟨rfl, fun x hx hxv => hkey ⟨x, hx, hxv⟩⟩

/-- What the store has loaded is compared with the new master. -/
structure Compared (s : MasterStore) (current new : List Instrument) : Prop where
  wellFormed : s.WellFormed
  ids : current.map (·.instrumentId) = s.instruments.map (·.id)
  lists : ∀ i, i ∈ current ↔ s.Lists i
  nodup : (new.map (·.instrumentId)).Nodup

namespace Compared

open InstrumentDiffer

variable {c : InstrumentChange}

theorem nodup_current (h : s.Compared current new) : (current.map (·.instrumentId)).Nodup := by
  rw [h.ids]
  exact h.wellFormed.ids

theorem mem_added (h : s.Compared current new) : i ∈ (diff current new).added ↔
    i ∈ new ∧ i.instrumentId ∉ s.instruments.map (·.id) := by
  rw [mem_diff_added h.nodup, h.ids]

theorem mem_removed (h : s.Compared current new) : i ∈ (diff current new).removed ↔
    s.Lists i ∧ i.instrumentId ∉ new.map (·.instrumentId) := by
  rw [mem_diff_removed h.nodup_current, h.lists]

theorem mem_changed (h : s.Compared current new) : c ∈ (diff current new).changed ↔
    s.Lists c.before ∧ c.after ∈ new ∧ c.before.instrumentId = c.after.instrumentId ∧
      c.before ≠ c.after := by
  rw [mem_diff_changed h.nodup_current h.nodup, h.lists]

theorem eq_of_mem_new (h : s.Compared current new) (hi : i ∈ new) (hj : j ∈ new)
    (hid : i.instrumentId = j.instrumentId) : i = j :=
  Table.eq_of_key h.nodup hi hj hid

theorem eq_of_lists (h : s.Compared current new) (hi : s.Lists i) (hj : s.Lists j)
    (hid : i.instrumentId = j.instrumentId) : i = j := by
  obtain ⟨f, hf⟩ := hi
  obtain ⟨t, ht⟩ := hj
  exact (h.wellFormed.eq_of_id hf ht hid).1

/-- A listed id is that of a listed instrument. -/
theorem exists_lists (h : s.Compared current new) {id : String}
    (hid : id ∈ s.instruments.map (·.id)) : ∃ i, s.Lists i ∧ i.instrumentId = id := by
  obtain ⟨r, hr, rfl⟩ := List.mem_map.mp hid
  obtain ⟨i, f, rfl⟩ := h.wellFormed.records r hr
  exact ⟨i, ⟨f, hr⟩, rfl⟩

theorem id_mem_of_lists (hi : s.Lists i) : i.instrumentId ∈ s.instruments.map (·.id) := by
  obtain ⟨f, hf⟩ := hi
  exact List.mem_map_of_mem (f := InstrumentRecord.id) hf

/-- **A listed instrument the new master does not have was changed or
removed.** -/
theorem not_mem_new_iff (h : s.Compared current new) (hi : s.Lists i) : i ∉ new ↔
    (∃ c ∈ (diff current new).changed, c.before = i) ∨ i ∈ (diff current new).removed := by
  constructor
  · intro hnew
    by_cases hid : i.instrumentId ∈ new.map (·.instrumentId)
    · obtain ⟨j, hj, hji⟩ := List.mem_map.mp hid
      exact .inl ⟨⟨i, j⟩, h.mem_changed.2 ⟨hi, hj, hji.symm,
        fun (hij : i = j) => hnew (hij ▸ hj)⟩, rfl⟩
    · exact .inr (h.mem_removed.2 ⟨hi, hid⟩)
  · rintro (⟨c, hc, rfl⟩ | hremoved) hnew
    · obtain ⟨-, hafter, hid, hne⟩ := h.mem_changed.1 hc
      exact hne (h.eq_of_mem_new hnew hafter hid)
    · exact (h.mem_removed.1 hremoved).2 (List.mem_map_of_mem hnew)

/-- An instrument of the new master that is not listed was added, or is
what another one was changed to. -/
theorem not_lists_iff (h : s.Compared current new) (hi : i ∈ new) : ¬ s.Lists i ↔
    (∃ c ∈ (diff current new).changed, c.after = i) ∨ i ∈ (diff current new).added := by
  constructor
  · intro hlists
    by_cases hid : i.instrumentId ∈ s.instruments.map (·.id)
    · obtain ⟨j, hj, hji⟩ := h.exists_lists hid
      exact .inl ⟨⟨j, i⟩, h.mem_changed.2 ⟨hj, hi, hji,
        fun (hij : j = i) => hlists (hij ▸ hj)⟩, rfl⟩
    · exact .inr (h.mem_added.2 ⟨hi, hid⟩)
  · rintro (⟨c, hc, rfl⟩ | hadded) hlists
    · obtain ⟨hbefore, -, hid, hne⟩ := h.mem_changed.1 hc
      exact hne (h.eq_of_lists hbefore hlists hid)
    · exact (h.mem_added.1 hadded).2 (id_mem_of_lists hlists)

/-- No difference leaves nothing to write. -/
theorem superseded_of_isEmpty (h : s.Compared current new)
    (hempty : (diff current new).isEmpty) : s.Superseded s new now := by
  simp only [InstrumentDiff.isEmpty, Bool.and_eq_true, List.isEmpty_iff] at hempty
  obtain ⟨⟨hadded, hchanged⟩, hremoved⟩ := hempty
  have hold : ∀ {i}, s.Lists i → i ∈ new := fun {i} hi => by
    by_contra hnew
    have := (h.not_mem_new_iff hi).mp hnew
    simp [hchanged, hremoved] at this
  have hnone : ∀ {i}, i ∈ new → s.Lists i := fun {i} hi => by
    by_contra hlists
    have := (h.not_lists_iff hi).mp hlists
    simp [hchanged, hadded] at this
  constructor
  · intro i f
    constructor
    · exact fun hf => .inl ⟨hf, hold ⟨f, hf⟩⟩
    · rintro (⟨hf, -⟩ | ⟨-, hi, hlists⟩)
      · exact hf
      · exact absurd (hnone hi) hlists
  · intro i f t
    constructor
    · exact .inl
    · rintro (hv | ⟨hf, hnew, -⟩)
      · exact hv
      · exact absurd (hold ⟨f, hf⟩) hnew

theorem isEmpty_of_same (h : s.Compared current new) (hsame : ∀ i, i ∈ new ↔ s.Lists i) :
    (diff current new).isEmpty := by
  simp only [InstrumentDiff.isEmpty, Bool.and_eq_true, List.isEmpty_iff]
  refine ⟨⟨?_, ?_⟩, ?_⟩
  · refine List.eq_nil_iff_forall_not_mem.mpr fun i hi => ?_
    have hnew := (h.mem_added.1 hi).1
    exact (h.not_lists_iff hnew).mpr (.inr hi) ((hsame i).mp hnew)
  · refine List.eq_nil_iff_forall_not_mem.mpr fun c hc => ?_
    obtain ⟨hbefore, -⟩ := h.mem_changed.1 hc
    exact (h.not_mem_new_iff hbefore).mpr (.inl ⟨c, hc, rfl⟩) ((hsame c.before).mpr hbefore)
  · refine List.eq_nil_iff_forall_not_mem.mpr fun i hi => ?_
    have hlists := (h.mem_removed.1 hi).1
    exact (h.not_mem_new_iff hlists).mpr (.inr hi) ((hsame i).mpr hlists)

/-- The first load of an empty master. -/
theorem bulkLoad_superseded (h : s.Compared current new)
    (hnone : s.instruments = []) (hok : s.bulkLoad (diff current new) now = .ok s') :
    s.Superseded s' new now ∧ s'.WellFormed := by
  obtain ⟨rows, hrows, hs'⟩ := exists_of_bind hok
  cases hs'
  obtain ⟨rfl, hnd⟩ := insertRecords_ok hrows List.nodup_nil
  have hlists : ∀ i, ¬ s.Lists i := by
    rintro i ⟨f, hf⟩
    rw [hnone] at hf
    cases hf
  have hmem : ∀ r, r ∈ [] ++ ((diff current new).added.map (toRecord · now)).map (·.stored) ↔
      ∃ i ∈ new, toRecord i now.millis = r := by
    intro r
    simp only [List.nil_append, List.map_map, List.mem_map, Function.comp_apply, stored_toRecord]
    refine exists_congr fun i => and_congr_left fun _ => ?_
    rw [h.mem_added, hnone]
    simp
  refine ⟨⟨fun i f => ?_, fun i f t => ?_⟩, ⟨fun r hr => ?_, fun r hr => ?_,
    h.wellFormed.versions, hnd, h.wellFormed.keys⟩⟩
  · rw [hmem, hnone]
    constructor
    · rintro ⟨j, hj, hr⟩
      obtain ⟨rfl, rfl⟩ := toRecord_inj.mp hr
      exact .inr ⟨rfl, hj, hlists j⟩
    · rintro (⟨hf, -⟩ | ⟨rfl, hi, -⟩)
      · cases hf
      · exact ⟨i, hi, rfl⟩
  · rw [hnone]
    simp
  · obtain ⟨i, -, rfl⟩ := (hmem r).mp hr
    exact ⟨i, _, rfl⟩
  · obtain ⟨i, -, rfl⟩ := (hmem r).mp hr
    simp

/-- The records that are closed are those of what the new master does not have. -/
theorem mem_superseded (h : s.Compared current new) : toRecord i f ∈ s.superseded (diff current new) ↔
    toRecord i f ∈ s.instruments ∧ i ∉ new := by
  rw [superseded, List.mem_filter, decide_eq_true_eq, List.mem_append, List.mem_map, List.mem_map]
  refine and_congr_right fun hf => ?_
  rw [h.not_mem_new_iff ⟨f, hf⟩]
  refine or_congr ⟨?_, ?_⟩ ⟨?_, ?_⟩
  · rintro ⟨c, hc, hid⟩
    exact ⟨c, hc, h.eq_of_lists (h.mem_changed.1 hc).1 ⟨f, hf⟩ hid⟩
  · rintro ⟨c, hc, rfl⟩
    exact ⟨c, hc, rfl⟩
  · rintro ⟨j, hj, hid⟩
    exact h.eq_of_lists (h.mem_removed.1 hj).1 ⟨f, hf⟩ hid ▸ hj
  · exact fun hi => ⟨i, hi, rfl⟩

/-- What is not deleted: the instruments whose id the new master has. -/
theorem mem_remaining (h : s.Compared current new) : toRecord i f ∈ s.remaining (diff current new) ↔
    toRecord i f ∈ s.instruments ∧ i.instrumentId ∈ new.map (·.instrumentId) := by
  rw [remaining, List.mem_filter, decide_eq_true_eq]
  refine and_congr_right fun hf => ?_
  constructor
  · intro hkept
    by_contra hid
    exact hkept (List.mem_map.mpr ⟨i, h.mem_removed.2 ⟨⟨f, hf⟩, hid⟩, rfl⟩)
  · rintro hid hremoved
    obtain ⟨j, hj, hji⟩ := List.mem_map.mp hremoved
    exact (h.mem_removed.1 hj).2 (hji ▸ hid)

theorem map_id_replaceChanged {rows : List InstrumentRecord} {d : InstrumentDiff} :
    (replaceChanged rows d now).map (·.id) = rows.map (·.id) := by
  rw [replaceChanged]
  generalize d.changed = changes
  induction changes generalizing rows with
  | nil => rfl
  | cons c changes ih => rw [List.foldl_cons, ih, Table.map_key_replace]

/-- The rows after the changes took the places of others. -/
theorem mem_foldl_changed {r : InstrumentRecord}
    {rows : List InstrumentRecord} :
    r ∈ replaceChanged rows (diff current new) now ↔
    (r ∈ rows ∧ r.id ∉ (diff current new).changed.map (·.after.instrumentId)) ∨
      ((∃ c ∈ (diff current new).changed, toRecord c.after now.millis = r) ∧
        r.id ∈ rows.map (·.id)) := by
  have hfold : replaceChanged rows (diff current new) now =
      ((diff current new).changed.map fun c => toRecord c.after now.millis).foldl
        (fun rows r => Table.replace InstrumentRecord.id r rows) rows := by
    rw [replaceChanged, List.foldl_map]
    rfl
  have hkeys : ((diff current new).changed.map fun c => toRecord c.after now.millis).map (·.id) =
      (diff current new).changed.map (·.after.instrumentId) := by
    rw [List.map_map]
    rfl
  have hnd : (((diff current new).changed.map fun c => toRecord c.after now.millis).map
      (·.id)).Nodup := by
    rw [hkeys]
    exact nodup_diff_changed
  rw [hfold, Table.mem_foldl_replace hnd, hkeys]
  exact or_congr_right (and_congr_left fun _ => List.mem_map)

/-- The records after the changes: what is as it was, and what others were
changed to. -/
theorem mem_replaced (h : s.Compared current new) :
    toRecord i f ∈ replaceChanged (s.remaining (diff current new)) (diff current new) now ↔
    (toRecord i f ∈ s.instruments ∧ i ∈ new) ∨
      (f = now.millis ∧ ∃ c ∈ (diff current new).changed, c.after = i) := by
  rw [mem_foldl_changed, h.mem_remaining]
  constructor
  · rintro (⟨⟨hf, hid⟩, hsame⟩ | ⟨hr, -⟩)
    · -- neither removed nor changed, so as it was
      refine .inl ⟨hf, ?_⟩
      by_contra hi
      rcases (h.not_mem_new_iff ⟨f, hf⟩).mp hi with ⟨c, hc, rfl⟩ | hremoved
      · exact hsame (List.mem_map.mpr ⟨c, hc, (h.mem_changed.1 hc).2.2.1.symm⟩)
      · exact (h.mem_removed.1 hremoved).2 hid
    · obtain ⟨c, hc, hrecord⟩ := hr
      obtain ⟨hafter, hstart⟩ := toRecord_inj.mp hrecord
      exact .inr ⟨hstart.symm, c, hc, hafter⟩
  · rintro (⟨hf, hi⟩ | ⟨rfl, c, hc, rfl⟩)
    · refine .inl ⟨⟨hf, List.mem_map_of_mem hi⟩, fun hmem => ?_⟩
      obtain ⟨c, hc, hid⟩ := List.mem_map.mp hmem
      obtain ⟨hbefore, hafter, hids, hne⟩ := h.mem_changed.1 hc
      have hsame : c.after = i := h.eq_of_mem_new hafter hi hid
      exact hne (h.eq_of_lists hbefore ⟨f, hsame ▸ hf⟩ hids)
    · obtain ⟨⟨f, hf⟩, hafter, hid, -⟩ := h.mem_changed.1 hc
      refine .inr ⟨⟨c, hc, rfl⟩, List.mem_map.mpr ⟨_, h.mem_remaining.2 ⟨hf, ?_⟩, hid⟩⟩
      rw [hid]
      exact List.mem_map_of_mem hafter

/-- A difference written in a transaction. -/
theorem writeIncremental_superseded (h : s.Compared current new)
    (hok : s.writeIncremental (diff current new) now = .ok s') :
    s.Superseded s' new now ∧ s'.WellFormed := by
  obtain ⟨versions, hversions, hok⟩ := exists_of_bind hok
  obtain ⟨instruments, hinstruments, hok⟩ := exists_of_bind hok
  cases hok
  obtain ⟨rfl, hkeys⟩ := insertVersions_ok hversions h.wellFormed.keys
  have hids : ((replaceChanged (s.remaining (diff current new)) (diff current new) now).map
      (·.id)).Nodup := by
    rw [map_id_replaceChanged]
    exact h.wellFormed.ids.sublist (List.filter_sublist.map _)
  obtain ⟨rfl, hids⟩ := insertRecords_ok hinstruments hids
  have hclosed : ∀ v, v ∈ ((s.superseded (diff current new)).map (toClosedVersion · now)).map
      (·.stored) ↔ ∃ i f, toRecord i f ∈ s.instruments ∧ i ∉ new ∧
        v = toClosedVersion (toRecord i f) now.millis := by
    intro v
    simp only [List.map_map, List.mem_map, Function.comp_apply]
    constructor
    · rintro ⟨r, hr, rfl⟩
      obtain ⟨i, f, rfl⟩ := h.wellFormed.records r (List.mem_filter.mp hr).1
      obtain ⟨hf, hi⟩ := h.mem_superseded.1 hr
      have hstored : f.millis = f := (toRecord_inj.mp (h.wellFormed.kept _ hf)).2
      exact ⟨i, f, hf, hi, by rw [stored_toClosedVersion, hstored]⟩
    · rintro ⟨i, f, hf, hi, rfl⟩
      have hstored : f.millis = f := (toRecord_inj.mp (h.wellFormed.kept _ hf)).2
      exact ⟨_, h.mem_superseded.2 ⟨hf, hi⟩, by rw [stored_toClosedVersion, hstored]⟩
  have hadded : ∀ r, r ∈ ((diff current new).added.map (toRecord · now)).map (·.stored) ↔
      ∃ i ∈ (diff current new).added, toRecord i now.millis = r := by
    intro r
    simp only [List.map_map, List.mem_map, Function.comp_apply, stored_toRecord]
  have hreplaced : ∀ r,
      r ∈ replaceChanged (s.remaining (diff current new)) (diff current new) now →
      r ∈ s.instruments ∨ ∃ i, toRecord i now.millis = r := by
    intro r hr
    rcases mem_foldl_changed.1 hr with ⟨hr, -⟩ | ⟨⟨c, -, hr⟩, -⟩
    · exact .inl (List.mem_filter.mp hr).1
    · exact .inr ⟨c.after, hr⟩
  refine ⟨⟨fun i f => ?_, fun i f t => ?_⟩, ⟨fun r hr => ?_, fun r hr => ?_, fun v hv => ?_,
    hids, hkeys⟩⟩
  · rw [List.mem_append, h.mem_replaced, hadded, or_assoc]
    refine or_congr_right ?_
    constructor
    · rintro (⟨rfl, c, hc, rfl⟩ | ⟨j, hj, hr⟩)
      · have hi := (h.mem_changed.1 hc).2.1
        exact ⟨rfl, hi, (h.not_lists_iff hi).mpr (.inl ⟨c, hc, rfl⟩)⟩
      · obtain ⟨rfl, rfl⟩ := toRecord_inj.mp hr
        have hi := (h.mem_added.1 hj).1
        exact ⟨rfl, hi, (h.not_lists_iff hi).mpr (.inr hj)⟩
    · rintro ⟨rfl, hi, hlists⟩
      rcases (h.not_lists_iff hi).mp hlists with hchanged | hj
      · exact .inl ⟨rfl, hchanged⟩
      · exact .inr ⟨i, hj, rfl⟩
  · rw [List.mem_append, hclosed]
    refine or_congr_right ?_
    constructor
    · rintro ⟨j, g, hg, hj, hv⟩
      obtain ⟨rfl, rfl, rfl⟩ := toClosedVersion_inj.mp hv
      exact ⟨hg, hj, rfl⟩
    · rintro ⟨hf, hi, rfl⟩
      exact ⟨i, f, hf, hi, rfl⟩
  · rcases List.mem_append.mp hr with hr | hr
    · rcases hreplaced r hr with hr | ⟨i, rfl⟩
      · exact h.wellFormed.records r hr
      · exact ⟨i, _, rfl⟩
    · obtain ⟨i, -, rfl⟩ := (hadded r).mp hr
      exact ⟨i, _, rfl⟩
  · rcases List.mem_append.mp hr with hr | hr
    · rcases hreplaced r hr with hr | ⟨i, rfl⟩
      · exact h.wellFormed.kept r hr
      · simp
    · obtain ⟨i, -, rfl⟩ := (hadded r).mp hr
      simp
  · rcases List.mem_append.mp hv with hv | hv
    · exact h.wellFormed.versions v hv
    · obtain ⟨i, f, -, -, rfl⟩ := (hclosed v).mp hv
      exact ⟨i, f, _, rfl⟩

/-- **What is applied supersedes**, by whichever path it is written. -/
theorem apply_superseded {fault : Option PyError} (h : s.Compared current new)
    (hok : s.apply (diff current new) now fault = .ok s') :
    s.Superseded s' new now ∧ s'.WellFormed := by
  unfold MasterStore.apply at hok
  split at hok
  case isTrue hempty =>
    cases hok
    exact ⟨h.superseded_of_isEmpty hempty, h.wellFormed⟩
  case isFalse =>
    rcases fault with _ | e
    · change (if _ then _ else _) = _ at hok
      split at hok
      case isTrue hbulk => exact h.bulkLoad_superseded (List.length_eq_zero_iff.mp hbulk.2.2) hok
      case isFalse => exact h.writeIncremental_superseded hok
    · cases hok

end Compared

end MasterStore

/-! ## Runs of syncs -/

/-- The masters the store was brought to, newest first. -/
abbrev MasterLog := List (Timestamp × List Instrument)

/-- The newest master of the log at a moment, where a master counts from
the millisecond of its sync. -/
def MasterLog.masterAt (log : MasterLog) (t : Timestamp) : List Instrument :=
  ((log.find? fun m => m.1.millis ≤ t).map (·.2)).getD []

namespace InstrumentSyncService

variable [DecimalContext] (policy : ValidationPolicy) {Row : Type}
  (parse : Row → Except String Instrument)

/-- The validated master a call meets, if it comes so far. -/
def offered (call : SyncCall Row) (s : MasterStore) : Option (List Instrument) :=
  match call.loadFault, s.loadCurrent, call.download with
  | none, .ok current, .ok rows =>
      (InstrumentMasterValidator.validate policy parse rows current.length).toOption.map
        (·.instruments)
  | _, _, _ => none

/-- The master a call brought the store to, if it succeeded. -/
def accepted (call : SyncCall Row) (w : MasterState) : Option (List Instrument) :=
  match (run policy parse call w).1 with
  | .ok outcome => if outcome.succeeded then offered policy parse call w.store else none
  | .error _ => none

/-- One sync after others, with the log of what was accepted. -/
def record (past : MasterState × MasterLog) (call : SyncCall Row) : MasterState × MasterLog :=
  ((run policy parse call past.1).2,
    (accepted policy parse call past.1).toList.map (call.now, ·) ++ past.2)

/-- Syncs in turn from an empty store. -/
def syncs (calls : List (SyncCall Row)) : MasterState × MasterLog :=
  calls.foldl (record policy parse) (⟨.empty, []⟩, [])

variable {policy parse} {call : SyncCall Row} {w : MasterState}

/-- What a call does, with what it met. -/
theorem run_of_offered {current master : List Instrument}
    (hload : w.store.loadCurrent = .ok current)
    (hoffered : offered policy parse call w.store = some master) :
    ∃ validated : ValidatedMaster, validated.instruments = master ∧
      (master.map (·.instrumentId)).Nodup ∧
      run policy parse call w = swap { w with cache := current } current validated call := by
  rw [offered, hload] at hoffered
  rcases hfault : call.loadFault with _ | e
  · rcases hdownload : call.download with e | rows
    · simp [hfault, hdownload] at hoffered
    · rcases hvalid : InstrumentMasterValidator.validate policy parse rows current.length with
        reasons | validated
      · simp [hfault, hdownload, hvalid, Except.toOption] at hoffered
      · simp only [hfault, hdownload, hvalid, Except.toOption, Option.map_some,
          Option.some.injEq] at hoffered
        subst hoffered
        refine ⟨validated, rfl,
          InstrumentMasterValidator.nodup_of_validate policy parse hvalid, ?_⟩
        simp only [run, hfault, hload, hdownload, hvalid]
  · simp [hfault] at hoffered

/-- A call that meets no validated master writes nothing and accepts nothing. -/
theorem run_of_not_offered (hoffered : offered policy parse call w.store = none) :
    accepted policy parse call w = none ∧ (run policy parse call w).2.store = w.store := by
  constructor
  · rw [accepted]
    split
    · split <;> simp [hoffered]
    · rfl
  · rw [offered] at hoffered
    unfold run
    rcases hfault : call.loadFault with _ | e
    · rcases hload : w.store.loadCurrent with e | current
      · rfl
      · rcases hdownload : call.download with (_ | e) | rows
        · rfl
        · rfl
        · rcases hvalid : InstrumentMasterValidator.validate policy parse rows current.length with
            reasons | validated
          · simp [hvalid]
          · simp [hfault, hload, hdownload, hvalid, Except.toOption] at hoffered
    · rfl

/-- **What a sync does**: it is accepted and supersedes the store by its
master, or it leaves the store as it was. -/
theorem run_spec (h : w.store.WellFormed) :
    (accepted policy parse call w = none ∧ (run policy parse call w).2.store = w.store) ∨
    ∃ master, accepted policy parse call w = some master ∧
      (master.map (·.instrumentId)).Nodup ∧
      w.store.Superseded (run policy parse call w).2.store master call.now ∧
      (run policy parse call w).2.store.WellFormed := by
  rcases hoffered : offered policy parse call w.store with _ | master
  · exact .inl (run_of_not_offered hoffered)
  obtain ⟨current, hload, hids, hlists⟩ := h.loadCurrent
  obtain ⟨validated, rfl, hnd, hrun⟩ := run_of_offered hload hoffered
  have hcompared : w.store.Compared current validated.instruments := ⟨h, hids, hlists, hnd⟩
  by_cases hempty : (InstrumentDiffer.diff current validated.instruments).isEmpty
  · have hswap : run policy parse call w = (.ok .noChange, { w with cache := current }) := by
      rw [hrun, swap, if_pos hempty]
    refine .inr ⟨validated.instruments, ?_, hnd, ?_, ?_⟩
    · simp [accepted, hswap, SyncOutcome.succeeded, hoffered]
    · rw [hswap]
      exact hcompared.superseded_of_isEmpty hempty
    · rw [hswap]
      exact h
  · rcases happly : w.store.apply (InstrumentDiffer.diff current validated.instruments) call.now
        call.writeFault with e | store
    · have hswap : run policy parse call w = (.error e, { w with cache := current }) := by
        rw [hrun, swap, if_neg hempty]
        simp only [happly]
      exact .inl ⟨by simp [accepted, hswap], by rw [hswap]⟩
    · have hswap : run policy parse call w = (.ok .applied, ⟨store, validated.instruments⟩) := by
        rw [hrun, swap, if_neg hempty]
        simp only [happly]
      obtain ⟨hsuperseded, hwell⟩ := hcompared.apply_superseded happly
      refine .inr ⟨validated.instruments, ?_, hnd, ?_, ?_⟩
      · simp [accepted, hswap, SyncOutcome.succeeded, hoffered]
      · rw [hswap]
        exact hsuperseded
      · rw [hswap]
        exact hwell

/-- A failed sync leaves the store as it was. -/
theorem store_of_not_accepted (h : w.store.WellFormed)
    (hnone : accepted policy parse call w = none) : (run policy parse call w).2.store = w.store := by
  rcases run_spec h with ⟨-, hstore⟩ | ⟨master, hsome, -⟩
  · exact hstore
  · rw [hnone] at hsome
    cases hsome

/-- The current master synced again changes nothing. -/
theorem run_of_same {master : List Instrument} (h : w.store.WellFormed)
    (hoffered : offered policy parse call w.store = some master)
    (hsame : ∀ i, i ∈ master ↔ w.store.Lists i) :
    (run policy parse call w).1 = .ok .noChange ∧
      (run policy parse call w).2.store = w.store := by
  obtain ⟨current, hload, hids, hlists⟩ := h.loadCurrent
  obtain ⟨validated, rfl, hnd, hrun⟩ := run_of_offered hload hoffered
  have hcompared : w.store.Compared current validated.instruments := ⟨h, hids, hlists, hnd⟩
  have hempty : (InstrumentDiffer.diff current validated.instruments).isEmpty :=
    hcompared.isEmpty_of_same hsame
  rw [hrun, swap, if_pos hempty]
  exact ⟨rfl, rfl⟩

end InstrumentSyncService

/-! ## The history -/

/-- The rows of the store and its log. -/
structure Kept (s : MasterStore) (log : MasterLog) : Prop where
  wellFormed : s.WellFormed
  recorded : Era.Recorded s.eras (log.map fun m => (m.1.millis, MasterStore.content m.2))
  nodup : ∀ m ∈ log, (m.2.map (·.instrumentId)).Nodup

/-- **The store reconstructs every master of the log**: the rows of an
instrument are disjoint intervals that go forward in time, one ends where
another starts unless the master of that moment does not list the
instrument, and the records in force at a moment are exactly the newest
master of that moment. -/
structure Reconstructs (s : MasterStore) (log : MasterLog) : Prop where
  forward : ∀ e ∈ s.eras, ∀ t, e.stop = some t → e.start ≤ t
  disjoint : ∀ e ∈ s.eras, ∀ f ∈ s.eras, e.key = f.key → e ≠ f → e.Before f ∨ f.Before e
  contiguous : ∀ e ∈ s.eras, ∀ t, e.stop = some t →
    (∃ f ∈ s.eras, f.key = e.key ∧ f.start = t) ∨
      ∃ m ∈ log, m.1.millis = t ∧ ∀ i ∈ m.2, i.instrumentId ≠ e.key
  asOf : ∀ t, ∃ master, s.validAt t = .ok master ∧ master.Perm (log.masterAt t)

namespace Kept

open MasterStore InstrumentSyncService

variable [DecimalContext] {policy : ValidationPolicy} {Row : Type}
  {parse : Row → Except String Instrument} {s : MasterStore} {log : MasterLog}

omit [DecimalContext] in
theorem empty : Kept .empty [] where
  wellFormed := .empty
  recorded := by
    have hnone : MasterStore.empty.eras = ∅ := by
      ext e
      simp [MasterStore.eras, MasterStore.empty]
    rw [hnone]
    exact .empty
  nodup := by simp

/-- One sync keeps the history. -/
theorem record {past : MasterState × MasterLog} {call : SyncCall Row}
    (h : Kept past.1.store past.2) (hlater : ∀ m ∈ past.2, m.1 ≤ call.now) :
    Kept (InstrumentSyncService.record policy parse past call).1.store
      (InstrumentSyncService.record policy parse past call).2 := by
  rcases @run_spec _ policy Row parse call _ h.wellFormed with
    ⟨hnone, hstore⟩ | ⟨master, hsome, hnd, hsuperseded, hwell⟩
  · simp only [InstrumentSyncService.record, hnone, hstore]
    exact h
  · simp only [InstrumentSyncService.record, hsome, Option.toList_some, List.map_cons,
      List.map_nil, List.singleton_append]
    refine ⟨hwell, ?_, ?_⟩
    · rw [hsuperseded.eras hnd]
      refine .step h.recorded fun step hstep => ?_
      obtain ⟨m, hm, rfl⟩ := List.mem_map.mp hstep
      exact Timestamp.millis_mono (hlater m hm)
    · intro m hm
      rcases List.mem_cons.mp hm with rfl | hm
      · exact hnd
      · exact h.nodup m hm

/-- **Every sequence of syncs keeps the history.** -/
theorem foldl {calls : List (SyncCall Row)} {past : MasterState × MasterLog}
    (h : Kept past.1.store past.2) (hordered : calls.Pairwise fun a b => a.now ≤ b.now)
    (hlater : ∀ m ∈ past.2, ∀ call ∈ calls, m.1 ≤ call.now) :
    Kept (calls.foldl (InstrumentSyncService.record policy parse) past).1.store
      (calls.foldl (InstrumentSyncService.record policy parse) past).2 := by
  induction calls generalizing past with
  | nil => exact h
  | cons call calls ih =>
      obtain ⟨hfirst, hrest⟩ := List.pairwise_cons.mp hordered
      have hnow : ∀ m ∈ past.2, m.1 ≤ call.now := fun m hm =>
        hlater m hm call (List.mem_cons_self ..)
      refine ih (h.record hnow) hrest fun m hm c hc => ?_
      rcases List.mem_append.mp hm with hm | hm
      · obtain ⟨master, -, rfl⟩ := List.mem_map.mp hm
        exact hfirst c hc
      · exact hlater m hm c (List.mem_cons_of_mem _ hc)

omit [DecimalContext] in
theorem contentAt_eq (log : MasterLog) (t : Timestamp) (id : String) :
    Era.contentAt (log.map fun m => (m.1.millis, content m.2)) t id =
      content (log.masterAt t) id := by
  rw [Era.contentAt, MasterLog.masterAt, List.find?_map]
  have hfind : ∀ p q : Timestamp × List Instrument → Bool, (∀ m, p m = q m) →
      ((log.find? p).map fun m => (m.1.millis, content m.2)).bind (fun step => step.2 id) =
        content (((log.find? q).map (·.2)).getD []) id := by
    intro p q hpq
    rw [funext hpq]
    rcases log.find? q with _ | m
    · rfl
    · rfl
  exact hfind _ _ fun m => decide_eq_decide.mpr Iff.rfl

omit [DecimalContext] in
theorem nodup_masterAt (h : Kept s log) (t : Timestamp) :
    ((log.masterAt t).map (·.instrumentId)).Nodup := by
  rw [MasterLog.masterAt]
  rcases hfind : log.find? fun m => decide (m.1.millis ≤ t) with _ | m
  · rw [hfind]
    exact List.nodup_nil
  · rw [hfind]
    exact h.nodup m (List.mem_of_find?_eq_some hfind)

omit [DecimalContext] in
/-- What is in force at a moment is listed by the master of the moment. -/
theorem covers_iff (h : Kept s log) {t : Timestamp} {i : Instrument} :
    (∃ e ∈ s.eras, e.value = i ∧ e.Covers t) ↔ i ∈ log.masterAt t := by
  have hat := h.recorded.mem_at (t := t) (k := i.instrumentId) (v := i)
  rw [contentAt_eq, content_eq_some (h.nodup_masterAt t), and_iff_left rfl] at hat
  rw [← hat]
  constructor
  · rintro ⟨e, he, rfl, hcovers⟩
    exact ⟨e, he, he.1, rfl, hcovers⟩
  · rintro ⟨e, he, -, hvalue, hcovers⟩
    exact ⟨e, he, hvalue, hcovers⟩

omit [DecimalContext] in
/-- **The records in force at a moment are the master of the moment**, each
instrument once. -/
theorem validAt (h : Kept s log) (t : Timestamp) :
    ∃ master, s.validAt t = .ok master ∧ master.Perm (log.masterAt t) := by
  obtain ⟨live, hlive⟩ := h.wellFormed.exists_live
  obtain ⟨closed, hclosed⟩ := h.wellFormed.exists_closed
  let open' := live.filter fun p => p.2 ≤ t
  let past := closed.filter fun p => p.2.1 ≤ t ∧ t < p.2.2
  have hcurrent : (s.instruments.filter fun r => r.validFrom ≤ t).mapM
      InstrumentRecordMapper.toDomain = .ok (open'.map (·.1)) := by
    rw [← hlive, List.filter_map, mapM_eq_ok, List.forall₂_map_left_iff,
      List.forall₂_map_right_iff]
    exact List.forall₂_same.mpr fun p _ => toDomain_toRecord
  have hpast : (s.versions.filter fun v => v.validFrom ≤ t ∧ t < v.validTo).mapM
      InstrumentRecordMapper.versionToDomain = .ok (past.map (·.1)) := by
    rw [← hclosed, List.filter_map, mapM_eq_ok, List.forall₂_map_left_iff,
      List.forall₂_map_right_iff]
    exact List.forall₂_same.mpr fun p _ => versionToDomain_toClosedVersion
  -- each is a row in force at the moment
  have hopen : ∀ p ∈ open', (⟨p.1.instrumentId, p.1, p.2, none⟩ : Era ..) ∈ s.eras ∧
      Era.Covers ⟨p.1.instrumentId, p.1, p.2, none⟩ t := by
    intro p hp
    obtain ⟨hp, hstart⟩ := List.mem_filter.mp hp
    have hmem : toRecord p.1 p.2 ∈ s.instruments := hlive ▸ List.mem_map_of_mem hp
    exact ⟨⟨rfl, .inl ⟨rfl, hmem⟩⟩, by simpa using hstart, by simp⟩
  have hclose : ∀ p ∈ past, (⟨p.1.instrumentId, p.1, p.2.1, some p.2.2⟩ : Era ..) ∈ s.eras ∧
      Era.Covers ⟨p.1.instrumentId, p.1, p.2.1, some p.2.2⟩ t := by
    intro p hp
    obtain ⟨hp, htime⟩ := List.mem_filter.mp hp
    have hmem : toClosedVersion (toRecord p.1 p.2.1) p.2.2 ∈ s.versions :=
      hclosed ▸ List.mem_map_of_mem hp
    rw [decide_eq_true_eq] at htime
    exact ⟨⟨rfl, .inr ⟨_, rfl, hmem⟩⟩, htime.1, fun s hs => Option.some.inj hs ▸ htime.2⟩
  refine ⟨open'.map (·.1) ++ past.map (·.1), ?_, ?_⟩
  · rw [MasterStore.validAt, hcurrent, ok_bind, hpast]
    rfl
  · have hmem : ∀ i, i ∈ open'.map (·.1) ++ past.map (·.1) ↔ i ∈ log.masterAt t := by
      intro i
      rw [← h.covers_iff, List.mem_append, List.mem_map, List.mem_map]
      constructor
      · rintro (⟨p, hp, rfl⟩ | ⟨p, hp, rfl⟩)
        · exact ⟨_, (hopen p hp).1, rfl, (hopen p hp).2⟩
        · exact ⟨_, (hclose p hp).1, rfl, (hclose p hp).2⟩
      · rintro ⟨e, ⟨-, ⟨-, he⟩ | ⟨stop, hstop, he⟩⟩, rfl, hcovers⟩
        · rw [← hlive] at he
          obtain ⟨p, hp, hrecord⟩ := List.mem_map.mp he
          obtain ⟨hvalue, hstart⟩ := toRecord_inj.mp hrecord
          exact .inl ⟨p, List.mem_filter.mpr ⟨hp, by simpa [hstart] using hcovers.1⟩, hvalue⟩
        · rw [← hclosed] at he
          obtain ⟨p, hp, hrecord⟩ := List.mem_map.mp he
          obtain ⟨hvalue, hstart, hend⟩ := toClosedVersion_inj.mp hrecord
          refine .inr ⟨p, List.mem_filter.mpr ⟨hp, ?_⟩, hvalue⟩
          simpa [hstart, hend] using ⟨hcovers.1, hcovers.2 stop hstop⟩
    have hnodup : (open'.map (·.1) ++ past.map (·.1)).Nodup := by
      rw [List.nodup_append]
      refine ⟨?_, ?_, ?_⟩
      · have hids := h.wellFormed.ids
        rw [← hlive, List.map_map] at hids
        have hopenIds : (open'.map fun p => p.1.instrumentId).Nodup :=
          hids.sublist (List.filter_sublist.map _)
        exact .of_map (·.instrumentId) (by rwa [List.map_map])
      · have hkeys := h.wellFormed.keys
        rw [← hclosed, List.map_map] at hkeys
        have hrows : past.Nodup := (List.Nodup.of_map _ hkeys).sublist List.filter_sublist
        refine hrows.map_on fun p hp q hq heq => ?_
        have hsame := h.recorded.eq_of_covers (hclose p hp).1 (hclose q hq).1
          (congrArg Instrument.instrumentId heq) (hclose p hp).2 (hclose q hq).2
        have hstart := congrArg Era.start hsame
        have hstop := Option.some.inj (congrArg Era.stop hsame)
        exact Prod.ext heq (Prod.ext hstart hstop)
      · rintro i hi j hj rfl
        obtain ⟨p, hp, rfl⟩ := List.mem_map.mp hi
        obtain ⟨q, hq, heq⟩ := List.mem_map.mp hj
        have hsame := h.recorded.eq_of_covers (hopen p hp).1 (hclose q hq).1
          (congrArg Instrument.instrumentId heq.symm) (hopen p hp).2 (hclose q hq).2
        cases congrArg Era.stop hsame
    have hmaster : (log.masterAt t).Nodup := .of_map _ (h.nodup_masterAt t)
    exact (List.perm_ext_iff_of_nodup hnodup hmaster).mpr hmem

omit [DecimalContext] in
/-- **What is kept reconstructs.** -/
theorem reconstructs (h : Kept s log) : Reconstructs s log where
  forward _ he _ hstop := h.recorded.start_le_stop he hstop
  disjoint _ he _ hf hkey hne := h.recorded.disjoint he hf hkey hne
  contiguous e he t hstop := by
    rcases h.recorded.contiguous he hstop with hnext | ⟨step, hstep, htime, hgone⟩
    · exact .inl hnext
    · obtain ⟨m, hm, rfl⟩ := List.mem_map.mp hstep
      exact .inr ⟨m, hm, htime, Table.lookup_eq_none.mp hgone⟩
  asOf := h.validAt

end Kept

namespace InstrumentSyncService

open MasterStore

variable [DecimalContext] (policy : ValidationPolicy) {Row : Type}
  (parse : Row → Except String Instrument)

/-- **The history reconstructs every past master.** Of any calls of the
sync in the order of their times, whatever each meets, the store
reconstructs the masters accepted; and of any further call, one that offers
the current master writes nothing, and one that is not accepted leaves the
store as it was. -/
theorem history_reconstructs (calls : List (SyncCall Row))
    (hordered : calls.Pairwise fun a b => a.now ≤ b.now) :
    Reconstructs (syncs policy parse calls).1.store (syncs policy parse calls).2 ∧
    ∀ call : SyncCall Row,
      (∀ master, offered policy parse call (syncs policy parse calls).1.store = some master →
        (∀ i, i ∈ master ↔ (syncs policy parse calls).1.store.Lists i) →
        (run policy parse call (syncs policy parse calls).1).1 = .ok .noChange ∧
        (run policy parse call (syncs policy parse calls).1).2.store =
          (syncs policy parse calls).1.store) ∧
      (accepted policy parse call (syncs policy parse calls).1 = none →
        (run policy parse call (syncs policy parse calls).1).2.store =
          (syncs policy parse calls).1.store) := by
  have hkept : Kept (syncs policy parse calls).1.store (syncs policy parse calls).2 :=
    Kept.empty.foldl hordered (by simp)
  refine ⟨hkept.reconstructs, fun call => ⟨fun master hoffered hsame => ?_, fun hnone => ?_⟩⟩
  · exact run_of_same hkept.wellFormed hoffered hsame
  · exact store_of_not_accepted hkept.wellFormed hnone

end InstrumentSyncService

/-! ## Two syncs of one instrument -/

theorem sample_named : "1" ≠ "" ∧ "ONE-EQ" ≠ "" := by decide

theorem sample_tick_pos : Money.zero < ⟨1 / 20⟩ := by simp [Money.lt_iff, Money.zero]

/-- The instrument `NSE:1` under a name. -/
def sampleInstrument (name : String) : Instrument where
  exchange := .nse
  token := "1"
  tradingsymbol := "ONE-EQ"
  name := name
  lotSize := 1
  tickSize := ⟨1 / 20⟩
  named := sample_named
  lot_pos := Nat.one_pos
  tick_pos := sample_tick_pos

/-- A sync of that instrument alone. -/
def sampleCall (name : String) (now : Timestamp) : SyncCall Instrument where
  loadFault := none
  download := .ok [sampleInstrument name]
  writeFault := none
  now := now

/-- A second sync half a millisecond past a whole one. -/
def sampleSyncs : MasterState × MasterLog :=
  @InstrumentSyncService.syncs Decimal.standard ⟨1, 1, 1⟩ _ Except.ok
    [sampleCall "old" 1000000, sampleCall "new" 2000500]

/-- The newest master of the log at a moment, by the clock itself. -/
def MasterLog.masterBy (log : MasterLog) (t : Timestamp) : List Instrument :=
  ((log.find? fun m => m.1 ≤ t).map (·.2)).getD []

/-- **Not to the microsecond.** Between the millisecond of the second sync
and the sync itself, the last sync is the first one, and the records in
force are already those of the second. -/
theorem within_millisecond :
    (sampleCall "old" 1000000).now ≤ 2000200 ∧ 2000200 < (sampleCall "new" 2000500).now ∧
    sampleSyncs.2.masterBy 2000200 = [sampleInstrument "old"] ∧
    sampleSyncs.1.store.validAt 2000200 = .ok [sampleInstrument "new"] ∧
    ¬ [sampleInstrument "new"].Perm [sampleInstrument "old"] := by
  decide +kernel

/-- Two syncs whose history reconstructs both masters. -/
theorem history_reconstructs_sample :
    Reconstructs sampleSyncs.1.store sampleSyncs.2 ∧ sampleSyncs.2.masterAt 1000000 =
      [sampleInstrument "old"] :=
  ⟨(@InstrumentSyncService.history_reconstructs Decimal.standard ⟨1, 1, 1⟩ _ Except.ok
    [sampleCall "old" 1000000, sampleCall "new" 2000500] (by decide)).1, by decide +kernel⟩

end Instruments

end Emporos
