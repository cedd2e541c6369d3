import Emporos.Persistence.Candles
import Mathlib.Data.List.Find
/-!
# What the two tiers hold

`copy` is the bar a reader finds under a key: the hot copy, or else the
cold one. Each write says in one lemma which copies it moves, and
`getRange` is shown to return, in the order of time, the copies of the
range.
-/

namespace Emporos

open Async CandleTask

/-- The object a key belongs in. -/
def CandleKey.partition (k : CandleKey) : Partition := ⟨k.timeframe, k.instrumentId, k.ts.monthIndex⟩

/-- A moment of whole milliseconds. -/
def Timestamp.Whole (t : Timestamp) : Prop := t.millis = t

instance (t : Timestamp) : Decidable t.Whole := inferInstanceAs (Decidable (_ = _))

/-- Among whole milliseconds, only the one `t` falls in compares with `t`
otherwise than with `t.millis`. -/
theorem Timestamp.Whole.millis_le_iff {s t : Timestamp} (hs : s.Whole)
    (h : s = t.millis → t.Whole) : t.millis ≤ s ↔ t ≤ s := by
  simp only [Whole, millis, Timestamp] at *
  omega

namespace Candle

instance : Std.Total earlier := ⟨fun a b => Int.le_total a.ts b.ts⟩

instance : IsTrans Candle earlier := ⟨fun _ _ _ => Int.le_trans⟩

@[simp] theorem partition_key (c : Candle) : c.key.partition = c.partition := rfl

theorem stored_eq {c : Candle} (h : c.ts.Whole) : c.stored = c := by
  rw [stored, h]

/-- Two bars of one object and one moment are of one key. -/
theorem key_eq_iff {c : Candle} {k : CandleKey} (h : c.partition = k.partition) :
    c.key = k ↔ c.ts = k.ts := by
  obtain ⟨i, tf, t⟩ := k
  have hparts := h
  simp only [partition, CandleKey.partition, Partition.mk.injEq] at hparts
  simp only [key, CandleKey.mk.injEq, hparts.1, hparts.2.1, true_and]

end Candle

namespace CandleTiers

/-- The copy of a bar in the hot tier. -/
def hotCopy (w : CandleTiers) (k : CandleKey) : Option Candle := Table.lookup Candle.key k w.hot

/-- The copy of a bar in the cold tier. -/
def coldCopy (w : CandleTiers) (k : CandleKey) : Option Candle :=
  (w.cold k.partition).bind fun rows => Table.lookup (·.ts) k.ts rows

/-- The bar a reader finds: the hot copy wins. -/
def copy (w : CandleTiers) (k : CandleKey) : Option Candle := (w.hotCopy k).or (w.coldCopy k)

/-- No hot bar is in the millisecond that `t` falls within. -/
def Sharp (w : CandleTiers) (t : Timestamp) : Prop := ∀ c ∈ w.hot, c.ts = t.millis → t.Whole

instance {w : CandleTiers} {t : Timestamp} : Decidable (w.Sharp t) :=
  inferInstanceAs (Decidable (∀ _ ∈ _, _))

/-- No tier has two bars of a key, and each bar is where its key says. -/
structure Kept (d : CandleSettings) (w : CandleTiers) : Prop where
  hotKeys : (w.hot.map Candle.key).Nodup
  whole : ∀ c ∈ w.hot, c.ts.Whole
  placed : ∀ p rows, w.cold p = some rows → ∀ c ∈ rows, c.partition = p
  moments : ∀ p rows, w.cold p = some rows → (rows.map (·.ts)).Nodup
  encoded : ∀ p rows, w.cold p = some rows → ∀ c ∈ rows, d.parquet c

variable {d : CandleSettings} {w w' : CandleTiers} {k : CandleKey} {c : Candle} {p : Partition}
  {i : String} {tf : Timeframe} {start stop : Timestamp} {l candles existing incoming : List Candle}

theorem Kept.empty (t : Timestamp) : Kept d ⟨t, [], fun _ => none⟩ where
  hotKeys := List.nodup_nil
  whole := by simp
  placed := by simp
  moments := by simp
  encoded := by simp

theorem key_of_hotCopy (h : w.hotCopy k = some c) : c.key = k := Table.key_of_lookup h

theorem mem_of_hotCopy (h : w.hotCopy k = some c) : c ∈ w.hot := Table.mem_of_lookup h

theorem Kept.hotCopy_of_mem (hw : Kept d w) (h : c ∈ w.hot) : w.hotCopy c.key = some c :=
  Table.lookup_of_mem hw.hotKeys h

theorem Kept.key_of_coldCopy (hw : Kept d w) (h : w.coldCopy k = some c) : c.key = k := by
  obtain ⟨rows, hrows, hlook⟩ := Option.bind_eq_some_iff.mp h
  have hp := hw.placed _ rows hrows c (Table.mem_of_lookup hlook)
  exact (Candle.key_eq_iff hp).mpr (Table.key_of_lookup hlook)

theorem Kept.key_of_copy (hw : Kept d w) (h : w.copy k = some c) : c.key = k := by
  rcases Option.or_eq_some_iff.mp h with h | ⟨-, h⟩
  · exact key_of_hotCopy h
  · exact hw.key_of_coldCopy h

/-- The cold copies are the rows of the objects. -/
theorem Kept.coldCopy_of_mem {rows : List Candle} (hw : Kept d w) (hrows : w.cold p = some rows)
    (h : c ∈ rows) : w.coldCopy c.key = some c := by
  have hp := hw.placed p rows hrows c h
  rw [coldCopy, Candle.partition_key, hp, hrows]
  exact Table.lookup_of_mem (hw.moments p rows hrows) h

end CandleTiers

/-! ## Merging -/

namespace ParquetCandleArchive

variable {d : CandleSettings} {c : Candle} {t : Timestamp} {existing incoming candles : List Candle}

theorem nodup_byTs : ((byTs candles).map (·.ts)).Nodup := Table.nodup_foldl_upsert List.nodup_nil

theorem lookup_byTs : Table.lookup (·.ts) t (byTs candles) = Table.latest (·.ts) t candles := by
  rw [byTs, Table.lookup_foldl_upsert]
  exact Option.or_none

theorem mem_of_mem_byTs (h : c ∈ byTs candles) : c ∈ candles := by
  rcases Table.mem_foldl_upsert h with h | h
  · exact h
  · cases h

theorem nodup_merged (existing incoming : List Candle) : ((merged existing incoming).map (·.ts)).Nodup :=
  ((List.perm_insertionSort _ _).map _).nodup_iff.mpr nodup_byTs

theorem mem_of_mem_merged (h : c ∈ merged existing incoming) : c ∈ existing ∨ c ∈ incoming := by
  rw [merged, List.mem_insertionSort] at h
  exact List.mem_append.mp (mem_of_mem_byTs h)

/-- **A merge** keeps the last bar of each moment, an incoming one before
those there were. -/
theorem lookup_merged : Table.lookup (·.ts) t (merged existing incoming) =
    (Table.latest (·.ts) t incoming).or (Table.latest (·.ts) t existing) := by
  rw [merged, Table.lookup_of_perm nodup_byTs (List.perm_insertionSort _ _), lookup_byTs,
    Table.latest_append]

/-- It stands in the order of time. -/
theorem pairwise_merged : (merged existing incoming).Pairwise fun a b => a.ts < b.ts := by
  have hle : (merged existing incoming).Pairwise Candle.earlier := List.pairwise_insertionSort _ _
  have hne := List.pairwise_map.mp (nodup_merged existing incoming)
  exact (hle.and hne).imp fun h => lt_of_le_of_ne h.1 h.2

end ParquetCandleArchive

/-! ## What a write moves -/

namespace CandleTiers

variable {d : CandleSettings} {w w' : CandleTiers} {k : CandleKey} {c : Candle} {p : Partition}
  {i : String} {tf : Timeframe} {start stop : Timestamp} {l candles existing incoming : List Candle}

open MongoCandleStore ParquetCandleArchive

/-- The tiers at another moment. -/
def later (w : CandleTiers) (clock : Timestamp) : CandleTiers := { w with clock := clock }

/-- The hot tier after a write. -/
def written (w : CandleTiers) (candles : List Candle) : CandleTiers :=
  { w with hot := MongoCandleStore.upsert w.hot candles }

/-- The cold tier after an object was put. -/
def shelved (w : CandleTiers) (p : Partition) (rows : List Candle) : CandleTiers :=
  { w with cold := Function.update w.cold p (some rows) }

/-- The hot tier after bars were deleted. -/
def cleared (w : CandleTiers) (i : String) (tf : Timeframe) (stamps : List Timestamp) :
    CandleTiers :=
  { w with hot := w.hot.filter fun c => !doomed i tf stamps c }

@[simp] theorem hotCopy_later {clock : Timestamp} : (w.later clock).hotCopy k = w.hotCopy k := rfl

@[simp] theorem coldCopy_later {clock : Timestamp} : (w.later clock).coldCopy k = w.coldCopy k := rfl

@[simp] theorem copy_later {clock : Timestamp} : (w.later clock).copy k = w.copy k := rfl

theorem Kept.later (hw : Kept d w) (clock : Timestamp) : Kept d (w.later clock) :=
  ⟨hw.hotKeys, hw.whole, hw.placed, hw.moments, hw.encoded⟩

@[simp] theorem coldCopy_written : (w.written candles).coldCopy k = w.coldCopy k := rfl

@[simp] theorem hotCopy_shelved : (w.shelved p l).hotCopy k = w.hotCopy k := rfl

@[simp] theorem shelved_self : (w.shelved p l).cold p = some l := Function.update_self ..

theorem shelved_of_ne {q : Partition} (h : q ≠ p) : (w.shelved p l).cold q = w.cold q :=
  Function.update_of_ne h ..

@[simp] theorem coldCopy_cleared {stamps : List Timestamp} :
    (w.cleared i tf stamps).coldCopy k = w.coldCopy k := rfl

theorem upsert_eq (hwhole : ∀ c ∈ candles, c.ts.Whole) (hot : List Candle) :
    MongoCandleStore.upsert hot candles =
      candles.foldl (fun hot c => Table.upsert Candle.key c hot) hot := by
  induction candles generalizing hot with
  | nil => rfl
  | cons c candles ih =>
      have hc : c.stored = c := Candle.stored_eq (hwhole c (List.mem_cons_self ..))
      rw [List.foldl_cons, ← ih (fun x hx => hwhole x (List.mem_cons_of_mem _ hx)),
        MongoCandleStore.upsert, List.foldl_cons, hc]
      rfl

theorem hotCopy_written (hwhole : ∀ c ∈ candles, c.ts.Whole) :
    (w.written candles).hotCopy k = (Table.latest Candle.key k candles).or (w.hotCopy k) := by
  rw [hotCopy, written, upsert_eq hwhole]
  exact Table.lookup_foldl_upsert

theorem Kept.written (hw : Kept d w) (hwhole : ∀ c ∈ candles, c.ts.Whole) :
    Kept d (w.written candles) := by
  refine ⟨?_, ?_, hw.placed, hw.moments, hw.encoded⟩
  · rw [CandleTiers.written, upsert_eq hwhole]
    exact Table.nodup_foldl_upsert hw.hotKeys
  · intro c hc
    rw [CandleTiers.written, upsert_eq hwhole] at hc
    rcases Table.mem_foldl_upsert hc with hc | hc
    · exact hwhole c hc
    · exact hw.whole c hc

/-- The bars of one object, by their moment and by their key. -/
theorem latest_ts_eq (hplaced : ∀ c ∈ l, c.partition = k.partition) :
    Table.latest (·.ts) k.ts l = Table.latest Candle.key k l := by
  refine List.find?_congr fun c hc => ?_
  simp only [Candle.key_eq_iff (hplaced c (List.mem_reverse.mp hc))]

/-- **A merge put back into its object** moves the copies of the bars it
merged in, and no others. -/
theorem coldCopy_shelved_merged (hw : Kept d w) (hplaced : ∀ c ∈ incoming, c.partition = p) :
    (w.shelved p (merged ((w.cold p).getD []) incoming)).coldCopy k =
      (Table.latest Candle.key k incoming).or (w.coldCopy k) := by
  by_cases hk : k.partition = p
  · subst hk
    have hrows : ∀ c ∈ (w.cold k.partition).getD [], c.partition = k.partition := by
      intro c hc
      cases hobject : w.cold k.partition with
      | none => rw [hobject] at hc; cases hc
      | some rows => rw [hobject] at hc; exact hw.placed _ rows hobject c hc
    rw [coldCopy, shelved_self, Option.bind_some, lookup_merged,
      latest_ts_eq hplaced, coldCopy]
    congr 1
    cases hobject : w.cold k.partition with
    | none => rfl
    | some rows =>
        -- an object has one row of a moment, so the last is the one found
        rw [Option.getD_some, Option.bind_some]
        cases hlook : Table.lookup (·.ts) k.ts rows with
        | none => exact Table.latest_eq_none.mpr (Table.lookup_eq_none.mp hlook)
        | some c =>
            rw [← Table.key_of_lookup hlook]
            exact Table.latest_of_mem (hw.moments _ rows hobject) (Table.mem_of_lookup hlook)
  · have hnone : Table.latest Candle.key k incoming = none :=
      Table.latest_eq_none.mpr fun c hc hck => hk (by rw [← hck]; exact hplaced c hc)
    rw [hnone, Option.none_or, coldCopy, shelved_of_ne hk, coldCopy]

theorem Kept.shelved (hw : Kept d w) (hplaced : ∀ c ∈ l, c.partition = p)
    (hnd : (l.map (·.ts)).Nodup) (hencoded : ∀ c ∈ l, d.parquet c) : Kept d (w.shelved p l) := by
  have hcase : ∀ q rows, (w.shelved p l).cold q = some rows →
      (q = p ∧ rows = l) ∨ w.cold q = some rows := by
    intro q rows h
    by_cases hq : q = p
    · rw [hq, shelved_self, Option.some.injEq] at h
      exact Or.inl ⟨hq, h.symm⟩
    · rw [shelved_of_ne hq] at h
      exact Or.inr h
  refine ⟨hw.hotKeys, hw.whole, fun q rows h => ?_, fun q rows h => ?_, fun q rows h => ?_⟩
  · rcases hcase q rows h with ⟨rfl, rfl⟩ | h
    · exact hplaced
    · exact hw.placed q rows h
  · rcases hcase q rows h with ⟨rfl, rfl⟩ | h
    · exact hnd
    · exact hw.moments q rows h
  · rcases hcase q rows h with ⟨rfl, rfl⟩ | h
    · exact hencoded
    · exact hw.encoded q rows h

/-- An object merged from what it held and bars that belong in it. -/
theorem Kept.shelved_merged (hw : Kept d w) (hplaced : ∀ c ∈ incoming, c.partition = p)
    (hencoded : (merged ((w.cold p).getD []) incoming).all d.parquet) :
    Kept d (w.shelved p (merged ((w.cold p).getD []) incoming)) := by
  refine hw.shelved (fun c hc => ?_) (nodup_merged _ _) (List.all_eq_true.mp hencoded)
  rcases mem_of_mem_merged hc with hc | hc
  · cases hobject : w.cold p with
    | none => rw [hobject] at hc; cases hc
    | some rows => rw [hobject] at hc; exact hw.placed p rows hobject c hc
  · exact hplaced c hc

theorem hotCopy_cleared {stamps : List Timestamp} : (w.cleared i tf stamps).hotCopy k =
    if k.instrumentId = i ∧ k.timeframe = tf ∧ k.ts ∈ stamps.map Timestamp.millis then none
    else w.hotCopy k := by
  have hdoomed : ∀ c : Candle, c.key = k → (doomed i tf stamps c =
      decide (k.instrumentId = i ∧ k.timeframe = tf ∧ k.ts ∈ stamps.map Timestamp.millis)) := by
    rintro c rfl
    rfl
  rw [hotCopy, cleared, Table.lookup, List.find?_filter]
  split
  · rename_i h
    refine List.find?_eq_none.mpr fun c _ hc => ?_
    simp only [decide_eq_true_eq] at hc
    rw [hdoomed c hc.2, decide_eq_true h] at hc
    simp at hc
  · rename_i h
    rw [hotCopy, Table.lookup]
    refine List.find?_congr fun c _ => ?_
    by_cases hc : c.key = k
    · rw [hdoomed c hc, decide_eq_false h]
      simp [hc]
    · simp [hc]

theorem Kept.cleared {stamps : List Timestamp} (hw : Kept d w) :
    Kept d (w.cleared i tf stamps) where
  hotKeys := hw.hotKeys.sublist (List.filter_sublist.map _)
  whole c hc := hw.whole c (List.mem_of_mem_filter hc)
  placed := hw.placed
  moments := hw.moments
  encoded := hw.encoded

end CandleTiers

/-! ## Reading -/

section Reading

@[simp] theorem CandleTask.exec_await {W : Type}
    {h : (c : candleInterface.Call) → W → Except PyError (candleInterface.Value c) × W} {w : W}
    (c : CandleCall) : Task.exec h (await c) w = h c w := rfl

variable {d : CandleSettings} {w : CandleTiers} {c : Candle} {i : String} {tf : Timeframe}
  {start stop : Timestamp}

namespace ParquetCandleArchive

/-- What a `get` answers reads as the rows there are. -/
theorem orNone_get (p : Partition) :
    orNone (d.answer (.get p) w).1 = pure ((w.cold p).getD []) := by
  cases h : w.cold p with
  | none =>
      have hget : d.answer (.get p) w = (.error (.other "ObjectNotFoundError"), w) := by
        rw [CandleSettings.answer, h]
      rw [hget]
      rfl
  | some rows =>
      have hget : d.answer (.get p) w = (.ok rows, w) := by rw [CandleSettings.answer, h]
      rw [hget]
      rfl

/-- A month is read by a `get`. -/
theorem only_readMonth {on : candleInterface.Call → Prop} (hget : ∀ p, on (.get p)) {p : Partition} :
    (readMonth p).Only on := by
  refine (Task.only_ask (I := candleInterface) (c := .get p) (hget p)).attempt.bind fun found => ?_
  unfold orNone
  split
  · trivial
  · split <;> trivial

theorem only_read {on : candleInterface.Call → Prop} (hget : ∀ p, on (.get p)) :
    (read i tf start stop).Only on := by
  have hmonths : ∀ months : List ℤ, (readMonths i tf months).Only on := by
    intro months
    induction months with
    | nil => trivial
    | cons month rest ih => exact (only_readMonth hget).bind fun _ => ih.bind fun _ => trivial
  exact (hmonths _).bind fun _ => trivial

theorem exec_readMonth (p : Partition) :
    (readMonth p).exec d.answer w = (.ok ((w.cold p).getD []), w) := by
  change (orNone (d.answer (.get p) w).1).exec d.answer w = _
  rw [orNone_get]
  rfl

theorem exec_readMonths (months : List ℤ) : (readMonths i tf months).exec d.answer w =
    (.ok (months.flatMap fun month => (w.cold ⟨tf, i, month⟩).getD []), w) := by
  induction months with
  | nil => rfl
  | cons month rest ih =>
      rw [readMonths, Task.exec_bind, exec_readMonth]
      dsimp only
      rw [Task.exec_bind, ih]
      rfl

/-- A month from that of `start` to that of `stop`. -/
theorem mem_months {month : ℤ} :
    month ∈ months start stop ↔ start.monthIndex ≤ month ∧ month ≤ stop.monthIndex := by
  rw [months, List.mem_map]
  constructor
  · rintro ⟨n, hn, rfl⟩
    rw [List.mem_range] at hn
    omega
  · rintro ⟨hle, hle'⟩
    exact ⟨(month - start.monthIndex).toNat, List.mem_range.mpr (by omega), by omega⟩

/-- What the cold tier reads, in the order of time. -/
def coldRead (w : CandleTiers) (i : String) (tf : Timeframe) (start stop : Timestamp) :
    List Candle :=
  (((months start stop).flatMap fun month => (w.cold ⟨tf, i, month⟩).getD []).filter fun c =>
    start ≤ c.ts ∧ c.ts < stop).insertionSort Candle.earlier

theorem exec_read :
    (read i tf start stop).exec d.answer w = (.ok (coldRead w i tf start stop), w) := by
  rw [read, Task.exec_bind, exec_readMonths]
  rfl

/-- **Every cold copy of the range is read**, whatever month it is in. -/
theorem mem_coldRead (hw : w.Kept d) : c ∈ coldRead w i tf start stop ↔
    c.instrumentId = i ∧ c.timeframe = tf ∧ start ≤ c.ts ∧ c.ts < stop ∧
      w.coldCopy c.key = some c := by
  rw [coldRead, List.mem_insertionSort, List.mem_filter, List.mem_flatMap]
  simp only [decide_eq_true_eq]
  constructor
  · rintro ⟨⟨month, -, hc⟩, hrange⟩
    cases hobject : w.cold ⟨tf, i, month⟩ with
    | none => rw [hobject] at hc; cases hc
    | some rows =>
        rw [hobject] at hc
        have hp := hw.placed _ rows hobject c hc
        simp only [Candle.partition, Partition.mk.injEq] at hp
        exact ⟨hp.2.1, hp.1, hrange.1, hrange.2, hw.coldCopy_of_mem hobject hc⟩
  · rintro ⟨rfl, rfl, hstart, hstop, hcopy⟩
    obtain ⟨rows, hrows, hlook⟩ := Option.bind_eq_some_iff.mp hcopy
    refine ⟨⟨c.ts.monthIndex, mem_months.2 ⟨Timestamp.monthIndex_mono hstart,
      Timestamp.monthIndex_mono hstop.le⟩, ?_⟩, hstart, hstop⟩
    have hobject : w.cold ⟨c.timeframe, c.instrumentId, c.ts.monthIndex⟩ = some rows := hrows
    rw [hobject]
    exact Table.mem_of_lookup hlook

/-- The cold tier reads one bar of a moment. -/
theorem latest_coldRead (hw : w.Kept d) {t : Timestamp} (hrange : start ≤ t ∧ t < stop) :
    Table.latest (·.ts) t (coldRead w i tf start stop) = w.coldCopy ⟨i, tf, t⟩ := by
  have hkey : ∀ c ∈ coldRead w i tf start stop, c.ts = t → c.key = ⟨i, tf, t⟩ := by
    rintro c hc rfl
    obtain ⟨rfl, rfl, -⟩ := (mem_coldRead hw).mp hc
    rfl
  cases hlast : Table.latest (·.ts) t (coldRead w i tf start stop) with
  | none =>
      refine (Option.eq_none_iff_forall_ne_some.mpr fun c hc => ?_).symm
      have hck := hw.key_of_coldCopy hc
      rw [← hck] at hc
      obtain ⟨rfl, rfl, rfl⟩ : c.instrumentId = i ∧ c.timeframe = tf ∧ c.ts = t := by
        simpa [Candle.key] using hck
      exact Table.latest_eq_none.mp hlast c
        ((mem_coldRead hw).mpr ⟨rfl, rfl, hrange.1, hrange.2, hc⟩) rfl
  | some c =>
      have hc := Table.mem_of_latest hlast
      obtain ⟨-, -, -, -, hcopy⟩ := (mem_coldRead hw).mp hc
      rw [← hkey c hc (Table.key_of_latest hlast), hcopy]

end ParquetCandleArchive

namespace MongoCandleStore

/-- What the hot tier reads. -/
theorem mem_read (hw : w.Kept d) (hstart : w.Sharp start) (hstop : w.Sharp stop) :
    c ∈ MongoCandleStore.read w.hot i tf start stop ↔
      c.instrumentId = i ∧ c.timeframe = tf ∧ start ≤ c.ts ∧ c.ts < stop ∧
        w.hotCopy c.key = some c := by
  have hwithin : c ∈ w.hot → (within i tf start stop c = true ↔
      c.instrumentId = i ∧ c.timeframe = tf ∧ start ≤ c.ts ∧ c.ts < stop) := by
    intro hc
    have hle := (hw.whole c hc).millis_le_iff (hstart c hc)
    have hlt := (hw.whole c hc).millis_le_iff (hstop c hc)
    rw [within, decide_eq_true_eq, hle, ← not_le, hlt, not_le]
  rw [MongoCandleStore.read, List.mem_insertionSort, List.mem_filter]
  constructor
  · rintro ⟨hc, hin⟩
    obtain ⟨hi, htf, hle, hlt⟩ := (hwithin hc).mp hin
    exact ⟨hi, htf, hle, hlt, hw.hotCopy_of_mem hc⟩
  · rintro ⟨hi, htf, hle, hlt, hcopy⟩
    have hc := CandleTiers.mem_of_hotCopy hcopy
    exact ⟨hc, (hwithin hc).mpr ⟨hi, htf, hle, hlt⟩⟩

theorem nodup_read (hw : w.Kept d) :
    ((MongoCandleStore.read w.hot i tf start stop).map Candle.key).Nodup := by
  refine ((List.perm_insertionSort _ _).map _).nodup_iff.mpr ?_
  exact hw.hotKeys.sublist (List.filter_sublist.map _)

/-- The hot tier reads one bar of a moment. -/
theorem latest_read (hw : w.Kept d) (hstart : w.Sharp start) (hstop : w.Sharp stop) {t : Timestamp}
    (hrange : start ≤ t ∧ t < stop) :
    Table.latest (·.ts) t (MongoCandleStore.read w.hot i tf start stop) =
      w.hotCopy ⟨i, tf, t⟩ := by
  cases hlast : Table.latest (·.ts) t (MongoCandleStore.read w.hot i tf start stop) with
  | none =>
      refine (Option.eq_none_iff_forall_ne_some.mpr fun c hc => ?_).symm
      have hck := CandleTiers.key_of_hotCopy hc
      rw [← hck] at hc
      obtain ⟨rfl, rfl, rfl⟩ : c.instrumentId = i ∧ c.timeframe = tf ∧ c.ts = t := by
        simpa [Candle.key] using hck
      exact Table.latest_eq_none.mp hlast c
        ((mem_read hw hstart hstop).mpr ⟨rfl, rfl, hrange.1, hrange.2, hc⟩) rfl
  | some c =>
      have hc := Table.mem_of_latest hlast
      obtain ⟨rfl, rfl, -, -, hcopy⟩ := (mem_read hw hstart hstop).mp hc
      have ht : c.ts = t := Table.key_of_latest hlast
      rw [← ht]
      exact hcopy.symm

end MongoCandleStore

namespace CandleRepository

/-- What a reader of a range gets. -/
def rangeOf (w : CandleTiers) (i : String) (tf : Timeframe) (start stop : Timestamp) :
    List Candle :=
  if stop ≤ start then []
  else ParquetCandleArchive.merged (ParquetCandleArchive.coldRead w i tf start stop)
    (MongoCandleStore.read w.hot i tf start stop)

theorem exec_getRange :
    (getRange i tf start stop).exec d.answer w = (.ok (rangeOf w i tf start stop), w) := by
  unfold getRange rangeOf
  split
  · rfl
  · rw [Task.exec_bind, ParquetCandleArchive.exec_read]
    rfl

/-- **What `get_range` returns**: the copy of each key of the range, once
and in the order of time. -/
theorem mem_rangeOf (hw : w.Kept d) (hstart : w.Sharp start) (hstop : w.Sharp stop) :
    c ∈ rangeOf w i tf start stop ↔
      c.instrumentId = i ∧ c.timeframe = tf ∧ start ≤ c.ts ∧ c.ts < stop ∧
        w.copy c.key = some c := by
  unfold rangeOf
  split
  · rename_i hempty
    constructor
    · intro h
      cases h
    · rintro ⟨-, -, hle, hlt, -⟩
      exact absurd (lt_of_le_of_lt hle hlt) (not_lt.mpr hempty)
  · have hsource : ∀ x ∈ ParquetCandleArchive.merged
        (ParquetCandleArchive.coldRead w i tf start stop)
        (MongoCandleStore.read w.hot i tf start stop),
        x.instrumentId = i ∧ x.timeframe = tf ∧ start ≤ x.ts ∧ x.ts < stop := by
      intro x hx
      rcases ParquetCandleArchive.mem_of_mem_merged hx with hx | hx
      · obtain ⟨hi, htf, hle, hlt, -⟩ := (ParquetCandleArchive.mem_coldRead hw).mp hx
        exact ⟨hi, htf, hle, hlt⟩
      · obtain ⟨hi, htf, hle, hlt, -⟩ := (MongoCandleStore.mem_read hw hstart hstop).mp hx
        exact ⟨hi, htf, hle, hlt⟩
    have hlook : ∀ t, start ≤ t ∧ t < stop → Table.lookup (·.ts) t (ParquetCandleArchive.merged
        (ParquetCandleArchive.coldRead w i tf start stop)
        (MongoCandleStore.read w.hot i tf start stop)) = w.copy ⟨i, tf, t⟩ := by
      intro t ht
      rw [ParquetCandleArchive.lookup_merged, MongoCandleStore.latest_read hw hstart hstop ht,
        ParquetCandleArchive.latest_coldRead hw ht]
      rfl
    constructor
    · intro hc
      obtain ⟨rfl, rfl, hle, hlt⟩ := hsource c hc
      refine ⟨rfl, rfl, hle, hlt, ?_⟩
      have hfind := Table.lookup_of_mem (ParquetCandleArchive.nodup_merged _ _) hc
      rw [hlook c.ts ⟨hle, hlt⟩] at hfind
      exact hfind
    · rintro ⟨rfl, rfl, hle, hlt, hcopy⟩
      have hfind := hlook c.ts ⟨hle, hlt⟩
      rw [show w.copy ⟨c.instrumentId, c.timeframe, c.ts⟩ = some c from hcopy] at hfind
      exact Table.mem_of_lookup hfind

theorem pairwise_rangeOf : (rangeOf w i tf start stop).Pairwise fun a b => a.ts < b.ts := by
  unfold rangeOf
  split
  · exact List.Pairwise.nil
  · exact ParquetCandleArchive.pairwise_merged

end CandleRepository

end Reading

end Emporos
