import Emporos.Persistence.Tiers
/-!
# Upserts and rollups, one after another

A rollup leaves every copy a reader finds, whatever the archive makes of
it, and an upsert whose old bars have no hot copy left moves the copies
of its bars and no others. So after any sequence of them a range reads
the last bar written under each key.
-/

namespace Emporos

open Async CandleTask

variable {d : CandleSettings} {w w' : CandleTiers} {k : CandleKey} {c : Candle} {p : Partition}
  {i : String} {tf : Timeframe} {start stop : Timestamp} {candles old : List Candle} {α β : Type}

/-! ## Placement -/

namespace CandleRepository

/-- At this moment the bar belongs in the cold tier. -/
def oldAt (d : CandleSettings) (clock : Timestamp) (c : Candle) : Bool :=
  d.placement.any fun retention => (retention c.timeframe).any fun days => c.ts < clock - days

theorem only_hotCutoff {on : candleInterface.Call → Prop} (hnow : on .now)
    {retention : Retention} : (hotCutoff retention tf).Only on := by
  unfold hotCutoff
  split
  · trivial
  · exact (Task.only_ask (I := candleInterface) (c := .now) hnow).bind fun _ => trivial

theorem only_cutoffs {on : candleInterface.Call → Prop} (hnow : on .now) {retention : Retention}
    (timeframes : List Timeframe) : (cutoffs retention timeframes).Only on := by
  induction timeframes with
  | nil => trivial
  | cons tf rest ih => exact (only_hotCutoff hnow).bind fun cutoff => ih.bind fun _ => trivial

theorem exec_cutoffs (retention : Retention) (timeframes : List Timeframe) :
    (cutoffs retention timeframes).exec d.answer w =
      (.ok (timeframes.map fun tf => (tf, (retention tf).map (w.clock - ·))), w) := by
  induction timeframes with
  | nil => rfl
  | cons tf rest ih =>
      have hcut : (hotCutoff retention tf).exec d.answer w =
          (.ok ((retention tf).map (w.clock - ·)), w) := by
        unfold hotCutoff
        cases retention tf <;> rfl
      rw [cutoffs, Task.exec_bind, hcut]
      dsimp only
      rw [Task.exec_bind, ih]
      rfl

/-- A batch is split by what is old when it is written. -/
theorem exec_split : (split d candles).exec d.answer w =
    (.ok (candles.filter fun c => !oldAt d w.clock c, candles.filter (oldAt d w.clock)), w) := by
  unfold split
  cases hplacement : d.placement with
  | none =>
      have hold : ∀ c, oldAt d w.clock c = false := fun c => by rw [oldAt, hplacement]; rfl
      simp [hold]
  | some retention =>
      have hold : ∀ c ∈ candles, isOld ((candles.map (·.timeframe)).eraseDups.map fun tf =>
          (tf, (retention tf).map (w.clock - ·))) c = oldAt d w.clock c := by
        intro c hc
        have htf : c.timeframe ∈ (candles.map (·.timeframe)).eraseDups :=
          List.mem_eraseDups.mpr (List.mem_map_of_mem hc)
        rw [oldAt, hplacement, Bool.eq_iff_iff, isOld, List.any_eq_true]
        constructor
        · rintro ⟨row, hrow, hrc⟩
          obtain ⟨tf, -, rfl⟩ := List.mem_map.mp hrow
          obtain ⟨rfl, hrc⟩ := of_decide_eq_true hrc
          rwa [Option.any_map] at hrc
        · intro hrc
          refine ⟨_, List.mem_map_of_mem htf, decide_eq_true ⟨rfl, ?_⟩⟩
          rw [Option.any_map]
          exact hrc
      dsimp only
      rw [Task.exec_bind, exec_cutoffs]
      dsimp only
      rw [List.filter_congr fun c hc => congrArg not (hold c hc), List.filter_congr hold]
      rfl

end CandleRepository

/-! ## Archiving -/

namespace ParquetCandleArchive

open CandleTiers

/-- What an archive that ended in `r` made of the cold tier. -/
structure Archived (d : CandleSettings) (candles : List Candle) (objects : List Partition)
    (w : CandleTiers) (r : Except PyError Unit) (w' : CandleTiers) : Prop where
  kept : w'.Kept d
  hot : w'.hot = w.hot
  clock : w'.clock = w.clock
  /-- A copy is the last of the bars, or the one there was. -/
  copies : ∀ k, w'.coldCopy k = (Table.latest Candle.key k candles).or (w.coldCopy k) ∨
    w'.coldCopy k = w.coldCopy k
  /-- All the bars of the objects were merged in. -/
  done : r = .ok () → ∀ k, k.partition ∈ objects →
    w'.coldCopy k = (Table.latest Candle.key k candles).or (w.coldCopy k)
  /-- Nothing but a bar without a row stops it. -/
  fits : (∀ c ∈ candles, d.parquet c) → r = .ok ()

theorem or_or_self {a b : Option α} : a.or (a.or b) = a.or b := by
  cases a <;> rfl

theorem latest_incoming : Table.latest Candle.key k (candles.filter fun c => c.partition = p) =
    if k.partition = p then Table.latest Candle.key k candles else none := by
  split
  · rename_i hk
    rw [Table.latest, ← List.filter_reverse, List.find?_filter, Table.latest]
    refine List.find?_congr fun c _ => ?_
    by_cases hc : c.key = k
    · have : c.partition = p := by rw [← Candle.partition_key, hc, hk]
      simp [hc, this]
    · simp [hc]
  · rename_i hk
    refine Table.latest_eq_none.mpr fun c hc hck => hk ?_
    rw [← hck]
    simpa using (List.mem_filter.mp hc).2

/-- **Archiving**, object by object. -/
theorem exec_archiveInto (who : Archiver) (objects : List Partition) (hw : w.Kept d) :
    Archived d candles objects w ((archiveInto d who candles objects).exec d.answer w).1
      ((archiveInto d who candles objects).exec d.answer w).2 := by
  induction objects generalizing w with
  | nil =>
      exact ⟨hw, rfl, rfl, fun _ => Or.inr rfl, fun _ k hk => absurd hk List.not_mem_nil,
        fun _ => rfl⟩
  | cons object rest ih =>
      have hplaced : ∀ c ∈ candles.filter (fun c => c.partition = object), c.partition = object :=
        fun c hc => by simpa using (List.mem_filter.mp hc).2
      obtain ⟨rows, hrows⟩ : ∃ rows, rows =
        merged ((w.cold object).getD []) (candles.filter fun c => c.partition = object) := ⟨_, rfl⟩
      rw [archiveInto, Task.exec_bind, exec_readMonth]
      dsimp only
      rw [← hrows, Task.exec_bind, Task.exec_lift]
      by_cases hall : rows.all d.parquet
      · -- the object is put, and the rest follows
        have hencode : encode d rows = .ok rows := if_pos hall
        have hkept : (w.shelved object rows).Kept d := hrows ▸ hw.shelved_merged hplaced (hrows ▸ hall)
        have hcopy : ∀ k, (w.shelved object rows).coldCopy k =
            if k.partition = object then (Table.latest Candle.key k candles).or (w.coldCopy k)
            else w.coldCopy k := by
          intro k
          rw [hrows, coldCopy_shelved_merged hw hplaced, latest_incoming]
          split <;> rfl
        have hrest := ih hkept
        rw [hencode]
        dsimp only
        rw [Task.exec_bind]
        change Archived d candles (object :: rest) w
          ((archiveInto d who candles rest).exec d.answer (w.shelved object rows)).1
          ((archiveInto d who candles rest).exec d.answer (w.shelved object rows)).2
        refine ⟨hrest.kept, hrest.hot, hrest.clock, fun k => ?_, fun hok k hk => ?_, hrest.fits⟩
        · rcases hrest.copies k with h | h <;> rw [h, hcopy k] <;> split
          · exact Or.inl or_or_self
          · exact Or.inl rfl
          · exact Or.inl rfl
          · exact Or.inr rfl
        · by_cases hkr : k.partition ∈ rest
          · rw [hrest.done hok k hkr, hcopy k]
            split
            · exact or_or_self
            · rfl
          · have hko : k.partition = object := (List.mem_cons.mp hk).resolve_right hkr
            rcases hrest.copies k with h | h <;> rw [h, hcopy k, if_pos hko]
            exact or_or_self
      · have hencode : encode d rows = .error (.other "ArrowInvalid") := if_neg hall
        rw [hencode]
        dsimp only
        refine ⟨hw, rfl, rfl, fun _ => Or.inr rfl, fun h => (by cases h), fun hfits => ?_⟩
        refine absurd (List.all_eq_true.mpr fun c hc => ?_) hall
        rcases mem_of_mem_merged (hrows ▸ hc) with hc | hc
        · cases hobject : w.cold object with
          | none => rw [hobject] at hc; cases hc
          | some l => rw [hobject] at hc; exact hw.encoded object l hobject c hc
        · exact hfits c (List.mem_of_mem_filter hc)

theorem exec_archive (who : Archiver) (candles : List Candle) (hw : w.Kept d) :
    Archived d candles (partitions candles) w ((archive d who candles).exec d.answer w).1
      ((archive d who candles).exec d.answer w).2 :=
  exec_archiveInto who (partitions candles) hw

/-- An archive that ended well made every bar the cold copy of its key. -/
theorem Archived.coldCopy {w' : CandleTiers}
    (h : Archived d candles (partitions candles) w (.ok ()) w') (k : CandleKey) :
    w'.coldCopy k = (Table.latest Candle.key k candles).or (w.coldCopy k) := by
  by_cases hk : k.partition ∈ partitions candles
  · exact h.done rfl k hk
  · have hnone : Table.latest Candle.key k candles = none := by
      refine Table.latest_eq_none.mpr fun c hc hck => hk ?_
      rw [← hck, Candle.partition_key]
      exact List.mem_eraseDups.mpr (List.mem_map_of_mem hc)
    rcases h.copies k with h | h
    · exact h
    · rw [h, hnone, Option.none_or]

end ParquetCandleArchive

/-! ## Rolling up -/

/-- The two tiers hold the same copies as before. -/
structure CandleTiers.Alike (d : CandleSettings) (w w' : CandleTiers) : Prop where
  kept : w'.Kept d
  clock : w'.clock = w.clock
  copy : ∀ k, w'.copy k = w.copy k

/-- A program that leaves every copy as it is. -/
def CandleTask.Quiet (d : CandleSettings) (p : CandleTask α) : Prop :=
  ∀ w : CandleTiers, w.Kept d → w.Alike d (p.exec d.answer w).2

theorem CandleTiers.Alike.trans {w₁ w₂ w₃ : CandleTiers} (h : w₁.Alike d w₂)
    (h' : w₂.Alike d w₃) : w₁.Alike d w₃ :=
  ⟨h'.kept, h'.clock.trans h.clock, fun k => (h'.copy k).trans (h.copy k)⟩

theorem CandleTiers.Kept.alike (hw : w.Kept d) : w.Alike d w := ⟨hw, rfl, fun _ => rfl⟩

namespace CandleTask

theorem quiet_pure (a : α) : Quiet d (pure a : CandleTask α) := fun _ hw => hw.alike

/-- A call that leaves the tiers alone. -/
theorem quiet_await {call : CandleCall} (h : ∀ w, (d.answer call w).2 = w) :
    Quiet d (await call) := by
  intro w hw
  have hsame : ((await call).exec d.answer w).2 = w := h w
  rw [hsame]
  exact hw.alike

theorem Quiet.bind {q : CandleTask α} {f : α → CandleTask β} (hq : Quiet d q)
    (hf : ∀ a, Quiet d (f a)) : Quiet d (q >>= f) := by
  intro w hw
  have hfirst := hq w hw
  rw [Task.exec_bind]
  cases hrun : q.exec d.answer w with
  | mk r w' =>
      rw [hrun] at hfirst
      cases r with
      | ok a => exact hfirst.trans (hf a w' hfirst.kept)
      | error e => exact hfirst

end CandleTask

namespace CandleTiers

/-- Deleting bars whose cold copy is the same moves no copy. -/
theorem alike_cleared {stamps : List Timestamp} (hw : w.Kept d)
    (h : ∀ k c, w.hotCopy k = some c → k.instrumentId = i → k.timeframe = tf →
      k.ts ∈ stamps.map Timestamp.millis → w.coldCopy k = some c) :
    w.Alike d (w.cleared i tf stamps) := by
  refine ⟨hw.cleared, rfl, fun k => ?_⟩
  rw [copy, copy, coldCopy_cleared, hotCopy_cleared]
  split
  · rename_i hk
    rw [Option.none_or]
    cases hhot : w.hotCopy k with
    | none => rfl
    | some c => exact h k c hhot hk.1 hk.2.1 hk.2.2
  · rfl

theorem cleared_cleared {stamps stamps' : List Timestamp} :
    (w.cleared i tf stamps).cleared i tf stamps' = w.cleared i tf (stamps ++ stamps') := by
  simp only [cleared, List.filter_filter, mk.injEq, and_true, true_and]
  refine List.filter_congr fun c _ => ?_
  rw [Bool.eq_iff_iff]
  simp only [MongoCandleStore.doomed, List.map_append, List.mem_append, Bool.and_eq_true,
    Bool.not_eq_true', decide_eq_false_iff_not]
  tauto

theorem cleared_nil : w.cleared i tf [] = w := by
  have hall : w.hot.filter (fun c => !MongoCandleStore.doomed i tf [] c) = w.hot :=
    List.filter_eq_self.mpr fun c _ => by simp [MongoCandleStore.doomed]
  rw [cleared, hall]

end CandleTiers

namespace CandleRollup

open CandleTiers

theorem only_verify {on : candleInterface.Call → Prop} (hget : ∀ p, on (.get p))
    (written : List Candle) : (verify written).Only on := by
  cases written with
  | nil => trivial
  | cons first rest =>
      refine (ParquetCandleArchive.only_read hget).bind fun stored => ?_
      split <;> trivial

theorem exec_verify {l : List Candle} : ((verify l).exec d.answer w).2 = w := by
  cases l with
  | nil => rfl
  | cons first rest =>
      rw [verify, Task.exec_bind, ParquetCandleArchive.exec_read]
      dsimp only
      split <;> rfl

theorem exec_deleteAll (batches : List (List Timestamp)) (deleted : ℕ) :
    ((deleteAll i tf batches deleted).exec d.answer w).2 = w.cleared i tf batches.flatten := by
  induction batches generalizing w deleted with
  | nil => exact cleared_nil.symm
  | cons stamps rest ih =>
      rw [deleteAll, Task.exec_bind]
      change ((deleteAll i tf rest _).exec d.answer (w.cleared i tf stamps)).2 = _
      rw [ih, cleared_cleared, List.flatten_cons]

/-- The batches have every timestamp. -/
theorem mem_flatten_batches {stamps : List Timestamp} {t : Timestamp} :
    t ∈ (batches stamps).flatten ↔ t ∈ stamps := by
  simp only [batches, List.mem_flatten, List.mem_map, List.mem_range]
  constructor
  · rintro ⟨-, ⟨n, -, rfl⟩, ht⟩
    exact List.mem_of_mem_drop (List.mem_of_mem_take ht)
  · intro ht
    obtain ⟨n, hn, rfl⟩ := List.mem_iff_getElem.mp ht
    refine ⟨_, ⟨n / deleteBatch, ?_, rfl⟩, ?_⟩
    · unfold deleteBatch
      omega
    · rw [List.mem_iff_getElem]
      have hle : deleteBatch * (n / deleteBatch) ≤ n := Nat.mul_div_le ..
      have hlt : n - deleteBatch * (n / deleteBatch) < deleteBatch := by
        unfold deleteBatch
        omega
      refine ⟨n - deleteBatch * (n / deleteBatch), ?_, ?_⟩
      · rw [List.length_take, List.length_drop]
        omega
      · rw [List.getElem_take, List.getElem_drop]
        congr 1
        omega

/-- What a rollup reads: hot bars of one instrument and timeframe. -/
structure Aged (i : String) (tf : Timeframe) (old : List Candle) : Prop where
  keys : (old.map Candle.key).Nodup
  whole : ∀ c ∈ old, c.ts.Whole
  instrument : ∀ c ∈ old, c.instrumentId = i ∧ c.timeframe = tf

theorem aged_read (hw : w.Kept d) (i : String) (tf : Timeframe) (start stop : Timestamp) :
    Aged i tf (MongoCandleStore.read w.hot i tf start stop) ∧
      ∀ c ∈ MongoCandleStore.read w.hot i tf start stop, w.hotCopy c.key = some c := by
  have hmem : ∀ c ∈ MongoCandleStore.read w.hot i tf start stop, c ∈ w.hot ∧
      c.instrumentId = i ∧ c.timeframe = tf := by
    intro c hc
    rw [MongoCandleStore.read, List.mem_insertionSort, List.mem_filter] at hc
    obtain ⟨hci, hctf, -⟩ := of_decide_eq_true hc.2
    exact ⟨hc.1, hci, hctf⟩
  refine ⟨⟨MongoCandleStore.nodup_read hw, fun c hc => hw.whole c (hmem c hc).1,
    fun c hc => (hmem c hc).2⟩, fun c hc => hw.hotCopy_of_mem (hmem c hc).1⟩

/-- A document that some of their timestamps doom is one of them. -/
theorem Aged.exists_of_stamp {stamps : List Timestamp} (h : Aged i tf old)
    (hstamps : stamps ⊆ old.map (·.ts)) (hi : k.instrumentId = i) (htf : k.timeframe = tf)
    (hts : k.ts ∈ stamps.map Timestamp.millis) : ∃ c ∈ old, c.key = k := by
  obtain ⟨s, hs, hsk⟩ := List.mem_map.mp hts
  obtain ⟨c, hc, rfl⟩ := List.mem_map.mp (hstamps hs)
  have hwhole : c.ts.millis = c.ts := h.whole c hc
  obtain ⟨hci, hctf⟩ := h.instrument c hc
  rw [hwhole] at hsk
  refine ⟨c, hc, ?_⟩
  rw [Candle.key, hci, hctf, hsk, ← hi, ← htf]

/-- Archiving hot copies moves no copy: the hot one wins. -/
theorem alike_of_archived {cutoff : Timestamp} {r : Except PyError Unit} (hw : w.Kept d)
    (h : ParquetCandleArchive.Archived d old (ParquetCandleArchive.partitions old) w r w')
    (hold : old = MongoCandleStore.read w.hot i tf 0 cutoff) : w.Alike d w' := by
  refine ⟨h.kept, h.clock, fun k => ?_⟩
  have hhot : w'.hotCopy k = w.hotCopy k := by rw [hotCopy, h.hot, hotCopy]
  rw [copy, copy, hhot]
  rcases h.copies k with hk | hk <;> rw [hk]
  cases hlast : Table.latest Candle.key k old with
  | none => rfl
  | some c =>
      have hc := (aged_read hw i tf 0 cutoff).2 c (hold ▸ Table.mem_of_latest hlast)
      rw [← Table.key_of_latest hlast, hc]
      rfl

/-- And then deleting them moves none: each is in the cold tier. -/
theorem alike_of_deleted {cutoff : Timestamp} (hw : w.Kept d)
    (h : ParquetCandleArchive.Archived d old (ParquetCandleArchive.partitions old) w (.ok ()) w')
    (hold : old = MongoCandleStore.read w.hot i tf 0 cutoff) :
    w'.Alike d (w'.cleared i tf (batches (old.map (·.ts))).flatten) := by
  obtain ⟨haged, hhots⟩ := aged_read hw i tf 0 cutoff
  rw [← hold] at haged hhots
  refine alike_cleared h.kept fun k c hhot hki hktf hkts => ?_
  obtain ⟨x, hx, rfl⟩ := haged.exists_of_stamp
    (fun t ht => mem_flatten_batches.1 ht) hki hktf hkts
  rw [hotCopy, h.hot, ← hotCopy, hhots x hx] at hhot
  rw [h.coldCopy x.key, Table.latest_of_mem haged.keys hx, ← hhot]
  rfl

/-- **One rollup** leaves every copy as it is: what it deletes it has put
in the cold tier. -/
theorem quiet_roll {cutoff : Timestamp} {report : RollupReport} :
    Quiet d (roll d i tf cutoff report) := by
  intro w hw
  obtain ⟨old, hold⟩ : ∃ old, old = MongoCandleStore.read w.hot i tf 0 cutoff := ⟨_, rfl⟩
  have hread : d.answer (.hotRead i tf 0 cutoff) w = (.ok old, w) := by rw [hold]; rfl
  rw [roll, Task.exec_bind, exec_await, hread]
  dsimp only
  split
  · exact hw.alike
  have harchived := ParquetCandleArchive.exec_archive .rollup old hw
  rw [Task.exec_bind, Task.exec_attempt, Task.exec_bind]
  cases hrun : (ParquetCandleArchive.archive d .rollup old).exec d.answer w with
  | mk r w' =>
      rw [hrun] at harchived
      have halike := alike_of_archived hw harchived hold
      cases r with
      | error e => exact halike
      | ok _ =>
          dsimp only
          have hverify : ((verify old).exec d.answer w').2 = w' := exec_verify
          cases hread : (verify old).exec d.answer w' with
          | mk r w'' =>
              rw [hread] at hverify
              obtain rfl : w'' = w' := hverify
              cases r with
              | error e => exact halike
              | ok _ =>
                  have hdeleted : ((deleteAll i tf (batches (old.map (·.ts))) 0).exec d.answer
                      w'').2 = _ := exec_deleteAll _ 0
                  dsimp only
                  rw [Task.exec_bind]
                  cases hdelete : (deleteAll i tf (batches (old.map (·.ts))) 0).exec d.answer w''
                    with
                  | mk r w₃ =>
                      rw [hdelete] at hdeleted
                      obtain rfl : w₃ = _ := hdeleted
                      have hall := halike.trans (alike_of_deleted hw harchived hold)
                      cases r with
                      | ok n => exact hall
                      | error e => exact hall

theorem quiet_rollInstruments {only : Option (List String)} {cutoff : Timestamp}
    (instruments : List String) (report : RollupReport) :
    Quiet d (rollInstruments d only tf cutoff instruments report) := by
  induction instruments generalizing report with
  | nil => exact quiet_pure report
  | cons i rest ih =>
      rw [rollInstruments]
      split
      · exact ih report
      · exact quiet_roll.bind fun report => ih report

theorem quiet_hotCutoff {retention : Retention} :
    Quiet d (CandleRepository.hotCutoff retention tf) := by
  unfold CandleRepository.hotCutoff
  split
  · exact quiet_pure none
  · exact (quiet_await fun _ => rfl).bind fun _ => quiet_pure _

theorem quiet_rollTimeframes {only : Option (List String)} (timeframes : List Timeframe)
    (report : RollupReport) : Quiet d (rollTimeframes d only timeframes report) := by
  induction timeframes generalizing report with
  | nil => exact quiet_pure report
  | cons tf rest ih =>
      refine quiet_hotCutoff.bind fun cutoff => ?_
      cases cutoff with
      | none => exact ih report
      | some cutoff =>
          exact (quiet_await fun _ => rfl).bind fun instruments =>
            (quiet_rollInstruments instruments report).bind fun report => ih report

/-- **A rollup run** leaves every copy as it is. -/
theorem quiet_run (timeframes : List Timeframe) (only : Option (List String)) :
    Quiet d (run d timeframes only) := by
  refine (quiet_rollTimeframes _ _).bind fun report => ?_
  split
  · exact (quiet_await fun _ => rfl).bind fun _ => quiet_pure report
  · exact quiet_pure report

end CandleRollup

/-! ## Upserting -/

namespace CandleRepository

open CandleTiers ParquetCandleArchive

/-- What keeps a batch clear of what the code gets wrong: no key twice, no
bar the tier it goes to has no value for, and no bar that goes cold under
a hot copy that is not the same. -/
structure Fits (d : CandleSettings) (w : CandleTiers) (batch : List Candle) : Prop where
  keys : (batch.map Candle.key).Nodup
  recent : ∀ c ∈ batch, oldAt d w.clock c = false → d.bson c ∧ c.ts.Whole
  old : ∀ c ∈ batch, oldAt d w.clock c → d.parquet c ∧ ∀ x, w.hotCopy c.key = some x → x = c

instance {batch : List Candle} : Decidable (Fits d w batch) :=
  decidable_of_iff ((batch.map Candle.key).Nodup ∧
      (∀ c ∈ batch, oldAt d w.clock c = false → d.bson c ∧ c.ts.Whole) ∧
      ∀ c ∈ batch, oldAt d w.clock c → d.parquet c ∧ ∀ x ∈ w.hotCopy c.key, x = c)
    ⟨fun h => ⟨h.1, h.2.1, h.2.2⟩, fun h => ⟨h.keys, h.recent, h.old⟩⟩

/-- The recent bars of a batch, written. -/
theorem exec_hotUpsert {batch : List Candle} (hw : w.Kept d)
    (hnd : (batch.map Candle.key).Nodup) (h : ∀ c ∈ batch, d.bson c ∧ c.ts.Whole) :
    (await (.hotUpsert batch)).exec d.answer w = (.ok (), w.written (d.order batch)) ∧
      (w.written (d.order batch)).Kept d ∧ ∀ k, (w.written (d.order batch)).hotCopy k =
        (Table.latest Candle.key k batch).or (w.hotCopy k) := by
  have hwhole : ∀ c ∈ d.order batch, c.ts.Whole := fun c hc =>
    (h c ((d.order_perm batch).mem_iff.mp hc)).2
  refine ⟨?_, hw.written hwhole, fun k => ?_⟩
  · have hall : batch.all d.bson := List.all_eq_true.mpr fun c hc => (h c hc).1
    rw [exec_await, CandleSettings.answer, if_pos hall]
    rfl
  · rw [hotCopy_written hwhole, Table.latest_of_perm hnd (d.order_perm batch)]

/-- The recent bars of a batch, if there are any. -/
theorem exec_recent (batch : List Candle) (p : CandleTask Unit) (hw : w.Kept d)
    (hnd : (batch.map Candle.key).Nodup) (h : ∀ c ∈ batch, d.bson c ∧ c.ts.Whole) :
    ∃ w' : CandleTiers, (if batch ≠ [] then do await (.hotUpsert batch); p else p).exec d.answer w =
        p.exec d.answer w' ∧ w'.Kept d ∧ w'.clock = w.clock ∧
      (∀ k, w'.hotCopy k = (Table.latest Candle.key k batch).or (w.hotCopy k)) ∧
        ∀ k, w'.coldCopy k = w.coldCopy k := by
  split
  · obtain ⟨hrun, hkept, hcopy⟩ := exec_hotUpsert hw hnd h
    refine ⟨w.written (d.order batch), ?_, hkept, rfl, hcopy, fun _ => coldCopy_written⟩
    rw [Task.exec_bind, hrun]
  · rename_i hempty
    obtain rfl := not_ne_iff.mp hempty
    exact ⟨w, rfl, hw, rfl, fun _ => rfl, fun _ => rfl⟩

/-- The old bars of a batch, if there are any. -/
theorem exec_old (batch : List Candle) (hw : w.Kept d) (h : ∀ c ∈ batch, d.parquet c) :
    ∃ w' : CandleTiers, (if batch ≠ [] then archive d .repository batch else pure ()).exec d.answer w =
        (.ok (), w') ∧ Archived d batch (partitions batch) w (.ok ()) w' := by
  split
  · have harchived := exec_archive .repository batch hw
    cases hrun : (archive d .repository batch).exec d.answer w with
    | mk r w' =>
        rw [hrun] at harchived
        obtain rfl : r = .ok () := harchived.fits h
        exact ⟨w', rfl, harchived⟩
  · rename_i hempty
    obtain rfl := not_ne_iff.mp hempty
    exact ⟨w, rfl, hw, rfl, rfl, fun _ => Or.inr rfl, fun _ _ _ => rfl, fun _ => rfl⟩

/-- **An upsert that fits** moves the copies of its bars and no others. -/
theorem exec_upsert {batch : List Candle} (hw : w.Kept d) (h : Fits d w batch) :
    ∃ w', (upsert d batch).exec d.answer w = (.ok (), w') ∧ w'.Kept d ∧ w'.clock = w.clock ∧
      ∀ k, w'.copy k = (Table.latest Candle.key k batch).or (w.copy k) := by
  obtain ⟨recent, hrecent⟩ : ∃ l, l = batch.filter fun c => !oldAt d w.clock c := ⟨_, rfl⟩
  obtain ⟨old, hold⟩ : ∃ l, l = batch.filter (oldAt d w.clock) := ⟨_, rfl⟩
  have hmem : ∀ c ∈ recent, c ∈ batch ∧ oldAt d w.clock c = false := by
    intro c hc
    rw [hrecent, List.mem_filter] at hc
    exact ⟨hc.1, by simpa using hc.2⟩
  obtain ⟨w₁, hrun, hkept, hclock, hhot, hcold⟩ := exec_recent recent
    (if old ≠ [] then archive d .repository old else pure ()) hw
    (hrecent ▸ h.keys.sublist (List.filter_sublist.map _))
    fun c hc => h.recent c (hmem c hc).1 (hmem c hc).2
  have hsplit : (upsert d batch).exec d.answer w =
      (if old ≠ [] then archive d .repository old else pure ()).exec d.answer w₁ := by
    rw [upsert, Task.exec_bind, exec_split, ← hrecent, ← hold]
    exact hrun
  obtain ⟨w₂, hrun₂, harchived⟩ := exec_old old hkept fun c hc => by
    rw [hold, List.mem_filter] at hc
    exact (h.old c hc.1 hc.2).1
  refine ⟨w₂, hsplit.trans hrun₂, harchived.kept, harchived.clock.trans hclock, fun k => ?_⟩
  have hhot₂ : w₂.hotCopy k = w₁.hotCopy k := by rw [hotCopy, harchived.hot, hotCopy]
  rw [copy, copy, hhot₂, hhot, harchived.coldCopy, hcold, hrecent, hold,
    Table.latest_filter h.keys, Table.latest_filter h.keys]
  cases hlast : Table.latest Candle.key k batch with
  | none => rfl
  | some c =>
      have hc := Table.mem_of_latest hlast
      by_cases hcold : oldAt d w.clock c
      · -- an old bar goes under no hot copy but its own
        have hsame := (h.old c hc hcold).2
        rw [Table.key_of_latest hlast] at hsame
        rw [Option.filter_some_neg (by simp [hcold]), Option.filter_some_pos hcold]
        cases hx : w.hotCopy k with
        | none => rfl
        | some x => rw [hsame x hx]; rfl
      · rw [Option.filter_some_pos (by simp [hcold])]
        rfl

end CandleRepository

/-! ## One after another -/

/-- What is done to the tiers, one thing after another. -/
inductive CandleOp
  | upsert (candles : List Candle)
  | rollup (timeframes : List Timeframe) (only : Option (List String))
  | advance (elapsed : ℕ)

namespace CandleOp

open CandleTiers CandleRepository

def perform (d : CandleSettings) : CandleOp → CandleTiers → CandleTiers
  | upsert candles, w => ((CandleRepository.upsert d candles).exec d.answer w).2
  | rollup timeframes only, w => ((CandleRollup.run d timeframes only).exec d.answer w).2
  | advance elapsed, w => w.later (w.clock + elapsed)

def performAll (d : CandleSettings) (ops : List CandleOp) (w : CandleTiers) : CandleTiers :=
  ops.foldl (fun w op => op.perform d w) w

/-- The bars an operation upserts. -/
def bars : CandleOp → List Candle
  | upsert candles => candles
  | rollup .. => []
  | advance _ => []

/-- Every batch fits when it is upserted. -/
def AllFit (d : CandleSettings) : CandleTiers → List CandleOp → Prop
  | _, [] => True
  | w, upsert candles :: rest => Fits d w candles ∧ AllFit d ((upsert candles).perform d w) rest
  | w, op :: rest => AllFit d (op.perform d w) rest

instance decidableAllFit : ∀ (w : CandleTiers) (ops : List CandleOp), Decidable (AllFit d w ops)
  | _, [] => isTrue trivial
  | w, upsert candles :: rest =>
      have := decidableAllFit ((upsert candles).perform d w) rest
      inferInstanceAs (Decidable (_ ∧ _))
  | w, rollup timeframes only :: rest =>
      decidableAllFit ((rollup timeframes only).perform d w) rest
  | w, advance elapsed :: rest => decidableAllFit ((advance elapsed).perform d w) rest

/-- One operation moves the copies of the bars it upserts to them, and no
others. -/
theorem copy_perform {op : CandleOp} (hw : w.Kept d)
    (hfits : ∀ candles, op = upsert candles → Fits d w candles) :
    (op.perform d w).Kept d ∧
      ∀ k, (op.perform d w).copy k = (Table.latest Candle.key k op.bars).or (w.copy k) := by
  cases op with
  | upsert candles =>
      obtain ⟨w', hrun, hkept, -, hcopy⟩ := exec_upsert hw (hfits candles rfl)
      rw [perform, hrun]
      exact ⟨hkept, hcopy⟩
  | rollup timeframes only =>
      have hquiet := CandleRollup.quiet_run timeframes only w hw
      exact ⟨hquiet.kept, hquiet.copy⟩
  | advance elapsed =>
      exact ⟨hw.later _, fun _ => rfl⟩

/-- After any number of them, a copy is the last bar upserted under its
key, or the one there was. -/
theorem copy_performAll {ops : List CandleOp} (hw : w.Kept d) (hops : AllFit d w ops) :
    (performAll d ops w).Kept d ∧ ∀ k, (performAll d ops w).copy k =
      (Table.latest Candle.key k (ops.flatMap bars)).or (w.copy k) := by
  induction ops generalizing w with
  | nil => exact ⟨hw, fun _ => rfl⟩
  | cons op rest ih =>
      have hstep : (∀ candles, op = upsert candles → Fits d w candles) ∧
          AllFit d (op.perform d w) rest := by
        cases op with
        | upsert candles =>
            refine ⟨fun candles' h => ?_, hops.2⟩
            obtain rfl : candles = candles' := by injection h
            exact hops.1
        | rollup timeframes only => exact ⟨fun _ h => (by cases h), hops⟩
        | advance elapsed => exact ⟨fun _ h => (by cases h), hops⟩
      obtain ⟨hkept, hcopy⟩ := copy_perform hw hstep.1
      obtain ⟨hkept', hcopy'⟩ := ih hkept hstep.2
      refine ⟨hkept', fun k => ?_⟩
      change (performAll d rest (op.perform d w)).copy k = _
      rw [hcopy' k, hcopy k, List.flatMap_cons, Table.latest_append, Option.or_assoc]

end CandleOp

namespace CandleRepository

/-- A range reads, in the order of time, the last of these bars under each
of its keys. -/
def ReadsLatest (d : CandleSettings) (w : CandleTiers) (bars : List Candle) (instrumentId : String)
    (timeframe : Timeframe) (start stop : Timestamp) : Prop :=
  ∃ l, ((getRange instrumentId timeframe start stop).exec d.answer w).1 = .ok l ∧
    (l.Pairwise fun a b => a.ts < b.ts) ∧
    ∀ c, c ∈ l ↔ c.instrumentId = instrumentId ∧ c.timeframe = timeframe ∧ start ≤ c.ts ∧
      c.ts < stop ∧ Table.latest Candle.key c.key bars = some c

open CandleOp

def day : Duration := 86400 * Timestamp.second

/-- One-minute bars stay hot for three days. -/
def sampleSettings : CandleSettings where
  placement := some fun _ => some (3 * day)
  retention _ := some (3 * day)
  bson _ := true
  parquet _ := true
  alerts := true
  order := id
  order_perm := List.Perm.refl

def sampleBar (t : Timestamp) (price : ℕ) : Candle where
  instrumentId := "I"
  timeframe := .m1
  ts := t
  openPrice := ⟨price⟩
  high := ⟨price⟩
  low := ⟨price⟩
  close := ⟨price⟩
  volume := 1
  isPartial := false
  low_le_open := le_refl _
  open_le_high := le_refl _
  low_le_close := le_refl _
  close_le_high := le_refl _

def sampleOps (between : List CandleOp) : List CandleOp :=
  [.upsert [sampleBar (10 * day) 100], .advance (4 * day).toNat] ++ between ++
    [.upsert [sampleBar (10 * day) 101]]

end CandleRepository

end Emporos
