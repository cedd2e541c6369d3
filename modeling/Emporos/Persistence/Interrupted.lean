import Emporos.Async.Solo
import Emporos.Persistence.Rollups
/-!
# Rollups that are cut short

A rollup run with nobody else at work, any of whose calls may fail with
nothing done, with all of it done, or, for a delete, with a part, and
which may crash between any two. Whatever happens no copy moves: a bar is
put in the cold tier before it leaves the hot one, and the hot copy wins
while there are two. So a range reads the same at every moment of any
number of such runs.
-/

namespace Emporos

open Async CandleTask

namespace CandleTiers

/-- The two tiers hold the same copies, and nothing came to the hot one. -/
structure Settled (w w' : CandleTiers) : Prop where
  copy : ∀ k, w'.copy k = w.copy k
  hot : w'.hot ⊆ w.hot

/-- What a call of a rollup may be answered, and what it leaves. -/
inductive Answered (d : CandleSettings) (w : CandleTiers) :
    (c : CandleCall) → Except PyError (candleInterface.Value c) → CandleTiers → Prop
  | answered {c : CandleCall} {clock : Timestamp} (h : w.clock ≤ clock) :
      Answered d w c (d.answer c (w.later clock)).1 (d.answer c (w.later clock)).2
  | refused {c : CandleCall} {clock : Timestamp} (h : w.clock ≤ clock) (e : PyError)
      (hget : ∀ object, c = .get object → e ≠ .other "ObjectNotFoundError") :
      Answered d w c (.error e) (w.later clock)
  /-- The call was carried out, and its reply lost. -/
  | unheard {c : CandleCall} {clock : Timestamp} (h : w.clock ≤ clock) (e : PyError)
      (hget : ∀ object, c = .get object → e ≠ .other "ObjectNotFoundError") :
      Answered d w c (.error e) (d.answer c (w.later clock)).2
  | partly {i : String} {tf : Timeframe} {stamps part : List Timestamp} {clock : Timestamp}
      (h : w.clock ≤ clock) (hpart : part ⊆ stamps) (e : PyError) :
      Answered d w (.hotDelete i tf stamps) (.error e) ((w.later clock).cleared i tf part)

/-- A process that runs rollups over tiers nobody else writes to. -/
def rollups (d : CandleSettings) : Setting candleInterface PyError RollupReport CandleTiers where
  answers := Answered d
  others _ _ := False
  starts w p w' := (∃ timeframes only, p = CandleRollup.run d timeframes only) ∧ w' = w
  restart w := w

variable {d : CandleSettings} {w w' w₁ w₂ w₃ : CandleTiers} {α β : Type} {i : String}
  {tf : Timeframe} {start stop : Timestamp}

theorem Settled.refl : Settled w w := ⟨fun _ => rfl, List.Subset.refl _⟩

theorem Settled.trans (h : Settled w₁ w₂) (h' : Settled w₂ w₃) : Settled w₁ w₃ :=
  ⟨fun k => (h'.copy k).trans (h.copy k), List.Subset.trans h'.hot h.hot⟩

theorem Settled.later (clock : Timestamp) : Settled w (w.later clock) :=
  ⟨fun _ => rfl, List.Subset.refl _⟩

/-- A range reads the same from tiers with the same copies. -/
theorem Settled.rangeOf_eq (hw : w.Kept d) (hw' : w'.Kept d) (h : Settled w w')
    (hstart : w.Sharp start) (hstop : w.Sharp stop) :
    CandleRepository.rangeOf w' i tf start stop = CandleRepository.rangeOf w i tf start stop := by
  have hsharp : ∀ {t : Timestamp}, w.Sharp t → w'.Sharp t := fun ht c hc => ht c (h.hot hc)
  have hmem : ∀ c, c ∈ CandleRepository.rangeOf w' i tf start stop ↔
      c ∈ CandleRepository.rangeOf w i tf start stop := by
    intro c
    rw [CandleRepository.mem_rangeOf hw' (hsharp hstart) (hsharp hstop),
      CandleRepository.mem_rangeOf hw hstart hstop, h.copy]
  -- both are in the order of time, so they are one list
  have hnodup : ∀ w : CandleTiers, (CandleRepository.rangeOf w i tf start stop).Nodup := by
    intro w
    refine (CandleRepository.pairwise_rangeOf (w := w)).imp ?_
    rintro a b hlt rfl
    exact lt_irrefl _ hlt
  refine ((List.perm_ext_iff_of_nodup (hnodup w') (hnodup w)).mpr hmem).eq_of_pairwise
    (fun a b _ _ hab hba => absurd hab (lt_asymm hba)) CandleRepository.pairwise_rangeOf
    CandleRepository.pairwise_rangeOf

/-- What rollups keep. -/
def rollupRules (d : CandleSettings) : Rules (rollups d) where
  inv w := w.Kept d
  guar := Settled
  guar_refl _ := .refl
  guar_trans := Settled.trans
  others_keep _ h := h.elim

/-- **The call rule**, where nobody else is at work. -/
theorem keeps_await {c : CandleCall} {Q : Except PyError (candleInterface.Value c) → CandleTiers → Prop}
    (h : w.Kept d → ∀ a w', Answered d w c a w' → w'.Kept d ∧ Settled w w' ∧ Q a w') :
    (rollupRules d).Keeps (await c) Q w := by
  intro w₁ hw hothers a w₂ hanswer
  obtain rfl : w = w₁ := by
    induction hothers with
    | refl => rfl
    | tail _ h _ => exact h.elim
  exact h hw a w₂ hanswer

/-- A call that leaves the tiers alone. -/
def Passive : CandleCall → Prop
  | .hotUpsert _ => False
  | .hotDelete .. => False
  | .put .. => False
  | _ => True

theorem Answered.of_passive {c : CandleCall} {a : Except PyError (candleInterface.Value c)}
    (h : Answered d w c a w') (hc : Passive c) : ∃ clock, w' = w.later clock := by
  cases h with
  | answered _ => cases c <;> first | exact hc.elim | exact ⟨_, rfl⟩
  | refused _ e _ => exact ⟨_, rfl⟩
  | unheard _ e _ => cases c <;> first | exact hc.elim | exact ⟨_, rfl⟩
  | partly => exact hc.elim

theorem Answered.eq_answer {c : CandleCall} {a : Except PyError (candleInterface.Value c)}
    (h : Answered d w c a w') :
    (∃ e, a = .error e) ∨ ∃ clock, a = (d.answer c (w.later clock)).1 := by
  cases h with
  | answered _ => exact Or.inr ⟨_, rfl⟩
  | refused _ e _ => exact Or.inl ⟨e, rfl⟩
  | unheard _ e _ => exact Or.inl ⟨e, rfl⟩
  | partly _ _ e => exact Or.inl ⟨e, rfl⟩

/-- A program of such calls. -/
theorem keeps_passive {p : CandleTask α} (hp : p.Only Passive) (hw : w.Kept d) :
    (rollupRules d).Keeps p (fun _ w' => ∃ clock, w' = w.later clock) w := by
  induction p generalizing w with
  | done r => exact ⟨w.clock, rfl⟩
  | call c k ih =>
      intro w₁ hw₁ hothers a w₂ hanswer
      obtain rfl : w = w₁ := by
        induction hothers with
        | refl => rfl
        | tail _ h _ => exact h.elim
      obtain ⟨clock, rfl⟩ := Answered.of_passive hanswer hp.1
      refine ⟨hw.later clock, .later clock, (ih a (hp.2 a) (hw.later clock)).mono ?_⟩
      rintro r w₃ ⟨clock', rfl⟩
      exact ⟨clock', rfl⟩

/-- A sequence of programs that promise nothing. -/
theorem keeps_seq {p : CandleTask α} {f : α → CandleTask β}
    (hp : (rollupRules d).Keeps p (fun _ _ => True) w) (hw : w.Kept d)
    (hf : ∀ a w, w.Kept d → (rollupRules d).Keeps (f a) (fun _ _ => True) w) :
    (rollupRules d).Keeps (p >>= f) (fun _ _ => True) w := by
  rw [Rules.keeps_bind]
  refine (hp.and_inv hw).mono fun r w' h => ?_
  cases r with
  | ok a => exact hf a w' h.2
  | error e => trivial

open ParquetCandleArchive

/-- A month that was read is what there is. -/
theorem keeps_readMonth {object : Partition} (hw : w.Kept d) :
    (rollupRules d).Keeps (readMonth object) (fun r w' => (∃ clock, w' = w.later clock) ∧
      ∀ rows, r = .ok rows → rows = (w.cold object).getD []) w := by
  rw [readMonth, Rules.keeps_bind, Rules.keeps_attempt]
  refine keeps_await fun _ a w' h => ?_
  obtain ⟨clock, rfl⟩ := h.of_passive trivial
  refine ⟨hw.later clock, .later clock, ?_⟩
  have hfailed : ∀ e : PyError, e ≠ .other "ObjectNotFoundError" →
      (rollupRules d).Keeps (orNone (.error e)) (fun r w' => (∃ clock, w' = w.later clock) ∧
        ∀ rows, r = .ok rows → rows = (w.cold object).getD []) (w.later clock) := by
    intro e he
    rw [orNone, if_neg he]
    exact ⟨⟨clock, rfl⟩, fun _ h => by cases h⟩
  cases h with
  | answered _ =>
      dsimp only
      rw [orNone_get]
      exact ⟨⟨_, rfl⟩, fun rows h => (Except.ok.inj h).symm⟩
  | refused _ e he => exact hfailed e (he object rfl)
  | unheard _ e he => exact hfailed e (he object rfl)

/-- An archive of hot bars under way: those of the objects it has put are
cold copies too. -/
structure Doubled (candles : List Candle) (left : List Partition) (w : CandleTiers) : Prop where
  hot : ∀ c ∈ candles, w.hotCopy c.key = some c
  cold : ∀ c ∈ candles, c.partition ∉ left → w.coldCopy c.key = some c

/-- A put of hot bars moves no copy: the hot one wins. -/
theorem settled_shelved {incoming : List Candle} {object : Partition} (hw : w.Kept d)
    (hplaced : ∀ c ∈ incoming, c.partition = object)
    (hhot : ∀ c ∈ incoming, w.hotCopy c.key = some c) :
    Settled w (w.shelved object (merged ((w.cold object).getD []) incoming)) := by
  refine ⟨fun k => ?_, List.Subset.refl _⟩
  rw [copy, copy, hotCopy_shelved, coldCopy_shelved_merged hw hplaced]
  cases hlast : Table.latest Candle.key k incoming with
  | none => rfl
  | some c =>
      rw [← Table.key_of_latest hlast, hhot c (Table.mem_of_latest hlast)]
      rfl

/-- A put, carried out or not, moves no copy. -/
theorem keeps_put {who : Archiver} {candles : List Candle} {object : Partition}
    {rest : List Partition} (hnd : (candles.map Candle.key).Nodup)
    (h : Doubled candles (object :: rest) w)
    (hall : (merged ((w.cold object).getD []) (candles.filter fun c => c.partition = object)).all
      d.parquet) :
    (rollupRules d).Keeps (await (.put object (merged ((w.cold object).getD [])
        (candles.filter fun c => c.partition = object))
        (candles.filter fun c => c.partition = object) who))
      (fun r w' => r = .ok () → Doubled candles rest w') w := by
  refine keeps_await fun hw a w' hanswer => ?_
  have hplaced : ∀ c ∈ candles.filter (fun c => c.partition = object), c.partition = object :=
    fun c hc => by simpa using (List.mem_filter.mp hc).2
  have hput : ∀ clock, ((w.later clock).shelved object (merged ((w.cold object).getD [])
      (candles.filter fun c => c.partition = object))).Kept d ∧
      Settled w ((w.later clock).shelved object (merged ((w.cold object).getD [])
        (candles.filter fun c => c.partition = object))) := fun clock =>
    ⟨(hw.later clock).shelved_merged hplaced hall,
      (Settled.later clock).trans (settled_shelved (hw.later clock) hplaced fun c hc =>
        h.hot c (List.mem_of_mem_filter hc))⟩
  cases hanswer with
  | @answered _ clock hle =>
      obtain ⟨hkept, hsettled⟩ := hput clock
      refine ⟨hkept, hsettled, fun _ => ⟨h.hot, fun c hc hrest => ?_⟩⟩
      refine (coldCopy_shelved_merged (hw.later clock) hplaced).trans ?_
      by_cases hobject : c.partition = object
      · rw [Table.latest_of_mem (hnd.sublist (List.filter_sublist.map _))
          (List.mem_filter.mpr ⟨hc, decide_eq_true hobject⟩)]
        rfl
      · have hnone : Table.latest Candle.key c.key (candles.filter fun c => c.partition = object) =
            none := by
          refine Table.latest_eq_none.mpr fun x hx hxc => hobject ?_
          rw [← hplaced x hx, ← Candle.partition_key, ← Candle.partition_key, hxc]
        rw [hnone]
        exact h.cold c hc (by simp [hobject, hrest])
  | @refused _ clock hle e hget =>
      exact ⟨hw.later clock, .later clock, fun h => by cases h⟩
  | @unheard _ clock hle e hget =>
      obtain ⟨hkept, hsettled⟩ := hput clock
      exact ⟨hkept, hsettled, fun h => by cases h⟩

theorem keeps_archiveInto {who : Archiver} {candles : List Candle}
    (hnd : (candles.map Candle.key).Nodup) (left : List Partition) (hw : w.Kept d)
    (h : Doubled candles left w) : (rollupRules d).Keeps (archiveInto d who candles left)
      (fun r w' => r = .ok () → Doubled candles [] w') w := by
  induction left generalizing w with
  | nil => exact fun _ => h
  | cons object rest ih =>
      rw [archiveInto, Rules.keeps_bind]
      refine (keeps_readMonth hw).mono ?_
      rintro r - ⟨⟨clock, rfl⟩, hread⟩
      cases r with
      | error e => exact fun h => by cases h
      | ok existing =>
          obtain rfl := hread existing rfl
          dsimp only
          rw [Rules.keeps_bind]
          by_cases hall : (merged ((w.cold object).getD [])
              (candles.filter fun c => c.partition = object)).all d.parquet
          · have hencode : encode d (merged ((w.cold object).getD [])
                (candles.filter fun c => c.partition = object)) = .ok _ := if_pos hall
            rw [hencode]
            change (rollupRules d).Keeps (await (.put object _ _ who) >>= _) _ _
            rw [Rules.keeps_bind]
            refine ((keeps_put (w := w.later clock) hnd ⟨h.hot, h.cold⟩ hall).and_inv
              (hw.later clock)).mono ?_
            rintro r w₃ ⟨hput, hkept⟩
            cases r with
            | error e => exact fun h => by cases h
            | ok _ => exact ih hkept (hput rfl)
          · have hencode : encode d (merged ((w.cold object).getD [])
                (candles.filter fun c => c.partition = object)) =
                  .error (.other "ArrowInvalid") := if_neg hall
            rw [hencode]
            exact fun h => by cases h

/-! ## Deleting -/

/-- Bars that were read from the hot tier and are in both. -/
structure Copied (i : String) (tf : Timeframe) (old : List Candle) (w : CandleTiers) : Prop
    extends CandleRollup.Aged i tf old where
  cold : ∀ c ∈ old, w.coldCopy c.key = some c
  hot : ∀ c ∈ old, ∀ x, w.hotCopy c.key = some x → x = c

/-- Deleting any of them moves no copy. -/
theorem Copied.settled_cleared {old : List Candle} {stamps : List Timestamp} (hw : w.Kept d)
    (h : Copied i tf old w) (hstamps : stamps ⊆ old.map (·.ts)) :
    (w.cleared i tf stamps).Kept d ∧ Settled w (w.cleared i tf stamps) ∧
      Copied i tf old (w.cleared i tf stamps) := by
  have halike : w.Alike d (w.cleared i tf stamps) := by
    refine alike_cleared hw fun k x hhot hki hktf hkts => ?_
    obtain ⟨c, hc, rfl⟩ := h.exists_of_stamp hstamps hki hktf hkts
    rw [h.hot c hc x hhot]
    exact h.cold c hc
  refine ⟨halike.kept, ⟨halike.copy, List.filter_sublist.subset⟩,
    h.toAged, h.cold, fun c hc x hx => ?_⟩
  rw [hotCopy_cleared] at hx
  split at hx
  · cases hx
  · exact h.hot c hc x hx

theorem keeps_deleteAll {old : List Candle} (batches : List (List Timestamp)) (deleted : ℕ)
    (hbatches : ∀ stamps ∈ batches, stamps ⊆ old.map (·.ts)) (hw : w.Kept d)
    (h : Copied i tf old w) :
    (rollupRules d).Keeps (CandleRollup.deleteAll i tf batches deleted) (fun _ _ => True) w := by
  induction batches generalizing w deleted with
  | nil => trivial
  | cons stamps rest ih =>
      have hstamps := hbatches stamps (List.mem_cons_self ..)
      -- however much of the batch is deleted
      have hcleared : ∀ clock part, part ⊆ stamps →
          ((w.later clock).cleared i tf part).Kept d ∧
            Settled w ((w.later clock).cleared i tf part) ∧
            Copied i tf old ((w.later clock).cleared i tf part) := by
        intro clock part hpart
        obtain ⟨hkept, hsettled, hcopied⟩ := Copied.settled_cleared (w := w.later clock)
          (hw.later clock) ⟨h.toAged, h.cold, h.hot⟩ (List.Subset.trans hpart hstamps)
        exact ⟨hkept, (Settled.later clock).trans hsettled, hcopied⟩
      rw [CandleRollup.deleteAll, Rules.keeps_bind]
      refine keeps_await fun _ a w' hanswer => ?_
      cases hanswer with
      | @answered _ clock hle =>
          obtain ⟨hkept, hsettled, hcopied⟩ := hcleared clock stamps (List.Subset.refl _)
          exact ⟨hkept, hsettled, ih _ (fun s hs => hbatches s (List.mem_cons_of_mem _ hs)) hkept
            hcopied⟩
      | @refused _ clock hle e hget => exact ⟨hw.later clock, .later clock, trivial⟩
      | @unheard _ clock hle e hget =>
          obtain ⟨hkept, hsettled, -⟩ := hcleared clock stamps (List.Subset.refl _)
          exact ⟨hkept, hsettled, trivial⟩
      | @partly _ _ _ part clock hle hpart e =>
          obtain ⟨hkept, hsettled, -⟩ := hcleared clock part hpart
          exact ⟨hkept, hsettled, trivial⟩

/-! ## Rolling up -/

/-- **One rollup**, however it ends: no copy has moved. -/
theorem keeps_roll {cutoff : Timestamp} {report : RollupReport} (hw : w.Kept d) :
    (rollupRules d).Keeps (CandleRollup.roll d i tf cutoff report) (fun _ _ => True) w := by
  rw [CandleRollup.roll, Rules.keeps_bind]
  refine keeps_await fun _ a w' hanswer => ?_
  obtain ⟨clock, rfl⟩ := hanswer.of_passive trivial
  refine ⟨hw.later clock, .later clock, ?_⟩
  cases a with
  | error e => trivial
  | ok old =>
      obtain rfl : old = MongoCandleStore.read w.hot i tf 0 cutoff := by
        rcases hanswer.eq_answer with ⟨e, h⟩ | ⟨clock', h⟩
        · cases h
        · exact Except.ok.inj h
      obtain ⟨haged, hhot⟩ := CandleRollup.aged_read hw i tf 0 cutoff
      dsimp only
      split
      · trivial
      rw [Rules.keeps_bind, Rules.keeps_attempt, Rules.keeps_bind]
      refine ((keeps_archiveInto haged.keys _ (hw.later clock)
        ⟨hhot, fun c hc hleft => absurd ?_ hleft⟩).and_inv (hw.later clock)).mono ?_
      · exact List.mem_eraseDups.mpr (List.mem_map_of_mem hc)
      rintro r w₂ ⟨harchived, hw₂⟩
      cases r with
      | error e => trivial
      | ok _ =>
          refine (keeps_passive (CandleRollup.only_verify (fun _ => trivial) _) hw₂).mono ?_
          rintro r - ⟨clock₂, rfl⟩
          have hboth := harchived rfl
          cases r with
          | error e => trivial
          | ok _ =>
              refine keeps_seq (keeps_deleteAll _ 0 (fun stamps hstamps s hs => ?_)
                (hw₂.later clock₂) ⟨haged, fun c hc => hboth.cold c hc List.not_mem_nil,
                  fun c hc x hx => ?_⟩) (hw₂.later clock₂) fun _ _ _ => trivial
              · exact CandleRollup.mem_flatten_batches.mp
                  (List.mem_flatten.mpr ⟨stamps, hstamps, hs⟩)
              · rw [hotCopy_later, hboth.hot c hc, Option.some.injEq] at hx
                exact hx.symm

theorem keeps_rollInstruments {only : Option (List String)} {cutoff : Timestamp}
    (instruments : List String) (report : RollupReport) (hw : w.Kept d) :
    (rollupRules d).Keeps (CandleRollup.rollInstruments d only tf cutoff instruments report)
      (fun _ _ => True) w := by
  induction instruments generalizing report w with
  | nil => trivial
  | cons i rest ih =>
      rw [CandleRollup.rollInstruments]
      split
      · exact ih report hw
      · exact keeps_seq (keeps_roll hw) hw fun report _ hw => ih report hw

/-- A program that leaves the tiers alone promises nothing. -/
theorem keeps_nothing {p : CandleTask α} (hp : p.Only Passive) (hw : w.Kept d) :
    (rollupRules d).Keeps p (fun _ _ => True) w :=
  (keeps_passive hp hw).mono fun _ _ _ => trivial

theorem keeps_rollTimeframes {only : Option (List String)} (timeframes : List Timeframe)
    (report : RollupReport) (hw : w.Kept d) :
    (rollupRules d).Keeps (CandleRollup.rollTimeframes d only timeframes report)
      (fun _ _ => True) w := by
  induction timeframes generalizing report w with
  | nil => trivial
  | cons tf rest ih =>
      refine keeps_seq (keeps_nothing (CandleRepository.only_hotCutoff trivial) hw) hw
        fun cutoff w hw => ?_
      cases cutoff with
      | none => exact ih report hw
      | some cutoff =>
          exact keeps_seq (keeps_nothing (Task.only_ask (I := candleInterface)
            (c := .instrumentsBefore tf cutoff) trivial) hw) hw fun instruments w hw =>
              keeps_seq (keeps_rollInstruments instruments report hw) hw fun report w hw =>
                ih report hw

theorem keeps_run {timeframes : List Timeframe} {only : Option (List String)} (hw : w.Kept d) :
    (rollupRules d).Keeps (CandleRollup.run d timeframes only) (fun _ _ => True) w := by
  refine keeps_seq (keeps_rollTimeframes _ _ hw) hw fun report w hw => ?_
  split
  · exact keeps_seq (keeps_nothing (Task.only_ask (I := candleInterface) (c := .alert _ _) trivial)
      hw) hw fun _ _ _ => trivial
  · trivial

open CandleRepository (sampleSettings sampleBar day)

def sampleTiers : CandleTiers := ⟨20 * day, [sampleBar (day / 2) 100], fun _ => none⟩

theorem sampleTiers_kept : sampleTiers.Kept sampleSettings :=
  have hwhole : ∀ c ∈ [sampleBar (day / 2) 100], c.ts.Whole := by decide
  (Kept.empty (20 * day)).written hwhole

/-- The run after `n` calls that were all answered. -/
def sampleRun (n : ℕ) : Solo candleInterface PyError RollupReport CandleTiers :=
  Solo.advance (fun w c => sampleSettings.answer c w) (fun _ => true) n
    ⟨sampleTiers, some (CandleRollup.run sampleSettings [.m1] none)⟩

theorem reach_sampleRun (n : ℕ) :
    Solo.Reach (rollups sampleSettings) ⟨sampleTiers, none⟩ (sampleRun n) := by
  have hstart : Solo.Reach (rollups sampleSettings) ⟨sampleTiers, none⟩
      ⟨sampleTiers, some (CandleRollup.run sampleSettings [.m1] none)⟩ :=
    .single ⟨.start, .start ⟨⟨[.m1], none, rfl⟩, rfl⟩⟩
  have hreply : ∀ w c, (rollups sampleSettings).answers w c (sampleSettings.answer c w).1
      (sampleSettings.answer c w).2 := fun w c => Answered.answered (Int.le_refl w.clock)
  exact hstart.trans (Solo.Reach.of_restrict (Solo.reach_advance hreply n _))

end CandleTiers

end Emporos
