import Emporos.Domain.Candles
import Mathlib.Data.List.Nodup
import Mathlib.Logic.Relation
/-!
# The candle persister

Closed bars wait in one list. A flush takes a batch from its front, awaits
the upsert, and deletes as many bars from the front as it took. Between the
two, bars are appended and other flushes delete, so what is at the front is
the batch only if nothing was deleted meanwhile.

A step of a run is what happens between two awaits. `handed`, `stored`,
`deleted` and `since` are what the proofs remember of a run; the code has
none of them.
-/

namespace Emporos

/-- A flush that awaits the upsert of a batch. -/
structure FlushCall where
  batch : List Candle
  /-- How many bars it has written so far. -/
  written : ℕ
  /-- How many bars had been deleted when it took the batch. -/
  since : ℕ
  deriving DecidableEq

/-- The persister, with the flushes in flight. -/
structure CandlePersister where
  pending : List Candle
  failures : ℕ
  calls : List FlushCall
  /-- What the flushes that ended returned. -/
  returned : List ℕ
  handed : List Candle
  stored : List (List Candle)
  deleted : ℕ
  deriving DecidableEq

namespace CandlePersister

/-- Nothing handed over, nothing in flight. -/
def new : CandlePersister := ⟨[], 0, [], [], [], [], 0⟩

inductive Event
  | onCandle (candle : Candle)
  | flush
  /-- The upsert a flush awaits succeeds, fails, or is cancelled with it. -/
  | upserted (call : ℕ)
  | failed (call : ℕ)
  | cancelled (call : ℕ)

/-- The head of the loop of `flush`, `written` so far: the next batch is
awaited while bars are pending. -/
def loop (batchSize written : ℕ) (s : CandlePersister) : CandlePersister :=
  if s.pending = [] then { s with returned := written :: s.returned }
  else { s with calls := s.calls ++ [⟨s.pending.take batchSize, written, s.deleted⟩] }

/-- The first `n` pending bars are deleted. -/
def delete (n : ℕ) (s : CandlePersister) : CandlePersister :=
  { s with pending := s.pending.drop n, deleted := s.deleted + min n s.pending.length }

/-- The call has ended. -/
def drop (call : ℕ) (s : CandlePersister) : CandlePersister :=
  { s with calls := s.calls.eraseIdx call }

def step (batchSize : ℕ) (s : CandlePersister) : Event → CandlePersister
  | .onCandle candle => { s with pending := s.pending ++ [candle], handed := s.handed ++ [candle] }
  | .flush => s.loop batchSize 0
  | .upserted i =>
      match s.calls[i]? with
      | none => s
      | some call =>
          ({ (s.drop i).delete call.batch.length with stored := call.batch :: s.stored }).loop batchSize
            (call.written + call.batch.length)
  | .failed i =>
      match s.calls[i]? with
      | none => s
      | some call =>
          { s.drop i with failures := s.failures + 1, returned := call.written :: s.returned }
  | .cancelled i => s.drop i

/-- The states a run from a new persister passes through. -/
def Reach (batchSize : ℕ) : CandlePersister → Prop :=
  Relation.ReflTransGen (fun s s' => ∃ e, s' = s.step batchSize e) new

/-- **No bar is lost**: each that was handed over is pending, or was in a
batch that was upserted. -/
def Kept (s : CandlePersister) : Prop :=
  ∀ candle ∈ s.handed, candle ∈ s.pending ∨ ∃ batch ∈ s.stored, candle ∈ batch

instance (s : CandlePersister) : Decidable s.Kept :=
  inferInstanceAs (Decidable (∀ candle ∈ s.handed, _))

/-- A flush whose upsert succeeds deletes no more bars than are left of its
batch, after those deleted since it took it. -/
def Fits (s : CandlePersister) : Event → Prop
  | .upserted i => ∀ call ∈ s.calls[i]?,
      min call.batch.length s.pending.length ≤ call.batch.length - (s.deleted - call.since)
  | _ => True

instance (s : CandlePersister) (e : Event) : Decidable (s.Fits e) := by
  cases e <;> unfold Fits <;> infer_instance

/-- The same through steps that fit. -/
def Fitting (batchSize : ℕ) : CandlePersister → Prop :=
  Relation.ReflTransGen (fun s s' => ∃ e, s.Fits e ∧ s' = s.step batchSize e) new

/-! ## What a run keeps -/

/-- The batch of a call is a stretch of what was handed over, from before
the front. -/
structure Stretch (handed : List Candle) (deleted : ℕ) (call : FlushCall) : Prop where
  since : call.since ≤ deleted
  batch : call.batch = (handed.drop call.since).take call.batch.length
  inside : call.since + call.batch.length ≤ handed.length

/-- What is pending is what was handed over after the bars deleted, and what
was stored is among these. -/
structure Tracked (s : CandlePersister) : Prop where
  pending : s.pending = s.handed.drop s.deleted
  deleted : s.deleted ≤ s.handed.length
  calls : ∀ call ∈ s.calls, Stretch s.handed s.deleted call
  stored : ∀ batch ∈ s.stored, ∀ candle ∈ batch, candle ∈ s.handed.take s.deleted

variable {s : CandlePersister} {batchSize written n i : ℕ} {e : Event} {call : FlushCall}
  {candle : Candle} {handed : List Candle} {deleted : ℕ}

theorem Stretch.append (h : Stretch handed deleted call) (later : List Candle) :
    Stretch (handed ++ later) deleted call := by
  refine ⟨h.since, ?_, by have := h.inside; rw [List.length_append]; omega⟩
  have hinside := h.inside
  rw [List.drop_append_of_le_length (by omega), List.take_append_of_le_length, ← h.batch]
  rw [List.length_drop]
  omega

theorem Stretch.mono {deleted' : ℕ} (h : Stretch handed deleted call) (hle : deleted ≤ deleted') :
    Stretch handed deleted' call :=
  ⟨h.since.trans hle, h.batch, h.inside⟩

/-- What is in the batch is what was handed over in its stretch. -/
theorem Stretch.mem (h : Stretch handed deleted call) : candle ∈ call.batch ↔
    ∃ k, call.since ≤ k ∧ k < call.since + call.batch.length ∧ handed[k]? = some candle := by
  rw [h.batch, List.mem_iff_getElem?]
  simp only [List.getElem?_take, List.getElem?_drop, List.length_take, List.length_drop]
  have := h.inside
  constructor
  · rintro ⟨k, hk⟩
    split_ifs at hk with hlt
    exact ⟨call.since + k, by omega, by omega, hk⟩
  · rintro ⟨k, hfrom, hto, hk⟩
    refine ⟨k - call.since, ?_⟩
    rw [if_pos (by omega), Nat.add_sub_cancel' hfrom]
    exact hk

namespace Tracked

theorem length_pending (h : s.Tracked) : s.pending.length = s.handed.length - s.deleted := by
  rw [h.pending, List.length_drop]

theorem new : CandlePersister.new.Tracked := ⟨rfl, le_rfl, by simp [CandlePersister.new],
  by simp [CandlePersister.new]⟩

theorem loop (h : s.Tracked) : (s.loop batchSize written).Tracked := by
  unfold CandlePersister.loop
  split_ifs
  · exact ⟨h.pending, h.deleted, h.calls, h.stored⟩
  · refine ⟨h.pending, h.deleted, fun call hcall => ?_, h.stored⟩
    rcases List.mem_append.mp hcall with hcall | hcall
    · exact h.calls call hcall
    · -- the batch is from the front
      obtain rfl := List.mem_singleton.mp hcall
      have hlength := h.length_pending
      have hdeleted := h.deleted
      refine ⟨le_rfl, ?_, ?_⟩
      · change s.pending.take batchSize = (s.handed.drop s.deleted).take (s.pending.take _).length
        rw [← h.pending, List.length_take, List.take_eq_take_iff]
        omega
      · change s.deleted + (s.pending.take batchSize).length ≤ s.handed.length
        rw [List.length_take]
        omega

theorem drop (h : s.Tracked) : (s.drop i).Tracked :=
  ⟨h.pending, h.deleted, fun call hcall => h.calls call (List.mem_of_mem_eraseIdx hcall), h.stored⟩

theorem delete (h : s.Tracked) : (s.delete n).Tracked := by
  have hlength := h.length_pending
  have hdeleted := h.deleted
  refine ⟨?_, ?_, fun call hcall => (h.calls call hcall).mono (Nat.le_add_right _ _), ?_⟩
  · change s.pending.drop n = s.handed.drop (s.deleted + min n s.pending.length)
    rw [← List.drop_drop, ← h.pending]
    rcases le_total n s.pending.length with hle | hle
    · rw [min_eq_left hle]
    · rw [min_eq_right hle, List.drop_length, List.drop_eq_nil_of_le hle]
  · change s.deleted + min n s.pending.length ≤ s.handed.length
    omega
  · intro batch hbatch candle hcandle
    exact (List.take_prefix_take_left (Nat.le_add_right _ _)).subset
      (h.stored batch hbatch candle hcandle)

/-- **Every run keeps track.** -/
theorem step (h : s.Tracked) (e : Event) : (s.step batchSize e).Tracked := by
  cases e with
  | onCandle candle =>
      have hdeleted := h.deleted
      refine ⟨?_, ?_, fun call hcall => (h.calls call hcall).append _, fun batch hbatch c hc => ?_⟩
      · change s.pending ++ [candle] = (s.handed ++ [candle]).drop s.deleted
        rw [List.drop_append_of_le_length hdeleted, h.pending]
      · change s.deleted ≤ (s.handed ++ [candle]).length
        rw [List.length_append]
        omega
      · change c ∈ (s.handed ++ [candle]).take s.deleted
        rw [List.take_append_of_le_length hdeleted]
        exact h.stored batch hbatch c hc
  | flush => exact h.loop
  | upserted i =>
      simp only [CandlePersister.step]
      cases hcall : s.calls[i]? with
      | none => exact h
      | some call =>
          have hstretch := h.calls call (List.mem_of_getElem? hcall)
          have hdeleted : ((s.drop i).delete call.batch.length).Tracked := h.drop.delete
          refine Tracked.loop ⟨hdeleted.pending, hdeleted.deleted, hdeleted.calls,
            fun batch hbatch c hc => ?_⟩
          rcases List.mem_cons.mp hbatch with rfl | hbatch
          · -- the front has moved past the batch
            obtain ⟨k, hfrom, hto, hk⟩ := hstretch.mem.1 hc
            have hlength := h.length_pending
            have hinside := hstretch.inside
            have hsince := hstretch.since
            refine List.mem_take_iff_getElem.mpr ⟨k, ?_, ?_⟩
            · change k < min (s.deleted + min call.batch.length s.pending.length) s.handed.length
              omega
            · exact (List.getElem?_eq_some_iff.mp hk).2
          · exact hdeleted.stored batch hbatch c hc
  | failed i =>
      simp only [CandlePersister.step]
      cases hcall : s.calls[i]? with
      | none => exact h
      | some call => exact ⟨h.pending, h.deleted, h.drop.calls, h.stored⟩
  | cancelled i => exact h.drop

end Tracked

/-! ## When no bar is lost -/

/-- Every bar deleted was stored. -/
def Safe (s : CandlePersister) : Prop :=
  ∀ candle ∈ s.handed.take s.deleted, ∃ batch ∈ s.stored, candle ∈ batch

theorem Safe.kept (h : s.Safe) (ht : s.Tracked) : s.Kept := by
  intro candle hcandle
  rw [← List.take_append_drop s.deleted s.handed, List.mem_append, ← ht.pending] at hcandle
  exact hcandle.symm.imp_right (h candle)

theorem safe_loop (h : s.Safe) : (s.loop batchSize written).Safe := by
  unfold CandlePersister.loop
  split_ifs
  · exact h
  · exact h

/-- **A step that fits loses nothing.** -/
theorem Safe.step (h : s.Safe) (ht : s.Tracked) (hfits : s.Fits e) : (s.step batchSize e).Safe := by
  cases e with
  | onCandle candle =>
      intro c hc
      change c ∈ (s.handed ++ [candle]).take s.deleted at hc
      rw [List.take_append_of_le_length ht.deleted] at hc
      exact h c hc
  | flush => exact safe_loop h
  | upserted i =>
      simp only [CandlePersister.step]
      cases hcall : s.calls[i]? with
      | none => exact h
      | some call =>
          have hstretch := ht.calls call (List.mem_of_getElem? hcall)
          have hfits := hfits call hcall
          have hsince := hstretch.since
          have hlength := ht.length_pending
          refine safe_loop fun c hc => ?_
          obtain ⟨k, hk, hck⟩ := List.mem_take_iff_getElem.mp hc
          change k < min (s.deleted + min call.batch.length s.pending.length) s.handed.length at hk
          rcases lt_or_ge k s.deleted with hlt | hge
          · -- it was deleted before
            obtain ⟨batch, hbatch, hc⟩ := h c (List.mem_take_iff_getElem.mpr ⟨k, by omega, hck⟩)
            exact ⟨batch, List.mem_cons_of_mem _ hbatch, hc⟩
          · refine ⟨call.batch, List.mem_cons_self, hstretch.mem.2 ⟨k, by omega, ?_, ?_⟩⟩
            · omega
            · exact List.getElem?_eq_some_iff.mpr ⟨by omega, hck⟩
  | failed i =>
      simp only [CandlePersister.step]
      cases hcall : s.calls[i]? with
      | none => exact h
      | some call => exact h
  | cancelled i => exact h

theorem kept_loop : (s.loop batchSize written).Kept ↔ s.Kept := by
  unfold CandlePersister.loop
  split_ifs
  · exact Iff.rfl
  · exact Iff.rfl

/-- **A step that does not fit loses a bar**, where no two that were handed
over are the same. -/
theorem not_kept_of_not_fits (ht : s.Tracked) (hnodup : s.handed.Nodup) (h : ¬ s.Fits e) :
    ¬ (s.step batchSize e).Kept := by
  cases e with
  | upserted i =>
      simp only [Fits, Option.mem_def, not_forall, not_le] at h
      obtain ⟨call, hcall, hbehind⟩ := h
      have hstretch := ht.calls call (List.mem_of_getElem? hcall)
      have hlength := ht.length_pending
      have hsince := hstretch.since
      simp only [CandlePersister.step, hcall, kept_loop]
      -- the first bar it deletes that is behind its batch
      let k := max (call.since + call.batch.length) s.deleted
      have hk : k < s.deleted + min call.batch.length s.pending.length := by omega
      have hlt : k < s.handed.length := by omega
      have hsame {m : ℕ} (hm : s.handed[m]? = some s.handed[k]) : m = k := by
        obtain ⟨hm', heq⟩ := List.getElem?_eq_some_iff.mp hm
        exact (hnodup.getElem_inj_iff).mp heq
      intro hkept
      rcases hkept s.handed[k] (List.getElem_mem hlt) with hpending | ⟨batch, hbatch, hmem⟩
      · obtain ⟨m, hm⟩ := List.mem_iff_getElem?.mp (show _ ∈ s.pending.drop call.batch.length from
          hpending)
        rw [ht.pending, List.drop_drop, List.getElem?_drop] at hm
        have := hsame hm
        omega
      · rcases List.mem_cons.mp hbatch with rfl | hbatch
        · obtain ⟨m, -, hm, hc⟩ := hstretch.mem.1 hmem
          have := hsame hc
          omega
        · obtain ⟨m, hm, hc⟩ := List.mem_take_iff_getElem.mp (ht.stored batch hbatch _ hmem)
          have := hsame (List.getElem?_eq_some_iff.mpr ⟨by omega, hc⟩)
          omega
  | onCandle | flush | failed | cancelled => exact absurd trivial h

theorem minute_sound : (⟨100⟩ : Money) ≤ ⟨100⟩ := le_rfl

/-- A minute of `I`. -/
def minute (ts : Timestamp) : Candle :=
  ⟨"I", .m1, ts, ⟨100⟩, ⟨100⟩, ⟨100⟩, ⟨100⟩, 1, false, minute_sound, minute_sound, minute_sound,
    minute_sound⟩

/-- What the events leave of a new persister. -/
def after (events : List Event) : CandlePersister := events.foldl (step 500) new

theorem reach_after (events : List Event) : Reach 500 (after events) := by
  induction events using List.reverseRecOn with
  | nil => exact .refl
  | append_singleton events e ih =>
      rw [after, List.foldl_append]
      exact ih.tail ⟨e, rfl⟩

end CandlePersister

end Emporos
