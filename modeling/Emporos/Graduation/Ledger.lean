import Emporos.Graduation.Service
import Mathlib.Data.List.Infix
import Mathlib.Data.List.Range
/-!
# The law of the graduation ledger

The events of a strategy are lawful: each is numbered after the one before
it and starts from the stage its configuration stood at then. A task reads
the newest event once and appends much later; what makes its reading hold at
the append is that the ledger refuses a number it already has, so that an
append which goes through follows the very event that was read.

From the law alone: a configuration that stands at a stage has climbed to it
(`Lawful.climbed`), and nothing follows a retirement (`Lawful.last_of_retired`).
-/

namespace Emporos

namespace Graduation

open Async World

/-! ## Lawful histories -/

/-- The events of one strategy, newest first, each following the ones
before it. -/
inductive Lawful : List GraduationEvent → Prop
  | nil : Lawful []
  | cons {e : GraduationEvent} {l : List GraduationEvent} (rest : Lawful l)
      (seq : e.seq = l.length + 1) (origin : e.fromStage = effectiveStage l.head? e.behaviourHash) :
      Lawful (e :: l)

namespace Lawful

variable {l l₁ l₂ : List GraduationEvent} {e : GraduationEvent} {behaviourHash : String}

theorem tail (h : Lawful (e :: l)) : Lawful l := by
  cases h with
  | cons rest _ _ => exact rest

theorem origin (h : Lawful (e :: l)) : e.fromStage = effectiveStage l.head? e.behaviourHash := by
  cases h with
  | cons _ _ origin => exact origin

theorem suffix (h : Lawful (l₁ ++ l₂)) : Lawful l₂ := by
  induction l₁ with
  | nil => exact h
  | cons e l₁ ih => exact ih h.tail

/-- The events are numbered from one on. -/
theorem seqs (h : Lawful l) : l.reverse.map (·.seq) = List.range' 1 l.length := by
  induction h with
  | nil => rfl
  | @cons e l rest seq _ ih =>
      rw [List.reverse_cons, List.map_append, ih, List.map_singleton, seq, List.length_cons,
        List.range'_concat, Nat.one_mul, Nat.add_comm 1]

theorem mem_seqs {n : ℕ} (h : Lawful l) (hpos : 1 ≤ n) (hle : n ≤ l.length) :
    ∃ e ∈ l, e.seq = n := by
  have hmem : n ∈ l.reverse.map (·.seq) := by
    rw [h.seqs, List.mem_range'_1]
    omega
  obtain ⟨e, he, hseq⟩ := List.mem_map.mp hmem
  exact ⟨e, List.mem_reverse.mp he, hseq⟩

theorem seq_le (h : Lawful l) (he : e ∈ l) : e.seq ≤ l.length := by
  have hmem : e.seq ∈ l.reverse.map (·.seq) := List.mem_map_of_mem (List.mem_reverse.mpr he)
  rw [h.seqs, List.mem_range'_1] at hmem
  omega

/-- The event with the highest number is the newest. -/
theorem argmax_eq (h : Lawful l) : l.argmax (·.seq) = l.head? := by
  cases h with
  | nil => rfl
  | @cons e l rest seq _ =>
      rw [List.head?_cons, ← Option.mem_def, List.mem_argmax_iff]
      refine ⟨List.mem_cons_self .., fun a ha => ?_, fun a _ _ => by simp⟩
      rcases List.mem_cons.mp ha with rfl | ha
      · exact le_rfl
      · have := rest.seq_le ha
        omega

/-- **Nothing follows a retirement.** -/
theorem last_of_retired (h : Lawful (l₁ ++ e :: l₂)) (hretired : e.kind = .retire) : l₁ = [] := by
  rcases List.eq_nil_or_concat l₁ with rfl | ⟨l, x, rfl⟩
  · rfl
  · rw [List.concat_eq_append, List.append_assoc] at h
    have hx : Lawful ([x] ++ e :: l₂) := h.suffix
    cases hx with
    | cons _ _ origin =>
        have hstage : x.fromStage = .retired :=
          origin.trans (effectiveStage_of_retired (e.retire_iff.mp hretired))
        exact absurd hstage x.from_ne_retired

/-- What a configuration has done to stand where it stands: since it last
stood at research, all events are its own, and among them are promotions to
every stage up to this one. -/
structure Climbed (l : List GraduationEvent) (behaviourHash : String) (stage : GraduationStage)
    (since before : List GraduationEvent) : Prop where
  split : l = since ++ before
  research : effectiveStage before.head? behaviourHash = .research
  own : ∀ e ∈ since, e.behaviourHash = behaviourHash
  /-- It has not stood at research again. -/
  left : ∀ a b, since = a ++ b → b ≠ [] → effectiveStage b.head? behaviourHash ≠ .research
  promoted : ∀ y : GraduationStage, 0 < y.rank → y.rank ≤ stage.rank →
    ∃ e ∈ since, e.kind = .promote ∧ e.toStage = y

theorem rank_injective {x y : GraduationStage} (h : x.rank = y.rank) : x = y := by
  cases x <;> cases y <;> simp_all [GraduationStage.rank]

/-- **A stage is climbed to**, one promotion after another, by the very
configuration that stands there. -/
theorem climbed (h : Lawful l) (hne : effectiveStage l.head? behaviourHash ≠ .retired) :
    ∃ since before, Climbed l behaviourHash (effectiveStage l.head? behaviourHash) since before := by
  induction h with
  | nil =>
      refine ⟨[], [], rfl, rfl, by simp, fun a b hab hb => ?_, fun y hpos hle => ?_⟩
      · exact absurd (List.append_eq_nil_iff.mp hab.symm).2 hb
      · exact absurd (hpos.trans_le hle) (lt_irrefl 0)
  | @cons e l rest seq origin ih =>
      rw [List.head?_cons] at hne ⊢
      by_cases hresearch : effectiveStage (some e) behaviourHash = .research
      · refine ⟨[], e :: l, rfl, hresearch, by simp, fun a b hab hb => ?_, fun y hpos hle => ?_⟩
        · exact absurd (List.append_eq_nil_iff.mp hab.symm).2 hb
        · rw [hresearch] at hle
          exact absurd (hpos.trans_le hle) (lt_irrefl 0)
      · obtain ⟨x, hx, rfl, hstage⟩ := of_effectiveStage rfl hresearch hne
        obtain rfl := Option.some.inj hx
        have hfrom : effectiveStage l.head? e.behaviourHash ≠ .retired :=
          origin ▸ e.from_ne_retired
        obtain ⟨since, before, hclimbed⟩ := ih hfrom
        rw [← origin] at hclimbed
        refine ⟨e :: since, before, by rw [hclimbed.split]; rfl, hclimbed.research, ?_, ?_, ?_⟩
        · intro x hx
          rcases List.mem_cons.mp hx with rfl | hx
          · rfl
          · exact hclimbed.own x hx
        · intro a b hab hb
          rcases a with _ | ⟨y, a⟩
          · rw [← (show e :: since = b from hab)]
            exact hresearch
          · exact hclimbed.left a b (List.cons.inj hab).2 hb
        · intro y hpos hle
          rw [← hstage] at hle
          by_cases hlow : y.rank ≤ e.fromStage.rank
          · obtain ⟨p, hp, hpromoted⟩ := hclimbed.promoted y hpos hlow
            exact ⟨p, List.mem_cons_of_mem _ hp, hpromoted⟩
          · -- only a promotion goes higher, and by one stage
            have hshape := e.shape
            rcases hkind : e.kind with _ | _ | _
            · have hrank := GraduationEvent.rank_of_promote hkind
              exact ⟨e, List.mem_cons_self .., hkind, rank_injective (by omega)⟩
            · rw [hkind] at hshape
              have := hshape.2.2
              omega
            · exact absurd (hstage.symm.trans (e.retire_iff.mp hkind)) hne

end Lawful

end Graduation

end Emporos
