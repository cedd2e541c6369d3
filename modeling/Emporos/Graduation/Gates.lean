import Emporos.Async.Schedule
import Emporos.Graduation.Interleavings
/-!
# No gate is skipped

The law of the ledger in every run: whatever calls are made by whomever,
and wherever they give way to each other, the events of a strategy are
numbered from one on, each promotion was assessed before it was written, a
configuration stands where its own promotions took it, and a retirement is
the last event there is.
-/

namespace Emporos

namespace Graduation

open Async World

variable {R : Type} {cfg : Settings R}
  {s s' : Pool (calls R) GraduationError GraduationEvent (World R)}

/-- The programs of the service. -/
abbrev entry (cfg : Settings R) (p : Program R GraduationEvent) : Prop :=
  ∃ op : Op, p = op.program cfg

/-- The empty ledger is sound. -/
theorem sound_start : Sound cfg (start : World R) :=
  ⟨fun _ => .nil, fun _ he _ => absurd he List.not_mem_nil⟩

theorem Run.sound (h : Run cfg s) : s.Sound (graduationContract cfg) Pool.nothing := by
  refine Pool.Reachable.sound (fun _ _ => trivial) ?_ (Pool.Sound.idle sound_start) h
  rintro p ⟨op, rfl⟩ t w _
  exact safe_op op

/-- The ledger is append-only. -/
theorem ledger_suffix (h : Pool.Reachable (platform R) (entry cfg) s s') :
    s.world.ledger <:+ s'.world.ledger := by
  induction h with
  | refl => exact List.suffix_refl _
  | tail _ hstep ih =>
      cases hstep with
      | start p hp => exact ih
      | run t ht hw => exact ih.trans (Later.of_step (t := t) hw).ledger
      | crash => exact ih

/-- That no gate was skipped on the way to what the ledger holds of a
strategy. -/
structure Gated (cfg : Settings R) (w : World R) (strategy : String) : Prop where
  numbered : (history w.ledger strategy).reverse.map (·.seq) =
    List.range' 1 (history w.ledger strategy).length
  /-- A promotion raises by one stage the configuration that it is of. -/
  raised : ∀ since e before, history w.ledger strategy = since ++ e :: before →
    e.kind = .promote → e.toStage.rank = e.fromStage.rank + 1 ∧
      e.fromStage = effectiveStage (latestOf before strategy) e.behaviourHash
  /-- It was assessed before it was written. -/
  assessed : ∀ e ∈ history w.ledger strategy, e.kind = .promote → ∃ t after answer earlier,
    w.trace = after ++ (⟨t, .append e, answer⟩ : Entry R) :: earlier ∧
      Assessed cfg t earlier strategy e.behaviourHash e.toStage e.evidence
  /-- A configuration on the road has climbed to where it stands. -/
  climbed : ∀ behaviourHash,
    effectiveStage (latestOf w.ledger strategy) behaviourHash ≠ .retired →
      ∃ since before, Lawful.Climbed (history w.ledger strategy) behaviourHash
        (effectiveStage (latestOf w.ledger strategy) behaviourHash) since before

/-- A sound ledger skipped no gate. -/
theorem Sound.gated_of_sound {w : World R} (h : Sound cfg w) (strategy : String) :
    Gated cfg w strategy := by
  have hlawful := h.lawful strategy
  have hlatest : latestOf w.ledger strategy = (history w.ledger strategy).head? :=
    hlawful.argmax_eq
  refine ⟨hlawful.seqs, fun since e before hsplit hkind => ⟨e.rank_of_promote hkind, ?_⟩,
    fun e he hkind => ?_, fun behaviourHash hne => ?_⟩
  · rw [hsplit] at hlawful
    -- the events before it are all of the strategy
    have hown : history before strategy = before := by
      refine List.filter_eq_self.mpr fun x hx => ?_
      have hmem : x ∈ history w.ledger strategy := by
        rw [hsplit]
        exact List.mem_append_right _ (List.mem_cons_of_mem _ hx)
      exact (List.mem_filter.mp hmem).2
    rw [latestOf, hown, hlawful.suffix.tail.argmax_eq]
    exact hlawful.suffix.origin
  · obtain ⟨hmem, hstrategy⟩ := List.mem_filter.mp he
    obtain rfl : e.strategy = strategy := by simpa using hstrategy
    exact h.assessed e hmem hkind
  · rw [hlatest] at hne ⊢
    exact hlawful.climbed hne

/-- **A retirement is the end**: what the strategy has then, it has ever
after. -/
theorem Run.history_of_retired (h : Run cfg s) {strategy : String} {e : GraduationEvent}
    (he : e ∈ history s.world.ledger strategy) (hretire : e.kind = .retire)
    (h' : Pool.Reachable (platform R) (entry cfg) s s') :
    history s'.world.ledger strategy = history s.world.ledger strategy := by
  have hlawful : Lawful (history s'.world.ledger strategy) :=
    (Run.sound (Relation.ReflTransGen.trans h h')).inv.lawful strategy
  obtain ⟨l₁, l₂, hsplit⟩ := List.append_of_mem he
  obtain ⟨later, hlater⟩ := history_suffix (ledger_suffix h')
  rw [← hlater, hsplit, ← List.append_assoc] at hlawful
  have hnone := hlawful.last_of_retired hretire
  rw [← hlater, (List.append_eq_nil_iff.mp hnone).1, List.nil_append]

/-- **No gate is skipped, in any run.** -/
theorem Run.gated (h : Run cfg s) (strategy : String) :
    Gated cfg s.world strategy ∧
      ∀ e ∈ history s.world.ledger strategy, e.kind = .retire →
        ∀ s', Pool.Reachable (platform R) (entry cfg) s s' →
          history s'.world.ledger strategy = history s.world.ledger strategy :=
  ⟨h.sound.inv.gated_of_sound strategy, fun _ he hretire _ h' => h.history_of_retired he hretire h'⟩

/-! Two callers promote the same configuration at once. Both have read an
empty ledger before either appends, and one of them is refused. -/

theorem sample_points : Text.isMeaningful "v-1" = true := by decide

theorem sample_nonempty (stage : GraduationStage) (rules : List Unit)
    (h : (if stage = .paper then some [()] else none) = some rules) : rules ≠ [] := by
  split at h
  · cases h
    exact List.cons_ne_nil _ _
  · cases h

def sampleSettings : Settings Unit :=
  ⟨⟨fun stage => if stage = .paper then some [()] else none, sample_nonempty⟩,
    fun _ => "validated_verdict", fun _ => "RuntimeError()"⟩

instance (ledger : List GraduationEvent) (event : GraduationEvent) :
    Decidable (Taken ledger event) :=
  inferInstanceAs (Decidable (∃ e ∈ ledger, e.strategy = event.strategy ∧ e.seq = event.seq))

def sampleAnswer (ledger : List GraduationEvent) :
    (c : Call Unit) → c.Answer × List GraduationEvent
  | .latest strategy => (.ok (latestOf ledger strategy), ledger)
  | .assess .. => (.ok ⟨none, some ⟨.verdict, "v-1", "", sample_points⟩⟩, ledger)
  | .now => (.ok 0, ledger)
  | .append event =>
      if Taken ledger event then (.error (.conflict event.strategy event.seq), ledger)
      else (.ok (), event :: ledger)

def sampleRespond : Responder (calls Unit) GraduationError (World Unit) := fun t w c =>
  some ((sampleAnswer w.ledger c).1,
    ⟨(sampleAnswer w.ledger c).2, ⟨t, c, (sampleAnswer w.ledger c).1⟩ :: w.trace⟩)

theorem sampleRespond_within : sampleRespond.Within (platform Unit) := by
  intro t w c a w' h
  cases h
  refine ⟨?_, rfl⟩
  cases c with
  | latest strategy => exact .latest
  | assess requirement request => exact .assess
  | now => exact .now
  | append event =>
      dsimp only [sampleAnswer]
      split
      · rename_i htaken
        exact .conflict htaken
      · rename_i hfree
        exact .appended hfree

def sampleOp : Op := .promote "orb" "sha256:1" .paper "operator" none false

/-- Both read, then the first ends, then the second. -/
def samplePool : Pool (calls Unit) GraduationError GraduationEvent (World Unit) :=
  Pool.play sampleRespond (platform Unit).restart (Op.program sampleSettings)
    [.start sampleOp, .start sampleOp, .run 0 1, .run 1 1, .run 0 9, .run 1 9]
    (Pool.idle start 0)

theorem samplePool_run : Run sampleSettings samplePool :=
  Pool.Reachable.play sampleRespond_within (fun op => ⟨op, rfl⟩) .refl _

theorem gated_sample :
    ((samplePool.world.ledger.map fun e => (e.kind, e.toStage, e.seq)) = [(.promote, .paper, 1)] ∧
        (samplePool.task 1).bind Task.ended = some (.error (.conflict "orb" 1))) ∧
      Gated sampleSettings samplePool.world "orb" :=
  ⟨⟨by decide, by decide⟩, (Run.gated samplePool_run "orb").1⟩

end Graduation

end Emporos
