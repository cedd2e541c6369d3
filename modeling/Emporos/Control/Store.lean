import Emporos.Control.Processor
/-!
# The store of commands

`Sane` is the invariant of the store: attempts are counted before a handler
starts and never exceed the limit, and a final status in the log is the
status of its command. What others do keeps it, and so does every legal
update, log entry and start.
-/

namespace Emporos

open Async

namespace CommandStatus

/-- How far a command has come. -/
def rank : CommandStatus → ℕ
  | pending => 0
  | accepted => 1
  | executing => 2
  | done | failed | rejected | expired => 3

theorem rank_le (s : CommandStatus) : s.rank ≤ 3 := by cases s <;> decide

/-- A final status is as far as a command comes. -/
theorem of_terminal {s : CommandStatus} (h : s.terminal) :
    s.rank = 3 ∧ s ≠ .pending ∧ s ≠ .accepted := by
  cases s <;> simp_all [terminal, rank]

theorem of_interrupted {s : CommandStatus} (h : s ∈ interrupted) :
    s.terminal = false ∧ s.rank ≤ 2 ∧ s ≠ .pending := by
  cases s <;> simp_all [interrupted, terminal, rank]

/-- A status that may follow another, or stay. -/
def Forward (s s' : CommandStatus) : Prop := s.rank ≤ s'.rank ∧ (s.terminal → s' = s)

theorem Forward.refl (s : CommandStatus) : Forward s s := ⟨le_rfl, fun _ => rfl⟩

theorem Forward.trans {s s' s'' : CommandStatus} (h : Forward s s') (h' : Forward s' s'') :
    Forward s s'' := by
  refine ⟨h.1.trans h'.1, fun ht => ?_⟩
  obtain rfl := h.2 ht
  exact h'.2 ht

end CommandStatus

namespace ControlWorld

open CommandProcessor CommandRepository

/-- How often the handler of a command was started. -/
def started (w : ControlWorld) (id : String) : ℕ := w.starts.countP fun s => s.commandId = id

/-- The invariant of the store and the log. -/
structure Sane (w : ControlWorld) : Prop where
  keys : (w.commands.map (·.id)).Nodup
  bounded : ∀ c ∈ w.commands, c.attempts ≤ maxAttempts
  unstarted : ∀ c ∈ w.commands, c.status = .pending ∨ c.status = .accepted → c.attempts = 0
  counted : ∀ c ∈ w.commands, w.started c.id ≤ c.attempts
  known : ∀ s ∈ w.starts, ∃ c ∈ w.commands, c.id = s.commandId
  logged : ∀ r ∈ w.results, ∀ s, r.status = some s → s.terminal →
    ∃ c ∈ w.commands, c.id = r.commandId ∧ c.status = s

/-- Every command is still there, and has not gone back. -/
def Onward (w w' : ControlWorld) : Prop :=
  ∀ c ∈ w.commands, ∃ c' ∈ w'.commands, c'.id = c.id ∧ c.status.Forward c'.status

/-- Pending rows are added and none is changed. -/
structure Grows (w w' : ControlWorld) : Prop where
  kept : ∀ c ∈ w.commands, c ∈ w'.commands
  added : ∀ c ∈ w'.commands, c ∈ w.commands ∨ c.status = .pending

/-- The same, and no handler is started. -/
structure Extends (w w' : ControlWorld) : Prop extends Grows w w' where
  starts : w'.starts = w.starts

theorem Grows.trans {w w' w'' : ControlWorld} (h : Grows w w') (h' : Grows w' w'') :
    Grows w w'' where
  kept c hc := h'.kept c (h.kept c hc)
  added c hc := (h'.added c hc).elim (h.added c) Or.inr

theorem Extends.refl (w : ControlWorld) : Extends w w := ⟨⟨fun _ h => h, fun _ h => Or.inl h⟩, rfl⟩

theorem Extends.trans {w w' w'' : ControlWorld} (h : Extends w w') (h' : Extends w' w'') :
    Extends w w'' :=
  ⟨h.toGrows.trans h'.toGrows, h'.starts.trans h.starts⟩

theorem Extends.onward {w w' : ControlWorld} (h : Extends w w') : Onward w w' :=
  fun c hc => ⟨c, h.kept c hc, rfl, .refl _⟩

variable {w w' : ControlWorld}

theorem Others.extends (h : Others w w') : Extends w w' := by
  cases h with
  | clock time => exact ⟨⟨fun d hd => hd, fun d hd => Or.inl hd⟩, rfl⟩
  | progress r hstatus => exact ⟨⟨fun d hd => hd, fun d hd => Or.inl hd⟩, rfl⟩
  | submit c hid hstatus hattempts =>
      refine ⟨⟨fun d hd => List.mem_append_left _ hd, fun d hd => ?_⟩, rfl⟩
      rcases List.mem_append.mp hd with hd | hd
      · exact Or.inl hd
      · exact Or.inr (by rw [List.mem_singleton.mp hd, hstatus])

theorem extends_of_others (h : Relation.ReflTransGen Others w w') : Extends w w' := by
  induction h with
  | refl => exact .refl _
  | tail _ hs ih => exact ih.trans hs.extends

/-- What others do keeps the store sane. -/
theorem Sane.others (h : Sane w) (ho : Others w w') : Sane w' := by
  cases ho with
  | clock time => exact ⟨h.keys, h.bounded, h.unstarted, h.counted, h.known, h.logged⟩
  | progress r hstatus =>
      refine ⟨h.keys, h.bounded, h.unstarted, h.counted, h.known, fun r' hr' s hs ht => ?_⟩
      rcases List.mem_append.mp hr' with hr' | hr'
      · exact h.logged r' hr' s hs ht
      · rw [List.mem_singleton.mp hr', hstatus] at hs
        cases hs
  | submit c hid hstatus hattempts =>
      have hnone : w.started c.id = 0 := by
        refine List.countP_eq_zero.mpr fun s hs => ?_
        obtain ⟨d, hd, hds⟩ := h.known s hs
        have hne := hid d hd
        rw [hds] at hne
        simpa using hne
      refine
        { keys := ?_
          bounded := fun d hd => ?_
          unstarted := fun d hd hs => ?_
          counted := fun d hd => ?_
          known := fun s hs => ?_
          logged := fun r hr s hs ht => ?_ }
      · rw [List.map_append, List.map_singleton, List.nodup_append]
        refine ⟨h.keys, List.nodup_singleton _, ?_⟩
        rintro a ha b hb rfl
        obtain ⟨d, hd, hda⟩ := List.mem_map.mp ha
        exact hid d hd (hda.trans (List.mem_singleton.mp hb))
      · rcases List.mem_append.mp hd with hd | hd
        · exact h.bounded d hd
        · rw [List.mem_singleton.mp hd, hattempts]
          exact Nat.zero_le _
      · rcases List.mem_append.mp hd with hd | hd
        · exact h.unstarted d hd hs
        · rw [List.mem_singleton.mp hd, hattempts]
      · rcases List.mem_append.mp hd with hd | hd
        · exact h.counted d hd
        · rw [List.mem_singleton.mp hd]
          exact hnone.trans_le (Nat.zero_le _)
      · obtain ⟨d, hd, hds⟩ := h.known s hs
        exact ⟨d, List.mem_append_left _ hd, hds⟩
      · obtain ⟨d, hd, hds⟩ := h.logged r hr s hs ht
        exact ⟨d, List.mem_append_left _ hd, hds⟩

/-- An update that moves a command forward, within its attempts. -/
def Legal (w : ControlWorld) (u : CommandUpdate) : Prop :=
  ∀ c ∈ w.commands, c.id = u.id → c.status ∈ u.allowedFrom →
    c.status.terminal = false ∧ c.status.rank ≤ u.target.rank ∧
    (u.target = .pending ∨ u.target = .accepted → c.attempts = 0 ∧ u.countAttempt = false) ∧
    (u.countAttempt → c.attempts < maxAttempts)

theorem of_matching {u : CommandUpdate} {rows : List CommandRecord} {c : CommandRecord}
    (h : matching u rows = some c) : c ∈ rows ∧ c.id = u.id ∧ c.status ∈ u.allowedFrom := by
  rw [matching, Option.filter_eq_some_iff] at h
  exact ⟨Table.mem_of_lookup h.1, Table.key_of_lookup h.1, by simpa using h.2⟩

/-- The rows after an update: the others stay, and the one it moved is
updated. -/
theorem mem_transition {u : CommandUpdate} {rows : List CommandRecord} {c : CommandRecord}
    (hc : c ∈ (transition u rows).1) :
    (c ∈ rows ∧ (matching u rows = none ∨ c.id ≠ u.id)) ∨
      ∃ d, matching u rows = some d ∧ c = updated u d := by
  unfold transition at hc
  cases hm : matching u rows with
  | none => exact Or.inl ⟨by simpa [hm] using hc, Or.inl rfl⟩
  | some d =>
      rw [hm] at hc
      rcases Table.mem_replace.mp hc with ⟨rfl, -⟩ | ⟨hmem, hne⟩
      · exact Or.inr ⟨d, rfl, rfl⟩
      · exact Or.inl ⟨hmem, Or.inr (by rw [← (of_matching hm).2.1]; exact hne)⟩

/-- A row of another command is not touched by an update. -/
theorem mem_transition_of_ne {u : CommandUpdate} {rows : List CommandRecord} {c : CommandRecord}
    (hc : c ∈ rows) (hne : c.id ≠ u.id) : c ∈ (transition u rows).1 := by
  unfold transition
  cases hm : matching u rows with
  | none => exact hc
  | some d => exact (Table.mem_replace_of_ne (by
      change c.id ≠ d.id
      rw [(of_matching hm).2.1]
      exact hne)).mpr hc

theorem updated_mem_transition {u : CommandUpdate} {rows : List CommandRecord} {d : CommandRecord}
    (h : matching u rows = some d) : updated u d ∈ (transition u rows).1 := by
  rw [transition, h]
  exact Table.row_mem_replace (of_matching h).1 rfl

theorem map_id_transition {u : CommandUpdate} {rows : List CommandRecord} :
    (transition u rows).1.map (·.id) = rows.map (·.id) := by
  unfold transition
  cases matching u rows with
  | none => rfl
  | some d => exact Table.map_key_replace

/-- **A legal update keeps the store sane**, and moves commands forward. -/
theorem Sane.transition {u : CommandUpdate} (h : Sane w) (hu : Legal w u) :
    Sane (w.landed (.transition u)) ∧ Onward w (w.landed (.transition u)) := by
  have hrow : ∀ c ∈ (CommandRepository.transition u w.commands).1, c ∈ w.commands ∨
      ∃ d ∈ w.commands, d.id = u.id ∧ d.status ∈ u.allowedFrom ∧ c = updated u d := by
    intro c hc
    rcases mem_transition hc with ⟨hc, -⟩ | ⟨d, hd, rfl⟩
    · exact Or.inl hc
    · obtain ⟨hmem, hid, hallowed⟩ := of_matching hd
      exact Or.inr ⟨d, hmem, hid, hallowed, rfl⟩
  refine ⟨
    { keys := by
        change ((CommandRepository.transition u w.commands).1.map (·.id)).Nodup
        rw [map_id_transition]
        exact h.keys
      bounded := fun c hc => ?_
      unstarted := fun c hc hs => ?_
      counted := fun c hc => ?_
      known := fun s hs => ?_
      logged := fun r hr s hs ht => ?_ }, fun c hc => ?_⟩
  · rcases hrow c hc with hc | ⟨d, hd, hid, hallowed, rfl⟩
    · exact h.bounded c hc
    · obtain ⟨-, -, -, hcount⟩ := hu d hd hid hallowed
      have hle := h.bounded d hd
      cases hflag : u.countAttempt with
      | false => simpa [updated, hflag] using hle
      | true => simpa [updated, hflag, Nat.succ_le_iff] using hcount hflag
  · rcases hrow c hc with hc | ⟨d, hd, hid, hallowed, rfl⟩
    · exact h.unstarted c hc hs
    · obtain ⟨-, -, hzero, -⟩ := hu d hd hid hallowed
      obtain ⟨hattempts, hflag⟩ := hzero hs
      simp [updated, hattempts, hflag]
  · rcases hrow c hc with hc | ⟨d, hd, hid, hallowed, rfl⟩
    · exact h.counted c hc
    · exact (h.counted d hd).trans (Nat.le_add_right _ _)
  · obtain ⟨c, hc, hcs⟩ := h.known s hs
    have hid : c.id ∈ (CommandRepository.transition u w.commands).1.map (·.id) := by
      rw [map_id_transition]
      exact List.mem_map_of_mem hc
    obtain ⟨c', hc', hcid⟩ := List.mem_map.mp hid
    exact ⟨c', hc', hcid.trans hcs⟩
  · -- a command with a final status is not one the update finds
    obtain ⟨c, hc, hcid, hcs⟩ := h.logged r hr s hs ht
    refine ⟨c, ?_, hcid, hcs⟩
    by_cases hid : c.id = u.id
    · change c ∈ (CommandRepository.transition u w.commands).1
      rw [CommandRepository.transition]
      cases hm : matching u w.commands with
      | none => exact hc
      | some d =>
          obtain ⟨hd, hdid, hallowed⟩ := of_matching hm
          obtain rfl := Table.eq_of_key h.keys hc hd (hid.trans hdid.symm)
          have := (hu c hd hdid hallowed).1
          rw [hcs, ht] at this
          cases this
    · exact mem_transition_of_ne hc hid
  · by_cases hid : c.id = u.id
    · change ∃ c' ∈ (CommandRepository.transition u w.commands).1, _
      cases hm : matching u w.commands with
      | none => exact ⟨c, by rwa [CommandRepository.transition, hm], rfl, .refl _⟩
      | some d =>
          obtain ⟨hd, hdid, hallowed⟩ := of_matching hm
          obtain rfl := Table.eq_of_key h.keys hc hd (hid.trans hdid.symm)
          obtain ⟨hopen, hrank, -⟩ := hu c hd hdid hallowed
          exact ⟨_, updated_mem_transition hm, rfl, hrank, fun ht => by rw [hopen] at ht; cases ht⟩
    · exact ⟨c, mem_transition_of_ne hc hid, rfl, .refl _⟩

/-- An entry whose final status, if it has one, is its command's. -/
theorem Sane.insertResult {r : CommandResultRecord} (h : Sane w)
    (hr : ∀ s, r.status = some s → s.terminal →
      ∃ c ∈ w.commands, c.id = r.commandId ∧ c.status = s) :
    Sane (w.landed (.insertResult r)) where
  keys := h.keys
  bounded := h.bounded
  unstarted := h.unstarted
  counted := h.counted
  known := h.known
  logged r' hr' s hs ht := by
    rcases List.mem_append.mp hr' with hr' | hr'
    · exact h.logged r' hr' s hs ht
    · rw [List.mem_singleton.mp hr'] at hs ⊢
      exact hr s hs ht

/-- The start of a handler whose attempt is counted already. -/
theorem Sane.handle {kind : CommandType} {command c : CommandRecord} (h : Sane w)
    (hc : c ∈ w.commands) (hid : c.id = command.id) (hcount : w.started command.id < c.attempts) :
    Sane (w.landed (.handle kind command)) where
  keys := h.keys
  bounded := h.bounded
  unstarted := h.unstarted
  counted d hd := by
    have hstarted : (w.landed (.handle kind command)).started d.id
        = w.started d.id + if command.id = d.id then 1 else 0 := by
      simp [landed, started, List.countP_append, List.countP_singleton]
    rw [hstarted]
    by_cases hsame : command.id = d.id
    · obtain rfl := Table.eq_of_key h.keys hc hd (hid.trans hsame)
      rw [if_pos hsame, ← hsame]
      exact hcount
    · rw [if_neg hsame]
      exact h.counted d hd
  known s hs := by
    rcases List.mem_append.mp hs with hs | hs
    · exact h.known s hs
    · rw [List.mem_singleton.mp hs]
      exact ⟨c, hc, hid⟩
  logged := h.logged

theorem sane_empty (clock : Timestamp) : Sane ⟨clock, [], [], false, []⟩ where
  keys := List.nodup_nil
  bounded _ h := absurd h List.not_mem_nil
  unstarted _ h := absurd h List.not_mem_nil
  counted _ h := absurd h List.not_mem_nil
  known _ h := absurd h List.not_mem_nil
  logged _ h := absurd h List.not_mem_nil

/-- What a process remembers is no part of the store. -/
theorem Sane.recovered {w : ControlWorld} (h : Sane w) (b : Bool) :
    Sane { w with recovered := b } :=
  ⟨h.keys, h.bounded, h.unstarted, h.counted, h.known, h.logged⟩

end ControlWorld

end Emporos
