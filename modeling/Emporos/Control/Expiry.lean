import Emporos.Control.Attempts
/-!
# Commands and their expiry

The expiry of a command is checked when it is claimed and not again. So its
handler starts in time (`OnTime`) in every run where the clock does not
pass the expiry of a command that is claimed and was never started
(`Timely`); and `recover` starts one that expired while the process was
down.
-/

namespace Emporos

open Async

namespace ControlWorld

open CommandProcessor CommandRepository

/-- The handler of every command was first started by its expiry. -/
def OnTime (w : ControlWorld) : Prop :=
  ∀ before h after, w.starts = before ++ h :: after →
    (∀ h' ∈ before, h'.commandId ≠ h.commandId) →
    ∀ c ∈ w.commands, c.id = h.commandId → ∀ e ∈ c.expiresAt, h.time ≤ e

/-- No command that is claimed, and whose handler was never started, has
expired. -/
def Timely (w : ControlWorld) : Prop :=
  ∀ c ∈ w.commands, c.status ∈ interrupted → w.started c.id = 0 → ∀ e ∈ c.expiresAt, w.clock ≤ e

instance (w : ControlWorld) : Decidable w.Timely := by unfold Timely; infer_instance

variable {w w' : ControlWorld}

theorem started_eq_zero {id : String} :
    w.started id = 0 ↔ ∀ h ∈ w.starts, h.commandId ≠ id := by
  simp [started, List.countP_eq_zero]

/-- Rows whose commands were there before, with the same expiry. -/
theorem OnTime.of_rows (h : OnTime w) (hstarts : w'.starts = w.starts)
    (hrows : ∀ c ∈ w'.commands, (∃ d ∈ w.commands, d.id = c.id ∧ d.expiresAt = c.expiresAt) ∨
      w.started c.id = 0) : OnTime w' := by
  intro before s after hsplit hfirst c hc hid e he
  rw [hstarts] at hsplit
  rcases hrows c hc with ⟨d, hd, hdid, hexpires⟩ | hnone
  · exact h before s after hsplit hfirst d hd (hdid.trans hid) e (by rw [hexpires]; exact he)
  · exact absurd hid.symm (started_eq_zero.1 hnone s (by rw [hsplit]; simp))

theorem OnTime.others (hw : Sane w) (h : OnTime w) (ho : Others w w') : OnTime w' := by
  refine h.of_rows ho.extends.starts fun c hc => ?_
  cases ho with
  | clock time => exact Or.inl ⟨c, hc, rfl, rfl⟩
  | progress r hstatus => exact Or.inl ⟨c, hc, rfl, rfl⟩
  | submit new hid hstatus hattempts =>
      rcases List.mem_append.mp hc with hc | hc
      · exact Or.inl ⟨c, hc, rfl, rfl⟩
      · -- a new command was never started
        obtain rfl := List.mem_singleton.mp hc
        refine Or.inr (started_eq_zero.2 fun s hs heq => ?_)
        obtain ⟨d, hd, hds⟩ := hw.known s hs
        exact hid d hd (hds.trans heq)

theorem OnTime.transition {u : CommandUpdate} (h : OnTime w) :
    OnTime (w.landed (.transition u)) := by
  refine h.of_rows rfl fun c hc => Or.inl ?_
  rcases mem_transition hc with ⟨hc, -⟩ | ⟨d, hd, rfl⟩
  · exact ⟨c, hc, rfl, rfl⟩
  · exact ⟨d, (of_matching hd).1, rfl, rfl⟩

/-- **The start of a claimed command in time.** -/
theorem OnTime.handle {kind : CommandType} {command c : CommandRecord} (hw : Sane w)
    (h : OnTime w) (htimely : Timely w) (hc : c ∈ w.commands) (hid : c.id = command.id)
    (hs : c.status = .executing) : OnTime (w.landed (.handle kind command)) := by
  intro before s after hsplit hfirst d hd hds e he
  change w.starts ++ [⟨command.id, w.clock⟩] = before ++ s :: after at hsplit
  rcases List.eq_nil_or_concat after with rfl | ⟨after', last, rfl⟩
  · -- this is the first start of the command
    obtain ⟨rfl, hlast⟩ := List.append_inj' hsplit rfl
    obtain rfl := (List.cons.inj hlast).1
    obtain rfl := Table.eq_of_key hw.keys hc hd (hid.trans hds.symm)
    exact htimely c hc (by simp [hs, interrupted])
      (started_eq_zero.2 fun h' hh' => by rw [hid]; exact hfirst h' hh') e he
  · rw [List.concat_eq_append, ← List.cons_append, ← List.append_assoc] at hsplit
    exact h before s after' (List.append_inj' hsplit rfl).1 hfirst d hd hds e he

end ControlWorld

namespace CommandProcessor

open ControlWorld

/-- Starts in time, while calls are answered in worlds that are timely. -/
def onTime : Context where
  cond w _ _ _ := Timely w
  extra := OnTime
  touches _ := True
  failed _ := True
  extra_others hw h ho := h.others hw ho
  extra_update _ h _ := h.transition
  extra_insert h := h
  extra_handle hw h hcond hc hid hs := h.handle hw hcond hc hid hs
  touches_pending _ _ _ _ := trivial
  failed_of _ _ := trivial

/-- The process crashes once the command is claimed, and restarts at 20. -/
def late : Solo controlInterface PyError ℕ ControlWorld :=
  Solo.advance ControlWorld.reply (fun _ => true) 100
    ⟨{ (polled (fun _ => true) 4).world with clock := 20, recovered := true },
      some (poll bare false)⟩

theorem reach_late : Solo.Reach (setting bare) (fresh 5) late := by
  refine (reach_asked rfl).trans ((reach_polled (fun _ => true) 4).of_restrict.trans ?_)
  refine .head ⟨.crash, .crash⟩ (.head ⟨.others, .others (.clock 20)⟩ ?_)
  exact .head ⟨.start, .start ⟨rfl, rfl⟩⟩
    (Solo.reach_advance (S := setting bare) ControlWorld.answers_reply 100 _).of_restrict

end CommandProcessor

end Emporos
