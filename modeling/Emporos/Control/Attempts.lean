import Emporos.Control.Store
/-!
# Statuses move forward, and attempts are bounded

Every program of the processor keeps the store sane and moves commands
forward, one lemma a function (`keeps_poll` at the end), so every run does.
A `Context` lets a later proof add an invariant and a condition on the
answers to these lemmas.
-/

namespace Emporos

open Async

namespace CommandProcessor

open ControlWorld CommandRepository

/-- What a proof about the processor adds to its store being sane: a
condition `cond` on how calls are answered, an invariant `extra` that the
updates of the commands it `touches` keep, and what the condition says of
the world when a call of the store has failed. -/
structure Context where
  cond : ControlWorld → (c : controlInterface.Call) → Except PyError (controlInterface.Value c) →
    ControlWorld → Prop
  extra : ControlWorld → Prop
  touches : String → Prop
  failed : ControlWorld → Prop
  extra_others : ∀ {w w'}, Sane w → extra w → Others w w' → extra w'
  extra_update : ∀ {w u}, Sane w → extra w → touches u.id → extra (w.landed (.transition u))
  extra_insert : ∀ {w r}, extra w → extra (w.landed (.insertResult r))
  extra_handle : ∀ {w kind command a c}, Sane w → extra w →
    cond w (.handle kind command) a (w.landed (.handle kind command)) → c ∈ w.commands →
    c.id = command.id → c.status = .executing → extra (w.landed (.handle kind command))
  touches_pending : ∀ {w c}, Sane w → extra w → c ∈ w.commands → c.status = .pending → touches c.id
  failed_of : ∀ {w c e w'}, ControlCall.store c → cond w c (.error e) w' → failed w'

/-- Nothing added. -/
def Context.plain : Context where
  cond _ _ _ _ := True
  extra _ := True
  touches _ := True
  failed _ := True
  extra_others _ _ _ := trivial
  extra_update _ _ _ := trivial
  extra_insert _ := trivial
  extra_handle _ _ _ _ _ _ := trivial
  touches_pending _ _ _ _ := trivial
  failed_of _ _ := trivial

variable {d : Deployment} {x : Context}

/-- The rules of the processor: a sane store, whose commands move
forward. -/
def rules (d : Deployment) (x : Context) : Rules ((setting d).restrict x.cond) where
  inv w := Sane w ∧ x.extra w
  guar := Onward
  guar_refl _ c hc := ⟨c, hc, rfl, .refl _⟩
  guar_trans h h' c hc := by
    obtain ⟨c', hc', hid, hf⟩ := h c hc
    obtain ⟨c'', hc'', hid', hf'⟩ := h' c' hc'
    exact ⟨c'', hc'', hid'.trans hid, hf.trans hf'⟩
  others_keep h ho := ⟨⟨h.1.others ho, x.extra_others h.1 h.2 ho⟩, ho.extends.onward⟩

/-! ### Calls -/

variable {w : ControlWorld}

theorem keeps_now {Q : Except PyError Timestamp → ControlWorld → Prop}
    (h : ∀ w', Extends w w' → Q (.ok w'.clock) w') :
    (rules d x).Keeps (Task.ask (I := controlInterface) .now) Q w := by
  rintro w' hinv hothers a w'' ⟨hanswer, -⟩
  cases hanswer with
  | now => exact ⟨hinv, (rules d x).guar_refl _, h _ (extends_of_others hothers)⟩
  | lost hc e => cases hc
  | unheard hc e => cases hc

theorem keeps_newId {Q : Except PyError String → ControlWorld → Prop}
    (h : ∀ id w', Extends w w' → Q (.ok id) w') :
    (rules d x).Keeps (Task.ask (I := controlInterface) .newId) Q w := by
  rintro w' hinv hothers a w'' ⟨hanswer, -⟩
  cases hanswer with
  | newId id => exact ⟨hinv, (rules d x).guar_refl _, h id _ (extends_of_others hothers)⟩
  | lost hc e => cases hc
  | unheard hc e => cases hc

theorem keeps_alert {name message : String} {Q : Except PyError Unit → ControlWorld → Prop}
    (h : ∀ w', Extends w w' → Q (.ok ()) w') :
    (rules d x).Keeps (Task.ask (I := controlInterface) (.alert name message)) Q w := by
  rintro w' hinv hothers a w'' ⟨hanswer, -⟩
  cases hanswer with
  | alert => exact ⟨hinv, (rules d x).guar_refl _, h _ (extends_of_others hothers)⟩
  | lost hc e => cases hc
  | unheard hc e => cases hc

theorem keeps_inStatuses {statuses : List CommandStatus}
    {Q : Except PyError (List CommandRecord) → ControlWorld → Prop}
    (h : ∀ w', Sane w' → x.extra w' → Extends w w' →
      Q (.ok (CommandRepository.inStatuses statuses w'.commands)) w')
    (herror : ∀ e w', x.failed w' → Q (.error e) w') :
    (rules d x).Keeps (Task.ask (I := controlInterface) (.inStatuses statuses)) Q w := by
  rintro w' hinv hothers a w'' ⟨hanswer, hcond⟩
  cases hanswer with
  | found =>
      exact ⟨hinv, (rules d x).guar_refl _, h _ hinv.1 hinv.2 (extends_of_others hothers)⟩
  | lost hc e => exact ⟨hinv, (rules d x).guar_refl _, herror e _ (x.failed_of hc hcond)⟩
  | unheard hc e => exact ⟨hinv, (rules d x).guar_refl _, herror e _ (x.failed_of hc hcond)⟩

/-- **A legal update.** -/
theorem keeps_transition {u : CommandUpdate}
    {Q : Except PyError (Option CommandRecord) → ControlWorld → Prop} (htouch : x.touches u.id)
    (h : ∀ w', Sane w' → Extends w w' → Legal w' u ∧
      Q (.ok (CommandRepository.transition u w'.commands).2) (w'.landed (.transition u)))
    (herror : ∀ e w', x.failed w' → Q (.error e) w') :
    (rules d x).Keeps (Task.ask (I := controlInterface) (.transition u)) Q w := by
  rintro w' hinv hothers a w'' ⟨hanswer, hcond⟩
  obtain ⟨hlegal, hQ⟩ := h w' hinv.1 (extends_of_others hothers)
  obtain ⟨hsane, honward⟩ := hinv.1.transition hlegal
  have hextra := x.extra_update hinv.1 hinv.2 htouch
  cases hanswer with
  | moved => exact ⟨⟨hsane, hextra⟩, honward, hQ⟩
  | lost hc e => exact ⟨hinv, (rules d x).guar_refl _, herror e _ (x.failed_of hc hcond)⟩
  | unheard hc e => exact ⟨⟨hsane, hextra⟩, honward, herror e _ (x.failed_of hc hcond)⟩

theorem keeps_insertResult {r : CommandResultRecord} {Q : Except PyError Unit → ControlWorld → Prop}
    (hr : ∀ s, r.status = some s → s.terminal →
      ∃ c ∈ w.commands, c.id = r.commandId ∧ c.status = s)
    (h : ∀ w', Extends w w' → Q (.ok ()) w')
    (herror : ∀ e w', x.failed w' → Q (.error e) w') :
    (rules d x).Keeps (Task.ask (I := controlInterface) (.insertResult r)) Q w := by
  rintro w' hinv hothers a w'' ⟨hanswer, hcond⟩
  have hext := extends_of_others hothers
  have hsane : Sane (w'.landed (.insertResult r)) := hinv.1.insertResult fun s hs ht => by
    obtain ⟨c, hc, hid, hcs⟩ := hr s hs ht
    exact ⟨c, hext.kept c hc, hid, hcs⟩
  have hextra := x.extra_insert (r := r) hinv.2
  have hlanded : Extends w' (w'.landed (.insertResult r)) :=
    ⟨⟨fun c hc => hc, fun c hc => Or.inl hc⟩, rfl⟩
  cases hanswer with
  | logged => exact ⟨⟨hsane, hextra⟩, hlanded.onward, h _ (hext.trans hlanded)⟩
  | lost hc e => exact ⟨hinv, (rules d x).guar_refl _, herror e _ (x.failed_of hc hcond)⟩
  | unheard hc e => exact ⟨⟨hsane, hextra⟩, hlanded.onward, herror e _ (x.failed_of hc hcond)⟩

/-- **The start of a handler**, whose attempt is counted. -/
theorem keeps_handle {kind : CommandType} {command c : CommandRecord}
    {Q : Except PyError CommandOutcome → ControlWorld → Prop} (hc : c ∈ w.commands)
    (hid : c.id = command.id) (hstatus : c.status = .executing)
    (hcount : w.started command.id < c.attempts)
    (h : ∀ a w', Grows w w' → Q a w') :
    (rules d x).Keeps (Task.ask (I := controlInterface) (.handle kind command)) Q w := by
  rintro w' hinv hothers a w'' ⟨hanswer, hcond⟩
  have hext := extends_of_others hothers
  cases hanswer with
  | handled a =>
      have hc' := hext.kept c hc
      have hcount' : w'.started command.id < c.attempts := by
        rw [started, hext.starts]
        exact hcount
      exact ⟨⟨hinv.1.handle hc' hid hcount', x.extra_handle hinv.1 hinv.2 hcond hc' hid hstatus⟩,
        fun c hc => ⟨c, hc, rfl, .refl _⟩, h a _ ⟨hext.kept, hext.added⟩⟩
  | lost hc e => cases hc
  | unheard hc e => cases hc

/-! ### Functions -/

/-- A function that ends well ends in `P`, and one that raises does so
because a call of the store failed. -/
def Ends {α : Type} (x : Context) (P : ControlWorld → Prop) : Except PyError α → ControlWorld → Prop
  | .ok _, w => P w
  | .error _, w => x.failed w

/-- Only the row of one command may have changed. -/
structure Touched (id : String) (w w' : ControlWorld) : Prop where
  kept : ∀ c ∈ w.commands, c.id ≠ id → c ∈ w'.commands
  added : ∀ c ∈ w'.commands, c ∈ w.commands ∨ c.status = .pending ∨ c.id = id

/-- A command has come to its end, and only its row has changed. -/
def Settled (id : String) (w w' : ControlWorld) : Prop :=
  Touched id w w' ∧ ∃ c ∈ w'.commands, c.id = id ∧ c.status.terminal

theorem Touched.of_grows {w w' : ControlWorld} (h : Grows w w') (id : String) : Touched id w w' where
  kept c hc _ := h.kept c hc
  added c hc := (h.added c hc).imp_right Or.inl

theorem Touched.trans {id : String} {w w' w'' : ControlWorld} (h : Touched id w w')
    (h' : Touched id w' w'') : Touched id w w'' where
  kept c hc hne := h'.kept c (h.kept c hc hne) hne
  added c hc := by
    rcases h'.added c hc with hc | hc
    · exact h.added c hc
    · exact Or.inr hc

theorem touched_transition {u : CommandUpdate} {id : String} (hu : u.id = id)
    (w : ControlWorld) : Touched id w (w.landed (.transition u)) where
  kept _ hc hne := mem_transition_of_ne hc (by rw [hu]; exact hne)
  added c hc := by
    rcases mem_transition hc with ⟨hc, -⟩ | ⟨e, he, rfl⟩
    · exact Or.inl hc
    · exact Or.inr (Or.inr ((of_matching he).2.1.trans hu))

theorem Settled.of_touched {id : String} {w w' w'' : ControlWorld} (h : Touched id w w')
    (h' : Settled id w' w'') : Settled id w w'' :=
  ⟨h.trans h'.1, h'.2⟩

theorem keeps_log {id message : String} {status : CommandStatus} {data : List (String × String)}
    (h : status.terminal → ∃ c ∈ w.commands, c.id = id ∧ c.status = status) :
    (rules d x).Keeps (log id status message data) (Ends x (Extends w)) w := by
  unfold log
  refine (Rules.keeps_bind _ _).mpr (keeps_newId fun rid w₁ h₁ => ?_)
  refine (Rules.keeps_bind _ _).mpr (keeps_now fun w₂ h₂ => ?_)
  refine keeps_insertResult (fun s hs ht => ?_) (fun w₃ h₃ => (h₁.trans h₂).trans h₃) fun _ _ h => h
  obtain rfl := Option.some.inj hs
  obtain ⟨c, hc, hid, hcs⟩ := h ht
  exact ⟨c, h₂.kept c (h₁.kept c hc), hid, hcs⟩

theorem final_terminal (o : CommandOutcome) : (final o).status.terminal := by
  unfold final
  split
  · rfl
  · rename_i h
    simp only [not_or] at h
    simpa using h.1

/-- The row an update moves, once it is known to be there. -/
theorem matching_eq {u : CommandUpdate} {w : ControlWorld} {c : CommandRecord} (hw : Sane w)
    (hc : c ∈ w.commands) (hid : c.id = u.id) (hs : c.status ∈ u.allowedFrom) :
    matching u w.commands = some c := by
  have hlookup := Table.lookup_of_mem hw.keys hc
  rw [hid] at hlookup
  simp [matching, hlookup, hs]

/-- **Finishing a running command settles it.** -/
theorem keeps_finish {id : String} {allowed : List CommandStatus} {o : CommandOutcome}
    {c : CommandRecord} (hc : c ∈ w.commands) (hid : c.id = id) (hs : c.status ∈ allowed)
    (hallowed : ∀ s ∈ allowed, s ∈ interrupted) (htouch : x.touches id) :
    (rules d x).Keeps (finish id allowed o) (Ends x (Settled id w)) w := by
  have hterm := final_terminal o
  unfold finish
  refine (Rules.keeps_bind _ _).mpr (keeps_now fun w₁ h₁ => ?_)
  refine (Rules.keeps_bind _ _).mpr
    (keeps_transition htouch (fun w₂ hsane h₂ => ⟨fun e _ _ he => ?_, ?_⟩) fun _ _ h => h)
  · obtain ⟨hrank, hpending, haccepted⟩ := CommandStatus.of_terminal hterm
    exact ⟨(CommandStatus.of_interrupted (hallowed _ he)).1,
      (CommandStatus.rank_le _).trans_eq hrank.symm,
      fun h => (h.elim hpending haccepted).elim, fun h => by cases h⟩
  · have hmem := h₂.kept c (h₁.kept c hc)
    let u : CommandUpdate := ⟨id, allowed, (final o).status, w₁.clock, (final o).message, false⟩
    have hrow := updated_mem_transition (matching_eq (u := u) hsane hmem hid hs)
    refine (keeps_log (w := w₂.landed (.transition u)) fun _ => ⟨_, hrow, hid, rfl⟩).mono
      fun r w₃ h₃ => ?_
    cases r with
    | error e => exact h₃
    | ok _ =>
        exact ⟨((Touched.of_grows (h₁.trans h₂).toGrows id).trans
          (touched_transition (u := u) rfl w₂)).trans (.of_grows h₃.toGrows id), _,
          h₃.kept _ hrow, hid, hterm⟩

/-- The handler of a command whose attempt is counted. -/
theorem keeps_outcome {kind : CommandType} {running : CommandRecord} (hc : running ∈ w.commands)
    (hs : running.status = .executing) (hcount : w.started running.id < running.attempts) :
    (rules d x).Keeps (outcome d kind running) (Ends x (Grows w)) w := by
  unfold outcome
  refine (Rules.keeps_bind _ _).mpr ((Rules.keeps_attempt _).mpr
    (keeps_handle hc rfl hs hcount fun a w₁ h₁ => ?_))
  cases a with
  | ok o => exact h₁
  | error e =>
      exact (Rules.keeps_bind _ _).mpr (keeps_alert fun w₂ h₂ => h₁.trans h₂.toGrows)

/-- **Carrying out a command settles it.** -/
theorem keeps_carryOut {id : String} {running : CommandRecord} (hc : running ∈ w.commands)
    (hid : running.id = id) (hs : running.status = .executing)
    (hcount : w.started running.id < running.attempts) (htouch : x.touches id) :
    (rules d x).Keeps (carryOut d id running) (Ends x (Settled id w)) w := by
  unfold carryOut
  refine (Rules.keeps_bind _ _).mpr ((keeps_log fun h => by cases h).mono fun r w₁ h₁ => ?_)
  cases r with
  | error e => exact h₁
  | ok _ =>
      have hrow := h₁.kept _ hc
      have hfinish : ∀ (o : CommandOutcome) (w₂ : ControlWorld), Grows w₁ w₂ →
          (rules d x).Keeps (finish id [.executing] o) (Ends x (Settled id w)) w₂ := by
        intro o w₂ h₂
        refine (keeps_finish (h₂.kept _ hrow) hid (by simp [hs]) (by decide) htouch).mono
          fun r w₃ h₃ => ?_
        cases r with
        | error e => exact h₃
        | ok _ => exact h₃.of_touched (.of_grows (h₁.toGrows.trans h₂) id)
      have hgrows : Grows w₁ w₁ := ⟨fun _ h => h, fun _ h => Or.inl h⟩
      dsimp only
      cases d.parse running.type running.params with
      | error message => exact hfinish _ w₁ hgrows
      | ok kind =>
          by_cases hdeployed : d.handled kind
          · simp only [hdeployed, if_true]
            refine (Rules.keeps_bind _ _).mpr ((keeps_outcome hrow hs ?_).mono fun r w₂ h₂ => ?_)
            · rw [started, h₁.starts]
              exact hcount
            · cases r with
              | error e => exact h₂
              | ok o => exact hfinish o w₂ h₂
          · simp only [hdeployed]
            exact hfinish _ w₁ hgrows

/-- **Executing an interrupted command settles it**, if an attempt is
left. -/
theorem keeps_execute {id : String} {allowed : List CommandStatus} {c : CommandRecord}
    (hc : c ∈ w.commands) (hid : c.id = id) (hs : c.status ∈ allowed)
    (hallowed : ∀ s ∈ allowed, s ∈ interrupted) (hleft : c.attempts < maxAttempts)
    (htouch : x.touches id) :
    (rules d x).Keeps (execute d id allowed) (Ends x (Settled id w)) w := by
  unfold execute
  refine (Rules.keeps_bind _ _).mpr (keeps_now fun w₁ h₁ => ?_)
  refine (Rules.keeps_bind _ _).mpr
    (keeps_transition htouch (fun w₂ hsane h₂ => ⟨fun e he heid hes => ?_, ?_⟩) fun _ _ h => h)
  · obtain ⟨hopen, hrank, -⟩ := CommandStatus.of_interrupted (hallowed _ hes)
    obtain rfl := Table.eq_of_key hsane.keys (h₂.kept c (h₁.kept c hc)) he (hid.trans heid.symm)
    exact ⟨hopen, hrank, (fun h => by rcases h with h | h <;> cases h), fun _ => hleft⟩
  · have hmem := h₂.kept c (h₁.kept c hc)
    let u : CommandUpdate := ⟨id, allowed, .executing, w₁.clock, "", true⟩
    have hmatch := matching_eq (u := u) hsane hmem hid hs
    have hrow := updated_mem_transition hmatch
    have hmoved : (transition u w₂.commands).2 = some (updated u c) := by rw [transition, hmatch]
    have hcount : w₂.started c.id < c.attempts + 1 := Nat.lt_succ_of_le (hsane.counted c hmem)
    rw [hmoved]
    -- the row is EXECUTING, with its attempt counted
    refine (keeps_carryOut (w := w₂.landed (.transition u)) hrow hid rfl hcount htouch).mono
      fun r w₃ h₃ => ?_
    cases r with
    | error e => exact h₃
    | ok _ =>
        exact h₃.of_touched ((Touched.of_grows (h₁.trans h₂).toGrows id).trans
          (touched_transition (u := u) rfl w₂))

/-- No command that others left alone is interrupted, except those of `w`
outside `ids`. -/
def Cleared (ids : List String) (w w' : ControlWorld) : Prop :=
  ∀ c ∈ w'.commands, c.status ∈ interrupted → c ∈ w.commands ∧ c.id ∉ ids

theorem Settled.cleared {id : String} {w w' : ControlWorld} (h : Settled id w w') (hw : Sane w') :
    Cleared [id] w w' := by
  intro c hc hs
  obtain ⟨hopen, -, hpending⟩ := CommandStatus.of_interrupted hs
  have hne : c.id ≠ id := by
    intro hid
    obtain ⟨e, he, heid, hterm⟩ := h.2
    obtain rfl := Table.eq_of_key hw.keys hc he (hid.trans heid.symm)
    rw [hopen] at hterm
    cases hterm
  rcases h.1.added c hc with hmem | hp | hid
  · exact ⟨hmem, by simpa using hne⟩
  · exact absurd hp hpending
  · exact absurd hid hne

theorem Cleared.cons {id : String} {ids : List String} {w w' w'' : ControlWorld}
    (h : Cleared [id] w w') (h' : Cleared ids w' w'') : Cleared (id :: ids) w w'' := by
  intro c hc hs
  obtain ⟨hmem, hids⟩ := h' c hc hs
  obtain ⟨hmem', hid⟩ := h c hmem hs
  exact ⟨hmem', by simpa [hids] using hid⟩

/-- The rows of other commands, after one is settled. -/
theorem Settled.rest {id : String} {w w' : ControlWorld} {rest : List CommandRecord}
    (h : Settled id w w') (hid : id ∉ rest.map (·.id)) (hrest : ∀ c ∈ rest, c ∈ w.commands) :
    ∀ c ∈ rest, c ∈ w'.commands := by
  intro c hc
  refine h.1.kept c (hrest c hc) fun heq => hid ?_
  rw [← heq]
  exact List.mem_map_of_mem hc

/-- **Every interrupted command is brought to its end.** -/
theorem keeps_resume (htouch : ∀ id, x.touches id) (commands : List CommandRecord)
    (hinv : (rules d x).inv w) (hnd : (commands.map (·.id)).Nodup)
    (hmem : ∀ c ∈ commands, c ∈ w.commands) (hs : ∀ c ∈ commands, c.status ∈ interrupted) :
    (rules d x).Keeps (resume d commands) (Ends x (Cleared (commands.map (·.id)) w)) w := by
  induction commands generalizing w with
  | nil => exact fun c hc _ => ⟨hc, by simp⟩
  | cons command rest ih =>
      rw [List.map_cons, List.nodup_cons] at hnd
      have hc := hmem command List.mem_cons_self
      have hstatus := hs command List.mem_cons_self
      have hrest : ∀ {w'}, Settled command.id w w' → (rules d x).inv w' →
          (rules d x).Keeps (resume d rest)
            (Ends x (Cleared ((command :: rest).map (·.id)) w)) w' := by
        intro w' hsettled hinv'
        refine (ih hinv' hnd.2
          (hsettled.rest hnd.1 fun c hc => hmem c (List.mem_cons_of_mem _ hc))
          fun c hc => hs c (List.mem_cons_of_mem _ hc)).mono fun r w'' h => ?_
        cases r with
        | error e => exact h
        | ok _ => exact (hsettled.cleared hinv'.1).cons h
      unfold resume
      by_cases hspent : maxAttempts ≤ command.attempts
      · rw [if_pos hspent]
        refine (Rules.keeps_bind _ _).mpr (((keeps_finish hc rfl hstatus (fun _ h => h)
          (htouch _)).and_inv hinv).mono fun r w₁ h₁ => ?_)
        cases r with
        | error e => exact h₁.1
        | ok _ => exact hrest h₁.1 h₁.2
      · rw [if_neg hspent]
        refine (Rules.keeps_bind _ _).mpr (((keeps_log fun h => by cases h).and_inv hinv).mono
          fun r w₁ h₁ => ?_)
        cases r with
        | error e => exact h₁.1
        | ok _ =>
            refine (Rules.keeps_bind _ _).mpr (((keeps_execute (h₁.1.kept _ hc) rfl hstatus
              (fun _ h => h) (not_le.mp hspent) (htouch _)).and_inv h₁.2).mono fun r w₂ h₂ => ?_)
            cases r with
            | error e => exact h₂.1
            | ok _ =>
                refine (Rules.keeps_bind _ _).mpr ((hrest (h₂.1.of_touched
                  (.of_grows h₁.1.toGrows _)) h₂.2).mono fun r w₃ h₃ => ?_)
                cases r with
                | error e => exact h₃
                | ok _ => exact h₃

/-- **After recovery no command is interrupted.** -/
theorem keeps_recover (htouch : ∀ id, x.touches id) :
    (rules d x).Keeps (recover d)
      (Ends x fun w' => ∀ c ∈ w'.commands, c.status ∉ interrupted) w := by
  unfold recover
  refine (Rules.keeps_bind _ _).mpr (keeps_inStatuses (fun w₁ hsane hextra _ => ?_) fun _ _ h => h)
  refine (keeps_resume htouch _ ⟨hsane, hextra⟩ (nodup_inStatuses hsane.keys)
    (fun c hc => (mem_inStatuses.mp hc).1) fun c hc => (mem_inStatuses.mp hc).2).mono
    fun r w₂ h₂ => ?_
  cases r with
  | error e => exact h₂
  | ok _ =>
      intro c hc hs
      obtain ⟨hmem, hids⟩ := h₂ c hc hs
      exact hids (List.mem_map_of_mem (mem_inStatuses.mpr ⟨hmem, hs⟩))

/-- **A pending command is brought to its end.** -/
theorem keeps_process {command : CommandRecord} (hinv : (rules d x).inv w)
    (hc : command ∈ w.commands) (hs : command.status = .pending) :
    (rules d x).Keeps (process d command) (Ends x (Settled command.id w)) w := by
  have htouch := x.touches_pending hinv.1 hinv.2 hc hs
  unfold process
  refine (Rules.keeps_bind _ _).mpr (keeps_now fun w₁ h₁ => ?_)
  have hc₁ := h₁.kept _ hc
  change (rules d x).Keeps (if command.expiresAt.any fun expiry => expiry ≤ w₁.clock then _ else _)
    _ w₁
  split
  · -- it has expired
    refine (Rules.keeps_bind _ _).mpr
      (keeps_transition htouch (fun w₂ hsane h₂ => ⟨fun e _ _ he => ?_, ?_⟩) fun _ _ h => h)
    · have hp : e.status = .pending := by simpa using he
      exact ⟨by simp [hp, CommandStatus.terminal], by simp [hp, CommandStatus.rank],
        fun h => (by rcases h with h | h <;> cases h), fun h => by cases h⟩
    · let u : CommandUpdate := ⟨command.id, [.pending], .expired, w₁.clock,
        "not started before it expired", false⟩
      have hmatch := matching_eq (u := u) hsane (h₂.kept _ hc₁) rfl (by simp [u, hs])
      have hrow := updated_mem_transition hmatch
      have hmoved : (transition u w₂.commands).2 = some (updated u command) := by
        rw [transition, hmatch]
      rw [hmoved]
      refine (Rules.keeps_bind _ _).mpr ((keeps_log (w := w₂.landed (.transition u))
        fun _ => ⟨_, hrow, rfl, rfl⟩).mono fun r w₃ h₃ => ?_)
      cases r with
      | error e => exact h₃
      | ok _ =>
          exact ⟨((Touched.of_grows (h₁.trans h₂).toGrows _).trans
            (touched_transition (u := u) rfl w₂)).trans (.of_grows h₃.toGrows _), _,
            h₃.kept _ hrow, rfl, rfl⟩
  · -- it is claimed, and executed
    refine (Rules.keeps_bind _ _).mpr
      (keeps_transition htouch (fun w₂ hsane h₂ => ⟨fun e he heid hes => ?_, ?_⟩) fun _ _ h => h)
    · have hp : e.status = .pending := by simpa using hes
      exact ⟨by simp [hp, CommandStatus.terminal], by simp [hp, CommandStatus.rank],
        fun _ => ⟨hsane.unstarted e he (Or.inl hp), rfl⟩, fun h => by cases h⟩
    · let u : CommandUpdate := ⟨command.id, [.pending], .accepted, w₁.clock, "", false⟩
      have hmem := h₂.kept _ hc₁
      have hmatch := matching_eq (u := u) hsane hmem rfl (by simp [u, hs])
      have hrow := updated_mem_transition hmatch
      have hmoved : (transition u w₂.commands).2 = some (updated u command) := by
        rw [transition, hmatch]
      have hzero : (updated u command).attempts < maxAttempts := by
        have := hsane.unstarted command hmem (Or.inl hs)
        simp [updated, u, this, maxAttempts]
      rw [hmoved]
      refine (Rules.keeps_bind _ _).mpr ((keeps_log (w := w₂.landed (.transition u))
        fun h => by cases h).mono fun r w₃ h₃ => ?_)
      cases r with
      | error e => exact h₃
      | ok _ =>
          refine (Rules.keeps_bind _ _).mpr ((keeps_execute (h₃.kept _ hrow) rfl
            (by simp [updated, u]) (by decide) hzero htouch).mono fun r w₄ h₄ => ?_)
          cases r with
          | error e => exact h₄
          | ok _ =>
              exact h₄.of_touched (((Touched.of_grows (h₁.trans h₂).toGrows _).trans
                (touched_transition (u := u) rfl w₂)).trans (.of_grows h₃.toGrows _))

theorem keeps_processAll (commands : List CommandRecord) (hinv : (rules d x).inv w)
    (hnd : (commands.map (·.id)).Nodup) (hmem : ∀ c ∈ commands, c ∈ w.commands)
    (hs : ∀ c ∈ commands, c.status = .pending) :
    (rules d x).Keeps (processAll d commands) (Ends x (Cleared (commands.map (·.id)) w)) w := by
  induction commands generalizing w with
  | nil => exact fun c hc _ => ⟨hc, by simp⟩
  | cons command rest ih =>
      rw [List.map_cons, List.nodup_cons] at hnd
      unfold processAll
      refine (Rules.keeps_bind _ _).mpr (((keeps_process hinv (hmem _ List.mem_cons_self)
        (hs _ List.mem_cons_self)).and_inv hinv).mono fun r w₁ h₁ => ?_)
      cases r with
      | error e => exact h₁.1
      | ok _ =>
          refine (Rules.keeps_bind _ _).mpr ((ih h₁.2 hnd.2
            (h₁.1.rest hnd.1 fun c hc => hmem c (List.mem_cons_of_mem _ hc))
            fun c hc => hs c (List.mem_cons_of_mem _ hc)).mono fun r w₂ h₂ => ?_)
          cases r with
          | error e => exact h₂
          | ok _ => exact (h₁.1.cleared h₁.2.1).cons h₂

/-- **Pending commands are processed, and no other is interrupted by it.** -/
theorem keeps_runOnce :
    (rules d x).Keeps (runOnce d) (Ends x fun w' => ∃ w₁, Extends w w₁ ∧ Cleared [] w₁ w') w := by
  unfold runOnce
  refine (Rules.keeps_bind _ _).mpr (keeps_inStatuses (fun w₁ hsane hextra h₁ => ?_) fun _ _ h => h)
  refine (keeps_processAll _ ⟨hsane, hextra⟩ (nodup_inStatuses hsane.keys)
    (fun c hc => (mem_inStatuses.mp hc).1)
    fun c hc => by simpa using (mem_inStatuses.mp hc).2).mono fun r w₂ h₂ => ?_
  cases r with
  | error e => exact h₂
  | ok _ => exact ⟨w₁, h₁, fun c hc hs => ⟨(h₂ c hc hs).1, by simp⟩⟩

/-- Every poll keeps the rules. -/
theorem keeps_poll {recovered : Bool} (htouch : recovered = false → ∀ id, x.touches id) :
    (rules d x).Keeps (poll d recovered) (Ends x fun _ => True) w := by
  have hrun : ∀ w', (rules d x).Keeps (runOnce d) (Ends x fun _ => True) w' := fun w' =>
    keeps_runOnce.mono fun r w'' h => by
      cases r with
      | error e => exact h
      | ok _ => trivial
  unfold poll
  by_cases hrec : recovered
  · rw [if_pos hrec]
    exact hrun w
  · rw [if_neg hrec]
    refine (Rules.keeps_bind _ _).mpr ((keeps_recover (htouch (by simpa using hrec))).mono
      fun r w₁ h₁ => ?_)
    cases r with
    | error e => exact h₁
    | ok _ => exact hrun w₁

/-! ## Main results -/

/-- A process over an empty store. -/
def fresh (clock : Timestamp) : Solo controlInterface PyError ℕ ControlWorld :=
  ⟨⟨clock, [], [], false, []⟩, none⟩

/-- **Along every run the rules are kept**, whatever the process remembers. -/
theorem keeps_of_reach (htouch : ∀ id, x.touches id)
    (hextra : ∀ {w} (b : Bool), x.extra w → x.extra { w with recovered := b })
    {s s' : Solo controlInterface PyError ℕ ControlWorld}
    (hs : s.Sound (rules d x) fun _ _ => True)
    (h : Solo.Reach ((setting d).restrict x.cond) s s') :
    s'.Sound (rules d x) (fun _ _ => True) ∧ Onward s.world s'.world := by
  have hsame : ∀ {w : ControlWorld} (b : Bool), (rules d x).inv w →
      (rules d x).inv { w with recovered := b } ∧ Onward w { w with recovered := b } :=
    fun b hw => ⟨⟨hw.1.recovered b, hextra b hw.2⟩, fun c hc => ⟨c, hc, rfl, .refl _⟩⟩
  refine h.sound (fun hw hp => ?_) (fun _ h => h) (fun hw => hsame false hw) hs
  obtain ⟨rfl, rfl⟩ := hp
  obtain ⟨hinv, honward⟩ := hsame true hw
  exact ⟨hinv, honward, (keeps_poll fun _ => htouch).mono fun _ _ _ => trivial⟩

/-- A process that has no job. -/
theorem sound_idle {w : ControlWorld} (hw : (rules d x).inv w) :
    Solo.Sound (rules d x) (fun _ _ => True) ⟨w, none⟩ :=
  ⟨hw, fun _ h => by cases h⟩

theorem rules_plain_of_reach {clock : Timestamp} {s : Solo controlInterface PyError ℕ ControlWorld}
    (h : Solo.Reach (setting d) (fresh clock) s) :
    s.Sound (rules d .plain) fun _ _ => True :=
  (keeps_of_reach (fun _ => trivial) (fun _ _ => trivial)
    (sound_idle ⟨sane_empty clock, trivial⟩) (h.restrict fun _ _ _ _ _ => trivial)).1

/-- **Statuses move forward and attempts are bounded.** In every run of one
process at a time, with crashes and restarts anywhere, a command moves
forward and keeps its final status, the log holds no two final statuses of
one command, and no handler is started more often than the limit. -/
theorem commands_onward (d : Deployment) (clock : Timestamp)
    {s s' : Solo controlInterface PyError ℕ ControlWorld}
    (hs : Solo.Reach (setting d) (fresh clock) s) (hs' : Solo.Reach (setting d) s s') :
    (∀ c ∈ s.world.commands, ∃ c' ∈ s'.world.commands,
      c'.id = c.id ∧ c.status.Forward c'.status) ∧
    (∀ r ∈ s'.world.results, ∀ r' ∈ s'.world.results, r.commandId = r'.commandId →
      ∀ t t', r.status = some t → r'.status = some t' → t.terminal → t'.terminal → t = t') ∧
    ∀ id, s'.world.started id ≤ maxAttempts := by
  obtain ⟨hsound, honward⟩ := keeps_of_reach (fun _ => trivial) (fun _ _ => trivial)
    (rules_plain_of_reach hs) (hs'.restrict fun _ _ _ _ _ => trivial)
  have hsane := hsound.inv.1
  refine ⟨honward, fun r hr r' hr' hid t t' ht ht' hterm hterm' => ?_, fun id => ?_⟩
  · obtain ⟨c, hc, hcid, rfl⟩ := hsane.logged r hr t ht hterm
    obtain ⟨c', hc', hcid', rfl⟩ := hsane.logged r' hr' t' ht' hterm'
    rw [Table.eq_of_key hsane.keys hc hc' (by rw [hcid, hcid', hid])]
  · -- a command that was never seen was never started
    by_cases hknown : ∃ c ∈ s'.world.commands, c.id = id
    · obtain ⟨c, hc, rfl⟩ := hknown
      exact (hsane.counted c hc).trans (hsane.bounded c hc)
    · refine (List.countP_eq_zero.mpr fun h hh => ?_).trans_le (Nat.zero_le _)
      obtain ⟨c, hc, hcid⟩ := hsane.known h hh
      simpa using fun heq => hknown ⟨c, hc, hcid.trans heq⟩

/-! ### A run -/

/-- A deployment whose commands all set the kill switch. -/
def bare : Deployment := ⟨fun _ _ => .ok .setKillSwitch, fun _ => true, fun _ => "", fun _ => ""⟩

/-- A command that expires at 10. -/
def halt : CommandRecord :=
  ⟨"c-1", "key-1", "SET_KILL_SWITCH", .pending, 1, "", "operator", some 10, none, "", 0⟩

def asked : Solo controlInterface PyError ℕ ControlWorld := ⟨⟨5, [halt], [], false, []⟩, none⟩

/-- The first poll, while `go` allows and for `n` calls at most. -/
def polled (go : ControlWorld → Bool) (n : ℕ) : Solo controlInterface PyError ℕ ControlWorld :=
  Solo.advance ControlWorld.reply go n ⟨⟨5, [halt], [], true, []⟩, some (poll bare false)⟩

theorem reach_asked {S : Setting controlInterface PyError ℕ ControlWorld}
    (hS : S.others = ControlWorld.Others) : Solo.Reach S (fresh 5) asked := by
  refine .single ⟨.others, .others ?_⟩
  rw [hS]
  exact .submit halt (fun d hd => absurd hd List.not_mem_nil) rfl rfl

theorem reach_polled (go : ControlWorld → Bool) (n : ℕ) :
    Solo.Reach ((setting bare).restrict fun w _ _ _ => go w) asked (polled go n) :=
  .head ⟨.start, .start ⟨rfl, rfl⟩⟩ (Solo.reach_advance ControlWorld.answers_reply n _)

theorem commands_onward_of_polled :
    (∃ c ∈ (polled (fun _ => true) 100).world.commands,
      c.id = halt.id ∧ halt.status.Forward c.status) ∧
    (polled (fun _ => true) 100).world.started halt.id ≤ maxAttempts := by
  have h := commands_onward bare 5 (reach_asked rfl) (reach_polled (fun _ => true) 100).of_restrict
  exact ⟨h.1 halt (by simp [asked]), h.2.2 _⟩

end CommandProcessor

end Emporos
