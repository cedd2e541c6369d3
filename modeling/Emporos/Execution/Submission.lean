import Emporos.Execution.Scripts
/-!
# At most one submission per intent

Whatever the interleaving and wherever the process dies, the broker is
asked to place an order at most once for each signal of the account, and
never while another order on the instrument was unresolved when the
placement looked.

The count goes through the tags: a task submits a tag at most as often as
it created it (`Sane.balanced`), and a tag is created at most once.
-/

namespace Emporos

open Async

variable [DecimalContext] {cfg : Settings} {scope : Scope}
  {admits : (c : Call) → c.Answer → Prop} {s : Pool calls PyError Unit World}

/-- A call that submits an order of the account for this signal. -/
def Event.submitsFor (account signalId : String) (orders : List OrderRecord) (e : Event) : Bool :=
  match e.call with
  | .submit r => orders.any fun o =>
      o.ordertag = r.clientTag ∧ o.accountId = some account ∧ o.signalId = some signalId
  | _ => false

/-- The submission `e` is of a stored order, and the placement it belongs
to found no unresolved order on the instrument. `older` is what came
before. -/
def Cleared (account : String) (e : Event) (older : List Event) : Prop :=
  ∀ r, e.call = .submit r → ∃ o ∈ e.store.orders,
    o.accountId = some account ∧ ExecutionEngine.requestOf o = .ok r ∧
    ∃ l₁ check l₂, older = l₁ ++ check :: l₂ ∧ check.task = e.task ∧
      (∀ x ∈ l₁, x.task = e.task → x.acquires = false) ∧
      check.call = .unresolved o.instrumentId ∧
      ∀ p ∈ check.store.orders, p.accountId = some account → p.instrumentId = o.instrumentId →
        p.state ≠ .unknown ∧ p.state ≠ .pendingNew

/-! ## Tags -/

omit [DecimalContext] in
theorem eq_of_countP_le_one {α : Type} {p : α → Bool} {l : List α} (h : l.countP p ≤ 1) {x y : α}
    (hx : x ∈ l) (hy : y ∈ l) (hpx : p x) (hpy : p y) : x = y := by
  rw [List.countP_eq_length_filter] at h
  have hx' := List.mem_filter.mpr ⟨hx, hpx⟩
  have hy' := List.mem_filter.mpr ⟨hy, hpy⟩
  match hl : l.filter p, h with
  | [], _ => rw [hl] at hx'; cases hx'
  | [z], _ =>
      rw [hl, List.mem_singleton] at hx' hy'
      rw [hx', hy']

/-- A tag is created as often as it is stored, at most. -/
theorem Running.creates_le {α : Type} {r : Pool calls PyError α World}
    (hr : Running cfg scope admits r) (tag : String) :
    r.world.trace.countP (Event.creates tag)
      ≤ r.world.store.intents.countP fun o => o.ordertag = tag := by
  refine hr.invariant
    (J := fun w => w.trace.countP (Event.creates tag)
      ≤ w.store.intents.countP fun o => o.ordertag = tag) le_rfl
    (fun {u t c a w'} hJ hw hg hs => ?_) fun hJ => hJ
  obtain ⟨time, -, htrace⟩ := platform_step hs
  rw [htrace, List.countP_cons]
  by_cases hcreate : Event.creates tag ⟨t, c, a, time, u.world.store⟩
  · -- an acknowledged creation is in the store
    rw [if_pos hcreate]
    cases c with
    | create o =>
        cases a with
        | error e => simp [Event.creates] at hcreate
        | ok v =>
            have htag : o.ordertag = tag := by simpa [Event.creates] using hcreate
            obtain ⟨hb, hs'⟩ := written_of_ok hs rfl
            cases hc : u.world.store.create cfg.engine.accountId o with
            | error e => rw [hc] at hb; cases hb
            | ok s' =>
                rw [hc] at hs'
                obtain ⟨-, -, -, hs''⟩ := Store.create_eq_ok.mp hc
                have : w'.store.intents = u.world.store.intents ++ [o.intent] := by
                  rw [hs', Store.intents]
                  simp only [hs'', List.map_append, List.map_singleton,
                    OrderRecord.intent_stored]
                  rfl
                rw [this, List.countP_append, List.countP_singleton,
                  if_pos (show decide (o.intent.ordertag = tag) = true from decide_eq_true htag)]
                omega
    | _ => simp [Event.creates] at hcreate
  · rw [if_neg hcreate]
    rcases intents_of_step hw hg hs with h | ⟨o, -, -, -, h⟩
    · rw [h]; exact hJ
    · rw [h, List.countP_append]
      omega

/-- **A tag is submitted at most once.** -/
theorem Running.submits_le_one {α : Type} {r : Pool calls PyError α World}
    (hr : Running cfg scope admits r) (tag : String) :
    r.world.trace.countP (Event.submits tag) ≤ 1 := by
  have hcreates : r.world.trace.countP (Event.creates tag) ≤ 1 := by
    refine (hr.creates_le tag).trans ?_
    have hnodup := hr.registered.tags
    have hcount := List.nodup_iff_count_le_one.mp hnodup tag
    rw [List.count_eq_countP, List.countP_map] at hcount
    refine le_trans (List.countP_mono_left fun o _ h => ?_) hcount
    simpa using h
  have hbalanced := hr.sane.balanced
  have hown : ∀ t, (r.world.own t).countP (Event.creates tag)
      ≤ r.world.trace.countP (Event.creates tag) :=
    fun t => List.filter_sublist.countP_le
  -- a task that submits has created, so the submitting tasks are one
  have hcreator : ∀ e ∈ r.world.trace, e.submits tag →
      ∃ x ∈ r.world.trace, x.task = e.task ∧ x.creates tag := by
    intro e he hsub
    have hpos : 0 < (r.world.own e.task).countP (Event.submits tag) :=
      List.countP_pos_iff.mpr ⟨e, World.mem_own.mpr ⟨he, rfl⟩, hsub⟩
    obtain ⟨x, hx, hxc⟩ := List.countP_pos_iff.mp (hpos.trans_le (hbalanced e.task tag))
    exact ⟨x, (World.mem_own.mp hx).1, (World.mem_own.mp hx).2, hxc⟩
  by_cases hnone : ∃ e ∈ r.world.trace, e.submits tag
  · obtain ⟨e, he, hsub⟩ := hnone
    have hsame : r.world.trace.countP (Event.submits tag)
        = (r.world.own e.task).countP (Event.submits tag) := by
      rw [World.own, List.countP_filter]
      refine List.countP_congr fun e' he' => ?_
      constructor
      · intro hsub'
        obtain ⟨x, hx, hxt, hxc⟩ := hcreator e he hsub
        obtain ⟨x', hx', hxt', hxc'⟩ := hcreator e' he' hsub'
        have := eq_of_countP_le_one hcreates hx hx' hxc hxc'
        simp [hsub', ← hxt, ← hxt', this]
      · intro h
        simp only [Bool.and_eq_true] at h
        exact h.1
    rw [hsame]
    exact ((hbalanced e.task tag).trans (hown e.task)).trans hcreates
  · refine le_of_eq_of_le (List.countP_eq_zero.mpr fun e he hsub => hnone ⟨e, he, hsub⟩) ?_
    exact Nat.zero_le 1

/-! ## Submissions -/

/-- **A signal is submitted at most once.** -/
theorem Running.submitsFor_le_one {α : Type} {r : Pool calls PyError α World}
    (hr : Running cfg scope admits r) (signalId : String) :
    (r.world.trace.filter
      (Event.submitsFor cfg.engine.accountId signalId r.world.store.orders)).length ≤ 1 := by
  have hreg := hr.registered
  -- the signal names one order, so its submissions are those of one tag
  by_cases hno : ∃ o ∈ r.world.store.orders,
      o.accountId = some cfg.engine.accountId ∧ o.signalId = some signalId
  · obtain ⟨o, ho, hacc, hsig⟩ := hno
    rw [← List.countP_eq_length_filter]
    refine (List.countP_mono_left fun e he h => ?_).trans (hr.submits_le_one o.ordertag)
    unfold Event.submitsFor at h
    split at h
    · rename_i r hcall
      obtain ⟨p, hp, hpr⟩ := List.any_eq_true.mp h
      simp only [decide_eq_true_eq] at hpr
      obtain ⟨htag, hpacc, hpsig⟩ := hpr
      have : p.intent = o.intent := hreg.intent_eq hp ho hpsig hsig
      simp only [Event.submits, hcall, decide_eq_true_eq]
      rw [← htag, OrderRecord.ordertag_of_intent this]
    · cases h
  · refine le_of_eq_of_le (List.length_eq_zero_iff.mpr ?_) (Nat.zero_le 1)
    refine List.filter_eq_nil_iff.mpr fun e he h => hno ?_
    unfold Event.submitsFor at h
    split at h
    · obtain ⟨p, hp, hpr⟩ := List.any_eq_true.mp h
      simp only [decide_eq_true_eq] at hpr
      exact ⟨p, hp, hpr.2⟩
    · cases h

/-- Every submission was cleared. -/
theorem Run.cleared (hbook : scope.Bounds (cfg.engine.environment admits))
    (hr : Run cfg scope admits s) :
    Chronicle (Cleared cfg.engine.accountId) s.world.trace := by
  refine hr.invariant (J := fun w => Chronicle (Cleared cfg.engine.accountId) w.trace) hbook .nil
    (fun {u t c a w'} hu hJ _ hg hs => ?_) fun hJ => hJ
  obtain ⟨time, -, htrace⟩ := platform_step hs
  rw [htrace]
  refine .cons (fun r hr => ?_) hJ
  obtain rfl : c = .submit r := hr
  obtain ⟨-, o, hticket⟩ := hg
  obtain ⟨time₂, s₂, hchecked⟩ := hticket.checked
  obtain ⟨l₁, l₂, hsplit, hsection⟩ := exists_split_of_sinceLock hchecked
  obtain ⟨x, hx, hxo⟩ := hticket.known
  have hfree : s₂.unresolved cfg.engine.accountId o.instrumentId = false := by
    have hmem := (World.mem_trace_of_sinceLock hchecked).1
    rcases hu.honest hbook _ hmem _ _ rfl with h | ⟨name, h⟩
    · exact (Except.ok.inj h).symm
    · cases h
  refine ⟨x, hx, ?_, ?_, l₁, _, l₂, hsplit, rfl, hsection, ?_, fun p hp hacc hi => ?_⟩
  · exact ((hu.registered hbook).keyed _ (Store.knows_iff.mp (Store.knows_of_mem hx))).owner
  · rw [ExecutionEngine.requestOf_of_intent hxo]
    exact hticket.request
  · rw [OrderRecord.instrumentId_of_intent hxo]
  · rw [OrderRecord.instrumentId_of_intent hxo] at hi
    have hno := List.any_eq_false.mp hfree p hp
    simp only [hacc, hi, true_and, decide_eq_true_eq, not_or] at hno
    exact hno

/-- **At most one submission per intent.** In every run of the execution
layer, with any operations interleaved at their calls, the process dying
anywhere, and the broker answering anything: for each signal of the
account at most one call submits an order, and each submission is of a
stored order whose placement found no unresolved order on the instrument. -/
theorem submit_at_most_once (cfg : Settings) (admits : (c : Call) → c.Answer → Prop)
    (s : Pool calls PyError Unit World) (hr : Run cfg Scope.all admits s) :
    (∀ signalId, (s.world.trace.filter
      (Event.submitsFor cfg.engine.accountId signalId s.world.store.orders)).length ≤ 1) ∧
    ∀ newer e older, s.world.trace = newer ++ e :: older →
      Cleared cfg.engine.accountId e older := by
  have hbook : Scope.all.Bounds (cfg.engine.environment admits) := fun _ _ _ _ => trivial
  refine ⟨(hr.running hbook).submitsFor_le_one, fun newer e older h => ?_⟩
  · have := hr.cleared hbook
    rw [h] at this
    exact this.split

omit [DecimalContext] in
/-- Two placements of one signal, one after the other: one submission. -/
theorem submit_at_most_once_of_two :
    let s := Sample.play (Sample.script (fun r => .ok ⟨"B", some r.clientTag⟩) (fun _ _ => [])
      fun _ => []) (Sample.inTurn (List.replicate 2
        (.place (Sample.approval "S" .buy 10 (by decide)) none false)))
    s.world.trace.countP (Event.submits "N5") = 1 ∧
      (s.world.trace.filter (Event.submitsFor "A" "S" s.world.store.orders)).length ≤ 1 :=
  ⟨by decide +kernel, (@submit_at_most_once Decimal.standard Sample.settings _ _
    (Sample.run _ _)).1 "S"⟩

end Emporos
