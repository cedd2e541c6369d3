import Emporos.Execution.Effects
import Emporos.Execution.Safety
/-!
# Runs, and what holds in every run

A run starts from an empty journal and lets the operations of a scope
interleave at their calls, the process dying at any of them. `Run.invariant`
is the induction over runs; `Chronicle` is an invariant of the trace that
says of each call what had happened before it.

Three facts every later file uses: the journal answers honestly, no order
is ever forgotten, and the intents of the orders stay what placements made
them, with distinct keys and tags.
-/

namespace Emporos

open Async

/-- A property of each event of a trace and of what came before it. -/
inductive Chronicle (P : Event → List Event → Prop) : List Event → Prop
  | nil : Chronicle P []
  | cons {e : Event} {l : List Event} (h : P e l) (rest : Chronicle P l) : Chronicle P (e :: l)

namespace Chronicle

variable {P : Event → List Event → Prop} {e : Event} {l : List Event}

theorem head (h : Chronicle P (e :: l)) : P e l := by
  cases h with
  | cons h _ => exact h

theorem tail (h : Chronicle P (e :: l)) : Chronicle P l := by
  cases h with
  | cons _ h => exact h

theorem split {l₁ l₂ : List Event} (h : Chronicle P (l₁ ++ e :: l₂)) : P e l₂ := by
  induction l₁ with
  | nil => exact h.head
  | cons x l ih => exact ih h.tail

theorem mem {P : Event → Prop} (h : Chronicle (fun e _ => P e) l) (he : e ∈ l) : P e := by
  obtain ⟨l₁, l₂, rfl⟩ := List.append_of_mem he
  exact h.split

instance decidable [DecidableRel P] : (l : List Event) → Decidable (Chronicle P l)
  | [] => .isTrue .nil
  | e :: l =>
      have := decidable l
      decidable_of_iff (P e l ∧ Chronicle P l) ⟨fun h => .cons h.1 h.2, fun h => ⟨h.head, h.tail⟩⟩

end Chronicle

variable [DecimalContext]

/-- The environment an engine's journal lives in. -/
abbrev EngineSettings.environment (cfg : EngineSettings) (admits : (c : Call) → c.Answer → Prop) :
    Environment :=
  ⟨cfg.accountId, admits⟩

/-- The pools a run of the operations in `scope` reaches. -/
def Run (cfg : Settings) (scope : Scope) (admits : (c : Call) → c.Answer → Prop)
    (s : Pool calls PyError Unit World) : Prop :=
  Pool.Reachable (platform (cfg.engine.environment admits)) (Op.entry cfg scope.Allows)
    (Pool.idle World.start 0) s

variable {cfg : Settings} {scope : Scope} {admits : (c : Call) → c.Answer → Prop}
  {env : Environment} {s : Pool calls PyError Unit World} {t : ℕ} {w w' : World} {c : Call}
  {a : c.Answer}

omit [DecimalContext] in
theorem sane_start : Sane World.start := ⟨List.nodup_nil, fun _ _ => le_rfl⟩

/-- Every reachable world is sane. -/
theorem Run.sane (hbook : scope.Bounds (cfg.engine.environment admits))
    (hr : Run cfg scope admits s) : Sane s.world :=
  have hsound : s.Sound (engineContract cfg scope _) Pool.nothing :=
    Pool.Reachable.sound (fun _ _ => trivial) (safe_entry hbook) (.idle sane_start) hr
  hsound.inv

/-- Every call of a run is permitted. -/
theorem Run.permit (hbook : scope.Bounds (cfg.engine.environment admits))
    (hr : Run cfg scope admits s) {k : c.Answer → Program Unit}
    (ht : s.task t = some (.call c k)) : Permit cfg scope t s.world c :=
  have hsound : s.Sound (engineContract cfg scope _) Pool.nothing :=
    Pool.Reachable.sound (fun _ _ => trivial) (safe_entry hbook) (.idle sane_start) hr
  hsound.guar ht

/-- **Induction over runs.** -/
theorem Run.invariant {J : World → Prop}
    (hbook : scope.Bounds (cfg.engine.environment admits)) (hstart : J World.start)
    (hcall : ∀ {u : Pool calls PyError Unit World} {t c a w'}, Run cfg scope admits u →
      J u.world → Sane u.world → Permit cfg scope t u.world c →
      (platform (cfg.engine.environment admits)).step t u.world c a w' → J w')
    (hcrash : ∀ {w}, J w → J { w with lock := none })
    (hr : Run cfg scope admits s) : J s.world :=
  Pool.Reachable.invariant (C := engineContract cfg scope _) (safe_entry hbook) hcall hcrash
    (.idle sane_start) hstart hr

/-! ## Programs that keep the contract -/

/-- The pools reached by programs that keep the contract, whatever they
return. -/
def Running (cfg : Settings) (scope : Scope) (admits : (c : Call) → c.Answer → Prop) {α : Type}
    (s : Pool calls PyError α World) : Prop :=
  ∃ entry : Program α → Prop,
    (∀ p, entry p → ∀ t w, Sane w →
      (engineContract cfg scope (cfg.engine.environment admits)).Safe t p (Pool.nothing t) w) ∧
    Pool.Reachable (platform (cfg.engine.environment admits)) entry (Pool.idle World.start 0) s

/-- The operations of a session are such programs. -/
theorem Run.running (hbook : scope.Bounds (cfg.engine.environment admits))
    (hr : Run cfg scope admits s) : Running cfg scope admits s :=
  ⟨_, safe_entry hbook, hr⟩

section Running

variable {α : Type} {r : Pool calls PyError α World}

theorem Running.sane (hr : Running cfg scope admits r) : Sane r.world := by
  obtain ⟨entry, hentry, hr⟩ := hr
  have hsound : r.Sound (engineContract cfg scope _) Pool.nothing :=
    Pool.Reachable.sound (fun _ _ => trivial) hentry (.idle sane_start) hr
  exact hsound.inv

theorem Running.invariant {J : World → Prop} (hstart : J World.start)
    (hcall : ∀ {u : Pool calls PyError α World} {t c a w'}, J u.world → Sane u.world →
      Permit cfg scope t u.world c →
      (platform (cfg.engine.environment admits)).step t u.world c a w' → J w')
    (hcrash : ∀ {w}, J w → J { w with lock := none })
    (hr : Running cfg scope admits r) : J r.world := by
  obtain ⟨entry, hentry, hr⟩ := hr
  exact Pool.Reachable.invariant (C := engineContract cfg scope _) hentry (fun _ => hcall) hcrash
    (.idle sane_start) hstart hr

end Running

/-! ## Honest answers -/

/-- The journal answered what its store held, or failed. -/
def Honest (account : String) (e : Event) : Prop :=
  ∀ b s', e.store.serve account e.call = some (b, s') →
    e.answer = b ∨ ∃ name, e.answer = .error (.other name)

theorem Run.honest (hbook : scope.Bounds (cfg.engine.environment admits))
    (hr : Run cfg scope admits s) :
    ∀ e ∈ s.world.trace, Honest cfg.engine.accountId e := by
  have h : Chronicle (fun e _ => Honest cfg.engine.accountId e) s.world.trace := by
    refine hr.invariant (J := fun w => Chronicle (fun e _ => Honest cfg.engine.accountId e) w.trace)
      hbook .nil (fun _ hJ _ _ hs => ?_) fun hJ => hJ
    obtain ⟨time, ha, htrace⟩ := platform_step hs
    rw [htrace]
    refine .cons (fun b s' hb => ?_) hJ
    obtain ⟨-, ⟨hab, -⟩ | ⟨hname, -⟩⟩ := ha.of_serve hb
    · exact Or.inl hab
    · exact Or.inr hname
  exact fun e he => h.mem he

/-! ## Intents -/

/-- What the stored orders are, in the order they were created. -/
def Store.intents (s : Store) : List OrderRecord := s.orders.map OrderRecord.intent

omit [DecimalContext] in
theorem Store.knows_iff {s : Store} {o : OrderRecord} : s.Knows o ↔ o.intent ∈ s.intents := by
  simp [Store.Knows, Store.intents, eq_comm]

omit [DecimalContext] in
/-- A row replaced by one of the same intent leaves the intents. -/
theorem Store.intents_of_replace {s s' : Store} {p u : OrderRecord}
    (hids : (s.orders.map (·.id)).Nodup) (hp : s.Knows p) (hu : u.intent = p.intent)
    (hs : s'.orders = Table.replace (·.id) u.stored s.orders) : s'.intents = s.intents := by
  obtain ⟨y, hy, hyp⟩ := hp
  rw [Store.intents, hs, Table.replace, List.map_map]
  refine List.map_congr_left fun x hx => ?_
  by_cases hid : x.id = u.stored.id
  · have hyu : y.id = u.stored.id :=
      (OrderRecord.id_of_intent hyp).trans (OrderRecord.id_of_intent hu).symm
    have hxy : x = y := Table.eq_of_key hids hx hy (hid.trans hyu.symm)
    rw [Function.comp_apply, if_pos hid, OrderRecord.intent_stored, hu, ← hyp, hxy]
  · rw [Function.comp_apply, if_neg hid]

/-- **What a permitted call does to the intents**: a placement adds one,
and nothing else moves them. -/
theorem intents_of_step (hw : Sane w) (hg : Permit cfg scope t w c)
    (hs : (platform env).step t w c a w') :
    w'.store.intents = w.store.intents ∨
    ∃ o, c = .create o ∧ o.accountId = some env.account ∧ w.store.Fresh o ∧
      w'.store.intents = w.store.intents ++ [o.intent] := by
  rcases orders_of_step hg hs with h | ⟨o, hc, h⟩ | ⟨p, u, hp, hu, h⟩
  · exact Or.inl (by rw [Store.intents, h]; rfl)
  · obtain ⟨hacc, hfresh, -, h⟩ := Store.create_eq_ok.mp h
    refine Or.inr ⟨o, hc, hacc, hfresh, ?_⟩
    rw [h, Store.intents, List.map_append, List.map_singleton, OrderRecord.intent_stored]
    rfl
  · exact Or.inl (Store.intents_of_replace hw.ids hp hu h)

/-- What a placement makes an order, as far as its key goes. -/
structure Keyed (account : String) (o : OrderRecord) : Prop where
  owner : o.accountId = some account
  key : ∃ signalId, o.signalId = some signalId ∧ o.idempotencyKey = account ++ ":" ++ signalId

/-- The orders' keys and tags are distinct, and each key is that of the
order's account and signal. -/
structure Registered (account : String) (s : Store) : Prop where
  keys : (s.intents.map (·.idempotencyKey)).Nodup
  tags : (s.intents.map (·.ordertag)).Nodup
  keyed : ∀ o ∈ s.intents, Keyed account o

omit [DecimalContext] in
theorem Store.Fresh.ne_of_intents {s : Store} {o x : OrderRecord} (h : s.Fresh o)
    (hx : x ∈ s.intents) : x.id ≠ o.id ∧ x.idempotencyKey ≠ o.idempotencyKey ∧
      x.ordertag ≠ o.ordertag := by
  obtain ⟨y, hy, rfl⟩ := List.mem_map.mp hx
  exact h y hy

theorem Running.registered {α : Type} {r : Pool calls PyError α World}
    (hr : Running cfg scope admits r) : Registered cfg.engine.accountId r.world.store := by
  refine hr.invariant (J := fun w => Registered cfg.engine.accountId w.store)
    ⟨List.nodup_nil, List.nodup_nil, by simp [Store.intents, World.start, Store.empty]⟩
    (fun hJ hw hg hs => ?_) fun hJ => hJ
  rcases intents_of_step hw hg hs with h | ⟨o, rfl, hacc, hfresh, h⟩
  · exact ⟨h ▸ hJ.keys, h ▸ hJ.tags, h ▸ hJ.keyed⟩
  · obtain ⟨-, approval, parent, parentOrderId, m, id, limit, trigger, now, hnew⟩ := hg
    refine ⟨?_, ?_, ?_⟩
    · rw [h, List.map_append, List.nodup_append]
      refine ⟨hJ.keys, by simp, ?_⟩
      rintro k hk k' hk' rfl
      obtain ⟨x, hx, rfl⟩ := List.mem_map.mp hk
      rw [List.map_singleton, List.mem_singleton] at hk'
      exact (hfresh.ne_of_intents hx).2.1 hk'
    · rw [h, List.map_append, List.nodup_append]
      refine ⟨hJ.tags, by simp, ?_⟩
      rintro k hk k' hk' rfl
      obtain ⟨x, hx, rfl⟩ := List.mem_map.mp hk
      rw [List.map_singleton, List.mem_singleton] at hk'
      exact (hfresh.ne_of_intents hx).2.2 hk'
    · intro x hx
      rw [h, List.mem_append, List.mem_singleton] at hx
      rcases hx with hx | rfl
      · exact hJ.keyed x hx
      · rw [hnew.eq]
        exact ⟨rfl, approval.signalId, rfl, rfl⟩

theorem Run.registered (hbook : scope.Bounds (cfg.engine.environment admits))
    (hr : Run cfg scope admits s) : Registered cfg.engine.accountId s.world.store :=
  (hr.running hbook).registered

omit [DecimalContext] in
/-- One signal is one order. -/
theorem Registered.intent_eq {account signalId : String} {s : Store} {o p : OrderRecord}
    (h : Registered account s) (ho : o ∈ s.orders) (hp : p ∈ s.orders)
    (hos : o.signalId = some signalId) (hps : p.signalId = some signalId) :
    o.intent = p.intent := by
  have ho' := List.mem_map_of_mem (f := OrderRecord.intent) ho
  have hp' := List.mem_map_of_mem (f := OrderRecord.intent) hp
  obtain ⟨so, hso, hko⟩ := (h.keyed _ ho').key
  obtain ⟨sp, hsp, hkp⟩ := (h.keyed _ hp').key
  have hsame : so = sp := Option.some.inj (by
    rw [← hso, ← hsp]
    exact hos.trans hps.symm)
  exact List.inj_on_of_nodup_map h.keys ho' hp' (by rw [hko, hkp, hsame])

/-! ## Sections -/

omit [DecimalContext] in
theorem exists_split_of_takeWhile {α : Type} {p q : α → Bool} {l : List α} {x : α}
    (h : x ∈ (l.filter p).takeWhile q) :
    ∃ l₁ l₂, l = l₁ ++ x :: l₂ ∧ ∀ y ∈ l₁, p y → q y := by
  induction l with
  | nil => cases h
  | cons y l ih =>
      by_cases hp : p y
      · rw [List.filter_cons_of_pos hp] at h
        by_cases hq : q y
        · rw [List.takeWhile_cons_of_pos hq] at h
          rcases List.mem_cons.mp h with rfl | h
          · exact ⟨[], l, rfl, by simp⟩
          · obtain ⟨l₁, l₂, rfl, hl⟩ := ih h
            refine ⟨y :: l₁, l₂, rfl, fun z hz hpz => ?_⟩
            rcases List.mem_cons.mp hz with rfl | hz
            · exact hq
            · exact hl z hz hpz
        · rw [List.takeWhile_cons_of_neg hq] at h
          cases h
      · rw [List.filter_cons_of_neg hp] at h
        obtain ⟨l₁, l₂, rfl, hl⟩ := ih h
        refine ⟨y :: l₁, l₂, rfl, fun z hz hpz => ?_⟩
        rcases List.mem_cons.mp hz with rfl | hz
        · exact absurd hpz hp
        · exact hl z hz hpz

omit [DecimalContext] in
/-- What a task did since it took the lock stands in the trace, with no
locking call of the task after it. -/
theorem exists_split_of_sinceLock {e : Event} (h : e ∈ w.sinceLock t) :
    ∃ l₁ l₂, w.trace = l₁ ++ e :: l₂ ∧ ∀ x ∈ l₁, x.task = t → x.acquires = false := by
  obtain ⟨l₁, l₂, hl, hall⟩ := exists_split_of_takeWhile h
  exact ⟨l₁, l₂, hl, fun x hx hxt => by simpa using hall x hx (by simpa using hxt)⟩

end Emporos
