import Emporos.Execution.Calls
import Emporos.Persistence.Writes
/-!
# Traces, and what a task sees of the world

The calls of one task (`own`), those it made since it last took the lock
(`sinceLock`), and the steps of the platform by what they change. `Later`
relates two worlds with no locking call of the task between them: what it
knew in the first it still knows in the second.
-/

namespace Emporos

/-! ## Orders that are known -/

namespace Store

/-- Some stored row has the intent of `o`. -/
def Knows (s : Store) (o : OrderRecord) : Prop := ∃ x ∈ s.orders, x.intent = o.intent

/-- No order is ever forgotten, nor its intent changed. -/
def Extends (s s' : Store) : Prop := ∀ o, s.Knows o → s'.Knows o

theorem Extends.refl (s : Store) : s.Extends s := fun _ h => h

theorem Extends.trans {s₁ s₂ s₃ : Store} (h : s₁.Extends s₂) (h' : s₂.Extends s₃) :
    s₁.Extends s₃ := fun o ho => h' o (h o ho)

variable {s : Store} {o p : OrderRecord}

theorem knows_of_mem (h : o ∈ s.orders) : s.Knows o := ⟨o, h, rfl⟩

theorem Knows.of_intent (h : s.Knows o) (hi : o.intent = p.intent) : s.Knows p := by
  obtain ⟨x, hx, hxo⟩ := h
  exact ⟨x, hx, hxo.trans hi⟩

theorem mem_of_get {account id : String} (h : s.get account id = some o) :
    o ∈ s.orders ∧ o.id = id ∧ o.accountId = some account := by
  have := List.find?_some h
  simp only [decide_eq_true_eq] at this
  exact ⟨List.mem_of_find?_eq_some h, this.1, this.2⟩

theorem mem_of_byBrokerOrderId {account id : String} (h : s.byBrokerOrderId account id = some o) :
    o ∈ s.orders ∧ o.brokerOrderId = some id ∧ o.accountId = some account := by
  have := List.find?_some h
  simp only [decide_eq_true_eq] at this
  exact ⟨List.mem_of_find?_eq_some h, this.1, this.2⟩

theorem mem_active {account : String} : o ∈ s.active account ↔
    o ∈ s.orders ∧ o.accountId = some account ∧ o.state.terminal = false := by
  simp [active, List.mem_insertionSort]

end Store

/-! ## Calls of one task -/

namespace Event

/-- The call that takes the lock. -/
def acquires (e : Event) : Bool :=
  match e.call with
  | .acquireLock => true
  | _ => false

/-- A placement that reached the journal, of an order with tag `tag`. -/
def creates (tag : String) (e : Event) : Bool :=
  match e.call, e.answer with
  | .create o, .ok () => o.ordertag = tag
  | _, _ => false

/-- A call to the broker with a request under `tag`. -/
def submits (tag : String) (e : Event) : Bool :=
  match e.call with
  | .submit r => r.clientTag = tag
  | _ => false

end Event

namespace World

variable {w w' w'' : World} {t u : ℕ} {c : Call} {a : c.Answer} {time : Timestamp} {s : Store}
  {l : Option ℕ} {e : Event}

/-- The calls of task `t` since it last took the lock, newest first. -/
def sinceLock (w : World) (t : ℕ) : List Event := (w.own t).takeWhile fun e => !e.acquires

@[simp] theorem after_store : (w.after t c a time s l).store = s := rfl

@[simp] theorem after_lock : (w.after t c a time s l).lock = l := rfl

@[simp] theorem after_trace :
    (w.after t c a time s l).trace = ⟨t, c, a, time, w.store⟩ :: w.trace := rfl

@[simp] theorem own_after_self :
    (w.after t c a time s l).own t = ⟨t, c, a, time, w.store⟩ :: w.own t := by
  simp [own]

theorem own_after_of_ne (h : u ≠ t) : (w.after t c a time s l).own u = w.own u := by
  simp [own, h.symm]

theorem mem_own : e ∈ w.own t ↔ e ∈ w.trace ∧ e.task = t := by
  simp [own]

theorem mem_trace_of_sinceLock (h : e ∈ w.sinceLock t) : e ∈ w.trace ∧ e.task = t :=
  mem_own.1 ((List.takeWhile_sublist _).mem h)

end World

/-! ## Steps -/

/-- What one step leaves, whichever call it was. -/
theorem platform_step {env : Environment} {t : ℕ} {w w' : World} {c : Call} {a : c.Answer}
    (h : (platform env).step t w c a w') :
    ∃ time, w.Answers env t time c a w'.store w'.lock ∧
      w'.trace = ⟨t, c, a, time, w.store⟩ :: w.trace := by
  obtain ⟨time, s, l, ha, rfl⟩ := h
  exact ⟨time, ha, rfl⟩

namespace World.Answers

variable {env : Environment} {w : World} {t : ℕ} {time : Timestamp} {c : Call} {a b : c.Answer}
  {s s' : Store} {l : Option ℕ}

/-- A call the journal takes: its answer with what it leaves, or a failure
with either store. -/
theorem of_serve (h : w.Answers env t time c a s l)
    (hs : w.store.serve env.account c = some (b, s')) : l = w.lock ∧
      ((a = b ∧ s = s') ∨ ((∃ name, a = .error (.other name)) ∧ (s = w.store ∨ s = s'))) := by
  cases h with
  | served h =>
      obtain ⟨rfl, rfl⟩ := Prod.mk.inj (Option.some.inj (h.symm.trans hs))
      exact ⟨rfl, Or.inl ⟨rfl, rfl⟩⟩
  | lost h => exact ⟨rfl, Or.inr ⟨⟨_, rfl⟩, Or.inl rfl⟩⟩
  | unheard h =>
      obtain ⟨rfl, rfl⟩ := Prod.mk.inj (Option.some.inj (h.symm.trans hs))
      exact ⟨rfl, Or.inr ⟨⟨_, rfl⟩, Or.inr rfl⟩⟩
  | acquired _ => simp [Store.serve] at hs
  | released => simp [Store.serve] at hs
  | clock => simp [Store.serve] at hs
  | outside h _ _ => rw [h] at hs; cases hs

/-- A call the journal does not take leaves the store. -/
theorem store_of_serve_none (h : w.Answers env t time c a s l)
    (hs : w.store.serve env.account c = none) : s = w.store := by
  cases h with
  | served h => rw [h] at hs; cases hs
  | lost h => rfl
  | unheard h => rw [h] at hs; cases hs
  | acquired _ => rfl
  | released => rfl
  | clock => rfl
  | outside => rfl

/-- Only the locking calls move the lock. -/
theorem lock_eq (h : w.Answers env t time c a s l) (ha : c ≠ .acquireLock) (hr : c ≠ .releaseLock) :
    l = w.lock := by
  cases h with
  | acquired _ => exact absurd rfl ha
  | released => exact absurd rfl hr
  | _ => rfl

theorem lock_of_acquire {a : Call.acquireLock.Answer} (h : w.Answers env t time .acquireLock a s l) :
    w.lock = none ∧ l = some t ∧ a = .ok () := by
  cases h with
  | served h => simp [Store.serve] at h
  | lost h => simp [Store.serve] at h
  | unheard h => simp [Store.serve] at h
  | acquired h => exact ⟨h, rfl, rfl⟩
  | outside _ hl _ => exact absurd rfl hl.1

theorem lock_of_release {a : Call.releaseLock.Answer} (h : w.Answers env t time .releaseLock a s l) :
    l = none ∧ a = .ok () := by
  cases h with
  | served h => simp [Store.serve] at h
  | lost h => simp [Store.serve] at h
  | unheard h => simp [Store.serve] at h
  | released => exact ⟨rfl, rfl⟩
  | outside _ hl _ => exact absurd rfl hl.2.1

/-- What the rest of the world answers is admitted. -/
theorem admits_of_outside (h : w.Answers env t time c a s l)
    (hs : w.store.serve env.account c = none)
    (hl : c ≠ .acquireLock ∧ c ≠ .releaseLock ∧ c ≠ .now) : env.admits c a := by
  cases h with
  | served h => rw [h] at hs; cases hs
  | lost h => rw [h] at hs; cases hs
  | unheard h => rw [h] at hs; cases hs
  | acquired _ => exact absurd rfl hl.1
  | released => exact absurd rfl hl.2.1
  | clock => exact absurd rfl hl.2.2
  | outside _ _ h => exact h

/-- The clock reads the time of its call. -/
theorem time_of_now {a : Call.now.Answer} (h : w.Answers env t time .now a s l) : a = .ok time := by
  cases h with
  | served h => simp [Store.serve] at h
  | lost h => simp [Store.serve] at h
  | unheard h => simp [Store.serve] at h
  | clock => rfl
  | outside _ hl _ => exact absurd rfl hl.2.2

end World.Answers

/-- The writes of the journal that can go through. -/
inductive Store.Write (account : String) (s : Store) : Call → Store → Prop
  | created {o : OrderRecord} {s' : Store} (h : s.create account o = .ok s') :
      Write account s (.create o) s'
  | changed {p u : OrderRecord} {s' : Store} (h : s.transition account p u = .ok s') :
      Write account s (.transition p u) s'
  | filled {p u : OrderRecord} {e : ExecutionRecord} {q : PositionRecord} {s' : Store}
      (he : e.accountId = some account) (hu : u.accountId = some account)
      (h : s.writeFill p u e q = .ok s') : Write account s (.recordFill p u e q) s'

/-- What the journal answers leaves the store, or is a write that went
through. -/
theorem Store.write_of_serve {account : String} {s s' : Store} {c : Call} {b : c.Answer}
    (h : s.serve account c = some (b, s')) : s' = s ∨ s.Write account c s' := by
  cases c with
  | create o =>
      obtain ⟨-, rfl⟩ := Prod.mk.inj (Option.some.inj h)
      cases hc : s.create account o with
      | error e => exact Or.inl rfl
      | ok s' => exact Or.inr (.created hc)
  | transition p u =>
      obtain ⟨-, rfl⟩ := Prod.mk.inj (Option.some.inj h)
      cases hc : s.transition account p u with
      | error e => exact Or.inl rfl
      | ok s' => exact Or.inr (.changed hc)
  | recordFill p u e q =>
      obtain ⟨-, rfl⟩ := Prod.mk.inj (Option.some.inj h)
      cases hc : s.recordFill account p u e q with
      | error e => exact Or.inl rfl
      | ok r =>
          rcases recordFill_eq_ok hc with ⟨-, he, hu, hw⟩ | ⟨-, hs⟩
          · exact Or.inr (.filled he hu hw)
          · exact Or.inl hs
  | get | byKey | byBrokerOrderId | unresolved | active | hasExecution | position
  | fillsThisSession => exact Or.inl (Prod.mk.inj (Option.some.inj h)).2.symm
  | _ => cases h

/-- **What a step does to the store**: nothing, or a write that went
through. -/
theorem store_of_step {env : Environment} {t : ℕ} {w w' : World} {c : Call} {a : c.Answer}
    (h : (platform env).step t w c a w') :
    w'.store = w.store ∨ w.store.Write env.account c w'.store := by
  obtain ⟨time, ha, -⟩ := platform_step h
  cases hs : w.store.serve env.account c with
  | none => exact Or.inl (ha.store_of_serve_none hs)
  | some r =>
      obtain ⟨-, ⟨-, hs'⟩ | ⟨-, hs' | hs'⟩⟩ := ha.of_serve hs
      · rw [hs']; exact Store.write_of_serve hs
      · exact Or.inl hs'
      · rw [hs']; exact Store.write_of_serve hs

/-- A write the journal acknowledges went through. -/
theorem written_of_ok {env : Environment} {t : ℕ} {w w' : World} {c : Call} {v : c.Value}
    {b : c.Answer} {s : Store} (h : (platform env).step t w c (.ok v) w')
    (hs : w.store.serve env.account c = some (b, s)) : b = .ok v ∧ w'.store = s := by
  obtain ⟨time, ha, -⟩ := platform_step h
  obtain ⟨-, ⟨hab, hs'⟩ | ⟨⟨name, hname⟩, -⟩⟩ := ha.of_serve hs
  · exact ⟨hab.symm, hs'⟩
  · cases hname

/-- An order whose creation was acknowledged is stored. -/
theorem knows_of_create {env : Environment} {t : ℕ} {w w' : World} {o : OrderRecord}
    (h : (platform env).step t w (.create o) (.ok ()) w') : w'.store.Knows o := by
  obtain ⟨hb, hs⟩ := written_of_ok h rfl
  cases hc : w.store.create env.account o with
  | error e => rw [hc] at hb; cases hb
  | ok s' =>
      rw [hc] at hs
      obtain ⟨-, -, -, rfl⟩ := Store.create_eq_ok.mp hc
      exact ⟨o.stored, by rw [hs]; exact List.mem_append_right _ (List.mem_singleton_self _),
        OrderRecord.intent_stored o⟩

/-- An order that was read is stored. -/
theorem knows_of_get {env : Environment} {t : ℕ} {w w' : World} {id : String} {o : OrderRecord}
    (h : (platform env).step t w (.get id) (.ok (some o)) w') : w'.store.Knows o := by
  obtain ⟨hb, hs⟩ := written_of_ok h rfl
  rw [hs]
  exact Store.knows_of_mem (Store.mem_of_get (Except.ok.inj hb)).1

/-- The active orders that were read are stored. -/
theorem knows_of_active {env : Environment} {t : ℕ} {w w' : World} {orders : List OrderRecord}
    (h : (platform env).step t w .active (.ok orders) w') : ∀ o ∈ orders, w'.store.Knows o := by
  obtain ⟨hb, hs⟩ := written_of_ok h rfl
  intro o ho
  rw [← Except.ok.inj hb, Store.mem_active] at ho
  rw [hs]
  exact Store.knows_of_mem ho.1

/-- A step of `t` is a call more for `t`, and none for the others. -/
theorem own_of_step {env : Environment} {t : ℕ} {w w' : World} {c : Call} {a : c.Answer}
    (h : (platform env).step t w c a w') :
    ∃ time, w'.own t = ⟨t, c, a, time, w.store⟩ :: w.own t ∧ ∀ u, u ≠ t → w'.own u = w.own u := by
  obtain ⟨time, s, l, -, rfl⟩ := h
  exact ⟨time, World.own_after_self, fun u hu => World.own_after_of_ne hu⟩

/-- The clock's answer is the time of its call. -/
theorem own_of_now {env : Environment} {t : ℕ} {w w' : World} {now : Timestamp}
    (h : (platform env).step t w .now (.ok now) w') :
    w'.own t = ⟨t, .now, .ok now, now, w.store⟩ :: w.own t := by
  obtain ⟨time, s, l, ha, rfl⟩ := h
  obtain rfl := Except.ok.inj ha.time_of_now
  exact World.own_after_self

end Emporos
