import Emporos.Async.Alone
import Emporos.Execution.Books
import Emporos.Execution.Scripts
/-!
# One operation at a time

What a journal that holds sound rows answers an operation that runs alone:
a change of an order as it was read goes through, and so does a fill of a
new trade. `Store.Sound` is what the rows of every reachable store are, and
what such a write leaves is sound again.
-/

namespace Emporos

open Async

variable {account : String} {s s' : Store} {o u x : OrderRecord}

/-- The books agree, and no two rows share an id, a key or a tag. -/
structure Store.Sound (account : String) (s : Store) : Prop where
  books : Books account s
  ids : (s.orders.map (·.id)).Nodup
  keys : (s.intents.map (·.idempotencyKey)).Nodup
  tags : (s.intents.map (·.ordertag)).Nodup

namespace Store.Sound

/-- A row read from the store is current. -/
theorem current (ho : o ∈ s.orders) : Current s o o := ⟨ho, rfl, rfl, rfl, rfl, rfl⟩

/-- The row of an order may be replaced by one of the same intent. -/
theorem replaceable (h : s.Sound account) (ho : o ∈ s.orders) (hu : u.intent = o.intent) :
    s.Replaceable u := by
  intro x hx hne
  have hx' := List.mem_map_of_mem (f := OrderRecord.intent) hx
  have ho' := List.mem_map_of_mem (f := OrderRecord.intent) ho
  refine ⟨fun hkey => hne ?_, fun htag => hne ?_⟩
  · have hkeys : x.idempotencyKey = o.idempotencyKey :=
      hkey.trans (OrderRecord.idempotencyKey_of_intent hu)
    have hsame : x.intent = o.intent := List.inj_on_of_nodup_map h.keys hx' ho' hkeys
    exact OrderRecord.id_of_intent (hsame.trans hu.symm)
  · have htags : x.ordertag = o.ordertag := htag.trans (OrderRecord.ordertag_of_intent hu)
    have hsame : x.intent = o.intent := List.inj_on_of_nodup_map h.tags hx' ho' htags
    exact OrderRecord.id_of_intent (hsame.trans hu.symm)

/-- **A change of a row as it was read goes through.** -/
theorem change_eq (h : s.Sound account) (ho : o ∈ s.orders) (hu : u.intent = o.intent) :
    ∃ seq, s.lastSeq o.id = some seq ∧ s.change o u = .ok { s with
      orders := Table.replace (·.id) u.stored s.orders
      events := s.events ++ [(u.event (seq + 1)).stored] } := by
  obtain ⟨e, he, heo⟩ := h.books.audited o ho
  obtain ⟨seq, hseq⟩ := Store.lastSeq_ne_none he heo
  refine ⟨seq, hseq, Store.change_eq_ok.2 ⟨o, seq, Table.lookup_of_mem h.ids ho, rfl, hseq,
    h.replaceable ho hu, fun e he heo hnext => ?_, rfl⟩⟩
  -- the next number is above every number of the order
  have hle := (Store.lastSeq_eq_some.1 hseq).2 e he (heo.trans (OrderRecord.id_of_intent hu))
  omega

/-- **A fill of a new trade goes through** if its order is as it was
read. -/
theorem recordFill_eq {e : ExecutionRecord} {q : PositionRecord} (h : s.Sound account)
    (ho : o ∈ s.orders) (hu : u.intent = o.intent) (howner : e.accountId = some account)
    (hnew : ∀ x ∈ s.executions, x.id ≠ e.id ∧ x.brokerTradeId ≠ e.brokerTradeId)
    (hq : q.stored.Booked account) :
    ∃ seq, s.lastSeq o.id = some seq ∧ s.recordFill account o u e q = .ok (.applied, { s with
      orders := Table.replace (·.id) u.stored s.orders
      events := s.events ++ [(u.event (seq + 1)).stored]
      executions := s.executions ++ [e.stored]
      positions := Table.upsert (·.id) q.stored s.positions }) := by
  obtain ⟨seq, hseq, hchange⟩ := h.change_eq ho hu
  refine ⟨seq, hseq, ?_⟩
  have hapart : ∀ x ∈ s.positions, x.accountId = q.accountId → x.instrumentId = q.instrumentId →
      x.id = q.id := fun x hx _ hi => ((h.books.positions x hx).id_eq_iff hq).2 hi
  have hwrite := Store.writeFill_eq_ok.2 ⟨_, hnew, hchange, hapart, rfl⟩
  have hacc : u.accountId = some account :=
    (OrderRecord.accountId_of_intent hu).trans (h.books.orders o ho).owner
  unfold Store.recordFill
  rw [if_neg (by simp [howner, hacc]), hwrite]

/-- A write that keeps the intents keeps the rows apart. -/
theorem of_replace (h : s.Sound account) (ho : o ∈ s.orders) (hu : u.intent = o.intent)
    (horders : s'.orders = Table.replace (·.id) u.stored s.orders) (hbooks : Books account s') :
    s'.Sound account := by
  have hsame : s'.intents = s.intents :=
    Store.intents_of_replace h.ids (Store.knows_of_mem ho) hu horders
  exact ⟨hbooks, Store.ids_of_replace h.ids horders, hsame ▸ h.keys, hsame ▸ h.tags⟩

end Store.Sound

/-! ## Answers to a task that runs alone -/

namespace Script

variable {y : Script} {t : ℕ} {w : World}

/-- The journal answers what it holds. -/
theorem ends_served {c : Call} {a : c.Answer} {Q : c.Answer → World → Prop}
    (h : w.store.serve account c = some (a, s'))
    (hQ : ∀ w', w'.store = s' → Q a w') :
    Task.Ends (y.handle account t) (Program.await c) Q w := by
  have hhandle : y.handle account t c w = (a, w.after t c a (y.clock w) s' w.lock) := by
    unfold handle
    rw [h]
  show Q (y.handle account t c w).1 (y.handle account t c w).2
  rw [hhandle]
  exact hQ _ rfl

/-- A transition that goes through. -/
theorem ends_transition {Q : (Call.transition o u).Answer → World → Prop}
    (h : w.store.transition account o u = .ok s') (hQ : ∀ w', w'.store = s' → Q (.ok ()) w') :
    Task.Ends (y.handle account t) (Program.await (.transition o u)) Q w := by
  refine ends_served ?_ hQ
  simp only [Store.serve, h, Store.written]

/-- A fill that goes through. -/
theorem ends_recordFill {e : ExecutionRecord} {q : PositionRecord}
    {Q : (Call.recordFill o u e q).Answer → World → Prop}
    (h : w.store.recordFill account o u e q = .ok (.applied, s'))
    (hQ : ∀ w', w'.store = s' → Q (.ok .applied) w') :
    Task.Ends (y.handle account t) (Program.await (.recordFill o u e q)) Q w := by
  refine ends_served ?_ hQ
  simp only [Store.serve, h]

theorem ends_now {Q : Call.now.Answer → World → Prop}
    (hQ : ∀ w', w'.store = w.store → Q (.ok (y.clock w)) w') :
    Task.Ends (y.handle account t) (Program.await .now) Q w := hQ _ rfl

/-- The rest of the world answers as the script says. -/
theorem ends_outside {c : Call} {a : c.Answer} {Q : c.Answer → World → Prop}
    (hs : w.store.serve account c = none)
    (hc : c ≠ .acquireLock ∧ c ≠ .releaseLock ∧ c ≠ .now) (ha : y.outside w c = a)
    (hQ : ∀ w', w'.store = w.store → Q a w') :
    Task.Ends (y.handle account t) (Program.await c) Q w := by
  obtain ⟨hacq, hrel, hnow⟩ := hc
  have hhandle : y.handle account t c w = (a, w.after t c a (y.clock w) w.store w.lock) := by
    subst ha
    unfold handle
    rw [hs]
    cases c with
    | acquireLock => exact absurd rfl hacq
    | releaseLock => exact absurd rfl hrel
    | now => exact absurd rfl hnow
    | _ => rfl
  show Q (y.handle account t c w).1 (y.handle account t c w).2
  rw [hhandle]
  exact hQ _ rfl

end Script

variable [DecimalContext] {cfg : Settings} {scope : Scope} {admits : (c : Call) → c.Answer → Prop}

/-- **Every reachable store is sound.** -/
theorem Run.sound {r : Pool calls PyError Unit World}
    (hbook : scope.Bounds (cfg.engine.environment admits)) (hr : Run cfg scope admits r) :
    r.world.store.Sound cfg.engine.accountId :=
  ⟨hr.books hbook, (hr.sane hbook).ids, (hr.registered hbook).keys, (hr.registered hbook).tags⟩

end Emporos
