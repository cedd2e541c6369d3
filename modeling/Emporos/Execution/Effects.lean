import Emporos.Execution.Contract
/-!
# What a permitted call does to the store

`Effect` is the inversion of a step under the contract: a placement adds
an order, a transition or a fill replaces the row it was computed from,
and every other call leaves the store. Each case carries what the contract
says of the call, read against the row that is stored.
-/

namespace Emporos

/-- The stored row `cur` is at the version of `p`, and is the same order. -/
structure Current (s : Store) (p cur : OrderRecord) : Prop where
  mem : cur ∈ s.orders
  intent : cur.intent = p.intent
  state : cur.state = p.state
  filled : cur.filledQuantity = p.filledQuantity
  checks : cur.absenceChecks = p.absenceChecks
  broker : cur.brokerOrderId = p.brokerOrderId

namespace Current

variable {s : Store} {p cur : OrderRecord}

theorem id_eq (h : Current s p cur) : cur.id = p.id := OrderRecord.id_of_intent h.intent

theorem tag_eq (h : Current s p cur) : cur.ordertag = p.ordertag :=
  OrderRecord.ordertag_of_intent h.intent

theorem quantity_eq (h : Current s p cur) : cur.quantity = p.quantity :=
  OrderRecord.quantity_of_intent h.intent

end Current

/-- A change that goes through was computed from the stored row. -/
theorem current_of_change {s s' : Store} {p u : OrderRecord} (hids : (s.orders.map (·.id)).Nodup)
    (hp : s.Knows p) (h : s.change p u = .ok s') :
    ∃ cur seq, Current s p cur ∧ s.lastSeq p.id = some seq ∧
      s' = { s with
        orders := Table.replace (·.id) u.stored s.orders
        events := s.events ++ [(u.event (seq + 1)).stored] } := by
  obtain ⟨cur, seq, hl, hv, hseq, -, -, rfl⟩ := Store.change_eq_ok.mp h
  obtain ⟨y, hy, hyp⟩ := hp
  have hmem := Table.mem_of_lookup hl
  have hid : cur.id = p.id := Table.key_of_lookup hl
  have hcy : cur = y :=
    Table.eq_of_key hids hmem hy (hid.trans (OrderRecord.id_of_intent hyp).symm)
  simp only [OrderRecord.version, Prod.mk.injEq] at hv
  obtain ⟨hstate, hfilled, hchecks, hbroker, -⟩ := hv
  exact ⟨cur, seq, ⟨hmem, hcy ▸ hyp, hstate, hfilled, hchecks, hbroker⟩, hseq, rfl⟩

section Effects

variable [DecimalContext] (cfg : Settings) (scope : Scope) (account : String) (t : ℕ) (w : World)

/-- A write of task `t` that went through, and the store it left. -/
inductive Effect : Call → Store → Prop
  | created {o : OrderRecord} {s' : Store} (held : w.lock = some t)
      (new : ∃ approval parent parentOrderId marketable orderId limit trigger now,
        NewOrder cfg scope t w o approval parent parentOrderId marketable orderId limit trigger now)
      (owner : o.accountId = some account) (fresh : w.store.Fresh o)
      (eq : s' = { w.store with
        orders := w.store.orders ++ [o.stored]
        events := w.store.events ++ [(o.event 1).stored] }) : Effect (.create o) s'
  | changed {p cur : OrderRecord} {target : OrderState} {reason : String} {b : Option String}
      {checks : Option ℕ} {now : Timestamp} {seq : ℕ} {s' : Store} (held : w.lock = some t)
      (cur_of : Current w.store p cur) (grounds : Grounds cfg t w p target reason b checks)
      (follows : target ∈ p.state.allowedFrom)
      (fits : OrderStateMachine.Fits target p.filledQuantity p.quantity)
      (last : w.store.lastSeq p.id = some seq)
      (eq : s' = { w.store with
        orders := Table.replace (·.id) (p.changed target reason b checks now).stored w.store.orders
        events := w.store.events ++
          [((p.changed target reason b checks now).event (seq + 1)).stored] }) :
      Effect (.transition p (p.changed target reason b checks now)) s'
  | filled {p cur u : OrderRecord} {e : ExecutionRecord} {q : PositionRecord}
      {trade : BrokerTrade} {id : String} {now : Timestamp} {fees : Money} {soFar : ℕ}
      {held : Option PositionRecord} {flatAt filledAt : Timestamp} {seq : ℕ} {s' : Store}
      (write : FillWrite cfg scope t w p u e q trade id now fees soFar held flatAt filledAt)
      (cur_of : Current w.store p cur)
      (fits : OrderStateMachine.Fits u.state u.filledQuantity u.quantity)
      (fresh : ∀ x ∈ w.store.executions, x.id ≠ e.id ∧ x.brokerTradeId ≠ e.brokerTradeId)
      (owner : e.accountId = some account)
      (last : w.store.lastSeq p.id = some seq)
      (eq : s' = { w.store with
        orders := Table.replace (·.id) u.stored w.store.orders
        events := w.store.events ++ [(u.event (seq + 1)).stored]
        executions := w.store.executions ++ [e.stored]
        positions := Table.upsert (·.id) q.stored w.store.positions }) :
      Effect (.recordFill p u e q) s'

variable {cfg scope t w} {env : Environment} {w' : World} {c : Call} {a : c.Answer}

/-- **A permitted step leaves the store, or has an effect.** -/
theorem effect_of_step (hw : Sane w) (hg : Permit cfg scope t w c)
    (hs : (platform env).step t w c a w') :
    w'.store = w.store ∨ Effect cfg scope env.account t w c w'.store := by
  rcases store_of_step hs with h | h
  · exact Or.inl h
  · refine Or.inr ?_
    cases h with
    | created h =>
        obtain ⟨hheld, hnew⟩ := hg
        obtain ⟨hacc, hfresh, -, hs'⟩ := Store.create_eq_ok.mp h
        exact .created hheld hnew hacc hfresh hs'
    | changed h =>
        obtain ⟨hheld, target, reason, b, checks, now, rfl, hvalid, hknown, hgrounds⟩ := hg
        obtain ⟨-, -, -, -, -, hchange⟩ := Store.transition_eq_ok.mp h
        obtain ⟨cur, seq, hcur, hseq, hs'⟩ := current_of_change hw.ids hknown hchange
        obtain ⟨-, hmem, hfits⟩ := OrderStateMachine.validate_eq_ok.mp hvalid
        exact .changed hheld hcur hgrounds hmem hfits hseq hs'
    | filled he _ h =>
        obtain ⟨trade, id, now, fees, soFar, held, flatAt, filledAt, hf⟩ := hg
        obtain ⟨s₁, hfresh, hchange, -, hs'⟩ := Store.writeFill_eq_ok.mp h
        obtain ⟨cur, seq, hcur, hseq, hs₁⟩ := current_of_change hw.ids hf.known hchange
        obtain ⟨-, -, hfits⟩ := OrderStateMachine.validate_eq_ok.mp hf.valid
        refine .filled hf hcur ?_ hfresh he hseq ?_
        · rw [hf.updated]; exact hfits
        · rw [hs', hs₁]

end Effects

/-! ## Rows after a replacement -/

namespace Store

variable {s : Store} {p cur u x : OrderRecord}

/-- The rows of the other orders stay, and the order's own row is the new
one. -/
theorem mem_orders_of_replace (hcur : Current s p cur) (hu : u.intent = p.intent) :
    x ∈ Table.replace (·.id) u.stored s.orders ↔
      x = u.stored ∨ (x ∈ s.orders ∧ x.id ≠ p.id) := by
  have hid : u.stored.id = p.id := (OrderRecord.id_of_intent hu : u.id = p.id)
  rw [Table.mem_replace]
  constructor
  · rintro (⟨rfl, -⟩ | ⟨hx, hne⟩)
    · exact Or.inl rfl
    · exact Or.inr ⟨hx, fun h => hne (h.trans hid.symm)⟩
  · rintro (rfl | ⟨hx, hne⟩)
    · exact Or.inl ⟨rfl, cur, hcur.mem, hcur.id_eq.trans hid.symm⟩
    · exact Or.inr ⟨hx, fun h => hne (h.trans hid)⟩

end Store

end Emporos
