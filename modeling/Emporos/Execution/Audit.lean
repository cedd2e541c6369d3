import Emporos.Execution.Scripts
import Mathlib.Data.List.Chain
/-!
# The audit trail of an order

Engine and fill processor write to one order from readings of their own.
The version check lets a write through only if it was computed from the
row that is stored, so the event it appends follows the last one there is:
numbered next, in a state the machine allows after the last, at a quantity
that has not shrunk.
-/

namespace Emporos

open Async

/-- An order's events, in the order they were appended. -/
def Store.trail (s : Store) (orderId : String) : List OrderEventRecord :=
  s.events.filter fun e => e.orderId = orderId

/-- The events of an order are numbered from one and each follows from the
one before, the last being the order as it stands. -/
structure Audited (s : Store) (o : OrderRecord) : Prop where
  numbered : (s.trail o.id).map (·.seq) = List.range' 1 (s.trail o.id).length
  last : ∃ e, (s.trail o.id).getLast? = some e ∧ e.state = o.state ∧
    e.filledQuantity = o.filledQuantity
  follows : (s.trail o.id).IsChain fun a b => OrderStateMachine.validate a.state b.state
    a.filledQuantity b.filledQuantity o.quantity = .ok ()
  grows : (s.trail o.id).Pairwise fun a b => a.filledQuantity ≤ b.filledQuantity
  within : ∀ e ∈ s.trail o.id, e.filledQuantity ≤ o.quantity

/-- Every order has its trail, and every event its order. -/
structure Store.Audits (s : Store) : Prop where
  audited : ∀ o ∈ s.orders, Audited s o
  owned : ∀ e ∈ s.events, ∃ o ∈ s.orders, o.id = e.orderId

variable {s s' : Store} {o p u cur x : OrderRecord} {seq : ℕ} {id : String}

/-- An event of another order leaves a trail as it is. -/
theorem Store.trail_append_of_ne {e : OrderEventRecord} (hs : s'.events = s.events ++ [e])
    (h : e.orderId ≠ id) : s'.trail id = s.trail id := by
  rw [trail, hs, List.filter_append, List.filter_singleton, decide_eq_false h]
  exact List.append_nil _

theorem Store.trail_append_of_eq {e : OrderEventRecord} (hs : s'.events = s.events ++ [e])
    (h : e.orderId = id) : s'.trail id = s.trail id ++ [e] := by
  rw [trail, hs, List.filter_append, List.filter_singleton, decide_eq_true h]
  rfl

theorem Audited.of_trail (h : Audited s o) (hs : s'.trail o.id = s.trail o.id) : Audited s' o := by
  obtain ⟨hnumbered, hlast, hfollows, hgrows, hwithin⟩ := h
  rw [← hs] at hnumbered hlast hfollows hgrows hwithin
  exact ⟨hnumbered, hlast, hfollows, hgrows, hwithin⟩

/-- No event is above the order as it stands. -/
theorem Audited.filled_le {a : OrderEventRecord} (h : Audited s o) (ha : a ∈ s.trail o.id) :
    a.filledQuantity ≤ o.filledQuantity := by
  obtain ⟨e, hlast, -, hfilled⟩ := h.last
  obtain ⟨l, hl⟩ := List.getLast?_eq_some_iff.mp hlast
  have hgrows := h.grows
  rw [hl, List.mem_append] at ha
  rw [hl, List.pairwise_append] at hgrows
  rw [← hfilled]
  rcases ha with ha | ha
  · exact hgrows.2.2 a ha e (List.mem_singleton_self e)
  · rw [List.mem_singleton.mp ha]

/-- The highest number of a trail is its length. -/
theorem Audited.lastSeq_eq (h : Audited s o) (hseq : s.lastSeq o.id = some seq) :
    seq = (s.trail o.id).length := by
  obtain ⟨e, hlast, -⟩ := h.last
  have hne : s.trail o.id ≠ [] := by
    rintro hnil
    rw [hnil] at hlast
    cases hlast
  have hpos := List.length_pos_iff.mpr hne
  have hmax : (List.range' 1 (s.trail o.id).length).max? = some seq := h.numbered ▸ hseq
  obtain ⟨hmem, hle⟩ := List.max?_eq_some_iff.mp hmax
  have hlt := (List.mem_range'_1.mp hmem).2
  have hge := hle (s.trail o.id).length (List.mem_range'_1.mpr (by omega))
  omega

/-- **A change of the stored row carries its trail on.** -/
theorem Audited.change (h : Audited s cur) (hcur : Current s p cur) (hu : u.intent = p.intent)
    (hvalid : OrderStateMachine.validate p.state u.state p.filledQuantity u.filledQuantity
      p.quantity = .ok ())
    (hseq : s.lastSeq p.id = some seq)
    (hs : s'.events = s.events ++ [(u.event (seq + 1)).stored]) : Audited s' u.stored := by
  have hid : u.id = cur.id := (OrderRecord.id_of_intent hu).trans hcur.id_eq.symm
  have hq : u.stored.quantity = cur.quantity :=
    (OrderRecord.quantity_of_intent hu).trans hcur.quantity_eq.symm
  have htrail : s'.trail u.stored.id = s.trail cur.id ++ [(u.event (seq + 1)).stored] :=
    (Store.trail_append_of_eq hs rfl).trans (by rw [← hid]; rfl)
  obtain rfl := h.lastSeq_eq (hcur.id_eq ▸ hseq)
  obtain ⟨e, hlast, hstate, hfilled⟩ := h.last
  obtain ⟨hle, -, hfits⟩ := OrderStateMachine.validate_eq_ok.mp hvalid
  rw [← hcur.quantity_eq] at hvalid hfits
  refine ⟨?_, ?_, ?_, ?_, ?_⟩
  · rw [htrail, List.map_append, h.numbered, List.length_append, List.map_singleton,
      List.length_singleton, List.range'_concat, Nat.one_mul, Nat.add_comm 1]
    rfl
  · exact ⟨_, by rw [htrail]; exact List.getLast?_concat, rfl, rfl⟩
  · rw [htrail, hq]
    refine h.follows.append (.singleton _) fun a ha b hb => ?_
    rw [hlast, Option.mem_some_iff] at ha
    obtain rfl := ha
    obtain rfl := Option.mem_some_iff.mp hb
    rw [hstate, hfilled, hcur.state, hcur.filled]
    exact hvalid
  · rw [htrail, List.pairwise_append]
    refine ⟨h.grows, List.pairwise_singleton .., fun a ha b hb => ?_⟩
    obtain rfl := List.mem_singleton.mp hb
    have hau : a.filledQuantity ≤ cur.filledQuantity := h.filled_le ha
    rw [hcur.filled] at hau
    exact hau.trans hle
  · rw [htrail, hq]
    intro b hb
    rcases List.mem_append.mp hb with hb | hb
    · exact h.within b hb
    · obtain rfl := List.mem_singleton.mp hb
      exact hfits.1

/-- A new order starts its trail. -/
theorem Audited.create (hnone : s.trail o.id = []) (hq : o.filledQuantity ≤ o.quantity)
    (hs : s'.events = s.events ++ [(o.event 1).stored]) : Audited s' o.stored := by
  have htrail : s'.trail o.stored.id = [(o.event 1).stored] := by
    refine (Store.trail_append_of_eq hs rfl).trans ?_
    change s.trail o.id ++ _ = _
    rw [hnone]
    rfl
  refine ⟨by rw [htrail]; rfl, ⟨_, by rw [htrail]; rfl, rfl, rfl⟩, ?_, ?_, ?_⟩
  · rw [htrail]
    exact .singleton _
  · rw [htrail]
    exact List.pairwise_singleton ..
  · rw [htrail]
    intro e he
    rw [List.mem_singleton.mp he]
    exact hq

namespace Store

/-- The same of every order, when the row of one is replaced. -/
theorem Audits.change (h : s.Audits) (hcur : Current s p cur) (hu : u.intent = p.intent)
    (hvalid : OrderStateMachine.validate p.state u.state p.filledQuantity u.filledQuantity
      p.quantity = .ok ())
    (hseq : s.lastSeq p.id = some seq)
    (horders : s'.orders = Table.replace (·.id) u.stored s.orders)
    (hevents : s'.events = s.events ++ [(u.event (seq + 1)).stored]) : s'.Audits := by
  have hid : u.id = p.id := OrderRecord.id_of_intent hu
  constructor
  · intro x hx
    rw [horders, mem_orders_of_replace hcur hu] at hx
    rcases hx with rfl | ⟨hx, hne⟩
    · exact (h.audited cur hcur.mem).change hcur hu hvalid hseq hevents
    · exact (h.audited x hx).of_trail
        (trail_append_of_ne hevents fun h => hne (h.symm.trans hid))
  · intro e he
    have hkeep : ∀ o ∈ s.orders, ∃ x ∈ s'.orders, x.id = o.id := by
      intro o ho
      by_cases hop : o.id = p.id
      · refine ⟨u.stored, ?_, hid.trans hop.symm⟩
        rw [horders, mem_orders_of_replace hcur hu]
        exact Or.inl rfl
      · refine ⟨o, ?_, rfl⟩
        rw [horders, mem_orders_of_replace hcur hu]
        exact Or.inr ⟨ho, hop⟩
    rw [hevents, List.mem_append] at he
    rcases he with he | he
    · obtain ⟨o, ho, hoe⟩ := h.owned e he
      obtain ⟨x, hx, hxo⟩ := hkeep o ho
      exact ⟨x, hx, hxo.trans hoe⟩
    · obtain rfl := List.mem_singleton.mp he
      obtain ⟨x, hx, hxc⟩ := hkeep cur hcur.mem
      exact ⟨x, hx, hxc.trans (hcur.id_eq.trans hid.symm)⟩

/-- And when one is created. -/
theorem Audits.create (h : s.Audits) (hfresh : s.Fresh o) (hq : o.filledQuantity ≤ o.quantity)
    (horders : s'.orders = s.orders ++ [o.stored])
    (hevents : s'.events = s.events ++ [(o.event 1).stored]) : s'.Audits := by
  have hnone : s.trail o.id = [] := by
    refine List.filter_eq_nil_iff.mpr fun e he heo => ?_
    obtain ⟨x, hx, hxe⟩ := h.owned e he
    exact (hfresh x hx).1 (hxe.trans (of_decide_eq_true heo))
  constructor
  · intro x hx
    rw [horders, List.mem_append] at hx
    rcases hx with hx | hx
    · exact (h.audited x hx).of_trail
        (trail_append_of_ne hevents fun heq => (hfresh x hx).1 heq.symm)
    · obtain rfl := List.mem_singleton.mp hx
      exact Audited.create hnone hq hevents
  · intro e he
    rw [hevents, List.mem_append] at he
    rw [horders]
    rcases he with he | he
    · obtain ⟨x, hx, hxe⟩ := h.owned e he
      exact ⟨x, List.mem_append_left _ hx, hxe⟩
    · obtain rfl := List.mem_singleton.mp he
      exact ⟨o.stored, List.mem_append_right _ (List.mem_singleton_self _), rfl⟩

end Store

variable [DecimalContext] {cfg : Settings} {scope : Scope} {admits : (c : Call) → c.Answer → Prop}
  {env : Environment} {r : Pool calls PyError Unit World} {t : ℕ} {w w' : World} {c : Call}
  {a : c.Answer}

/-- **A permitted call keeps every trail.** -/
theorem audits_of_step (hJ : w.store.Audits) (hw : Sane w) (hg : Permit cfg scope t w c)
    (hs : (platform env).step t w c a w') : w'.store.Audits := by
  rcases effect_of_step hw hg hs with h | h
  · rw [h]
    exact hJ
  · cases h with
    | created held new owner fresh eq =>
        obtain ⟨approval, parent, parentOrderId, m, id, limit, trigger, now, hnew⟩ := new
        refine hJ.create fresh ?_ (by rw [eq]) (by rw [eq])
        rw [hnew.eq]
        exact Nat.zero_le _
    | @changed p _ target reason b checks now _ _ held hcur grounds follows fits last eq =>
        have hvalid : OrderStateMachine.validate p.state target p.filledQuantity p.filledQuantity
            p.quantity = .ok () := OrderStateMachine.validate_eq_ok.mpr ⟨le_rfl, follows, fits⟩
        exact hJ.change (u := p.changed target reason b checks now) hcur rfl hvalid last
          (by rw [eq]) (by rw [eq])
    | @filled _ _ u _ _ _ _ _ _ _ _ _ _ _ _ write hcur fits fresh owner last eq =>
        refine hJ.change (u := u) hcur (by rw [write.updated]; rfl) ?_ last (by rw [eq])
          (by rw [eq])
        rw [write.updated]
        exact write.valid

/-- **The audit log is complete**, in every state any interleaving of the
operations reaches. -/
theorem Run.audited (hr : Run cfg Scope.all admits r) {o : OrderRecord}
    (ho : o ∈ r.world.store.orders) : Audited r.world.store o := by
  have h : r.world.store.Audits := by
    refine hr.invariant (J := fun w => w.store.Audits) (fun _ _ _ _ => trivial)
      ⟨fun o ho => (by cases ho), fun e he => (by cases he)⟩ (fun _ hJ hw hg hs => ?_) fun hJ => hJ
    exact audits_of_step hJ hw hg hs
  exact h.audited o ho

/-- An order of ten is placed and ten are filled. -/
def auditedSample : Pool calls PyError Unit World :=
  Sample.play (Sample.script (fun r => .ok ⟨"B", some r.clientTag⟩) (fun _ _ => []) fun _ => [])
    (Sample.inTurn [.place (Sample.approval "S" .buy 10 Sample.ten_pos) none false,
      .process ⟨"T", "B", "I", .buy, 10, ⟨100⟩, some 0, Sample.ten_pos⟩])

omit [DecimalContext] in
theorem audited_sample : ∃ o ∈ auditedSample.world.store.orders,
    (auditedSample.world.store.trail o.id).map (fun e => (e.seq, e.state, e.filledQuantity)) =
        [(1, .pendingNew, 0), (2, .open, 0), (3, .filled, 10)] ∧
      Audited auditedSample.world.store o := by
  have htrail : ∃ o ∈ auditedSample.world.store.orders,
      (auditedSample.world.store.trail o.id).map (fun e => (e.seq, e.state, e.filledQuantity)) =
        [(1, .pendingNew, 0), (2, .open, 0), (3, .filled, 10)] := by
    decide +kernel
  have hrun : @Run Decimal.standard Sample.settings Scope.all (fun _ _ => True) auditedSample :=
    Sample.run _ _
  obtain ⟨o, ho, htrail⟩ := htrail
  exact ⟨o, ho, htrail, @Run.audited Decimal.standard _ _ _ hrun o ho⟩

end Emporos
