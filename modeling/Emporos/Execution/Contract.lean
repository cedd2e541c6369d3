import Emporos.Execution.Operations
import Emporos.Execution.Traces
/-!
# The contract of the execution layer

`Permit` says what a task must have done before each call it makes, in
terms of its own calls alone: an order is created under the lock after the
instrument was found free, a request is submitted for an order this very
section created, a transition records what the last look-up decided, a
fill folds the position the task last read. `engineContract` is the
rely–guarantee contract with `Permit` as its guarantee.

`Scope` bounds what the outside may ask: which trades are processed, and
which parents a direct placement names.
-/

namespace Emporos

namespace Event

/-- A look-up of the orders under `tag`, or a write of one by the engine. -/
def concerns (tag : String) (e : Event) : Bool :=
  match e.call with
  | .findByTag g => g = tag
  | .create o => o.ordertag = tag
  | .transition p _ => p.ordertag = tag
  | _ => false

/-- A reading of a stored position, or a fill folded into one. -/
def usesPosition (e : Event) : Bool :=
  match e.call with
  | .position _ | .recordFill .. => true
  | _ => false

end Event

/-- What the outside may ask of the execution layer. -/
structure Scope where
  trades : BrokerTrade → Prop
  parents : Option String → Prop

/-- No bound on what is asked. -/
def Scope.all : Scope := ⟨fun _ => True, fun _ => True⟩

/-- The operations within a scope. -/
def Scope.Allows (scope : Scope) : Op → Prop
  | .place _ parentOrderId _ => scope.parents parentOrderId
  | .process trade => scope.trades trade
  | _ => True

/-- The trade books the outside delivers hold trades of the scope. -/
def Scope.Bounds (scope : Scope) (env : Environment) : Prop :=
  ∀ book : List BrokerTrade, env.admits .tradeBook (.ok book) → ∀ trade ∈ book, scope.trades trade

section Permits

variable [DecimalContext] (cfg : Settings) (scope : Scope) (t : ℕ) (w : World)

/-! ## What a task has seen -/

/-- The last thing the task did about the orders under `tag` since it took
the lock was to look them up, and `rows` is what it got. -/
def LastLookup (tag : String) (rows : List BrokerOrder) : Prop :=
  ∃ l₁ time s l₂, w.sinceLock t = l₁ ++ ⟨t, .findByTag tag, .ok rows, time, s⟩ :: l₂ ∧
    ∀ x ∈ l₁, x.concerns tag = false

/-- The same with no row found, and the clock read right after. -/
def Judged (tag : String) (now : Timestamp) : Prop :=
  ∃ l₁ s₁ time s₂ l₂, w.sinceLock t = l₁ ++ ⟨t, .now, .ok now, now, s₁⟩ ::
      ⟨t, .findByTag tag, .ok [], time, s₂⟩ :: l₂ ∧ ∀ x ∈ l₁, x.concerns tag = false

/-- The task's newest reading of a position is of `instrumentId` and
returned `held`, and the task has recorded no fill since. -/
def LastPosition (instrumentId : String) (held : Option PositionRecord) : Prop :=
  ∃ time s, (w.own t).find? Event.usesPosition =
    some ⟨t, .position instrumentId, .ok held, time, s⟩

/-- The task has found no unresolved order on the instrument since it took
the lock. -/
def Checked (instrumentId : String) : Prop :=
  ∃ time s, (⟨t, .unresolved instrumentId, .ok false, time, s⟩ : Event) ∈ w.sinceLock t

/-- The task has created `o` since it took the lock. -/
def Created (o : OrderRecord) : Prop :=
  ∃ time s, (⟨t, .create o, .ok (), time, s⟩ : Event) ∈ w.sinceLock t

/-- The task has read the order `p` since it took the lock. -/
def Read (orderId : String) (p : OrderRecord) : Prop :=
  ∃ time s, (⟨t, .get orderId, .ok (some p), time, s⟩ : Event) ∈ w.sinceLock t

omit [DecimalContext] in
variable {t w} in
theorem Judged.lastLookup {tag : String} {now : Timestamp} (h : Judged t w tag now) :
    LastLookup t w tag [] := by
  obtain ⟨l₁, s₁, time, s₂, l₂, hl, hquiet⟩ := h
  refine ⟨l₁ ++ [⟨t, .now, .ok now, now, s₁⟩], time, s₂, l₂, by simp [hl], fun x hx => ?_⟩
  rcases List.mem_append.mp hx with hx | hx
  · exact hquiet x hx
  · rw [List.mem_singleton.mp hx]
    rfl

/-! ## Placement -/

/-- How a placement came to name its parent: the outside named it, or it
replaces a stored order within the bounds of the repricing policy. -/
inductive Placement (s : Store) (approval : RiskApprovedSignal) : Option String → Bool → Prop
  | direct {parentOrderId : Option String} {marketable : Bool}
      (h : scope.parents parentOrderId) : Placement s approval parentOrderId marketable
  | replacement {order : OrderRecord} (known : s.Knows order)
      (count : order.repriceCount < cfg.policy.maxReprices)
      (chased : RepricePolicy.chase order.chainPrice approval.signal.limitPrice
        ≤ cfg.policy.maxChaseBps)
      (keyed : approval.signalId = order.replacementKey) :
      Placement s approval (some order.id) false

omit [DecimalContext] in
/-- The parent a placement found: none for none, else an order it read and
may replace. -/
inductive Parent (signal : Signal) : Option String → Option OrderRecord → Prop
  | none : Parent signal Option.none Option.none
  | some {parentId : String} {p : OrderRecord} (read : Read t w parentId p)
      (replaceable : ExecutionEngine.replaceable signal p) : Parent signal (some parentId) (some p)

/-- What an order is when it is created. -/
structure NewOrder (o : OrderRecord) (approval : RiskApprovedSignal) (parent : Option OrderRecord)
    (parentOrderId : Option String) (marketable : Bool) (orderId : String) (limit : Money)
    (trigger : Option Money) (now : Timestamp) : Prop where
  eq : o = ExecutionEngine.newOrder cfg.engine approval parent parentOrderId orderId limit trigger
    now
  placement : Placement cfg scope w.store approval parentOrderId marketable
  price : marketable = false → limit = approval.signal.limitPrice
  parent : Parent t w approval.signal parentOrderId parent
  checked : Checked t w o.instrumentId

/-- The right to submit a request: its order was created in this section
and has not been submitted. -/
structure Ticket (r : PlaceOrderRequest) (o : OrderRecord) : Prop where
  request : ExecutionEngine.requestOf o = .ok r
  known : w.store.Knows o
  created : Created t w o
  checked : Checked t w o.instrumentId
  unsent : (w.own t).countP (Event.submits o.ordertag) < (w.own t).countP (Event.creates o.ordertag)

/-! ## Transitions -/

/-- Why the engine changes an order. -/
inductive Grounds (p : OrderRecord) : OrderState → String → Option String → Option ℕ → Prop
  /-- What came of submitting it, or of its approval expiring first. -/
  | sent {target : OrderState} {reason : String} {brokerOrderId : Option String}
      (h : target = .open ∨ target = .unknown ∨ target = .rejected)
      (fresh : p.brokerOrderId = none ∧ p.absenceChecks = 0) :
      Grounds p target reason brokerOrderId none
  /-- A cancel is about to be asked of the broker. -/
  | cancelling {reason : String} (named : p.brokerOrderId ≠ none) :
      Grounds p .pendingCancel reason none none
  /-- The cancel failed. -/
  | revokeFailed {reason : String} : Grounds p .unknown reason none none
  /-- The broker's rows decided it. -/
  | rows {rows : List BrokerOrder} {target : OrderState} {reason : String}
      {brokerOrderId : Option String} {checks : Option ℕ} (seen : LastLookup t w p.ordertag rows)
      (decided : ExecutionEngine.verdict p rows = .change target reason brokerOrderId checks) :
      Grounds p target reason brokerOrderId checks
  /-- The broker no longer lists it. -/
  | vanished {reason : String} (seen : LastLookup t w p.ordertag [])
      (state : p.state ≠ .unknown ∧ p.state ≠ .pendingNew) : Grounds p .unknown reason none none
  /-- One more look-up did not find it. -/
  | counted {reason : String} (seen : LastLookup t w p.ordertag [])
      (state : p.state = .unknown ∨ p.state = .pendingNew) :
      Grounds p .unknown reason none (some (p.absenceChecks + 1))
  /-- Enough look-ups did not find it. -/
  | confirmed {reason : String} {judged : Timestamp} (seen : Judged t w p.ordertag judged)
      (state : p.state = .unknown ∨ p.state = .pendingNew)
      (h : cfg.engine.absence.confirmed p (p.absenceChecks + 1) judged) :
      Grounds p .rejected reason none (some (p.absenceChecks + 1))

/-- What the engine writes over the order `p`. -/
def EngineChange (p u : OrderRecord) : Prop :=
  ∃ target reason brokerOrderId checks now,
    u = p.changed target reason brokerOrderId checks now ∧
    OrderStateMachine.validate p.state target p.filledQuantity p.filledQuantity p.quantity
      = .ok () ∧
    w.store.Knows p ∧ Grounds cfg t w p target reason brokerOrderId checks

/-! ## Fills -/

/-- What a fill writes over the order `p`. -/
structure FillWrite (p u : OrderRecord) (e : ExecutionRecord) (q : PositionRecord)
    (trade : BrokerTrade) (id : String) (now : Timestamp) (fees : Money) (soFar : ℕ)
    (held : Option PositionRecord) (flatAt filledAt : Timestamp) : Prop where
  inScope : scope.trades trade
  known : w.store.Knows p
  attributed : p.brokerOrderId = some trade.brokerOrderId
  accepted : FillProcessor.refuses p trade = false
  charged : cfg.fills.charges trade = .ok fees
  execution : e = FillProcessor.executionOf cfg.fills p trade id now fees soFar
  read : LastPosition t w trade.instrumentId held
  position : PositionCalculator.apply
    (held.getD (.flat cfg.fills.accountId trade.instrumentId flatAt)) e = .ok q
  valid : OrderStateMachine.validate p.state
    (FillProcessor.targetState p (p.filledQuantity + trade.quantity)) p.filledQuantity
    (p.filledQuantity + trade.quantity) p.quantity = .ok ()
  updated : u = FillProcessor.withFill p trade filledAt

/-! ## The contract -/

/-- What a task must have done before a call. -/
def Permit : Call → Prop
  | .create o => w.lock = some t ∧ ∃ approval parent parentOrderId marketable orderId limit trigger
      now, NewOrder cfg scope t w o approval parent parentOrderId marketable orderId limit trigger
        now
  | .submit r => w.lock = some t ∧ ∃ o, Ticket t w r o
  | .transition p u => w.lock = some t ∧ EngineChange cfg t w p u
  | .recordFill p u e q => ∃ trade id now fees soFar held flatAt filledAt,
      FillWrite cfg scope t w p u e q trade id now fees soFar held flatAt filledAt
  | .findByTag _ | .releaseLock => w.lock = some t
  | _ => True

end Permits

/-- What holds of the world between any two calls. -/
structure Sane (w : World) : Prop where
  ids : (w.store.orders.map (·.id)).Nodup
  /-- No task has submitted a tag more often than it created it. -/
  balanced : ∀ t tag,
    (w.own t).countP (Event.submits tag) ≤ (w.own t).countP (Event.creates tag)

/-- What a task counts on while others move. -/
structure Undisturbed (t : ℕ) (w w' : World) : Prop where
  own : w'.own t = w.own t
  lock : w'.lock = some t ↔ w.lock = some t
  grows : w.store.Extends w'.store

namespace Store

variable {account : String} {s s' : Store} {o p u : OrderRecord}

/-- A row replaced by one of the same intent is not forgotten. -/
theorem extends_of_replace (hids : (s.orders.map (·.id)).Nodup) (hp : s.Knows p)
    (hu : u.intent = p.intent)
    (hs : s'.orders = Table.replace (·.id) u.stored s.orders) : s.Extends s' := by
  rintro o ⟨x, hx, hxo⟩
  by_cases hid : x.id = u.id
  · obtain ⟨y, hy, hyp⟩ := hp
    have hyu : y.id = u.id :=
      (OrderRecord.id_of_intent hyp).trans (OrderRecord.id_of_intent hu).symm
    have hxy : x = y := Table.eq_of_key hids hx hy (hid.trans hyu.symm)
    refine ⟨u.stored, ?_, ?_⟩
    · rw [hs]; exact Table.row_mem_replace hx hid
    · rw [OrderRecord.intent_stored, hu, ← hyp, ← hxy, hxo]
  · have hkept : x ∈ Table.replace (·.id) u.stored s.orders :=
      (Table.mem_replace_of_ne (show x.id ≠ u.stored.id from hid)).mpr hx
    exact ⟨x, hs ▸ hkept, hxo⟩

theorem extends_of_append (hs : s'.orders = s.orders ++ [o]) : s.Extends s' := by
  rintro p ⟨x, hx, hxp⟩
  exact ⟨x, by rw [hs]; exact List.mem_append_left _ hx, hxp⟩

theorem ids_of_replace (hids : (s.orders.map (·.id)).Nodup)
    (hs : s'.orders = Table.replace (·.id) u.stored s.orders) :
    (s'.orders.map (·.id)).Nodup := by
  rw [hs, Table.map_key_replace]
  exact hids

theorem ids_of_create (hids : (s.orders.map (·.id)).Nodup)
    (h : s.create account o = .ok s') : (s'.orders.map (·.id)).Nodup := by
  obtain ⟨-, hf, -, rfl⟩ := create_eq_ok.mp h
  rw [List.map_append, List.nodup_append]
  refine ⟨hids, by simp, ?_⟩
  rintro a ha b hb rfl
  obtain ⟨x, hx, hxa⟩ := List.mem_map.mp ha
  rw [List.map_singleton, List.mem_singleton] at hb
  exact (hf x hx).1 (hxa.trans hb)

end Store

section Contracts

variable [DecimalContext] {cfg : Settings} {scope : Scope} {env : Environment} {t u : ℕ}
  {w w' : World} {c : Call} {a : c.Answer}

/-- **What a permitted call does to the orders**: it adds one, or replaces
one by a row of the same intent, or leaves them. -/
theorem orders_of_step (hg : Permit cfg scope t w c) (hs : (platform env).step t w c a w') :
    w'.store.orders = w.store.orders ∨
    (∃ o, c = .create o ∧ w.store.create env.account o = .ok w'.store) ∨
    ∃ p u : OrderRecord, w.store.Knows p ∧ u.intent = p.intent ∧
      w'.store.orders = Table.replace (·.id) u.stored w.store.orders := by
  rcases store_of_step hs with h | h
  · exact Or.inl (by rw [h])
  · cases h with
    | created h => exact Or.inr (Or.inl ⟨_, rfl, h⟩)
    | @changed p u _ h =>
        obtain ⟨-, target, reason, b, checks, now, rfl, -, hknown, -⟩ := hg
        obtain ⟨-, -, -, -, -, hchange⟩ := Store.transition_eq_ok.mp h
        obtain ⟨-, -, -, -, horders, -⟩ := Store.change_ok hchange
        exact Or.inr (Or.inr ⟨p, p.changed target reason b checks now, hknown, rfl, horders⟩)
    | @filled p u _ _ _ _ _ h =>
        obtain ⟨trade, id, now, fees, soFar, held, flatAt, filledAt, hf⟩ := hg
        obtain ⟨s₁, -, hchange, -, hs'⟩ := Store.writeFill_eq_ok.mp h
        obtain ⟨-, -, -, -, horders, -⟩ := Store.change_ok hchange
        refine Or.inr (Or.inr ⟨p, u, hf.known, by rw [hf.updated]; rfl, ?_⟩)
        rw [hs']
        exact horders

theorem extends_of_step (hw : Sane w) (hg : Permit cfg scope t w c)
    (hs : (platform env).step t w c a w') : w.store.Extends w'.store := by
  rcases orders_of_step hg hs with h | ⟨o, -, h⟩ | ⟨p, u, hp, hu, h⟩
  · rintro o ⟨x, hx, hxo⟩
    exact ⟨x, by rw [h]; exact hx, hxo⟩
  · obtain ⟨-, -, -, h⟩ := Store.create_eq_ok.mp h
    exact Store.extends_of_append (o := o.stored) (by rw [h])
  · exact Store.extends_of_replace hw.ids hp hu h

theorem ids_of_step (hw : Sane w) (hg : Permit cfg scope t w c)
    (hs : (platform env).step t w c a w') : (w'.store.orders.map (·.id)).Nodup := by
  rcases orders_of_step hg hs with h | ⟨o, -, h⟩ | ⟨p, u, hp, hu, h⟩
  · rw [h]; exact hw.ids
  · exact Store.ids_of_create hw.ids h
  · exact Store.ids_of_replace hw.ids h

theorem balanced_of_step (hw : Sane w) (hg : Permit cfg scope t w c)
    (hs : (platform env).step t w c a w') (u : ℕ) (tag : String) :
    (w'.own u).countP (Event.submits tag) ≤ (w'.own u).countP (Event.creates tag) := by
  obtain ⟨time, hself, hother⟩ := own_of_step hs
  by_cases hu : u = t
  · subst hu
    rw [hself, List.countP_cons, List.countP_cons]
    have hb := hw.balanced u tag
    by_cases hsub : Event.submits tag ⟨u, c, a, time, w.store⟩
    · cases c with
      | submit r =>
          obtain ⟨-, o, hticket⟩ := hg
          have htag : o.ordertag = tag := by
            rw [← PlaceOrderRequest.clientTag_of_make hticket.request]
            simpa [Event.submits] using hsub
          have := hticket.unsent
          rw [htag] at this
          rw [if_pos hsub]
          omega
      | _ => simp [Event.submits] at hsub
    · rw [if_neg hsub]
      omega
  · rw [hother u hu]
    exact hw.balanced u tag

variable (cfg scope env)

/-- **The contract of the execution layer.** -/
def engineContract : Async.Contract (platform env) where
  inv := Sane
  rely := Undisturbed
  guar := fun t w c => Permit cfg scope t w c
  rely_refl _ w := ⟨rfl, Iff.rfl, .refl w.store⟩
  rely_trans h₁ h₂ :=
    ⟨h₂.own.trans h₁.own, h₂.lock.trans h₁.lock, h₁.grows.trans h₂.grows⟩
  step_inv hw hg hs := ⟨ids_of_step hw hg hs, balanced_of_step hw hg hs⟩
  step_rely := by
    intro t u w c a w' hw hg hs hne
    obtain ⟨time, -, hother⟩ := own_of_step hs
    refine ⟨hother u hne, ?_, extends_of_step hw hg hs⟩
    obtain ⟨_, ha, _⟩ := platform_step hs
    by_cases hacq : c = .acquireLock
    · subst hacq
      obtain ⟨hl, hl', -⟩ := ha.lock_of_acquire
      rw [hl, hl']
      simp [Ne.symm hne]
    · by_cases hrel : c = .releaseLock
      · subst hrel
        obtain ⟨hl', -⟩ := ha.lock_of_release
        have hl : w.lock = some t := hg
        rw [hl, hl']
        simp [Ne.symm hne]
      · rw [ha.lock_eq hacq hrel]
  restart_inv h := ⟨h.ids, h.balanced⟩

end Contracts

end Emporos
