import Emporos.Execution.Alone
/-!
# What the machine makes of the engine's decisions

Resolving an order turns what the broker holds under its tag into a
transition, and the order machine may refuse that transition. It does so
for rows that contradict what the journal knows, and for an order with
fills that is found absent; such an order ends the loop it is resolved in.
-/

namespace Emporos

open Async

namespace ExecutionEngine

variable {account : String} {o : OrderRecord} {row : BrokerOrder} {rows : List BrokerOrder}
  {target : OrderState} {reason : String} {b : Option String} {checks : Option ℕ}

/-- The broker's row is this order at its quantity, in a status the machine
does not accept for it: filled while some of it is left, untouched while
some of it is filled, or rejected after a fill or a cancel. -/
def Contradicts (o : OrderRecord) (row : BrokerOrder) : Prop :=
  o.matchesRow row ∧ row.filledQuantity = o.filledQuantity ∧
    (row.status = .filled ∨ (row.status.state = .open ∧ 0 < o.filledQuantity) ∨
      (row.status = .rejected ∧ (0 < o.filledQuantity ∨ o.state = .pendingCancel)))

instance (o : OrderRecord) (row : BrokerOrder) : Decidable (Contradicts o row) :=
  inferInstanceAs (Decidable (_ ∧ _ ∧ _))

/-- Where a live order may go while its quantity stays: anywhere but to an
end or a start its fills do not allow. -/
theorem validate_live (hb : o.Booked account) (hlive : o.state.terminal = false) :
    OrderStateMachine.validate o.state target o.filledQuantity o.filledQuantity o.quantity =
      .ok () ↔
    target ∈ o.state.allowedFrom ∧ target ≠ .filled ∧
      (target = .partiallyFilled → 0 < o.filledQuantity) ∧
      (target = .open ∨ target = .pendingNew ∨ target = .rejected → o.filledQuantity = 0) := by
  have hlt := hb.live hlive
  rw [OrderStateMachine.validate_eq_ok]
  constructor
  · rintro ⟨-, hmem, -, hfull, hpart, hzero⟩
    exact ⟨hmem, fun h => by have := hfull h; omega, fun h => (hpart h).1, hzero⟩
  · rintro ⟨hmem, hne, hpart, hzero⟩
    exact ⟨le_rfl, hmem, hlt.le, fun h => absurd h hne, fun h => ⟨hpart h, hlt⟩, hzero⟩

/-- The states a live order may follow to. -/
theorem mem_allowedFrom_of_live (hb : o.Booked account) (hlive : o.state.terminal = false) :
    .unknown ∈ o.state.allowedFrom ∧ .cancelled ∈ o.state.allowedFrom ∧
      (0 < o.filledQuantity → .partiallyFilled ∈ o.state.allowedFrom) ∧
      (o.filledQuantity = 0 → .open ∈ o.state.allowedFrom) ∧
      (o.filledQuantity = 0 → (.rejected ∈ o.state.allowedFrom ↔ o.state ≠ .pendingCancel)) := by
  obtain ⟨-, -, hpart, -⟩ := hb.fits
  have hempty : o.filledQuantity = 0 → o.state ≠ .partiallyFilled := fun h hs => by
    have := hpart hs
    omega
  cases hs : o.state <;> simp_all [OrderState.terminal, OrderState.allowedFrom, OrderState.follows]

/-- Doubt is open to every live order. -/
theorem validate_unknown (hb : o.Booked account) (hlive : o.state.terminal = false) :
    OrderStateMachine.validate o.state .unknown o.filledQuantity o.filledQuantity o.quantity =
      .ok () :=
  (validate_live hb hlive).2 ⟨(mem_allowedFrom_of_live hb hlive).1, by simp, by simp, by simp⟩

/-- And so is the state it is in. -/
theorem validate_self (hb : o.Booked account) :
    OrderStateMachine.validate o.state o.state o.filledQuantity o.filledQuantity o.quantity =
      .ok () :=
  OrderStateMachine.validate_eq_ok.2 ⟨le_rfl, List.mem_cons_self, hb.fits⟩

/-- A live order without fills may be open, and one with fills may not. -/
theorem validate_open (hb : o.Booked account) (hlive : o.state.terminal = false) :
    OrderStateMachine.validate o.state .open o.filledQuantity o.filledQuantity o.quantity =
      .ok () ↔ o.filledQuantity = 0 := by
  rw [validate_live hb hlive]
  constructor
  · rintro ⟨-, -, -, hzero⟩
    exact hzero (Or.inl rfl)
  · intro hzero
    exact ⟨(mem_allowedFrom_of_live hb hlive).2.2.2.1 hzero, by simp, by simp, fun _ => hzero⟩

/-- Only an order without fills that no cancel was asked for is
rejected. -/
theorem validate_rejected (hb : o.Booked account) (hlive : o.state.terminal = false) :
    OrderStateMachine.validate o.state .rejected o.filledQuantity o.filledQuantity o.quantity =
      .ok () ↔ o.filledQuantity = 0 ∧ o.state ≠ .pendingCancel := by
  have hmem := (mem_allowedFrom_of_live hb hlive).2.2.2.2
  rw [validate_live hb hlive]
  constructor
  · rintro ⟨hrejected, -, -, hzero⟩
    have hz := hzero (Or.inr (Or.inr rfl))
    exact ⟨hz, (hmem hz).1 hrejected⟩
  · rintro ⟨hzero, hne⟩
    exact ⟨(hmem hzero).2 hne, by simp, by simp, fun _ => hzero⟩

/-- **What the machine makes of a row of the order at its quantity.** -/
theorem validate_row (hb : o.Booked account) (hlive : o.state.terminal = false)
    (hrow : o.matchesRow row) (hfilled : row.filledQuantity = o.filledQuantity)
    (hknown : row.status.state ≠ .unknown)
    (htarget : target = if row.status.state = .partiallyFilled ∧ o.filledQuantity = 0 then .open
      else row.status.state) :
    OrderStateMachine.validate o.state target o.filledQuantity o.filledQuantity o.quantity =
      .ok () ↔ ¬ Contradicts o row := by
  have hmem := mem_allowedFrom_of_live hb hlive
  unfold Contradicts
  simp only [hrow, hfilled, true_and]
  cases hstatus : row.status with
  | pending | «open» | triggerPending =>
      simp only [hstatus, BrokerOrderStatus.state] at htarget
      rw [if_neg (by simp)] at htarget
      rw [htarget, validate_open hb hlive]
      simp [BrokerOrderStatus.state]
  | partiallyFilled =>
      simp only [hstatus, BrokerOrderStatus.state, true_and] at htarget
      by_cases hzero : o.filledQuantity = 0
      · rw [htarget, if_pos hzero, validate_open hb hlive]
        simp [hzero, BrokerOrderStatus.state]
      · rw [htarget, if_neg hzero, validate_live hb hlive]
        have hpos : 0 < o.filledQuantity := by omega
        simp [BrokerOrderStatus.state, hmem.2.2.1 hpos, hpos]
  | filled =>
      simp only [hstatus, BrokerOrderStatus.state] at htarget
      rw [if_neg (by simp)] at htarget
      rw [htarget, validate_live hb hlive]
      simp
  | cancelled =>
      simp only [hstatus, BrokerOrderStatus.state] at htarget
      rw [if_neg (by simp)] at htarget
      rw [htarget, validate_live hb hlive]
      simp [BrokerOrderStatus.state, hmem.2.1]
  | rejected =>
      simp only [hstatus, BrokerOrderStatus.state] at htarget
      rw [if_neg (by simp)] at htarget
      rw [htarget, validate_rejected hb hlive]
      simp [BrokerOrderStatus.state]
  | unrecognised =>
      rw [hstatus] at hknown
      exact absurd rfl hknown

/-- **What the machine makes of a decision on what the broker holds.** -/
theorem validate_verdict (hb : o.Booked account) (hlive : o.state.terminal = false)
    (h : verdict o rows = .change target reason b checks) :
    OrderStateMachine.validate o.state target o.filledQuantity o.filledQuantity o.quantity =
      .ok () ↔ ¬ ∃ row, rows = [row] ∧ Contradicts o row := by
  rcases rows with _ | ⟨row, _ | ⟨row', rest⟩⟩
  · cases h
  · have hone : (∃ r, [row] = [r] ∧ Contradicts o r) ↔ Contradicts o row := by simp
    rw [hone]
    simp only [verdict] at h
    by_cases hrow : o.matchesRow row
    · rw [if_pos hrow, verdictOn] at h
      dsimp only at h
      by_cases hknown : row.status.state = .unknown
      · rw [if_pos hknown] at h
        obtain ⟨rfl, -⟩ := Verdict.change.inj h
        have hstatus : row.status = .unrecognised := by
          cases hs : row.status <;> simp_all [BrokerOrderStatus.state]
        rw [hknown, validate_unknown hb hlive]
        simp [Contradicts, hstatus, BrokerOrderStatus.state]
      · rw [if_neg hknown] at h
        by_cases hfilled : row.filledQuantity = o.filledQuantity
        · rw [if_neg (not_not.2 hfilled)] at h
          have hvalid := validate_row hb hlive hrow hfilled hknown rfl
          split_ifs at h with hpart hsame hchecks hsame hchecks
          all_goals obtain ⟨rfl, -⟩ := Verdict.change.inj h
          all_goals first
            | rw [if_pos hpart] at hvalid; exact hvalid
            | rw [if_neg hpart] at hvalid; exact hvalid
            | rw [if_pos hpart, hsame] at hvalid; exact hvalid
            | rw [if_neg hpart, hsame] at hvalid; exact hvalid
        · rw [if_pos hfilled] at h
          have hfree : ¬ Contradicts o row := fun hc => hfilled hc.2.1
          split_ifs at h with hadopt
          obtain ⟨rfl, -⟩ := Verdict.change.inj h
          rw [(validate_open hb hlive).2 hadopt.2]
          simp [hfree]
    · rw [if_neg hrow] at h
      obtain ⟨rfl, -⟩ := Verdict.change.inj h
      rw [validate_unknown hb hlive]
      simp [Contradicts, hrow]
  · obtain ⟨rfl, -⟩ := Verdict.change.inj h
    rw [validate_unknown hb hlive]
    simp

/-- A row that leaves the order as it is does not contradict it. -/
theorem not_contradicts_of_keep (hb : o.Booked account) (hlive : o.state.terminal = false)
    (h : verdict o rows = .keep) : rows ≠ [] ∧ ¬ ∃ row, rows = [row] ∧ Contradicts o row := by
  rcases rows with _ | ⟨row, _ | ⟨row', rest⟩⟩
  · cases h
  · refine ⟨by simp, ?_⟩
    rintro ⟨row', heq, hrow, hfilled, hstatus⟩
    obtain rfl := List.singleton_inj.mp heq
    simp only [verdict] at h
    rw [if_pos hrow, verdictOn] at h
    dsimp only at h
    by_cases hknown : row.status.state = .unknown
    · rw [if_pos hknown] at h
      cases h
    · rw [if_neg hknown, if_neg (not_not.2 hfilled)] at h
      have hvalid := validate_row hb hlive hrow hfilled hknown rfl
      -- the row keeps the order only where its state is the order's own
      split_ifs at h with hpart hsame hchecks hsame hchecks
      · rw [if_pos hpart, hsame] at hvalid
        exact hvalid.1 (validate_self hb) ⟨hrow, hfilled, hstatus⟩
      · rw [if_neg hpart, hsame] at hvalid
        exact hvalid.1 (validate_self hb) ⟨hrow, hfilled, hstatus⟩
  · cases h

theorem rows_of_absent (h : verdict o rows = .absent) : rows = [] := by
  rcases rows with _ | ⟨row, _ | ⟨row', rest⟩⟩
  · rfl
  · simp only [verdict, verdictOn] at h
    split_ifs at h
  · cases h

/-- Why a live order cannot be resolved, given what the broker answered and
the time. -/
def Barred (cfg : EngineSettings) (o : OrderRecord) (answer : Except PyError (List BrokerOrder))
    (now : Timestamp) : Prop :=
  (answer = .ok [] ∧ o.state = .unknown ∧ 0 < o.filledQuantity ∧
    cfg.absence.confirmed o (o.absenceChecks + 1) now) ∨
  ∃ row, answer = .ok [row] ∧ Contradicts o row

/-! ## One order -/

/-- What becomes of an order that is resolved, if it can be, and of the
store. -/
structure Resolved (account : String) (s : Store) (o : OrderRecord) (can : Prop)
    (r : Except PyError OrderRecord) (s' : Store) : Prop where
  sound : s'.Sound account
  others : ∀ x ∈ s.orders, x.id ≠ o.id → x ∈ s'.orders
  done : can → ∃ u, r = .ok u ∧ u.id = o.id
  raised : ¬ can → ∃ message, r = .error (.valueError message)

variable {s s' : Store} {can : Prop} {y : Script} {t : ℕ} {w : World} {cfg : EngineSettings}

/-- An order that is left as it is. -/
theorem Resolved.keep (hs : s.Sound account) (hs' : s' = s) (hcan : can) :
    Resolved account s o can (.ok o) s' :=
  ⟨hs' ▸ hs, fun _ hx _ => hs' ▸ hx, fun _ => ⟨o, rfl, rfl⟩, fun h => absurd hcan h⟩

/-- **A change of a row as it was read** goes through if the machine lets
it. -/
theorem ends_change (hs : w.store.Sound account) (ho : o ∈ w.store.orders)
    (hnamed : target = .pendingCancel → o.brokerOrderId ≠ none) :
    Task.Ends (y.handle account t) (change o target reason b checks) (fun r w' =>
      Resolved account w.store o (OrderStateMachine.validate o.state target o.filledQuantity
        o.filledQuantity o.quantity = .ok ()) r w'.store) w := by
  unfold change
  cases hv : OrderStateMachine.validate o.state target o.filledQuantity o.filledQuantity
      o.quantity with
  | error e =>
      obtain ⟨message, rfl⟩ := OrderStateMachine.validate_error hv
      exact ⟨hs, fun _ hx _ => hx, fun h => by simp at h, fun _ => ⟨message, rfl⟩⟩
  | ok =>
      simp only [Program.lift_ok_bind, Task.ends_bind]
      refine Script.ends_now fun w₁ hw₁ => ?_
      obtain ⟨u, hu⟩ : ∃ u, u = o.changed target reason b checks (y.clock w) := ⟨_, rfl⟩
      dsimp only
      rw [← hu]
      have hintent : u.intent = o.intent := by rw [hu]; rfl
      obtain ⟨seq, -, hchange⟩ := hs.change_eq ho hintent
      have howner := (hs.books.orders o ho).owner
      have htransition := Store.transition_eq_ok.2 ⟨howner,
        (OrderRecord.accountId_of_intent hintent).trans howner,
        (OrderRecord.id_of_intent hintent).symm,
        (OrderRecord.idempotencyKey_of_intent hintent).symm,
        (OrderRecord.ordertag_of_intent hintent).symm, hchange⟩
      refine Script.ends_transition (hw₁ ▸ htransition) fun w₂ hw₂ => ?_
      rw [hw₁] at hw₂
      simp only [Task.pure_eq, Task.ends_done]
      obtain ⟨-, hfollows, hfits⟩ := OrderStateMachine.validate_eq_ok.1 hv
      have hcur := Store.Sound.current ho
      have hbooks : Books account w₂.store := by
        rw [hw₂]
        refine hs.books.changed hcur hintent ?_ (by rw [hu]; rfl)
        rw [hu]
        exact (hs.books.orders o ho).changed hcur hnamed hfollows hfits
      refine ⟨hs.of_replace ho hintent (by rw [hw₂]) hbooks, fun x hx hne => ?_,
        fun _ => ⟨u, rfl, OrderRecord.id_of_intent hintent⟩, fun h => absurd trivial h⟩
      rw [hw₂]
      exact (Store.mem_orders_of_replace hcur hintent).mpr (Or.inr ⟨hx, hne⟩)

/-- **An order that the broker does not list.** -/
theorem ends_absent (hs : w.store.Sound cfg.accountId) (ho : o ∈ w.store.orders)
    (hlive : o.state.terminal = false) :
    Task.Ends (y.handle cfg.accountId t) (absent cfg o) (fun r w' =>
      Resolved cfg.accountId w.store o (¬ (o.state = .unknown ∧ 0 < o.filledQuantity ∧
        cfg.absence.confirmed o (o.absenceChecks + 1) (y.clock w))) r w'.store) w := by
  have hb := hs.books.orders o ho
  unfold absent
  by_cases hstate : o.state ≠ .unknown ∧ o.state ≠ .pendingNew
  · rw [if_pos hstate]
    refine (ends_change hs ho (by simp)).mono fun r w' h => ⟨h.sound, h.others, fun _ =>
      h.done (validate_unknown hb hlive), fun hcan => ?_⟩
    exact absurd (fun hbad => hstate.1 hbad.1) hcan
  · rw [if_neg hstate]
    simp only [Task.ends_bind]
    refine Script.ends_now fun w₁ hw₁ => ?_
    dsimp only
    have hs₁ : w₁.store.Sound cfg.accountId := hw₁ ▸ hs
    have ho₁ : o ∈ w₁.store.orders := hw₁ ▸ ho
    rw [← hw₁]
    split_ifs with hconfirmed
    · refine (ends_change hs₁ ho₁ (by simp)).mono fun r w' h => ⟨h.sound, h.others, fun hcan =>
        h.done ?_, fun hcan => h.raised fun hok => hcan ?_⟩
      · have hlivestate : o.state = .unknown ∨ o.state = .pendingNew := by
          by_contra hne
          exact hstate (not_or.mp hne)
        rw [validate_rejected hb hlive]
        rcases hlivestate with hs' | hs'
        · refine ⟨?_, by rw [hs']; simp⟩
          by_contra hfilled
          exact hcan ⟨hs', by omega, hconfirmed⟩
        · exact ⟨hb.fits.2.2.2 (Or.inr (Or.inl hs')), by rw [hs']; simp⟩
      · rintro ⟨-, hpos, -⟩
        have := ((validate_rejected hb hlive).1 hok).1
        omega
    · refine (ends_change hs₁ ho₁ (by simp)).mono fun r w' h => ⟨h.sound, h.others, fun _ =>
        h.done (validate_unknown hb hlive), fun hcan => ?_⟩
      exact absurd (fun hbad => hconfirmed hbad.2.2) hcan

/-- **What becomes of a live order that is resolved.** -/
theorem ends_resolve (hs : w.store.Sound cfg.accountId) (ho : o ∈ w.store.orders)
    (hlive : o.state.terminal = false) :
    Task.Ends (y.handle cfg.accountId t) (resolve cfg o) (fun r w' =>
      Resolved cfg.accountId w.store o (¬ Barred cfg o (y.outside w (.findByTag o.ordertag))
        (y.clock (y.handle cfg.accountId t (.findByTag o.ordertag) w).2)) r w'.store) w := by
  have hb := hs.books.orders o ho
  unfold resolve
  rw [Task.ends_bind, Task.ends_attempt]
  obtain ⟨w₁, hw₁⟩ : ∃ w₁, w₁ = (y.handle cfg.accountId t (.findByTag o.ordertag) w).2 := ⟨_, rfl⟩
  have hstore : w₁.store = w.store := by rw [hw₁]; rfl
  have hask : ∀ Q : (Call.findByTag o.ordertag).Answer → World → Prop,
      Task.Ends (y.handle cfg.accountId t) (Program.await (.findByTag o.ordertag)) Q w ↔
        Q (y.outside w (.findByTag o.ordertag)) w₁ := fun Q => by rw [hw₁]; exact Iff.rfl
  rw [hask, ← hw₁]
  dsimp only
  cases hanswer : y.outside w (.findByTag o.ordertag) with
  | error e => exact .keep hs hstore (by simp [Barred])
  | ok rows =>
      dsimp only
      cases hverdict : verdict o rows with
      | keep =>
          obtain ⟨hne, hfree⟩ := not_contradicts_of_keep hb hlive hverdict
          refine .keep hs hstore ?_
          rintro (⟨hnone, -⟩ | ⟨row, hrow, hbad⟩)
          · exact hne (Except.ok.inj hnone)
          · exact hfree ⟨row, Except.ok.inj hrow, hbad⟩
      | absent =>
          obtain rfl := rows_of_absent hverdict
          have hbarred : Barred cfg o (.ok []) (y.clock w₁) ↔ o.state = .unknown ∧
              0 < o.filledQuantity ∧ cfg.absence.confirmed o (o.absenceChecks + 1) (y.clock w₁) := by
            simp [Barred]
          rw [hbarred, ← hstore]
          exact ends_absent (hstore ▸ hs) (hstore ▸ ho) hlive
      | change target reason b checks =>
          have hsome : rows ≠ [] := by
            rintro rfl
            cases hverdict
          have hbarred : Barred cfg o (.ok rows) (y.clock w₁) ↔
              ∃ row, rows = [row] ∧ Contradicts o row := by
            simp [Barred, hsome]
          rw [hbarred, ← validate_verdict hb hlive hverdict, ← hstore]
          exact ends_change (hstore ▸ hs) (hstore ▸ ho) fun htarget =>
            absurd htarget (ne_pendingCancel_of_verdict hverdict)

/-! ## Every order in turn -/

/-- The order is barred when its turn comes. -/
def BarredAt (cfg : EngineSettings) (y : Script) (t : ℕ) (p : OrderRecord × World) : Prop :=
  Barred cfg p.1 (y.outside p.2 (.findByTag p.1.ordertag))
    (y.clock (y.handle cfg.accountId t (.findByTag p.1.ordertag) p.2).2)

/-- **Live rows of different orders are all resolved** unless one is barred
when its turn comes. -/
theorem ends_resolveAll_iff {l : List OrderRecord} (hs : w.store.Sound cfg.accountId)
    (hmem : ∀ o ∈ l, o ∈ w.store.orders) (hids : (l.map (·.id)).Nodup)
    (hlive : ∀ o ∈ l, o.state.terminal = false) :
    Task.Ends (y.handle cfg.accountId t) (resolveAll cfg l)
      (fun r _ => ∃ resolved, r = .ok resolved ∧ resolved.map (·.id) = l.map (·.id)) w ↔
    ∀ p ∈ Task.turns (y.handle cfg.accountId t) (resolve cfg) l w, ¬ BarredAt cfg y t p := by
  induction l generalizing w with
  | nil => simp [resolveAll]
  | cons o rest ih =>
      obtain ⟨ho, hrest⟩ := List.forall_mem_cons.mp hmem
      obtain ⟨hnotin, hids⟩ := List.nodup_cons.mp hids
      obtain ⟨hlive₁, hlives⟩ := List.forall_mem_cons.mp hlive
      have hone : Resolved cfg.accountId w.store o (¬ BarredAt cfg y t (o, w)) _ _ :=
        ends_resolve (t := t) (y := y) hs ho hlive₁
      rw [Task.turns_cons, List.forall_mem_cons, resolveAll, Task.ends_bind]
      unfold Task.Ends at hone ⊢
      generalize (resolve cfg o).exec (y.handle cfg.accountId t) w = ended at hone ⊢
      obtain ⟨r, w'⟩ := ended
      by_cases hbarred : BarredAt cfg y t (o, w)
      · obtain ⟨message, hr⟩ := hone.raised (not_not.2 hbarred)
        obtain rfl : r = _ := hr
        simp [hbarred]
      · obtain ⟨u, hr, hu⟩ := hone.done hbarred
        obtain rfl : r = _ := hr
        have hkept : ∀ x ∈ rest, x ∈ w'.store.orders := fun x hx =>
          hone.others x (hrest x hx) fun heq =>
            hnotin (List.mem_map.2 ⟨x, hx, heq⟩)
        have htail := ih hone.sound hkept hids hlives
        simp only [hbarred, not_false_eq_true, true_and]
        rw [← htail]
        unfold Task.Ends
        dsimp only
        rw [Task.exec_bind]
        split
        · rename_i others w₂ hrun
          rw [hrun]
          simp [hu]
        · rename_i e w₂ hrun
          rw [hrun]
          simp

/-- Under the lock a body ends as it does. -/
theorem ends_locked {α : Type} {body : Program α} {Q : Except PyError α → Prop} :
    Task.Ends (y.handle account t) (locked body) (fun r _ => Q r) w ↔
      Task.Ends (y.handle account t) body (fun r _ => Q r)
        (y.handle account t .acquireLock w).2 := by
  have hlock : (Program.await .acquireLock).exec (y.handle account t) w =
      (.ok (), (y.handle account t .acquireLock w).2) := rfl
  unfold locked Task.Ends
  rw [Task.exec_bind, hlock]
  dsimp only
  rw [Task.exec_bind, Task.exec_attempt]
  exact Iff.rfl

/-- The world once the engine holds its lock and has read the live
orders. -/
def begun (cfg : EngineSettings) (y : Script) (t : ℕ) (w : World) : World :=
  (y.handle cfg.accountId t .active (y.handle cfg.accountId t .acquireLock w).2).2

/-- **Resolving a choice of the live orders**, under the lock. -/
theorem ends_locked_iff (pick : List OrderRecord → List OrderRecord)
    (hpick : ∀ l, (pick l).Sublist l) (hs : w.store.Sound cfg.accountId) :
    Task.Ends (y.handle cfg.accountId t)
      (locked do resolveAll cfg (pick (← Program.await .active)))
      (fun r _ => ∃ resolved, r = .ok resolved ∧
        resolved.map (·.id) = (pick (w.store.active cfg.accountId)).map (·.id)) w ↔
    ∀ p ∈ Task.turns (y.handle cfg.accountId t) (resolve cfg)
      (pick (w.store.active cfg.accountId)) (begun cfg y t w), ¬ BarredAt cfg y t p := by
  have hsub := hpick (w.store.active cfg.accountId)
  have hactive : ∀ o ∈ pick (w.store.active cfg.accountId),
      o ∈ w.store.orders ∧ o.state.terminal = false := by
    intro o ho
    obtain ⟨hmem, -, hlive⟩ := Store.mem_active.1 (hsub.subset ho)
    exact ⟨hmem, hlive⟩
  have hids : ((pick (w.store.active cfg.accountId)).map (·.id)).Nodup := by
    have hall : ((w.store.active cfg.accountId).map (·.id)).Nodup := by
      refine ((List.perm_insertionSort _ _).map _).nodup_iff.2 ?_
      exact (List.filter_sublist.map _).nodup hs.ids
    exact (hsub.map _).nodup hall
  have hstart : (begun cfg y t w).store = w.store := rfl
  have hall := ends_resolveAll_iff (t := t) (y := y) (w := begun cfg y t w) (hstart ▸ hs)
    (fun o ho => (hactive o ho).1) hids fun o ho => (hactive o ho).2
  rw [← hall, ends_locked (Q := fun r : Except PyError (List OrderRecord) => ∃ resolved,
    r = .ok resolved ∧
      resolved.map (·.id) = (pick (w.store.active cfg.accountId)).map (·.id)), Task.ends_bind]
  exact Iff.rfl

variable [DecimalContext] {settings : Settings} {admits : (c : Call) → c.Answer → Prop}
  {r : Pool calls PyError Unit World}

/-- **Which answers block the others.** Run from any reachable state, a
recovery and a periodic resolution resolve every order they were to
examine, unless one is barred when its turn comes. -/
theorem resolution_iff (hr : Run settings Scope.all admits r) (y : Script) (t : ℕ) :
    (Task.Ends (y.handle settings.engine.accountId t) (recover settings.engine)
        (fun a _ => ∃ resolved, a = .ok resolved ∧ resolved.map (·.id) =
          (r.world.store.active settings.engine.accountId).map (·.id)) r.world ↔
      ∀ p ∈ Task.turns (y.handle settings.engine.accountId t) (resolve settings.engine)
        (r.world.store.active settings.engine.accountId) (begun settings.engine y t r.world),
        ¬ BarredAt settings.engine y t p) ∧
    (Task.Ends (y.handle settings.engine.accountId t) (resolveUnresolved settings.engine)
        (fun a _ => ∃ resolved, a = .ok resolved ∧ resolved.map (·.id) =
          ((r.world.store.active settings.engine.accountId).filter inDoubt).map (·.id)) r.world ↔
      ∀ p ∈ Task.turns (y.handle settings.engine.accountId t) (resolve settings.engine)
        ((r.world.store.active settings.engine.accountId).filter inDoubt)
        (begun settings.engine y t r.world), ¬ BarredAt settings.engine y t p) := by
  have hs := hr.sound fun _ _ _ _ => trivial
  exact ⟨ends_locked_iff (fun l => l) (fun l => List.Sublist.refl l) hs,
    ends_locked_iff (fun l => l.filter inDoubt) (fun l => List.filter_sublist) hs⟩

/-! ## An order of ten of which three are filled -/

def partlyFilled : Pool calls PyError Unit World :=
  Sample.play (Sample.script (fun a => .ok ⟨"B", some a.clientTag⟩) (fun _ _ => []) fun _ => [])
    (Sample.inTurn [.place (Sample.approval "S" .buy 10 Sample.ten_pos) none false,
      .process ⟨"T", "B", "I", .buy, 3, ⟨100⟩, some 0, by decide⟩])

omit [DecimalContext] in
theorem run_partlyFilled :
    @Run Decimal.standard Sample.settings Scope.all (fun _ _ => True) partlyFilled :=
  Sample.run _ _

/-- The broker lists the order in a status, with its three fills. -/
def listing (status : BrokerOrderStatus) : Script :=
  Sample.script (fun a => .ok ⟨"B", some a.clientTag⟩)
    (fun _ tag => [Sample.row tag "B" .buy 10 3 status]) fun _ => []

omit [DecimalContext] in
theorem barredAt_listing {status : BrokerOrderStatus} {t : ℕ} {p : OrderRecord × World} :
    BarredAt Sample.settings.engine (listing status) t p ↔
      Contradicts p.1 (Sample.row p.1.ordertag "B" .buy 10 3 status) := by
  have hanswer : (listing status).outside p.2 (.findByTag p.1.ordertag) =
      .ok [Sample.row p.1.ordertag "B" .buy 10 3 status] := rfl
  unfold BarredAt Barred
  rw [hanswer]
  simp

omit [DecimalContext] in
/-- Listed as partly filled, it is recovered. -/
theorem resolution_partlyFilled :
    Task.Ends ((listing .partiallyFilled).handle "A" 9) (recover Sample.settings.engine)
      (fun a _ => ∃ resolved, a = .ok resolved ∧ resolved.map (·.id) =
        (partlyFilled.world.store.active "A").map (·.id)) partlyFilled.world := by
  refine (@resolution_iff Decimal.standard _ _ _ run_partlyFilled (listing .partiallyFilled) 9).1.2
    fun p hp => ?_
  have hfree : (partlyFilled.world.store.active "A").all (fun o =>
      ¬ Contradicts o (Sample.row o.ordertag "B" .buy 10 3 .partiallyFilled)) = true := by
    decide +kernel
  have hmem : p.1 ∈ partlyFilled.world.store.active "A" := by
    rw [← Task.map_turns (partlyFilled.world.store.active "A")]
    exact List.mem_map_of_mem hp
  rw [barredAt_listing]
  exact of_decide_eq_true (List.all_eq_true.1 hfree p.1 hmem)

omit [DecimalContext] in
/-- Listed as pending, it ends the recovery. -/
theorem not_resolution : ¬ ∀ (r : Pool calls PyError Unit World) (y : Script),
    @Run Decimal.standard Sample.settings Scope.all (fun _ _ => True) r →
    (∀ w tag, ∃ status filled, filled ≤ 10 ∧
      y.outside w (.findByTag tag) = .ok [Sample.row tag "B" .buy 10 filled status]) →
    Task.Ends (y.handle "A" 9) (recover Sample.settings.engine)
      (fun a _ => ∃ resolved, a = .ok resolved ∧ resolved.map (·.id) =
        (r.world.store.active "A").map (·.id)) r.world := by
  intro h
  have hends := h _ (listing .pending) run_partlyFilled fun _ tag => ⟨.pending, 3, by decide, rfl⟩
  have hs := @Run.sound Decimal.standard _ _ _ _ (fun _ _ _ _ => trivial) run_partlyFilled
  have hturns := (ends_locked_iff (fun l => l) (fun l => List.Sublist.refl l) hs).1 hends
  have hfirst : ((partlyFilled.world.store.active "A").head?).any (fun o =>
      Contradicts o (Sample.row o.ordertag "B" .buy 10 3 .pending)) = true := by decide +kernel
  obtain ⟨o, ho, hbad⟩ := (Option.any_eq_true _ _).1 hfirst
  obtain ⟨rest, hrest⟩ := List.head?_eq_some_iff.1 ho
  refine hturns (o, begun Sample.settings.engine (listing .pending) 9 partlyFilled.world) ?_
    (barredAt_listing.2 (of_decide_eq_true hbad))
  show _ ∈ Task.turns _ _ (partlyFilled.world.store.active "A") _
  rw [hrest, Task.turns_cons]
  exact List.mem_cons_self

end ExecutionEngine

end Emporos
