import Emporos.Persistence.Journal
/-!
# What a journal write does

One lemma for each write: when it goes through, and the store it leaves.
Nothing later unfolds a write.
-/

namespace Emporos

namespace Store

variable {account : String} {s s' : Store}

/-! ## Inserts and replacements -/

/-- No stored order has the id, the key or the tag of `o`. -/
def Fresh (s : Store) (o : OrderRecord) : Prop :=
  ∀ x ∈ s.orders, x.id ≠ o.id ∧ x.idempotencyKey ≠ o.idempotencyKey ∧ x.ordertag ≠ o.ordertag

theorem insertOrder_eq_ok {o : OrderRecord} : s.insertOrder o = .ok s' ↔
    s.Fresh o ∧ s' = { s with orders := s.orders ++ [o.stored] } := by
  unfold insertOrder Fresh
  constructor
  · intro h
    split_ifs at h with h₁ h₂ h₃
    simp only [List.any_eq_true, decide_eq_true_eq, not_exists, not_and] at h₁ h₂ h₃
    exact ⟨fun x hx => ⟨h₁ x hx, h₂ x hx, h₃ x hx⟩, (Except.ok.inj h).symm⟩
  · rintro ⟨hf, rfl⟩
    rw [if_neg, if_neg, if_neg]
    · simpa using fun x hx => (hf x hx).2.2
    · simpa using fun x hx => (hf x hx).2.1
    · simpa using fun x hx => (hf x hx).1

/-- No other stored order has the key or the tag of `o`. -/
def Replaceable (s : Store) (o : OrderRecord) : Prop :=
  ∀ x ∈ s.orders, x.id ≠ o.id → x.idempotencyKey ≠ o.idempotencyKey ∧ x.ordertag ≠ o.ordertag

theorem replaceOrder_eq_ok {o : OrderRecord} : s.replaceOrder o = .ok s' ↔
    s.Replaceable o ∧ s' = { s with orders := Table.replace (·.id) o.stored s.orders } := by
  unfold replaceOrder Replaceable
  constructor
  · intro h
    split_ifs at h with h₁ h₂
    simp only [List.any_eq_true, decide_eq_true_eq, not_exists, not_and] at h₁ h₂
    exact ⟨fun x hx hne => ⟨h₁ x hx hne, h₂ x hx hne⟩, (Except.ok.inj h).symm⟩
  · rintro ⟨hf, rfl⟩
    rw [if_neg, if_neg]
    · simpa using fun x hx hne => (hf x hx hne).2
    · simpa using fun x hx hne => (hf x hx hne).1

theorem insertEvent_eq_ok {e : OrderEventRecord} : s.insertEvent e = .ok s' ↔
    (∀ x ∈ s.events, x.orderId = e.orderId → x.seq ≠ e.seq) ∧
      s' = { s with events := s.events ++ [e.stored] } := by
  unfold insertEvent
  constructor
  · intro h
    split_ifs at h with h₁
    simp only [List.any_eq_true, decide_eq_true_eq, not_exists, not_and] at h₁
    exact ⟨h₁, (Except.ok.inj h).symm⟩
  · rintro ⟨hf, rfl⟩
    rw [if_neg]
    simpa using hf

theorem insertExecution_eq_ok {e : ExecutionRecord} : s.insertExecution e = .ok s' ↔
    (∀ x ∈ s.executions, x.id ≠ e.id ∧ x.brokerTradeId ≠ e.brokerTradeId) ∧
      s' = { s with executions := s.executions ++ [e.stored] } := by
  unfold insertExecution
  constructor
  · intro h
    split_ifs at h with h₁ h₂
    simp only [List.any_eq_true, decide_eq_true_eq, not_exists, not_and] at h₁ h₂
    exact ⟨fun x hx => ⟨h₁ x hx, h₂ x hx⟩, (Except.ok.inj h).symm⟩
  · rintro ⟨hf, rfl⟩
    rw [if_neg, if_neg]
    · simpa using fun x hx => (hf x hx).2
    · simpa using fun x hx => (hf x hx).1

theorem replacePosition_eq_ok {p : PositionRecord} : s.replacePosition p = .ok s' ↔
    (∀ x ∈ s.positions, x.accountId = p.accountId → x.instrumentId = p.instrumentId →
      x.id = p.id) ∧
      s' = { s with positions := Table.upsert (·.id) p.stored s.positions } := by
  unfold replacePosition
  constructor
  · intro h
    split_ifs at h with h₁
    simp only [List.any_eq_true, decide_eq_true_eq, not_exists, not_and] at h₁
    exact ⟨fun x hx ha hi => not_not.mp fun hne => h₁ x hx hne ha hi, (Except.ok.inj h).symm⟩
  · rintro ⟨hf, rfl⟩
    rw [if_neg]
    simp only [List.any_eq_true, decide_eq_true_eq, not_exists, not_and]
    exact fun x hx hne ha hi => hne (hf x hx ha hi)

/-! ## Event numbers -/

/-- The highest number is that of an event of the order. -/
theorem lastSeq_eq_some {orderId : String} {n : ℕ} : s.lastSeq orderId = some n ↔
    (∃ e ∈ s.events, e.orderId = orderId ∧ e.seq = n) ∧
      ∀ e ∈ s.events, e.orderId = orderId → e.seq ≤ n := by
  rw [lastSeq, List.max?_eq_some_iff]
  simp only [List.mem_map, List.mem_filter, decide_eq_true_eq, forall_exists_index, and_imp]
  constructor
  · rintro ⟨⟨e, ⟨he, ho⟩, hn⟩, hle⟩
    exact ⟨⟨e, he, ho, hn⟩, fun e' he' ho' => hle e'.seq e' he' ho' rfl⟩
  · rintro ⟨⟨e, he, ho, hn⟩, hle⟩
    exact ⟨⟨e, ⟨he, ho⟩, hn⟩, fun b e' he' ho' hb => hb ▸ hle e' he' ho'⟩

theorem lastSeq_ne_none {orderId : String} {e : OrderEventRecord} (he : e ∈ s.events)
    (ho : e.orderId = orderId) : ∃ n, s.lastSeq orderId = some n := by
  cases h : s.lastSeq orderId with
  | some n => exact ⟨n, rfl⟩
  | none =>
      rw [lastSeq, List.max?_eq_none_iff, List.map_eq_nil_iff, List.filter_eq_nil_iff] at h
      exact absurd (by simpa using ho) (h e he)

/-! ## Changes -/

/-- **When a change goes through**, and what it does: the stored row still
is at the version the change was computed from, its row is replaced, and
its next event is appended. -/
theorem change_eq_ok {previous updated : OrderRecord} : s.change previous updated = .ok s' ↔
    ∃ current seq, Table.lookup (·.id) previous.id s.orders = some current ∧
      current.version = previous.version ∧ s.lastSeq previous.id = some seq ∧
      s.Replaceable updated ∧
      (∀ x ∈ s.events, x.orderId = updated.id → x.seq ≠ seq + 1) ∧
      s' = { s with
        orders := Table.replace (·.id) updated.stored s.orders
        events := s.events ++ [(updated.event (seq + 1)).stored] } := by
  unfold change
  cases hl : Table.lookup (·.id) previous.id s.orders with
  | none => simp
  | some current =>
      by_cases hv : current.version = previous.version
      · cases hs : s.lastSeq previous.id with
        | none => simp [hv]
        | some seq =>
            simp only [hv, ne_eq, not_true_eq_false, if_false]
            constructor
            · intro h
              cases hr : s.replaceOrder updated with
              | error e => rw [hr] at h; exact absurd h (by simp [bind, Except.bind])
              | ok s₁ =>
                  rw [hr] at h
                  obtain ⟨hf, rfl⟩ := replaceOrder_eq_ok.1 hr
                  obtain ⟨he, rfl⟩ := insertEvent_eq_ok.1 h
                  exact ⟨current, seq, rfl, hv, rfl, hf, he, rfl⟩
            · rintro ⟨c, n, hc, -, hn, hf, he, rfl⟩
              obtain rfl := Option.some.inj hn
              rw [replaceOrder_eq_ok.2 ⟨hf, rfl⟩]
              exact insertEvent_eq_ok.2 ⟨he, rfl⟩
      · simp only [hv, ne_eq, not_false_eq_true, if_true, reduceCtorEq, false_iff]
        rintro ⟨c, -, hc, hv', -⟩
        obtain rfl := Option.some.inj hc
        exact hv hv'

/-- What a change leaves, in the form most facts need. -/
theorem change_ok {previous updated : OrderRecord} (h : s.change previous updated = .ok s') :
    ∃ current ∈ s.orders, current.id = previous.id ∧ current.version = previous.version ∧
      s'.orders = Table.replace (·.id) updated.stored s.orders ∧
      (∃ seq, s'.events = s.events ++ [(updated.event (seq + 1)).stored]) ∧
      s'.executions = s.executions ∧ s'.positions = s.positions := by
  obtain ⟨current, seq, hl, hv, -, -, -, rfl⟩ := change_eq_ok.1 h
  exact ⟨current, Table.mem_of_lookup hl, Table.key_of_lookup hl, hv, rfl, ⟨seq, rfl⟩, rfl, rfl⟩

/-! ## The writes of the journal -/

theorem create_eq_ok {o : OrderRecord} : s.create account o = .ok s' ↔
    o.accountId = some account ∧ s.Fresh o ∧
      (∀ x ∈ s.events, x.orderId = o.id → x.seq ≠ 1) ∧
      s' = { s with
        orders := s.orders ++ [o.stored]
        events := s.events ++ [(o.event 1).stored] } := by
  unfold create
  by_cases ha : o.accountId = some account
  · simp only [ha, ne_eq, not_true_eq_false, if_false, true_and]
    constructor
    · intro h
      cases hi : s.insertOrder o with
      | error e => rw [hi] at h; exact absurd h (by simp [bind, Except.bind])
      | ok s₁ =>
          rw [hi] at h
          obtain ⟨hf, rfl⟩ := insertOrder_eq_ok.1 hi
          obtain ⟨he, rfl⟩ := insertEvent_eq_ok.1 h
          exact ⟨hf, he, rfl⟩
    · rintro ⟨hf, he, rfl⟩
      rw [insertOrder_eq_ok.2 ⟨hf, rfl⟩]
      exact insertEvent_eq_ok.2 ⟨he, rfl⟩
  · simp [ha]

theorem transition_eq_ok {previous updated : OrderRecord} :
    s.transition account previous updated = .ok s' ↔
      previous.accountId = some account ∧ updated.accountId = some account ∧
        previous.id = updated.id ∧ previous.idempotencyKey = updated.idempotencyKey ∧
        previous.ordertag = updated.ordertag ∧ s.change previous updated = .ok s' := by
  unfold transition
  constructor
  · intro h
    split_ifs at h with hne
    simp only [not_or, not_not] at hne
    obtain ⟨h₁, h₂, h₃, h₄, h₅⟩ := hne
    exact ⟨h₁, h₂, h₃, h₄, h₅, h⟩
  · rintro ⟨h₁, h₂, h₃, h₄, h₅, h⟩
    rw [if_neg (by simp [h₁, h₂, h₃, h₄, h₅])]
    exact h

/-- **A fill goes through** when its trade is new and its order has not
moved; the three writes land together. -/
theorem writeFill_eq_ok {previous updated : OrderRecord} {execution : ExecutionRecord}
    {position : PositionRecord} : s.writeFill previous updated execution position = .ok s' ↔
    ∃ s₁, (∀ x ∈ s.executions,
        x.id ≠ execution.id ∧ x.brokerTradeId ≠ execution.brokerTradeId) ∧
      s.change previous updated = .ok s₁ ∧
      (∀ x ∈ s.positions, x.accountId = position.accountId →
        x.instrumentId = position.instrumentId → x.id = position.id) ∧
      s' = { s₁ with
        executions := s.executions ++ [execution.stored]
        positions := Table.upsert (·.id) position.stored s.positions } := by
  have hchange : ∀ xs s₂, ({ s with executions := xs } : Store).change previous updated = .ok s₂ ↔
      ∃ s₁, s.change previous updated = .ok s₁ ∧ s₂ = { s₁ with executions := xs } := by
    intro xs s₂
    constructor
    · intro h
      obtain ⟨current, seq, hl, hv, hs, hr, he, rfl⟩ := change_eq_ok.1 h
      exact ⟨_, change_eq_ok.2 ⟨current, seq, hl, hv, hs, hr, he, rfl⟩, rfl⟩
    · rintro ⟨s₁, h, rfl⟩
      obtain ⟨current, seq, hl, hv, hs, hr, he, rfl⟩ := change_eq_ok.1 h
      exact change_eq_ok.2 ⟨current, seq, hl, hv, hs, hr, he, rfl⟩
  unfold writeFill
  constructor
  · intro h
    cases hi : s.insertExecution execution with
    | error e => rw [hi] at h; exact absurd h (by simp [bind, Except.bind])
    | ok s₂ =>
        rw [hi] at h
        obtain ⟨hf, rfl⟩ := insertExecution_eq_ok.1 hi
        cases hc : ({ s with executions := s.executions ++ [execution.stored] } : Store).change
            previous updated with
        | error e =>
            simp only [bind, Except.bind] at h
            rw [hc] at h
            exact absurd h (by simp)
        | ok s₃ =>
            obtain ⟨s₁, hs₁, rfl⟩ := (hchange _ _).mp hc
            simp only [bind, Except.bind] at h
            rw [hc] at h
            obtain ⟨hp, rfl⟩ := replacePosition_eq_ok.1 h
            obtain ⟨-, -, -, -, -, -, -, hpos⟩ := change_ok hs₁
            refine ⟨s₁, hf, hs₁, ?_, ?_⟩
            · rw [← hpos]; exact hp
            · rw [← hpos]
  · rintro ⟨s₁, hf, hs₁, hp, rfl⟩
    obtain ⟨-, -, -, -, -, -, -, hpos⟩ := change_ok hs₁
    rw [insertExecution_eq_ok.2 ⟨hf, rfl⟩]
    simp only [bind, Except.bind]
    rw [(hchange _ _).mpr ⟨s₁, hs₁, rfl⟩]
    refine replacePosition_eq_ok.2 ⟨?_, ?_⟩
    · rw [hpos]; exact hp
    · rw [hpos]

/-- The whole of what recording a fill can do. -/
theorem recordFill_eq_ok {previous updated : OrderRecord} {execution : ExecutionRecord}
    {position : PositionRecord} {outcome : FillOutcome}
    (h : s.recordFill account previous updated execution position = .ok (outcome, s')) :
    (outcome = .applied ∧ execution.accountId = some account ∧ updated.accountId = some account ∧
      s.writeFill previous updated execution position = .ok s') ∨
    (outcome = .duplicate ∧ s' = s) := by
  unfold recordFill at h
  split_ifs at h with ha
  rw [not_or, not_not, not_not] at ha
  split at h
  · rename_i s₁ hw
    obtain ⟨rfl, rfl⟩ := Prod.mk.inj (Except.ok.inj h)
    exact Or.inl ⟨rfl, ha.1, ha.2, hw⟩
  · split_ifs at h
    obtain ⟨rfl, rfl⟩ := Prod.mk.inj (Except.ok.inj h)
    exact Or.inr ⟨rfl, rfl⟩

theorem recordFill_of_writeFill {previous updated : OrderRecord} {execution : ExecutionRecord}
    {position : PositionRecord} (he : execution.accountId = some account)
    (hu : updated.accountId = some account)
    (h : s.writeFill previous updated execution position = .ok s') :
    s.recordFill account previous updated execution position = .ok (.applied, s') := by
  unfold recordFill
  rw [if_neg (by simp [he, hu]), h]

end Store

end Emporos
