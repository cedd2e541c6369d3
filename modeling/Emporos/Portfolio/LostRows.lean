import Emporos.Portfolio.Reconciliation
/-!
# Rows the store lost

The comparison replays the account's history and holds the stored position
rows against it. The account it replays is the one the stored rows name:
with a row left, each instrument whose row is missing, extra or different
is reported, and with none the replay refuses the first fill.
-/

namespace Emporos

variable [DecimalContext]

/-- A fill of the account that the calculator accepts. -/
structure ExecutionRecord.Valid (account : String) (e : ExecutionRecord) : Prop where
  owner : e.accountId = some account
  sized : 0 < e.quantity
  priced : Money.zero < e.price
  charged : ¬ e.charges < Money.zero

namespace PositionReplay

variable {account : String} {e : ExecutionRecord} {executions : List ExecutionRecord}
  {positions : List PositionRecord}

/-- One valid fill replays, and leaves positions of the account. -/
theorem step_of_valid (he : e.Valid account) (hpositions : ∀ p ∈ positions, p.accountId = account) :
    ∃ positions', step account positions e = .ok positions' ∧
      ∀ p ∈ positions', p.accountId = account := by
  let held := (Table.lookup (·.instrumentId) e.instrumentId positions).getD
    (.flat account e.instrumentId e.ts)
  have hheld : held.instrumentId = e.instrumentId ∧ held.accountId = account := by
    show ((Table.lookup (·.instrumentId) e.instrumentId positions).getD
      (.flat account e.instrumentId e.ts)).instrumentId = _ ∧ _
    rcases hlook : Table.lookup (·.instrumentId) e.instrumentId positions with _ | p
    · simp [held, hlook, PositionRecord.flat]
    · simp only [held, hlook, Option.getD_some]
      exact ⟨Table.key_of_lookup hlook, hpositions p (Table.mem_of_lookup hlook)⟩
  obtain ⟨after, happly⟩ : ∃ after, PositionCalculator.apply held e = .ok after :=
    PositionCalculator.apply_isOk.mpr
      ⟨hheld.1.symm, by rw [hheld.2]; exact he.owner, he.sized, he.priced, he.charged⟩
  refine ⟨_, step_eq_ok.mpr ⟨after, happly, rfl⟩, fun p hp => ?_⟩
  rcases Table.mem_upsert.mp hp with rfl | ⟨hp, -⟩
  · rw [(PositionCalculator.apply_net happly).2.2.1, hheld.2]
  · exact hpositions p hp

/-- **A valid history replays.** -/
theorem foldlM_of_valid (hvalid : ∀ e ∈ executions, e.Valid account)
    (hpositions : ∀ p ∈ positions, p.accountId = account) :
    ∃ replayed, executions.foldlM (step account) positions = .ok replayed := by
  induction executions generalizing positions with
  | nil => exact ⟨positions, rfl⟩
  | cons e rest ih =>
      rw [List.forall_mem_cons] at hvalid
      obtain ⟨positions', hstep, howned⟩ := step_of_valid hvalid.1 hpositions
      rw [List.foldlM_cons, hstep]
      exact ih hvalid.2 howned

/-- A fill of one account is refused by the replay of another. -/
theorem replay_of_other {other : String} (howner : e.accountId = some account)
    (hne : account ≠ other) :
    replay other (e :: executions) = .error (.valueError "fill does not belong to the position") := by
  have hrefused : PositionCalculator.apply (.flat other e.instrumentId e.ts) e =
      .error (.valueError "fill does not belong to the position") := by
    unfold PositionCalculator.apply
    exact if_pos (.inr fun h => hne (Option.some.inj (howner.symm.trans h)))
  rw [replay, List.foldlM_cons, step]
  simp only [Table.lookup, List.find?_nil, Option.getD_none, hrefused]
  rfl

omit [DecimalContext] in
/-- The instruments that differ, over rows that are one an instrument. -/
theorem mem_differences {stored replayed : List PositionRecord}
    (hnd : (stored.map (·.instrumentId)).Nodup) (i : String) :
    (∃ d ∈ differences stored replayed, d.1 = i) ↔
      (Table.lookup (·.instrumentId) i stored).map (·.facts) ≠
        (Table.lookup (·.instrumentId) i replayed).map (·.facts) := by
  simp only [differences, List.mem_filterMap, List.mem_insertionSort, List.mem_union_iff,
    Table.mem_map_key_dict, Table.lookup_dict, Table.latest_eq_lookup hnd]
  constructor
  · rintro ⟨⟨j, d⟩, ⟨k, hlisted, hfound⟩, rfl⟩
    split at hfound
    · rename_i ours theirs hours htheirs
      split at hfound
      · cases hfound
      · rename_i hne
        obtain ⟨rfl, -⟩ := Prod.mk.inj (Option.some.inj hfound)
        rw [hours, htheirs]
        simpa using hne
    · rename_i hnone
      obtain ⟨rfl, -⟩ := Prod.mk.inj (Option.some.inj hfound)
      -- the two sides are not both there: they are equal only where neither is
      rcases hours : Table.lookup (·.instrumentId) k stored with _ | ours <;>
        rcases htheirs : Table.lookup (·.instrumentId) k replayed with _ | theirs
      · exfalso
        rw [Table.lookup_eq_none] at hours htheirs
        rcases hlisted with hk | hk
        · obtain ⟨p, hp, hpk⟩ := List.mem_map.mp hk
          exact hours p hp hpk
        · obtain ⟨p, hp, hpk⟩ := List.mem_map.mp hk
          exact htheirs p hp hpk
      · simp [hours, htheirs]
      · simp [hours, htheirs]
      · exact absurd htheirs (hnone ours theirs hours)
  · intro hne
    rcases hours : Table.lookup (·.instrumentId) i stored with _ | ours <;>
      rcases htheirs : Table.lookup (·.instrumentId) i replayed with _ | theirs
    · rw [hours, htheirs] at hne
      exact absurd rfl hne
    · refine ⟨(i, .existence), ⟨i, .inr ?_, by simp [hours]⟩, rfl⟩
      exact List.mem_map.mpr ⟨theirs, Table.mem_of_lookup htheirs, Table.key_of_lookup htheirs⟩
    · refine ⟨(i, .existence), ⟨i, .inl ?_, by simp [htheirs]⟩, rfl⟩
      exact List.mem_map.mpr ⟨ours, Table.mem_of_lookup hours, Table.key_of_lookup hours⟩
    · rw [hours, htheirs, Option.map_some, Option.map_some, ne_eq, Option.some_inj] at hne
      refine ⟨(i, .facts ours.facts theirs.facts), ⟨i, .inl ?_, by simp [hours, htheirs, hne]⟩, rfl⟩
      exact List.mem_map.mpr ⟨ours, Table.mem_of_lookup hours, Table.key_of_lookup hours⟩

end PositionReplay

namespace ReconciliationComparator

variable {s : ReconciliationSnapshot} {account i : String} {executions : List ExecutionRecord}
  {d : Discrepancy}

omit [DecimalContext] in
/-- Orders, fills and positions are reported under kinds of their own. -/
theorem kind_ne_of_mem (h : d ∈ orders s ++ fills s ++ positions s) :
    d.kind ≠ .positionHistoryMismatch := by
  have hreport : ∀ {condition : Bool} {e : Discrepancy}, d ∈ report condition e → d = e := by
    intro condition e hd
    unfold report at hd
    split at hd
    · exact List.mem_singleton.mp hd
    · cases hd
  rw [List.mem_append, List.mem_append] at h
  rcases h with (h | h) | h
  · simp only [orders, List.mem_append, List.mem_flatMap, List.mem_map] at h
    rcases h with (h | ⟨o, -, h⟩) | ⟨o, -, rfl⟩
    · simp [hreport h]
    · unfold orderFound at h
      split at h
      · simp [hreport h]
      · simp [hreport h]
    · simp
  · simp only [fills, List.mem_append, List.mem_flatMap, List.mem_map] at h
    rcases h with (h | ⟨f, -, h⟩) | ⟨t, -, rfl⟩
    · simp [hreport h]
    · unfold fillFound at h
      split at h
      · simp [List.mem_singleton.mp h]
      · simp [hreport h]
    · simp
  · simp only [positions, List.mem_flatMap] at h
    obtain ⟨k, -, h⟩ := h
    unfold positionFound at h
    split at h
    · simp [hreport h]
    · simp [List.mem_singleton.mp h]

/-- The comparison returns, and reports exactly the instruments whose
stored row is missing, extra or different from the replay of the account's
history. -/
def ReportsLostRows (account : String) (s : ReconciliationSnapshot)
    (executions : List ExecutionRecord) : Prop :=
  ∃ replayed found, PositionReplay.replay account executions = .ok replayed ∧
    compare true s = .ok found ∧
    ∀ i, (∃ d ∈ found, d.kind = .positionHistoryMismatch ∧ d.reference = i) ↔
      (Table.lookup (·.instrumentId) i s.positions).map (·.facts) ≠
        (Table.lookup (·.instrumentId) i replayed).map (·.facts)

/-- What is found where the history replays under the account the rows
name. -/
theorem reportsLostRows_of_replay {replayed : List PositionRecord}
    (hknown : s.history = some executions) (hnd : (s.positions.map (·.instrumentId)).Nodup)
    (hnamed : PositionReplay.replay ((s.positions.head?.map (·.accountId)).getD "") executions =
      .ok replayed)
    (hreplay : PositionReplay.replay account executions = .ok replayed) :
    ReportsLostRows account s executions := by
  have hhistory : history true s = .ok
      ((PositionReplay.differences s.positions replayed).map
          (fun d => ⟨.positionHistoryMismatch, d.1, .history d.2, "", false⟩) ++
        (ordersDisagreeingWithFills s.orders (PositionReplay.filledByOrder executions)).map fun d =>
          ⟨.orderFillMismatch, d.1, .filled d.2.1 d.2.2, "", false⟩) := by
    simp only [history, hknown, positionHistory, hnamed]
    rfl
  refine ⟨replayed, _, hreplay, by simp only [compare, hhistory]; rfl, fun i => ?_⟩
  rw [← PositionReplay.mem_differences hnd i]
  constructor
  · rintro ⟨d, hd, hkind, rfl⟩
    rcases List.mem_append.mp hd with hd | hd
    · exact absurd hkind (kind_ne_of_mem hd)
    · rcases List.mem_append.mp hd with hd | hd
      · obtain ⟨x, hx, rfl⟩ := List.mem_map.mp hd
        exact ⟨x, hx, rfl⟩
      · obtain ⟨x, -, rfl⟩ := List.mem_map.mp hd
        cases hkind
  · rintro ⟨x, hx, rfl⟩
    refine ⟨⟨.positionHistoryMismatch, x.1, .history x.2, "", false⟩, ?_, rfl, rfl⟩
    exact List.mem_append_right _ (List.mem_append_left _ (List.mem_map_of_mem hx))

/-- **Lost rows are reported while a row is left.** Over a valid history
and rows of its account, the comparison does what it is for exactly if a
row is stored or there is nothing to replay; an account without a name is
the one the empty store stands for. -/
theorem reportsLostRows_iff (hknown : s.history = some executions)
    (hvalid : ∀ e ∈ executions, e.Valid account)
    (howned : ∀ p ∈ s.positions, p.accountId = account)
    (hnd : (s.positions.map (·.instrumentId)).Nodup) :
    ReportsLostRows account s executions ↔
      (s.positions = [] → executions = [] ∨ account = "") := by
  obtain ⟨replayed, hreplay⟩ := PositionReplay.foldlM_of_valid hvalid fun p hp =>
    absurd hp List.not_mem_nil
  have hreplay : PositionReplay.replay account executions = .ok replayed := hreplay
  constructor
  · rintro ⟨-, found, -, hfound, -⟩ hempty
    rw [or_iff_not_imp_left]
    intro hne
    obtain ⟨e, rest, rfl⟩ := List.exists_cons_of_ne_nil hne
    by_contra hnamed
    have hrefused : PositionReplay.replay "" (e :: rest) =
        .error (.valueError "fill does not belong to the position") :=
      PositionReplay.replay_of_other (hvalid e (List.mem_cons_self ..)).owner hnamed
    have hraised : history true s = .error (.valueError "fill does not belong to the position") := by
      simp only [history, hknown, positionHistory, hempty, List.head?_nil, Option.map_none,
        Option.getD_none, hrefused]
      rfl
    rw [compare, hraised] at hfound
    cases hfound
  · intro hleft
    refine reportsLostRows_of_replay hknown hnd ?_ hreplay
    rcases hpositions : s.positions with _ | ⟨p, rest⟩
    · rcases hleft hpositions with rfl | rfl
      · exact hreplay
      · exact hreplay
    · have hp : p.accountId = account := howned p (hpositions ▸ List.mem_cons_self ..)
      rw [List.head?_cons, Option.map_some, Option.getD_some, hp]
      exact hreplay

/-! ## Small stores -/

namespace Sample

omit [DecimalContext]

/-- The account bought ten of `I`, and then ten of `J`. -/
def otherFill : ExecutionRecord := { bookedFill with
  id := "F", brokerTradeId := "Y", instrumentId := "J", sessionTradeNo := some 2 }

/-- The store has some of the rows. -/
def storeOf (rows : List PositionRecord) : ReconciliationSnapshot :=
  { filledBooks [] with positions := rows, history := some [bookedFill, otherFill] }

theorem valid_of_mem : ∀ e ∈ [bookedFill, otherFill], @ExecutionRecord.Valid "A" e := by
  intro e he
  have hcases : e = bookedFill ∨ e = otherFill := by simpa using he
  rcases hcases with rfl | rfl <;> exact ⟨rfl, by decide, by decide, by decide⟩

end Sample

omit [DecimalContext] in
/-- The row of `J` is lost, and reported. -/
theorem reportsLostRows_sample :
    @ReportsLostRows Decimal.standard "A" (Sample.storeOf [Sample.bookedPosition])
      [Sample.bookedFill, Sample.otherFill] :=
  (@reportsLostRows_iff Decimal.standard (Sample.storeOf [Sample.bookedPosition]) "A" _ rfl
    Sample.valid_of_mem (by simp [Sample.storeOf, Sample.bookedPosition])
    (by simp [Sample.storeOf])).mpr (by simp [Sample.storeOf])

omit [DecimalContext] in
/-- **All rows are lost**, and the comparison raises. -/
theorem lostRows_raise :
    (∀ e ∈ [Sample.bookedFill, Sample.otherFill], @ExecutionRecord.Valid "A" e) ∧
      ¬ @ReportsLostRows Decimal.standard "A" (Sample.storeOf [])
        [Sample.bookedFill, Sample.otherFill] := by
  refine ⟨Sample.valid_of_mem, ?_⟩
  rintro ⟨-, found, -, hfound, -⟩
  have hraised : (@compare Decimal.standard true (Sample.storeOf [])).toOption = none := by
    decide
  rw [hfound] at hraised
  cases hraised

end ReconciliationComparator

end Emporos
