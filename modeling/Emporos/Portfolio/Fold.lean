import Emporos.Portfolio.Replay
/-!
# One instrument at a time

A fill touches the position of its own instrument alone, so replaying an
account is folding, for each instrument, the fills of that instrument.
`fold` is that fold, and `replay_eq_fold` the projection of a replay onto
it: where the fills of every instrument stand in the ledger's order
already, a replay is a fold of them as they stand.
-/

namespace Emporos

/-- A fill of the account that the calculator accepts. -/
structure ExecutionRecord.Booked (account : String) (e : ExecutionRecord) : Prop where
  owner : e.accountId = some account
  kept : e.stored = e
  sized : 0 < e.quantity
  priced : Money.zero < e.price
  charged : ¬ e.charges < Money.zero

/-- A position of the account, under its key. -/
structure PositionRecord.Booked (account : String) (p : PositionRecord) : Prop where
  owner : p.accountId = account
  key : p.id = account ++ ":" ++ p.instrumentId
  kept : p.stored = p

namespace PositionRecord

variable {account : String} {p q : PositionRecord}

/-- The key and the instrument tell the same positions apart. -/
theorem Booked.id_eq_iff (hp : p.Booked account) (hq : q.Booked account) :
    p.id = q.id ↔ p.instrumentId = q.instrumentId := by
  rw [hp.key, hq.key]
  constructor
  · exact fun h => by simpa using h
  · exact fun h => by rw [h]

@[simp] theorem stored_stored (p : PositionRecord) : p.stored.stored = p.stored := by
  simp [stored]

end PositionRecord

namespace ExecutionRecord

@[simp] theorem stored_stored (e : ExecutionRecord) : e.stored.stored = e.stored := by
  simp [stored]

/-- The fills of one instrument. -/
def ofInstrument (i : String) (l : List ExecutionRecord) : List ExecutionRecord :=
  l.filter fun e => e.instrumentId = i

end ExecutionRecord

variable [DecimalContext] {account i : String} {before after p q : PositionRecord}
  {e : ExecutionRecord} {l acc : List ExecutionRecord}

namespace PositionCalculator

/-- What a fill leaves is a position of the account. -/
theorem booked_of_apply
    (hb : before.accountId = account ∧ before.id = account ++ ":" ++ before.instrumentId)
    (h : apply before e = .ok after) : after.stored.Booked account := by
  obtain ⟨-, hid, hacc, hinst, -⟩ := apply_net h
  refine ⟨hacc.trans hb.1, ?_, after.stored_stored⟩
  show after.id = account ++ ":" ++ after.instrumentId
  rw [hid, hinst]
  exact hb.2

/-- A fill that was accepted is one the books can hold. -/
theorem execution_booked_of_apply (howner : e.accountId = some account)
    (h : apply before e = .ok after) : e.stored.Booked account := by
  obtain ⟨-, -, hsized, hpriced, hcharged⟩ := apply_isOk.mp ⟨after, h⟩
  exact ⟨howner, e.stored_stored, hsized, hpriced, hcharged⟩

/-- A fill as it reads back leaves what the fill leaves, as it reads
back. -/
theorem apply_stored (h : apply before e = .ok after) : apply before e.stored = .ok after.stored := by
  have haccepted := apply_isOk.mp ⟨after, h⟩
  obtain ⟨after', h'⟩ : ∃ after', apply before e.stored = .ok after' :=
    apply_isOk.mpr haccepted
  rw [h', apply_eq_ok h', apply_eq_ok h]
  rfl

end PositionCalculator

namespace PositionReplay

/-- One fill folded into the position of its instrument. -/
def foldStep (account : String) (held : Option PositionRecord) (fill : ExecutionRecord) :
    Except PyError (Option PositionRecord) :=
  some <$> PositionCalculator.apply (held.getD (.flat account fill.instrumentId fill.ts)) fill

/-- The position the fills of one instrument add up to, in the order they
stand. -/
def fold (account : String) (fills : List ExecutionRecord) :
    Except PyError (Option PositionRecord) :=
  fills.foldlM (foldStep account) none

/-- When the flat position was made has no influence. -/
theorem foldStep_eq {held : Option PositionRecord} (t : Timestamp) :
    foldStep account held e =
      some <$> PositionCalculator.apply (held.getD (.flat account e.instrumentId t)) e := by
  cases held <;> rfl

/-- One fill more. -/
theorem fold_append {held : Option PositionRecord} (h : fold account l = .ok held) :
    fold account (l ++ [e]) = foldStep account held e := by
  rw [fold, List.foldlM_append, ← fold, h]
  exact bind_pure (foldStep account held e)

/-- **A replay is a fold of each instrument.** Fills the books can hold are
all accepted, and each moves the position of its instrument alone. -/
theorem foldlM_step (positions : List PositionRecord) (hl : ∀ e ∈ l, e.Booked account)
    (hpositions : ∀ p ∈ positions, p.accountId = account) :
    ∃ replayed, l.foldlM (step account) positions = .ok replayed ∧
      ∀ i, (ExecutionRecord.ofInstrument i l).foldlM (foldStep account)
        (Table.lookup (·.instrumentId) i positions) =
          .ok (Table.lookup (·.instrumentId) i replayed) := by
  induction l generalizing positions with
  | nil => exact ⟨positions, rfl, fun _ => rfl⟩
  | cons e l ih =>
      have he := hl e (List.mem_cons_self ..)
      -- the position the fill is folded into is of its instrument and account
      obtain ⟨held, hheld⟩ : ∃ held, held =
        (Table.lookup (·.instrumentId) e.instrumentId positions).getD
          (.flat account e.instrumentId e.ts) := ⟨_, rfl⟩
      have hof : held.instrumentId = e.instrumentId ∧ held.accountId = account := by
        rw [hheld]
        cases hlook : Table.lookup (·.instrumentId) e.instrumentId positions with
        | none => exact ⟨rfl, rfl⟩
        | some p => exact ⟨Table.key_of_lookup hlook, hpositions p (Table.mem_of_lookup hlook)⟩
      obtain ⟨after, hafter⟩ : ∃ after, PositionCalculator.apply held e = .ok after :=
        PositionCalculator.apply_isOk.mpr
          ⟨hof.1.symm, by rw [hof.2]; exact he.owner, he.sized, he.priced, he.charged⟩
      obtain ⟨-, -, hacc, hinst, -⟩ := PositionCalculator.apply_net hafter
      have hnext : ∀ p ∈ Table.upsert (·.instrumentId) after positions, p.accountId = account := by
        intro p hp
        rcases Table.mem_upsert.mp hp with rfl | ⟨hp, -⟩
        · rw [hacc, hof.2]
        · exact hpositions p hp
      obtain ⟨replayed, hreplayed, hfolds⟩ :=
        ih _ (fun x hx => hl x (List.mem_cons_of_mem _ hx)) hnext
      have hstep : step account positions e =
          .ok (Table.upsert (·.instrumentId) after positions) := by
        rw [step, ← hheld, hafter]
        rfl
      refine ⟨replayed, ?_, fun i => ?_⟩
      · rw [List.foldlM_cons, hstep]
        exact hreplayed
      · have hfold := hfolds i
        rw [Table.lookup_upsert, hinst, hof.1] at hfold
        by_cases hi : e.instrumentId = i
        · subst hi
          have hone : foldStep account (Table.lookup (·.instrumentId) e.instrumentId positions) e =
              .ok (some after) := by
            rw [foldStep, ← hheld, hafter]
            rfl
          rw [if_pos rfl] at hfold
          rw [ExecutionRecord.ofInstrument, List.filter_cons_of_pos (by simp), List.foldlM_cons, hone]
          exact hfold
        · rw [if_neg (Ne.symm hi)] at hfold
          rw [ExecutionRecord.ofInstrument, List.filter_cons_of_neg (by simpa using hi)]
          exact hfold

end PositionReplay

/-! ## The ledger's order -/

namespace ExecutionRecord

omit [DecimalContext]

/-- The fills of every instrument stand in the ledger's order. -/
def InLedgerOrder (l : List ExecutionRecord) : Prop :=
  ∀ i, (ofInstrument i l).Pairwise ExecutionRecord.before

end ExecutionRecord

namespace PositionReplay

omit [DecimalContext] in
/-- Reading the fills back in the ledger's order moves none of an
instrument whose fills stand in it. -/
theorem ofInstrument_ledger (howner : ∀ e ∈ l, e.accountId = some account)
    (horder : ExecutionRecord.InLedgerOrder l) (i : String) :
    ExecutionRecord.ofInstrument i (ledger account l) = ExecutionRecord.ofInstrument i l := by
  have hall : l.filter (fun e => e.accountId = some account) = l :=
    List.filter_eq_self.mpr fun e he => by simpa using howner e he
  have hsub : (ExecutionRecord.ofInstrument i l).Sublist (ledger account l) := by
    rw [ledger, hall]
    exact List.sublist_insertionSort (horder i) List.filter_sublist
  have hperm : (ledger account l).Perm l := by
    rw [ledger, hall]
    exact List.perm_insertionSort _ l
  have hlen := (hperm.filter fun e => decide (e.instrumentId = i)).length_eq
  have hsub' := hsub.filter fun e => decide (e.instrumentId = i)
  simp only [ExecutionRecord.ofInstrument, List.filter_filter, Bool.and_self] at hsub'
  exact (hsub'.eq_of_length hlen.symm).symm

/-- **A replay in the ledger's order is a fold as the fills stand.** -/
theorem replay_eq_fold (hl : ∀ e ∈ l, e.Booked account)
    (horder : ExecutionRecord.InLedgerOrder l) :
    ∃ replayed, replay account (ledger account l) = .ok replayed ∧
      ∀ i, fold account (ExecutionRecord.ofInstrument i l) =
        .ok (Table.lookup (·.instrumentId) i replayed) := by
  have hledger : ∀ e ∈ ledger account l, e.Booked account := by
    intro e he
    rw [ledger, List.mem_insertionSort, List.mem_filter] at he
    exact hl e he.1
  obtain ⟨replayed, hreplayed, hfolds⟩ := foldlM_step [] hledger (by simp)
  refine ⟨replayed, hreplayed, fun i => ?_⟩
  rw [← hfolds i, ofInstrument_ledger (fun e he => (hl e he).owner) horder]
  rfl

end PositionReplay

end Emporos
