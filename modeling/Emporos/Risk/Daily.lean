import Emporos.Execution.Books
import Emporos.Risk.Facts
/-!
# The day's profit

What the loss guard reads as the day's profit is the sum over the stored
rows, and a row is kept from one session to the next: each fill adds to
the realised profit it finds there. `takings` is what each fill of a
session earns, `dayPnl` the profit of the session's own fills. Where
every row is flat when a session starts, the stored rows show `dayPnl`
and what they carried into the session.
-/

namespace Emporos

variable [DecimalContext]

namespace FillProcessor

/-- The position a fill is applied to. -/
def heldFor (account : String) (s : Store) (fill : ExecutionRecord) : PositionRecord :=
  (s.position account fill.instrumentId).getD (.flat account fill.instrumentId fill.ts)

/-- One fill put into the positions. -/
def settle (account : String) (s : Store) (fill : ExecutionRecord) : Except PyError Store := do
  let after ← PositionCalculator.apply (heldFor account s fill) fill
  s.replacePosition after

/-- The fills of a session, one after the other. -/
def settleAll (account : String) (s : Store) (fills : List ExecutionRecord) :
    Except PyError Store :=
  fills.foldlM (settle account) s

end FillProcessor

namespace PositionCalculator

/-- What a fill takes on the part of the position it closes. -/
def gain (before : PositionRecord) (fill : ExecutionRecord) : Money :=
  if Extends before fill then Money.zero
  else (fill.price - before.averagePrice).times
    ((min before.netQuantity.natAbs fill.quantity *
      (if 0 < before.netQuantity then 1 else -1) : ℤ))

/-- What a fill earns, net of its charges. -/
def earned (before : PositionRecord) (fill : ExecutionRecord) : ℚ :=
  (gain before fill).amount - fill.charges.amount

/-- The context has the digits for the sums of a fill, and the row shows
the difference it stands for. -/
def Exact (before : PositionRecord) (fill : ExecutionRecord) : Prop :=
  before.realisedPnl.amount =
      (grossBefore before).amount - (before.fees.getD Money.zero).amount ∧
    (¬ Extends before fill →
      Decimal.Kept ((grossBefore before).amount + (gain before fill).amount)) ∧
    Decimal.Kept ((before.fees.getD Money.zero).amount + fill.charges.amount) ∧
    Decimal.Kept ((grossAfter before fill).amount -
      (before.fees.getD Money.zero + fill.charges).amount)

instance (before : PositionRecord) (fill : ExecutionRecord) : Decidable (Exact before fill) :=
  inferInstanceAs (Decidable (_ ∧ _ ∧ _ ∧ _))

end PositionCalculator

namespace LedgerAccountFacts

open FillProcessor PositionCalculator

/-- What each of the fills earns in its turn. -/
def takings (account : String) : Store → List ExecutionRecord → List ℚ
  | _, [] => []
  | s, fill :: rest =>
      earned (heldFor account s fill) fill ::
        match settle account s fill with
        | .ok s' => takings account s' rest
        | .error _ => []

/-- The rows that are not flat. -/
def opens (rows : List PositionRecord) : List Position :=
  (rows.filter fun p => p.netQuantity ≠ 0).map fun p =>
    ⟨p.instrumentId, p.netQuantity, p.averagePrice⟩

/-- What each open position stands at, of those that have a mark. -/
def standings (marks : String → Option Money) (l : List Position) : List ℚ :=
  l.filterMap fun p => (marks p.instrumentId).map fun mark =>
    ((mark - p.averagePrice).times p.netQuantity).amount

/-- The unrealised profit of the open positions. Without every mark it
counts as nothing. -/
def openPnl (marks : String → Option Money) (l : List Position) : ℚ :=
  if ∀ p ∈ l, (marks p.instrumentId).isSome then (standings marks l).sum else 0

/-- The profit of a session's own fills: what they earned, and what the
positions they opened stand at. -/
def dayPnl (account : String) (fills : List ExecutionRecord) (marks : String → Option Money) : ℚ :=
  (takings account Store.empty fills).sum +
    match settleAll account Store.empty fills with
    | .ok s => openPnl marks (opens s.positions)
    | .error _ => 0

/-- The realised profit the rows carry. -/
def carried (rows : List PositionRecord) : ℚ := (rows.map (·.realisedPnl.amount)).sum

/-! ## Where no sum is rounded -/

/-- The context has the digits for the sums over the rows. -/
def Summed (marks : String → Option Money) (rows : List PositionRecord) : Prop :=
  Decimal.KeptSums 0 (rows.map (·.realisedPnl.amount)) ∧
    Decimal.KeptSums 0 (standings marks (opens rows)) ∧
    Decimal.Kept (carried rows + openPnl marks (opens rows))

instance (marks : String → Option Money) (rows : List PositionRecord) :
    Decidable (Summed marks rows) := inferInstanceAs (Decidable (_ ∧ _ ∧ _))

/-- The context has the digits for every sum of the session. -/
def Unrounded (account : String) (marks : String → Option Money) :
    Store → List ExecutionRecord → Prop
  | s, [] => Summed marks s.positions
  | s, fill :: rest =>
      Exact (heldFor account s fill) fill ∧
        match settle account s fill with
        | .ok s' => Unrounded account marks s' rest
        | .error _ => True

instance Unrounded.decidable (account : String) (marks : String → Option Money) :
    ∀ (s : Store) (fills : List ExecutionRecord), Decidable (Unrounded account marks s fills)
  | s, [] => inferInstanceAs (Decidable (Summed marks s.positions))
  | s, fill :: rest => by
      have hrest : Decidable (match settle account s fill with
          | .ok s' => Unrounded account marks s' rest
          | .error _ => True) := by
        split
        · exact Unrounded.decidable account marks _ rest
        · exact instDecidableTrue
      exact inferInstanceAs (Decidable (_ ∧ _))

end LedgerAccountFacts

/-! ## The rows of an account -/

/-- The rows are the account's, one for each instrument. -/
structure Store.Ledgered (account : String) (s : Store) : Prop where
  booked : ∀ p ∈ s.positions, p.Booked account
  ids : (s.positions.map (·.id)).Nodup

/-- No position is open. -/
def Store.Flat (s : Store) : Prop := ∀ p ∈ s.positions, p.netQuantity = 0

instance (s : Store) : Decidable s.Flat := inferInstanceAs (Decidable (∀ p ∈ _, _))

/-- The quantity held and its average price, which a flat position has
none of. -/
def PositionRecord.lot (p : PositionRecord) : ℤ × Money :=
  (p.netQuantity, if p.netQuantity = 0 then Money.zero else p.averagePrice)

/-- The lot held of an instrument. -/
def Store.lot (account : String) (s : Store) (i : String) : ℤ × Money :=
  ((s.position account i).map PositionRecord.lot).getD (0, Money.zero)

variable {account i : String} {s s' f a : Store} {fill : ExecutionRecord}
  {p q before before' after after' : PositionRecord} {fills rest : List ExecutionRecord}
  {marks : String → Option Money}

namespace Store.Ledgered

omit [DecimalContext] in
theorem empty : Store.empty.Ledgered account := ⟨by simp [Store.empty], List.nodup_nil⟩

omit [DecimalContext] in
theorem instruments (h : s.Ledgered account) : (s.positions.map (·.instrumentId)).Nodup := by
  refine h.ids.of_map.map_on fun x hx y hy hxy => ?_
  exact Table.eq_of_key h.ids hx hy (((h.booked x hx).id_eq_iff (h.booked y hy)).mpr hxy)

omit [DecimalContext] in
/-- The lot of a row is what its instrument finds. -/
theorem lot_of_mem (h : s.Ledgered account) (hp : p ∈ s.positions) :
    s.lot account p.instrumentId = p.lot := by
  rw [Store.lot, Store.position_eq_lookup h.booked, Table.lookup_of_mem h.instruments hp]
  rfl

omit [DecimalContext] in
/-- A row of the account has the place of the one its instrument finds. -/
theorem lookup_id (h : s.Ledgered account) (hp : p.Booked account) :
    Table.lookup (·.id) p.id s.positions = s.position account p.instrumentId := by
  rw [Store.position_eq_lookup h.booked]
  exact List.find?_congr fun x hx => by simp [(h.booked x hx).id_eq_iff hp]

end Store.Ledgered

namespace FillProcessor

omit [DecimalContext] in
theorem heldFor_facts (account : String) (s : Store) (fill : ExecutionRecord) :
    (heldFor account s fill).instrumentId = fill.instrumentId ∧
      (heldFor account s fill).accountId = account := by
  unfold heldFor
  cases h : s.position account fill.instrumentId with
  | none => exact ⟨rfl, rfl⟩
  | some p =>
      have := List.find?_some h
      simp only [decide_eq_true_eq] at this
      exact ⟨this.2, this.1⟩

omit [DecimalContext] in
theorem heldFor_id (h : s.Ledgered account) (fill : ExecutionRecord) :
    (heldFor account s fill).id = account ++ ":" ++ fill.instrumentId := by
  unfold heldFor
  cases hp : s.position account fill.instrumentId with
  | none => rfl
  | some p =>
      have hmem : p ∈ s.positions := List.mem_of_find?_eq_some hp
      have hinst : p.instrumentId = fill.instrumentId := by
        have := List.find?_some hp
        simp only [decide_eq_true_eq] at this
        exact this.2
      rw [Option.getD_some, (h.booked p hmem).key, hinst]

omit [DecimalContext] in
/-- The position a fill is applied to has the lot of its instrument. -/
theorem lot_heldFor (account : String) (s : Store) (fill : ExecutionRecord) :
    (heldFor account s fill).lot = s.lot account fill.instrumentId := by
  unfold heldFor Store.lot
  cases s.position account fill.instrumentId with
  | none => rfl
  | some p => rfl

/-- **One fill.** The position it leaves takes the place of the one it was
applied to. -/
theorem settle_eq_ok (h : s.Ledgered account) (hs : settle account s fill = .ok s') :
    ∃ after, PositionCalculator.apply (heldFor account s fill) fill = .ok after ∧
      after.stored.Booked account ∧ after.instrumentId = fill.instrumentId ∧
      s'.positions = Table.upsert (·.id) after.stored s.positions := by
  rw [settle] at hs
  cases hafter : PositionCalculator.apply (heldFor account s fill) fill with
  | error e => rw [hafter] at hs; cases hs
  | ok after =>
      rw [hafter] at hs
      obtain ⟨-, rfl⟩ := Store.replacePosition_eq_ok.mp hs
      obtain ⟨hinst, hacc⟩ := heldFor_facts account s fill
      have hbooked := PositionCalculator.booked_of_apply
        ⟨hacc, (heldFor_id h fill).trans (by rw [hinst])⟩ hafter
      obtain ⟨-, -, -, hsame, -⟩ := PositionCalculator.apply_net hafter
      exact ⟨after, rfl, hbooked, hsame.trans hinst, rfl⟩

/-- **A fill the journal records is settled**: the position written with it
is what `settle` leaves, whenever the flat position was made. -/
theorem settle_of_recordFill {previous updated : OrderRecord} {t : Timestamp}
    (hafter : PositionCalculator.apply
      ((s.position account fill.instrumentId).getD (.flat account fill.instrumentId t)) fill =
        .ok after)
    (hs : s.recordFill account previous updated fill after = .ok (.applied, s')) :
    ∃ s'', settle account s fill = .ok s'' ∧ s''.positions = s'.positions := by
  have hheld : PositionCalculator.apply (heldFor account s fill) fill = .ok after := by
    rw [← hafter, heldFor]
    cases s.position account fill.instrumentId <;> rfl
  rcases Store.recordFill_eq_ok hs with ⟨-, -, -, hwrite⟩ | ⟨hdup, -⟩
  · obtain ⟨s₁, -, -, hunique, rfl⟩ := Store.writeFill_eq_ok.mp hwrite
    refine ⟨{ s with positions := Table.upsert (·.id) after.stored s.positions }, ?_, rfl⟩
    rw [settle, hheld]
    exact Store.replacePosition_eq_ok.mpr ⟨hunique, rfl⟩
  · cases hdup

theorem ledgered_of_settle (h : s.Ledgered account) (hs : settle account s fill = .ok s') :
    s'.Ledgered account := by
  obtain ⟨after, -, hbooked, -, hrows⟩ := settle_eq_ok h hs
  refine ⟨fun p hp => ?_, hrows ▸ Table.nodup_upsert h.ids⟩
  rw [hrows, Table.mem_upsert] at hp
  rcases hp with rfl | ⟨hp, -⟩
  · exact hbooked
  · exact h.booked p hp

/-- What fills the account's rows can take. -/
theorem settle_isOk (h : s.Ledgered account) : (∃ s', settle account s fill = .ok s') ↔
    fill.accountId = some account ∧ 0 < fill.quantity ∧ Money.zero < fill.price ∧
      ¬ fill.charges < Money.zero := by
  obtain ⟨hinst, hacc⟩ := heldFor_facts account s fill
  constructor
  · rintro ⟨s', hs⟩
    obtain ⟨after, hafter, -⟩ := settle_eq_ok h hs
    obtain ⟨-, howner, hrest⟩ := PositionCalculator.apply_isOk.mp ⟨after, hafter⟩
    exact ⟨hacc ▸ howner, hrest⟩
  · rintro ⟨howner, hrest⟩
    obtain ⟨after, hafter⟩ : ∃ after, PositionCalculator.apply (heldFor account s fill) fill = .ok after :=
      PositionCalculator.apply_isOk.mpr ⟨hinst.symm, by rw [hacc]; exact howner, hrest⟩
    have hbooked := PositionCalculator.booked_of_apply
      ⟨hacc, (heldFor_id h fill).trans (by rw [hinst])⟩ hafter
    refine ⟨{ s with positions := Table.upsert (·.id) after.stored s.positions }, ?_⟩
    rw [settle, hafter]
    refine Store.replacePosition_eq_ok.mpr ⟨fun x hx _ hi => ?_, rfl⟩
    exact ((h.booked x hx).id_eq_iff hbooked).mpr hi

/-- A fill moves the lot of its instrument alone. -/
theorem lot_of_settle (h : s.Ledgered account) (hs : settle account s fill = .ok s')
    (hafter : PositionCalculator.apply (heldFor account s fill) fill = .ok after) (i : String) :
    s'.lot account i = if i = fill.instrumentId then after.lot else s.lot account i := by
  obtain ⟨after', hafter', hbooked, hinst, hrows⟩ := settle_eq_ok h hs
  obtain rfl : after' = after := Except.ok.inj (hafter'.symm.trans hafter)
  rw [Store.lot, Store.position_upsert h.booked hbooked hrows]
  show ((if i = after'.instrumentId then _ else _ : Option PositionRecord).map _).getD _ = _
  rw [hinst]
  split
  · rfl
  · rfl

end FillProcessor

/-! ## What a fill reads of the position -/

namespace PositionCalculator

/-- The gain of a fill, and the lot it leaves, depend on the lot it finds
alone. -/
theorem gain_of_lot (h : before.lot = before'.lot) : gain before fill = gain before' fill := by
  have hnet : before.netQuantity = before'.netQuantity := congrArg Prod.fst h
  have hext : Extends before fill ↔ Extends before' fill := by unfold Extends; rw [hnet]
  unfold gain
  by_cases hb : Extends before fill
  · rw [if_pos hb, if_pos (hext.mp hb)]
  · have hopen : before.netQuantity ≠ 0 := fun h0 => hb (Or.inl h0)
    have havg : before.averagePrice = before'.averagePrice := by
      have := congrArg Prod.snd h
      simpa [PositionRecord.lot, hopen, hnet ▸ hopen] using this
    rw [if_neg hb, if_neg (fun h => hb (hext.mpr h)), havg, hnet]

theorem averageAfter_of_lot (h : before.lot = before'.lot) :
    averageAfter before fill = averageAfter before' fill := by
  have hnet : before.netQuantity = before'.netQuantity := congrArg Prod.fst h
  have hext : Extends before fill ↔ Extends before' fill := by unfold Extends; rw [hnet]
  by_cases hopen : before.netQuantity = 0
  · -- a flat position has no price to average with
    have hopen' : before'.netQuantity = 0 := hnet ▸ hopen
    have hb : Extends before fill := Or.inl hopen
    rw [averageAfter, averageAfter, if_pos hb, if_pos (hext.mp hb), hopen, hopen']
    simp
  · have havg : before.averagePrice = before'.averagePrice := by
      have := congrArg Prod.snd h
      simpa [PositionRecord.lot, hopen, hnet ▸ hopen] using this
    rw [averageAfter, averageAfter, havg, hnet]
    simp only [hext]

theorem lot_of_apply (h : before.lot = before'.lot) (ha : apply before fill = .ok after)
    (ha' : apply before' fill = .ok after') : after.lot = after'.lot := by
  have hnet : before.netQuantity = before'.netQuantity := congrArg Prod.fst h
  rw [apply_eq_ok ha, apply_eq_ok ha']
  simp only [PositionRecord.lot, hnet, averageAfter_of_lot h]

end PositionCalculator

/-! ## Sessions alike -/

namespace LedgerAccountFacts

open FillProcessor PositionCalculator

/-- **A session earns the same over rows of the same lots**, and leaves
the same lots. -/
theorem settleAll_alike (hs : s.Ledgered account) (hf : f.Ledgered account)
    (hlots : ∀ i, s.lot account i = f.lot account i) (h : settleAll account s fills = .ok a) :
    ∃ b, settleAll account f fills = .ok b ∧ takings account s fills = takings account f fills ∧
      a.Ledgered account ∧ b.Ledgered account ∧ ∀ i, a.lot account i = b.lot account i := by
  induction fills generalizing s f with
  | nil =>
      obtain rfl : s = a := Except.ok.inj h
      exact ⟨f, rfl, rfl, hs, hf, hlots⟩
  | cons fill rest ih =>
      cases hone : settle account s fill with
      | error e =>
          rw [settleAll, List.foldlM_cons, hone] at h
          cases h
      | ok s' =>
          rw [settleAll, List.foldlM_cons, hone] at h
          obtain ⟨f', hone'⟩ := (settle_isOk hf).mpr ((settle_isOk hs).mp ⟨s', hone⟩)
          obtain ⟨after, hafter, -⟩ := settle_eq_ok hs hone
          obtain ⟨after', hafter', -⟩ := settle_eq_ok hf hone'
          have hheld : (heldFor account s fill).lot = (heldFor account f fill).lot := by
            rw [lot_heldFor, lot_heldFor, hlots]
          have hnext : ∀ i, s'.lot account i = f'.lot account i := by
            intro i
            rw [lot_of_settle hs hone hafter, lot_of_settle hf hone' hafter', hlots,
              lot_of_apply hheld hafter hafter']
          obtain ⟨b, hb, htakings, hrest⟩ :=
            ih (ledgered_of_settle hs hone) (ledgered_of_settle hf hone') hnext h
          refine ⟨b, ?_, ?_, hrest⟩
          · rw [settleAll, List.foldlM_cons, hone']
            exact hb
          · simp only [takings, hone, hone', htakings, earned, gain_of_lot hheld]

omit [DecimalContext] in
theorem mem_opens (h : s.Ledgered account) {x : Position} : x ∈ opens s.positions ↔
    x.netQuantity ≠ 0 ∧ s.lot account x.instrumentId = (x.netQuantity, x.averagePrice) := by
  rw [opens, List.mem_map]
  constructor
  · rintro ⟨p, hp, rfl⟩
    rw [List.mem_filter] at hp
    have hopen : p.netQuantity ≠ 0 := by simpa using hp.2
    exact ⟨hopen, (h.lot_of_mem hp.1).trans (by rw [PositionRecord.lot, if_neg hopen])⟩
  · rintro ⟨hopen, hlot⟩
    cases hp : s.position account x.instrumentId with
    | none =>
        rw [Store.lot, hp] at hlot
        exact absurd (congrArg Prod.fst hlot).symm hopen
    | some p =>
        have hmem : p ∈ s.positions := List.mem_of_find?_eq_some hp
        have hinst : p.instrumentId = x.instrumentId := by
          have := List.find?_some hp
          simp only [decide_eq_true_eq] at this
          exact this.2
        rw [Store.lot, hp] at hlot
        have hnet : p.netQuantity = x.netQuantity := congrArg Prod.fst hlot
        have havg : p.averagePrice = x.averagePrice := by
          have := congrArg Prod.snd hlot
          simpa [PositionRecord.lot, hnet, hopen] using this
        refine ⟨p, List.mem_filter.mpr ⟨hmem, by simpa [hnet] using hopen⟩, ?_⟩
        rw [hinst, hnet, havg]

omit [DecimalContext] in
theorem nodup_opens (h : s.Ledgered account) : (opens s.positions).Nodup := by
  have hsub : ((s.positions.filter fun p => p.netQuantity ≠ 0).map (·.instrumentId)).Nodup :=
    h.instruments.sublist (List.filter_sublist.map _)
  refine List.Nodup.of_map (·.instrumentId) ?_
  rw [opens, List.map_map]
  exact hsub

/-- What the open positions stand at does not depend on the order of the
rows. -/
theorem openPnl_of_perm {l l' : List Position} (h : l.Perm l') :
    openPnl marks l = openPnl marks l' := by
  have hsum : (standings marks l).sum = (standings marks l').sum := (h.filterMap _).sum_eq
  have hall : (∀ p ∈ l, (marks p.instrumentId).isSome) ↔ ∀ p ∈ l', (marks p.instrumentId).isSome :=
    forall_congr' fun p => by rw [h.mem_iff]
  rw [openPnl, openPnl, hsum]
  simp only [hall]

/-- Rows of the same lots have the same positions open. -/
theorem openPnl_of_lots {b : Store} (ha : a.Ledgered account) (hb : b.Ledgered account)
    (hlots : ∀ i, a.lot account i = b.lot account i) :
    openPnl marks (opens a.positions) = openPnl marks (opens b.positions) := by
  refine openPnl_of_perm ((List.perm_ext_iff_of_nodup (nodup_opens ha) (nodup_opens hb)).mpr ?_)
  intro x
  rw [mem_opens ha, mem_opens hb, hlots]

/-! ## What the rows add up to -/

/-- A fill whose sums are kept adds what it earns to the row. -/
theorem realised_of_exact (h : apply before fill = .ok after) (hexact : Exact before fill) :
    after.realisedPnl.amount = before.realisedPnl.amount + earned before fill := by
  obtain ⟨hrow, hgross, hfees, hnet⟩ := hexact
  have hafter : (grossAfter before fill).amount =
      (grossBefore before).amount + (gain before fill).amount := by
    unfold grossAfter gain at *
    by_cases hext : Extends before fill
    · simp [if_pos hext]
    · have := hgross hext
      simp only [if_neg hext] at this ⊢
      exact this
  have htotal : (before.fees.getD Money.zero + fill.charges).amount =
      (before.fees.getD Money.zero).amount + fill.charges.amount := hfees
  have hdiff : after.realisedPnl.amount = (grossAfter before fill).amount -
      (before.fees.getD Money.zero + fill.charges).amount := by
    rw [apply_eq_ok h]
    exact hnet
  rw [hdiff, hafter, htotal, hrow, earned]
  ring

/-- **One fill.** It adds what it earns to what the rows carry. -/
theorem carried_of_settle (h : s.Ledgered account) (hs : settle account s fill = .ok s')
    (hexact : Exact (heldFor account s fill) fill) :
    carried s'.positions = carried s.positions + earned (heldFor account s fill) fill := by
  obtain ⟨after, hafter, hbooked, hinst, hrows⟩ := settle_eq_ok h hs
  rw [carried, hrows]
  refine Table.sum_upsert h.ids ?_
  have hlook : Table.lookup (·.id) after.stored.id s.positions =
      s.position account fill.instrumentId := by
    rw [h.lookup_id hbooked, ← hinst]
    rfl
  rw [hlook]
  have hrow : after.stored.realisedPnl = after.realisedPnl := rfl
  rw [hrow, realised_of_exact hafter hexact, heldFor]
  cases s.position account fill.instrumentId <;> rfl

/-- **A session** adds what its fills earn to what the rows carry. -/
theorem carried_of_settleAll (h : s.Ledgered account) (ha : settleAll account s fills = .ok a)
    (hkept : Unrounded account marks s fills) :
    carried a.positions = carried s.positions + (takings account s fills).sum ∧
      Summed marks a.positions := by
  induction fills generalizing s with
  | nil =>
      obtain rfl : s = a := Except.ok.inj ha
      exact ⟨(add_zero _).symm, hkept⟩
  | cons fill rest ih =>
      cases hone : settle account s fill with
      | error e =>
          rw [settleAll, List.foldlM_cons, hone] at ha
          cases ha
      | ok s' =>
          rw [settleAll, List.foldlM_cons, hone] at ha
          obtain ⟨hexact, hrest⟩ := hkept
          rw [hone] at hrest
          obtain ⟨hsum, hsummed⟩ := ih (ledgered_of_settle h hone) ha hrest
          refine ⟨?_, hsummed⟩
          rw [hsum, carried_of_settle h hone hexact]
          simp only [takings, hone, List.sum_cons]
          ring

/-- The valuator adds up the rows as they stand. -/
theorem foldl_add_totals (marks : String → Option Money) (rows : List PositionRecord)
    (t : PortfolioValuator.Totals) :
    let u := rows.foldl (PortfolioValuator.Totals.add marks) t
    u.realised.amount =
        (rows.map (·.realisedPnl.amount)).foldl Decimal.add t.realised.amount ∧
      u.unrealised.amount = (standings marks (opens rows)).foldl Decimal.add t.unrealised.amount ∧
      (u.missing = [] ↔ t.missing = [] ∧ ∀ p ∈ opens rows, (marks p.instrumentId).isSome) := by
  induction rows generalizing t with
  | nil => simp [opens, standings]
  | cons p rows ih =>
      obtain ⟨hrealised, hunrealised, hmissing⟩ := ih (t.add marks p)
      rw [List.foldl_cons]
      by_cases hflat : p.netQuantity = 0
      · have hadd : t.add marks p = ⟨t.realised + p.realisedPnl, t.unrealised,
            t.fees + p.fees.getD Money.zero, t.missing⟩ := by
          rw [PortfolioValuator.Totals.add]
          simp [hflat]
        have hopens : opens (p :: rows) = opens rows := by simp [opens, hflat]
        rw [hopens]
        rw [hadd] at hrealised hunrealised hmissing ⊢
        exact ⟨hrealised, hunrealised, hmissing⟩
      · have hopens : opens (p :: rows) =
            ⟨p.instrumentId, p.netQuantity, p.averagePrice⟩ :: opens rows := by
          simp [opens, hflat]
        rw [hopens]
        cases hmark : marks p.instrumentId with
        | none =>
            have hadd : t.add marks p = ⟨t.realised + p.realisedPnl, t.unrealised,
                t.fees + p.fees.getD Money.zero, t.missing ++ [p.instrumentId]⟩ := by
              rw [PortfolioValuator.Totals.add]
              simp [hflat, hmark]
            rw [hadd] at hrealised hunrealised hmissing ⊢
            refine ⟨hrealised, ?_, ?_⟩
            · rw [standings, List.filterMap_cons_none (by simp [hmark])]
              exact hunrealised
            · rw [hmissing]
              simp [hmark]
        | some mark =>
            have hadd : t.add marks p = ⟨t.realised + p.realisedPnl,
                t.unrealised + PortfolioValuator.unrealisedOf p mark,
                t.fees + p.fees.getD Money.zero, t.missing⟩ := by
              rw [PortfolioValuator.Totals.add]
              simp [hflat, hmark]
            rw [hadd] at hrealised hunrealised hmissing ⊢
            refine ⟨hrealised, ?_, ?_⟩
            · rw [standings, List.filterMap_cons_some (by simp [hmark]; rfl)]
              exact hunrealised
            · rw [hmissing]
              simp [hmark]

/-- Where the sums are kept, the day's profit is what the rows carry and
what the open positions stand at. -/
theorem dailyPnl_eq {rows : List PositionRecord} (h : Summed marks rows) :
    (dailyPnl rows marks).amount = carried rows + openPnl marks (opens rows) := by
  obtain ⟨hrealised, hstandings, htotal⟩ := h
  obtain ⟨hr, hu, hm⟩ := foldl_add_totals marks rows PortfolioValuator.Totals.zero
  have hzero : PortfolioValuator.Totals.zero.realised.amount = 0 ∧
      PortfolioValuator.Totals.zero.unrealised.amount = 0 ∧
      PortfolioValuator.Totals.zero.missing = [] := ⟨rfl, rfl, rfl⟩
  rw [hzero.1, Decimal.foldl_add_of_kept hrealised, zero_add] at hr
  rw [hzero.2.1, Decimal.foldl_add_of_kept hstandings, zero_add] at hu
  simp only [hzero.2.2, true_and] at hm
  have hopen : ((PortfolioValuator.value rows marks).unrealised.getD Money.zero).amount =
      openPnl marks (opens rows) := by
    rw [PortfolioValuator.value, openPnl]
    simp only [hm]
    by_cases hall : ∀ p ∈ opens rows, (marks p.instrumentId).isSome
    · rw [if_pos hall, if_pos hall]
      exact hu
    · rw [if_neg hall, if_neg hall]
      rfl
  have hcarried : (PortfolioValuator.value rows marks).realised.amount = carried rows := hr
  rw [dailyPnl, Money.add_amount, hopen, hcarried]
  exact htotal

/-! ## Sessions -/

/-- The sessions `earlier`, each begun with every row flat, left the store
`s`. -/
inductive Sessions (account : String) : List (List ExecutionRecord) → Store → Prop
  | first : Sessions account [] Store.empty
  | next {earlier : List (List ExecutionRecord)} {s a : Store} {today : List ExecutionRecord}
      (before : Sessions account earlier s) (flat : s.Flat)
      (traded : settleAll account s today = .ok a) : Sessions account (earlier ++ [today]) a

theorem ledgered_of_settleAll (h : s.Ledgered account) (ha : settleAll account s fills = .ok a) :
    a.Ledgered account := by
  obtain ⟨b, -, -, hledgered, -⟩ := settleAll_alike h h (fun _ => rfl) ha
  exact hledgered

theorem Sessions.ledgered {earlier : List (List ExecutionRecord)}
    (h : Sessions account earlier s) : s.Ledgered account := by
  induction h with
  | first => exact Store.Ledgered.empty
  | next before flat traded ih => exact ledgered_of_settleAll ih traded

omit [DecimalContext] in
/-- Where every row is flat, no lot is held. -/
theorem lot_of_flat (hflat : s.Flat) (i : String) : s.lot account i = Store.empty.lot account i := by
  rw [Store.lot]
  cases hp : s.position account i with
  | none => rfl
  | some p =>
      have hnet : p.netQuantity = 0 := hflat p (List.mem_of_find?_eq_some hp)
      simp [PositionRecord.lot, hnet, Store.lot, Store.position, Store.empty]

/-- **The profit read as the day's.** After sessions that each began with
every row flat, it is the profit of the session's own fills and what the
rows carried into the session. -/
theorem dailyPnl_eq_dayPnl_add {earlier : List (List ExecutionRecord)}
    (hearlier : Sessions account earlier s) (hflat : s.Flat)
    (htoday : settleAll account s fills = .ok a) (hkept : Unrounded account marks s fills) :
    (dailyPnl a.positions marks).amount = dayPnl account fills marks + carried s.positions := by
  have hs := hearlier.ledgered
  obtain ⟨b, hb, htakings, hledgered, hledgered', hlots⟩ :=
    settleAll_alike hs Store.Ledgered.empty (lot_of_flat hflat) htoday
  obtain ⟨hcarried, hsummed⟩ := carried_of_settleAll hs htoday hkept
  have hopen : openPnl marks (opens a.positions) = openPnl marks (opens b.positions) :=
    openPnl_of_lots hledgered hledgered' hlots
  rw [dailyPnl_eq hsummed, hcarried, htakings, hopen, dayPnl, hb]
  dsimp only
  ring

/-- **When the loss guard reads the day's profit.** After sessions that
each began with every row flat, the profit it reads is that of the
session's own fills exactly when what the rows carried into the session
adds up to zero. -/
theorem dailyPnl_eq_dayPnl_iff {earlier : List (List ExecutionRecord)}
    (hearlier : Sessions account earlier s) (hflat : s.Flat)
    (htoday : settleAll account s fills = .ok a) (hkept : Unrounded account marks s fills) :
    (dailyPnl a.positions marks).amount = dayPnl account fills marks ↔
      carried s.positions = 0 := by
  rw [dailyPnl_eq_dayPnl_add hearlier hflat htoday hkept]
  exact add_eq_left

/-- Ten shares at a price, without charges. -/
def sampleFill (side : OrderSide) (price : Decimal) : ExecutionRecord where
  id := "E"
  brokerTradeId := "T"
  orderId := "O"
  instrumentId := "I"
  side := side
  quantity := 10
  price := ⟨price⟩
  ts := 0
  accountId := some "A"
  sessionDate := none
  fees := none
  sessionTradeNo := none

/-- What a session leaves. -/
def sampleBook (s : Store) (fills : List ExecutionRecord) : Store :=
  (settleAll "A" s fills).toOption.getD s

omit [DecimalContext] in
/-- Ten shares bought at 200 and marked at 210 are read as the day's hundred,
the day after a trade that came out even. -/
theorem dailyPnl_eq_dayPnl_sample :
    letI := Decimal.standard
    (dailyPnl (sampleBook (sampleBook Store.empty [sampleFill .buy 100, sampleFill .sell 100])
        [sampleFill .buy 200]).positions fun _ => some ⟨210⟩).amount =
      dayPnl "A" [sampleFill .buy 200] fun _ => some ⟨210⟩ := by
  let _ := Decimal.standard
  have hfirst : Sessions "A" [[sampleFill .buy 100, sampleFill .sell 100]]
      (sampleBook Store.empty [sampleFill .buy 100, sampleFill .sell 100]) :=
    .next .first (by decide) (by decide +kernel)
  exact (dailyPnl_eq_dayPnl_iff hfirst (by decide +kernel) (by decide +kernel)
    (by decide +kernel)).mpr (by decide +kernel)

omit [DecimalContext] in
/-- **Yesterday's loss is read as today's.** Ten shares were bought at 100
and sold at 90; the next session trades nothing, and a hundred is lost. -/
theorem yesterdays_loss_read :
    letI := Decimal.standard
    ∃ s, Sessions "A" [[sampleFill .buy 100, sampleFill .sell 90]] s ∧ s.Flat ∧
      settleAll "A" s [] = .ok s ∧ (dailyPnl s.positions fun _ => none).amount = -100 ∧
      dayPnl "A" [] (fun _ => none) = 0 := by
  let _ := Decimal.standard
  refine ⟨sampleBook Store.empty [sampleFill .buy 100, sampleFill .sell 90], ?_, ?_, rfl, ?_, ?_⟩
  · exact .next .first (by decide) (by decide +kernel)
  · decide
  · decide +kernel
  · decide +kernel

end LedgerAccountFacts

end Emporos
