import Emporos.Options.Backtest
import Mathlib.Tactic.Linarith
/-!
# The ledger of a spread backtest

In every run that comes through: the days' figures add up to what the
trades made and what is open is worth; a spread that was opened is in one
trade or still open, and never open past a day that reaches its expiry;
what is settled loses no more than its recorded worst case; and an entry is
margined within the capital and what has been realised.
-/

namespace Emporos

namespace Options

/-! ## Settlement -/

namespace Vertical

variable {v a b : Vertical} {spot : Decimal}

theorem width_pos : 0 < v.width := by
  obtain ⟨right, short, long, hout⟩ := v
  refine abs_pos.mpr (sub_ne_zero.mpr ?_)
  cases right with
  | put => exact ne_of_gt hout
  | call => exact ne_of_lt hout

theorem settlementDebit_nonneg : 0 ≤ v.settlementDebit spot := le_max_left _ _

theorem settlementDebit_le : v.settlementDebit spot ≤ v.width :=
  max_le width_pos.le (min_le_left _ _)

/-- Out of the money there is nothing to pay. -/
theorem settlementDebit_eq_zero (h : v.depth spot ≤ 0) : v.settlementDebit spot = 0 :=
  max_eq_left ((min_le_right _ _).trans h)

/-- Of a put and a call one at most is in the money. -/
theorem depth_of_below (hput : a.right = .put) (hcall : b.right = .call) (h : a.Below b) :
    a.depth spot ≤ 0 ∨ b.depth spot ≤ 0 := by
  have hlt := h hput hcall
  unfold depth
  rw [hput, hcall]
  rcases le_total a.shortStrike spot with hle | hle
  · exact .inl (by simpa using hle)
  · exact .inr (by simpa using hle.trans hlt.le)

/-- Two wings together cost no more than the wider one. -/
theorem settlementDebit_add_le (hput : a.right = .put) (hcall : b.right = .call) (h : a.Below b) :
    a.settlementDebit spot + b.settlementDebit spot ≤ max a.width b.width := by
  have hout : a.depth spot ≤ 0 ∨ b.depth spot ≤ 0 := depth_of_below hput hcall h
  rcases hout with hzero | hzero
  · rw [settlementDebit_eq_zero hzero, zero_add]
    exact settlementDebit_le.trans (le_max_right _ _)
  · rw [settlementDebit_eq_zero hzero, add_zero]
    exact settlementDebit_le.trans (le_max_left _ _)

end Vertical

namespace SpreadPlan

variable {p : SpreadPlan} {spot : Decimal}

/-- One vertical, or two of which one is a put and the other a call. -/
theorem cases_verticals (p : SpreadPlan) : (∃ v, p.verticals = [v]) ∨
    ∃ a b, p.verticals = [a, b] ∧ ((a.right = .put ∧ b.right = .call ∧ a.Below b) ∨
      (a.right = .call ∧ b.right = .put ∧ b.Below a)) := by
  obtain ⟨expiry, verticals, hpos, hle, hrights, hcondor⟩ := p
  match verticals, hpos, hle, hrights, hcondor with
  | [v], _, _, _, _ => exact .inl ⟨v, rfl⟩
  | [a, b], _, _, hrights, hcondor =>
      have hne : a.right ≠ b.right := by simpa using hrights
      refine .inr ⟨a, b, rfl, ?_⟩
      cases ha : a.right with
      | put =>
          cases hb : b.right with
          | put => exact absurd (ha.trans hb.symm) hne
          | call => exact .inl ⟨rfl, rfl, hcondor a (by simp) b (by simp)⟩
      | call =>
          cases hb : b.right with
          | put => exact .inr ⟨rfl, rfl, hcondor b (by simp) a (by simp)⟩
          | call => exact absurd (ha.trans hb.symm) hne

theorem settlementDebit_nonneg : 0 ≤ p.settlementDebit spot := by
  refine List.sum_nonneg fun x hx => ?_
  obtain ⟨v, -, rfl⟩ := List.mem_map.mp hx
  exact Vertical.settlementDebit_nonneg

/-- **Only one wing can finish in the money.** -/
theorem settlementDebit_le : p.settlementDebit spot ≤ p.maxWidth := by
  unfold settlementDebit maxWidth
  rcases p.cases_verticals with ⟨v, hv⟩ | ⟨a, b, hab, hcase⟩
  · rw [hv]
    simpa using .inr Vertical.settlementDebit_le
  · rw [hab]
    have hsum : a.settlementDebit spot + b.settlementDebit spot ≤ max a.width b.width := by
      rcases hcase with ⟨hput, hcall, hbelow⟩ | ⟨hcall, hput, hbelow⟩
      · exact Vertical.settlementDebit_add_le hput hcall hbelow
      · rw [add_comm, max_comm]
        exact Vertical.settlementDebit_add_le hput hcall hbelow
    have hwidth : max a.width b.width ≤ max (max 0 a.width) b.width :=
      max_le_max_right _ (le_max_right _ _)
    simpa using hsum.trans hwidth

end SpreadPlan

/-! ## What is recorded of a spread -/

/-- The same spread, but for its mark. -/
def OpenSpread.Same (q p : OpenSpread) : Prop := q = { p with lastMarkDebit := q.lastMarkDebit }

/-- The trade is the end of this spread. -/
structure SpreadTrade.Closes (t : SpreadTrade) (p : OpenSpread) : Prop where
  entryDay : t.entryDay = p.entryDay
  plan : t.plan = p.plan
  lots : t.lots = p.lots
  units : t.units = p.units
  credit : t.creditPerUnit = p.creditPerUnit
  margin : t.margin = p.margin
  maxLoss : t.maxLoss = p.worstCase

namespace OpenSpread

variable {p q r : OpenSpread}

theorem Same.refl (p : OpenSpread) : p.Same p := rfl

theorem Same.trans (h : r.Same q) (h' : q.Same p) : r.Same p := by
  unfold Same at *
  rw [h, h']

theorem Same.entryDay (h : q.Same p) : q.entryDay = p.entryDay := by rw [h]

theorem Same.plan (h : q.Same p) : q.plan = p.plan := by rw [h]

theorem Same.margin (h : q.Same p) : q.margin = p.margin := by rw [h]

theorem Same.entryCharges (h : q.Same p) : q.entryCharges = p.entryCharges := by rw [h]

end OpenSpread

theorem SpreadTrade.Closes.of_same {t : SpreadTrade} {p q : OpenSpread} (h : t.Closes q)
    (hq : q.Same p) : t.Closes p := by
  rw [hq] at h
  exact ⟨h.entryDay, h.plan, h.lots, h.units, h.credit, h.margin, h.maxLoss⟩

/-- What an entry makes sure of. -/
structure OpenSpread.Sold (p : OpenSpread) : Prop where
  credit_pos : 0 < p.creditPerUnit
  credit_lt : p.creditPerUnit < p.plan.maxWidth
  worstCase : p.worstCase = maxLoss p.plan p.creditPerUnit p.units

/-- What a trade that has been closed comes to. -/
structure SpreadTrade.Fair (t : SpreadTrade) : Prop where
  credit_pos : 0 < t.creditPerUnit
  credit_lt : t.creditPerUnit < t.plan.maxWidth
  maxLoss : t.maxLoss = Options.maxLoss t.plan t.creditPerUnit t.units
  gross : t.grossPnl = (t.creditPerUnit - t.closeDebitPerUnit) * t.units
  entered : t.entryDay < t.exitDay
  expired : t.exitDay ≤ t.plan.expiry
  settled : t.exitDay = t.plan.expiry →
    0 ≤ t.closeDebitPerUnit ∧ t.closeDebitPerUnit ≤ t.plan.maxWidth

theorem OpenSpread.Sold.of_same {p q : OpenSpread} (h : p.Sold) (hq : q.Same p) : q.Sold := by
  rw [hq]
  exact ⟨h.credit_pos, h.credit_lt, h.worstCase⟩

/-- What is settled loses no more than its worst case, and makes no more
than its credit. -/
theorem SpreadTrade.Fair.settled_bounds {t : SpreadTrade} (h : t.Fair)
    (hday : t.exitDay = t.plan.expiry) (hunits : 0 ≤ t.units) :
    -t.maxLoss ≤ t.grossPnl ∧ t.grossPnl ≤ t.creditPerUnit * t.units := by
  obtain ⟨hnonneg, hle⟩ := h.settled hday
  have hcast : (0 : Decimal) ≤ t.units := by exact_mod_cast hunits
  rw [h.maxLoss, h.gross, Options.maxLoss]
  constructor
  · have := mul_le_mul_of_nonneg_right hle hcast
    linarith
  · have := mul_nonneg hnonneg hcast
    linarith

/-! ## The ledger -/

namespace SpreadBacktester

variable {b : SpreadBacktester} {s : ChainSnapshot} {books books' : Books}
variable {trades : List SpreadTrade} {cash : Decimal} {l rest spreads : List OpenSpread}
variable {held p q : OpenSpread}

/-- The trades so far, the cash, and the spreads that are open. -/
structure Ledger (trades : List SpreadTrade) (cash : Decimal) (spreads : List OpenSpread) :
    Prop where
  cash : cash = (trades.map (·.netPnl)).sum - (spreads.map (·.entryCharges.total)).sum
  sold : ∀ p ∈ spreads, p.Sold
  fair : ∀ t ∈ trades, t.Fair
  once : (trades.map (·.entryDay) ++ spreads.map (·.entryDay)).Nodup

/-- A spread that was open is in a trade or still open. -/
def Carried (p : OpenSpread) (trades : List SpreadTrade) (spreads : List OpenSpread) : Prop :=
  (∃ t ∈ trades, t.Closes p) ∨ ∃ q ∈ spreads, q.Same p

theorem carried_of_mem (h : p ∈ spreads) : Carried p trades spreads :=
  .inr ⟨p, h, OpenSpread.Same.refl p⟩

/-- Remarked spreads are the same spreads. -/
theorem Ledger.remark (h : Ledger trades cash (l ++ held :: rest)) (hq : q.Same held) :
    Ledger trades cash (l ++ q :: rest) where
  cash := by
    rw [h.cash]
    simp [hq.entryCharges]
  sold p hp := by
    rcases List.mem_append.mp hp with hp | hp
    · exact h.sold p (List.mem_append_left _ hp)
    · rcases List.mem_cons.mp hp with rfl | hp
      · exact (h.sold held (by simp)).of_same hq
      · exact h.sold p (by simp [hp])
  fair := h.fair
  once := by
    have := h.once
    simpa [hq.entryDay] using this

/-- A spread that is closed moves from what is open to the trades. -/
theorem Ledger.closed (h : Ledger trades cash (l ++ held :: rest)) {t : SpreadTrade}
    {cash' : Decimal} (hfair : t.Fair) (hday : t.entryDay = held.entryDay)
    (hcash : cash' = cash + t.netPnl + held.entryCharges.total) :
    Ledger (trades ++ [t]) cash' (l ++ rest) where
  cash := by
    rw [hcash, h.cash]
    simp only [List.map_append, List.sum_append, List.map_cons, List.sum_cons, List.map_nil,
      List.sum_nil]
    ring
  sold p hp := h.sold p (by
    rcases List.mem_append.mp hp with hp | hp
    · simp [hp]
    · simp [hp])
  fair u hu := by
    rcases List.mem_append.mp hu with hu | hu
    · exact h.fair u hu
    · exact List.mem_singleton.mp hu ▸ hfair
  once := by
    have hperm : ((trades ++ [t]).map (·.entryDay) ++ (l ++ rest).map (·.entryDay)).Perm
        (trades.map (·.entryDay) ++ (l ++ held :: rest).map (·.entryDay)) := by
      simp only [List.map_append, List.map_cons, List.map_nil, List.append_assoc, hday,
        List.singleton_append]
      exact List.Perm.append_left _ List.perm_middle.symm
    exact hperm.nodup_iff.mpr h.once

/-! ## One day -/

/-- Managing a spread leaves it the same spread, and a trade closes it on
the day. -/
theorem closes_of_manage {skipped : List String} {m : Managed}
    (h : b.manage held s cash skipped = .ok m) : m.held.Same held ∧
      ∀ t, m.trade = some t → t.Closes held ∧ t.exitDay = s.day := by
  unfold manage at h
  split at h
  · cases hsettle : b.settle held s cash with
    | error e =>
        rw [hsettle] at h
        cases h
    | ok out =>
        rw [hsettle] at h
        obtain rfl := Except.ok.inj h
        unfold settle at hsettle
        split at hsettle
        · cases hsettle
        · obtain rfl := Except.ok.inj hsettle
          refine ⟨rfl, fun t ht => ?_⟩
          obtain rfl := Option.some.inj ht
          exact ⟨⟨rfl, rfl, rfl, rfl, rfl, rfl, rfl⟩, rfl⟩
  · split at h
    · obtain rfl := Except.ok.inj h
      exact ⟨rfl, fun t ht => by cases ht⟩
    · dsimp only at h
      split at h
      · obtain rfl := Except.ok.inj h
        exact ⟨rfl, fun t ht => by cases ht⟩
      · split at h
        · obtain rfl := Except.ok.inj h
          refine ⟨rfl, fun t ht => ?_⟩
          obtain rfl := Option.some.inj ht
          exact ⟨⟨rfl, rfl, rfl, rfl, rfl, rfl, rfl⟩, rfl⟩
        · obtain rfl := Except.ok.inj h
          exact ⟨rfl, fun t ht => by cases ht⟩

/-- **The rule of a day's management**: what the books and the spreads that
are left keep, whether a spread stays or is closed, holds at the end. -/
theorem manageAll_rule {I : Books → List OpenSpread → Prop}
    (hstay : ∀ (books : Books) (held q : OpenSpread) rest skipped cash, q.Same held →
      I books (held :: rest) →
      I { books with held := books.held ++ [q], cash := cash, skipped := skipped } rest)
    (hclose : ∀ (books : Books) held rest (t : SpreadTrade) skipped cash, t.Closes held →
      t.exitDay = s.day → I books (held :: rest) →
      I { books with trades := books.trades ++ [t], cash := cash, skipped := skipped } rest)
    (h : I books rest) (hrun : b.manageAll s rest books = .ok books') : I books' [] := by
  induction rest generalizing books with
  | nil =>
      obtain rfl := Except.ok.inj hrun
      exact h
  | cons held rest ih =>
      unfold SpreadBacktester.manageAll at hrun
      obtain ⟨m, hm, hrun⟩ := exists_of_bind hrun
      obtain ⟨hsame, hcloses⟩ := closes_of_manage hm
      cases htrade : m.trade with
      | none =>
          rw [htrade] at hrun
          exact ih (hstay _ _ _ _ _ _ hsame h) hrun
      | some t =>
          rw [htrade] at hrun
          obtain ⟨hof, hday⟩ := hcloses t htrade
          exact ih (hclose _ _ _ _ _ _ hof hday h) hrun

/-- What managing a spread can lead to. -/
theorem of_manage {skipped : List String} {m : Managed} (hsold : held.Sold)
    (hentered : held.entryDay < s.day) (hopen : s.day ≤ held.plan.expiry)
    (h : b.manage held s cash skipped = .ok m) :
    (m.trade = none ∧ m.held.Same held ∧ m.cash = cash ∧ s.day < held.plan.expiry) ∨
      ∃ t, m.trade = some t ∧ t.Fair ∧ t.Closes held ∧
        m.cash = cash + t.netPnl + held.entryCharges.total := by
  unfold manage at h
  split at h
  · rename_i hexpiry
    cases hsettle : b.settle held s cash with
    | error e =>
        rw [hsettle] at h
        cases h
    | ok out =>
        rw [hsettle] at h
        obtain rfl := Except.ok.inj h
        unfold settle at hsettle
        split at hsettle
        · cases hsettle
        · rename_i spot _
          obtain rfl := Except.ok.inj hsettle
          refine .inr ⟨_, rfl, ⟨hsold.credit_pos, hsold.credit_lt, hsold.worstCase, rfl, hentered,
            hexpiry.le, fun _ => ⟨SpreadPlan.settlementDebit_nonneg,
              SpreadPlan.settlementDebit_le⟩⟩, ⟨rfl, rfl, rfl, rfl, rfl, rfl, rfl⟩, ?_⟩
          simp only [close, SpreadTrade.netPnl]
          ring
  · rename_i hexpiry
    have hlt : s.day < held.plan.expiry := lt_of_le_of_ne hopen hexpiry
    split at h
    · obtain rfl := Except.ok.inj h
      exact .inl ⟨rfl, rfl, rfl, hlt⟩
    · dsimp only at h
      split at h
      · obtain rfl := Except.ok.inj h
        exact .inl ⟨rfl, rfl, rfl, hlt⟩
      · split at h
        · obtain rfl := Except.ok.inj h
          refine .inr ⟨_, rfl, ⟨hsold.credit_pos, hsold.credit_lt, hsold.worstCase, rfl, hentered,
            hlt.le, fun hday => absurd hday (ne_of_lt hlt)⟩, ⟨rfl, rfl, rfl, rfl, rfl, rfl, rfl⟩,
            ?_⟩
          simp only [close, SpreadTrade.netPnl]
          ring
        · obtain rfl := Except.ok.inj h
          exact .inl ⟨rfl, rfl, rfl, hlt⟩

/-- What a day's management keeps and makes sure of. -/
structure Turned (s : ChainSnapshot) (trades : List SpreadTrade) (spreads : List OpenSpread)
    (books' : Books) : Prop where
  ledger : Ledger books'.trades books'.cash books'.held
  open_ : ∀ p ∈ books'.held, s.day < p.plan.expiry
  from_ : ∀ q ∈ books'.held, ∃ p ∈ spreads, q.Same p
  exits : ∀ t ∈ books'.trades, t ∈ trades ∨ ∃ p ∈ spreads, t.Closes p
  carried : ∀ p, Carried p trades spreads → Carried p books'.trades books'.held

theorem mem_of_left_out (h : p ∈ l ++ rest) : p ∈ l ++ held :: rest := by
  rcases List.mem_append.mp h with h | h
  · exact List.mem_append_left _ h
  · exact List.mem_append_right _ (List.mem_cons_of_mem _ h)

/-- **The management of a day**, by induction on the spreads that are left. -/
theorem manageAll_turned (h : Ledger books.trades books.cash (books.held ++ rest))
    (hday : ∀ p ∈ rest, p.entryDay < s.day ∧ s.day ≤ p.plan.expiry)
    (hopen : ∀ p ∈ books.held, s.day < p.plan.expiry)
    (hrun : b.manageAll s rest books = .ok books') :
    Turned s books.trades (books.held ++ rest) books' ∧ books'.days = books.days ∧
      books'.equity = books.equity := by
  induction rest generalizing books with
  | nil =>
      obtain rfl := Except.ok.inj hrun
      rw [List.append_nil] at h ⊢
      exact ⟨⟨h, hopen, fun q hq => ⟨q, hq, OpenSpread.Same.refl q⟩, fun t ht => .inl ht,
        fun _ hp => hp⟩, rfl, rfl⟩
  | cons held rest ih =>
      unfold manageAll at hrun
      obtain ⟨m, hm, hrun⟩ := exists_of_bind hrun
      obtain ⟨hentered, hexpiry⟩ := hday held (List.mem_cons_self ..)
      have hrest : ∀ p ∈ rest, p.entryDay < s.day ∧ s.day ≤ p.plan.expiry := fun p hp =>
        hday p (List.mem_cons_of_mem _ hp)
      rcases of_manage (h.sold held (by simp)) hentered hexpiry hm with
        ⟨htrade, hsame, hcash, hlt⟩ | ⟨t, htrade, hfair, hcloses, hcash⟩
      · -- The spread stays open.
        rw [htrade] at hrun
        dsimp only at hrun
        have hledger : Ledger books.trades m.cash (books.held ++ [m.held] ++ rest) := by
          rw [List.append_assoc, hcash]
          exact h.remark hsame
        obtain ⟨hturned, hdays, hequity⟩ := ih hledger hrest (fun p hp => by
          rcases List.mem_append.mp hp with hp | hp
          · exact hopen p hp
          · rw [List.mem_singleton.mp hp, hsame.plan]
            exact hlt) hrun
        have hfrom : ∀ p ∈ books.held ++ [m.held] ++ rest,
            ∃ p' ∈ books.held ++ held :: rest, p.Same p' := by
          intro p hp
          rw [List.append_assoc, List.singleton_append] at hp
          rcases List.mem_append.mp hp with hp | hp
          · exact ⟨p, List.mem_append_left _ hp, OpenSpread.Same.refl p⟩
          · rcases List.mem_cons.mp hp with rfl | hp
            · exact ⟨held, by simp, hsame⟩
            · exact ⟨p, by simp [hp], OpenSpread.Same.refl p⟩
        refine ⟨⟨hturned.ledger, hturned.open_, fun q hq => ?_, fun u hu => ?_, fun p hp =>
          hturned.carried p ?_⟩, hdays, hequity⟩
        · obtain ⟨p, hp, hqp⟩ := hturned.from_ q hq
          obtain ⟨p', hp', hsame'⟩ := hfrom p hp
          exact ⟨p', hp', hqp.trans hsame'⟩
        · rcases hturned.exits u hu with hu | ⟨p, hp, hup⟩
          · exact .inl hu
          · obtain ⟨p', hp', hsame'⟩ := hfrom p hp
            exact .inr ⟨p', hp', hup.of_same hsame'⟩
        · rcases hp with hp | ⟨q, hq, hqp⟩
          · exact .inl hp
          · rcases List.mem_append.mp hq with hq | hq
            · exact .inr ⟨q, by simp [hq], hqp⟩
            · rcases List.mem_cons.mp hq with rfl | hq
              · exact .inr ⟨m.held, by simp, hsame.trans hqp⟩
              · exact .inr ⟨q, by simp [hq], hqp⟩
      · -- The spread is closed.
        rw [htrade] at hrun
        dsimp only at hrun
        have hledger : Ledger (books.trades ++ [t]) m.cash (books.held ++ rest) :=
          h.closed hfair hcloses.entryDay hcash
        obtain ⟨hturned, hdays, hequity⟩ := @ih { books with
          trades := books.trades ++ [t]
          cash := m.cash
          skipped := m.skipped } hledger hrest hopen hrun
        refine ⟨⟨hturned.ledger, hturned.open_, fun q hq => ?_, fun u hu => ?_, fun p hp =>
          hturned.carried p ?_⟩, hdays, hequity⟩
        · obtain ⟨p, hp, hqp⟩ := hturned.from_ q hq
          exact ⟨p, mem_of_left_out hp, hqp⟩
        · rcases hturned.exits u hu with hu | ⟨p, hp, hup⟩
          · rcases List.mem_append.mp hu with hu | hu
            · exact .inl hu
            · exact .inr ⟨held, by simp, List.mem_singleton.mp hu ▸ hcloses⟩
          · exact .inr ⟨p, mem_of_left_out hp, hup⟩
        · rcases hp with ⟨u, hu, hup⟩ | ⟨q, hq, hqp⟩
          · exact .inl ⟨u, List.mem_append_left _ hu, hup⟩
          · rcases List.mem_append.mp hq with hq | hq
            · exact .inr ⟨q, List.mem_append_left _ hq, hqp⟩
            · rcases List.mem_cons.mp hq with rfl | hq
              · exact .inl ⟨t, by simp, hcloses.of_same hqp⟩
              · exact .inr ⟨q, List.mem_append_right _ hq, hqp⟩

/-- What an entry can lead to: nothing new, or one spread of the day. -/
structure Entered (b : SpreadBacktester) (s : ChainSnapshot) (books : Books) (p : OpenSpread)
    (books' : Books) : Prop where
  held : books'.held = books.held ++ [p]
  cash : books'.cash = books.cash - p.entryCharges.total
  entryDay : p.entryDay = s.day
  sold : p.Sold
  margin : p.margin = b.margin p.plan p.creditPerUnit p.units
  margined : p.margin + (books.held.map (·.margin)).sum ≤ b.settings.capital + books.cash
  planned : b.entry s = .ok (some p.plan)
  room : (books.held.length : ℤ) < b.depth s
  units : p.units = b.settings.lots * s.lotFor p.plan.expiry

/-- The books but for what is open, the cash and the reasons. -/
structure SameRecords (books books' : Books) : Prop where
  trades : books'.trades = books.trades
  days : books'.days = books.days
  equity : books'.equity = books.equity

theorem of_enter (hroom : (books.held.length : ℤ) < b.depth s) (h : b.enter s books = .ok books') :
    SameRecords books books' ∧ ((books'.held = books.held ∧ books'.cash = books.cash) ∨
      ∃ p, Entered b s books p books') := by
  unfold enter at h
  split at h
  · cases h
  · obtain rfl := Except.ok.inj h
    exact ⟨⟨rfl, rfl, rfl⟩, .inl ⟨rfl, rfl⟩⟩
  · rename_i plan hplan
    split at h
    · obtain rfl := Except.ok.inj h
      exact ⟨⟨rfl, rfl, rfl⟩, .inl ⟨rfl, rfl⟩⟩
    · dsimp only at h
      split_ifs at h with htraded hcredit hwidth hmargin
      · obtain rfl := Except.ok.inj h
        exact ⟨⟨rfl, rfl, rfl⟩, .inl ⟨rfl, rfl⟩⟩
      · obtain rfl := Except.ok.inj h
        exact ⟨⟨rfl, rfl, rfl⟩, .inl ⟨rfl, rfl⟩⟩
      · obtain rfl := Except.ok.inj h
        exact ⟨⟨rfl, rfl, rfl⟩, .inl ⟨rfl, rfl⟩⟩
      · obtain rfl := Except.ok.inj h
        exact ⟨⟨rfl, rfl, rfl⟩, .inl ⟨rfl, rfl⟩⟩
      · obtain rfl := Except.ok.inj h
        exact ⟨⟨rfl, rfl, rfl⟩, .inr ⟨_, rfl, rfl, rfl,
          ⟨not_le.mp hcredit, not_le.mp hwidth, rfl⟩, rfl, not_lt.mp hmargin, hplan, hroom, rfl⟩⟩

theorem of_enterIfRoom (h : b.enterIfRoom s books = .ok books') :
    SameRecords books books' ∧ ((books'.held = books.held ∧ books'.cash = books.cash) ∨
      ∃ p, Entered b s books p books') := by
  unfold enterIfRoom at h
  split at h
  · rename_i hroom
    exact of_enter hroom h
  · split at h
    · cases h
    · obtain rfl := Except.ok.inj h
      exact ⟨⟨rfl, rfl, rfl⟩, .inl ⟨rfl, rfl⟩⟩
    · obtain rfl := Except.ok.inj h
      exact ⟨⟨rfl, rfl, rfl⟩, .inl ⟨rfl, rfl⟩⟩

theorem marked_same (s : ChainSnapshot) (held : OpenSpread) : (marked s held).Same held := by
  unfold marked
  split <;> rfl

theorem Ledger.marked (h : Ledger trades cash spreads) :
    Ledger trades cash (spreads.map (marked s)) where
  cash := by
    rw [h.cash, List.map_map]
    congr 2
    exact List.map_congr_left fun p _ => by simp [(marked_same s p).entryCharges]
  sold p hp := by
    obtain ⟨q, hq, rfl⟩ := List.mem_map.mp hp
    exact (h.sold q hq).of_same (marked_same s q)
  fair := h.fair
  once := by
    have hmap : (spreads.map (SpreadBacktester.marked s)).map (·.entryDay) =
        spreads.map (·.entryDay) := by
      rw [List.map_map]
      exact List.map_congr_left fun p _ => (marked_same s p).entryDay
    rw [hmap]
    exact h.once

theorem foldl_unrealised (start : Decimal) (spreads : List OpenSpread) :
    spreads.foldl (fun equity p => equity + p.unrealised) start =
      start + (spreads.map (·.unrealised)).sum := by
  induction spreads generalizing start with
  | nil => simp
  | cons p rest ih =>
      rw [List.foldl_cons, ih, List.map_cons, List.sum_cons]
      ring

/-! ## The run -/

/-- What holds after the days that have been processed. -/
structure Sound (b : SpreadBacktester) (processed : List Day) (books : Books) : Prop where
  ledger : Ledger books.trades books.cash books.held
  equity : books.equity = b.settings.capital + books.cash + (books.held.map (·.unrealised)).sum
  pnl : (books.days.map (·.pnl)).sum = books.equity - b.settings.capital
  figures : books.days.map (·.day) = processed.filter fun day => (b.chains.snapshot day).isSome
  entered : (∀ t ∈ books.trades, t.entryDay ∈ processed) ∧
    ∀ p ∈ books.held, p.entryDay ∈ processed
  current : ∀ p ∈ books.held, ∀ day ∈ processed, (b.chains.snapshot day).isSome →
    p.entryDay < day → day < p.plan.expiry
  margined : ∀ p ∈ books.held, processed.getLast? = some p.entryDay →
    (books.held.map (·.margin)).sum ≤ b.settings.capital + books.cash + p.entryCharges.total

theorem sound_start : Sound b [] b.start where
  ledger := by
    refine ⟨by simp [start], fun _ hp => ?_, fun _ ht => ?_, by simp [start]⟩
    · cases hp
    · cases ht
  equity := by simp [start]
  pnl := by simp [start]
  figures := rfl
  entered := by
    refine ⟨fun _ ht => ?_, fun _ hp => ?_⟩
    · cases ht
    · cases hp
  current _ hp := by cases hp
  margined _ hp := by cases hp

/-- A day without a chain. -/
theorem Sound.skip {processed : List Day} {day : Day} {skipped : List String}
    (h : Sound b processed books) (hday : ∀ d ∈ processed, d < day)
    (hnone : b.chains.snapshot day = none) :
    Sound b (processed ++ [day]) { books with skipped := skipped } where
  ledger := h.ledger
  equity := h.equity
  pnl := h.pnl
  figures := by
    rw [List.filter_append, List.filter_cons_of_neg (by simp [hnone]), List.filter_nil,
      List.append_nil]
    exact h.figures
  entered := ⟨fun t ht => List.mem_append_left _ (h.entered.1 t ht),
    fun p hp => List.mem_append_left _ (h.entered.2 p hp)⟩
  current p hp d hd hsome hlt := by
    rcases List.mem_append.mp hd with hd | hd
    · exact h.current p hp d hd hsome hlt
    · rw [List.mem_singleton.mp hd, hnone] at hsome
      cases hsome
  margined p hp hlast := by
    rw [List.getLast?_concat] at hlast
    have hlt := hday p.entryDay (h.entered.2 p hp)
    exact absurd (Option.some.inj hlast) hlt.ne'

theorem margin_marked : (spreads.map (marked s)).map (·.margin) = spreads.map (·.margin) := by
  rw [List.map_map]
  exact List.map_congr_left fun p _ => (marked_same s p).margin

/-- The books after the entry of a day, before the marks. -/
structure Traded (b : SpreadBacktester) (s : ChainSnapshot) (processed : List Day)
    (books books' : Books) : Prop where
  ledger : Ledger books'.trades books'.cash books'.held
  days : books'.days = books.days
  equity : books'.equity = books.equity
  entered : (∀ t ∈ books'.trades, t.entryDay ∈ processed ++ [s.day]) ∧
    ∀ p ∈ books'.held, p.entryDay ∈ processed ++ [s.day]
  current : ∀ p ∈ books'.held, ∀ day ∈ processed ++ [s.day], (b.chains.snapshot day).isSome →
    p.entryDay < day → day < p.plan.expiry
  margined : ∀ p ∈ books'.held, p.entryDay = s.day →
    (books'.held.map (·.margin)).sum ≤ b.settings.capital + books'.cash + p.entryCharges.total
  carried : ∀ p, Carried p books.trades books.held → Carried p books'.trades books'.held

/-- **A day's trading.** -/
theorem Sound.traded {processed : List Day} {mid : Books} (h : Sound b processed books)
    (hday : ∀ d ∈ processed, d < s.day) (hexpiry : ∀ p ∈ books.held, s.day ≤ p.plan.expiry)
    (hmanage : b.manageAll s books.held { books with held := [] } = .ok mid)
    (henter : b.enterIfRoom s mid = .ok books') : Traded b s processed books books' := by
  obtain ⟨hturned, hdays, hequity⟩ := @manageAll_turned b s { books with held := [] } mid
    books.held h.ledger (fun p hp => ⟨hday _ (h.entered.2 p hp), hexpiry p hp⟩)
    (fun p hp => by cases hp) hmanage
  have hheld : ∀ p ∈ mid.held, p.entryDay ∈ processed := by
    intro p hp
    obtain ⟨q, hq, hpq⟩ := hturned.from_ p hp
    rw [hpq.entryDay]
    exact h.entered.2 q hq
  have htrades : ∀ t ∈ mid.trades, t.entryDay ∈ processed := by
    intro t ht
    rcases hturned.exits t ht with ht | ⟨p, hp, htp⟩
    · exact h.entered.1 t ht
    · rw [htp.entryDay]
      exact h.entered.2 p hp
  have hcurrent : ∀ p ∈ mid.held, ∀ day ∈ processed ++ [s.day],
      (b.chains.snapshot day).isSome → p.entryDay < day → day < p.plan.expiry := by
    intro p hp day hmem hsome hlt
    rcases List.mem_append.mp hmem with hmem | hmem
    · obtain ⟨q, hq, hpq⟩ := hturned.from_ p hp
      rw [hpq.plan]
      exact h.current q hq day hmem hsome (hpq.entryDay ▸ hlt)
    · rw [List.mem_singleton.mp hmem]
      exact hturned.open_ p hp
  obtain ⟨hsame, ⟨hheld', hcash'⟩ | ⟨p, hentered⟩⟩ := of_enterIfRoom henter
  · -- Nothing is opened.
    refine ⟨?_, hsame.days.trans hdays, hsame.equity.trans hequity,
      ⟨fun t ht => List.mem_append_left _ (htrades t (hsame.trades ▸ ht)),
        fun p hp => List.mem_append_left _ (hheld p (hheld' ▸ hp))⟩, ?_, fun p hp hpday => ?_,
      fun p hp => ?_⟩
    · rw [hsame.trades, hcash', hheld']
      exact hturned.ledger
    · rw [hheld']
      exact hcurrent
    · exact absurd hpday (hday _ (hheld p (hheld' ▸ hp))).ne
    · rw [hsame.trades, hheld']
      exact hturned.carried p hp
  · -- One spread is opened.
    have hnew : s.day ∉ mid.trades.map (·.entryDay) ++ mid.held.map (·.entryDay) := by
      intro hmem
      rcases List.mem_append.mp hmem with hmem | hmem
      · obtain ⟨t, ht, hts⟩ := List.mem_map.mp hmem
        exact absurd hts (hday _ (htrades t ht)).ne
      · obtain ⟨q, hq, hqs⟩ := List.mem_map.mp hmem
        exact absurd hqs (hday _ (hheld q hq)).ne
    have hcases : ∀ q ∈ books'.held, q ∈ mid.held ∨ q = p := by
      intro q hq
      rw [hentered.held] at hq
      rcases List.mem_append.mp hq with hq | hq
      · exact .inl hq
      · exact .inr (List.mem_singleton.mp hq)
    refine ⟨⟨?_, fun q hq => ?_, ?_, ?_⟩, hsame.days.trans hdays, hsame.equity.trans hequity,
      ⟨fun t ht => List.mem_append_left _ (htrades t (hsame.trades ▸ ht)), fun q hq => ?_⟩,
      fun q hq => ?_, fun q hq hqday => ?_, fun q hq => ?_⟩
    · rw [hsame.trades, hentered.cash, hentered.held, hturned.ledger.cash]
      simp only [List.map_append, List.sum_append, List.map_cons, List.map_nil, List.sum_cons,
        List.sum_nil]
      ring
    · rcases hcases q hq with hq | rfl
      · exact hturned.ledger.sold q hq
      · exact hentered.sold
    · rw [hsame.trades]
      exact hturned.ledger.fair
    · rw [hsame.trades, hentered.held, List.map_append, ← List.append_assoc, List.map_singleton,
        hentered.entryDay, List.nodup_append']
      refine ⟨hturned.ledger.once, List.nodup_singleton _, ?_⟩
      exact List.disjoint_singleton.mpr hnew
    · rcases hcases q hq with hq | rfl
      · exact List.mem_append_left _ (hheld q hq)
      · rw [hentered.entryDay]
        exact List.mem_append_right _ (List.mem_singleton_self _)
    · rcases hcases q hq with hq | rfl
      · exact hcurrent q hq
      · intro day hmem _ hlt
        rw [hentered.entryDay] at hlt
        rcases List.mem_append.mp hmem with hmem | hmem
        · exact absurd hlt (hday day hmem).le.not_gt
        · exact absurd (List.mem_singleton.mp hmem) hlt.ne'
    · rcases hcases q hq with hq | rfl
      · exact absurd hqday (hday _ (hheld q hq)).ne
      · rw [hentered.held, hentered.cash]
        have hmargined := hentered.margined
        simp only [List.map_append, List.sum_append, List.map_cons, List.map_nil, List.sum_cons,
          List.sum_nil]
        linarith
    · rw [hsame.trades, hentered.held]
      rcases hturned.carried q hq with hq | ⟨r, hr, hrq⟩
      · exact .inl hq
      · exact .inr ⟨r, List.mem_append_left _ hr, hrq⟩

/-- The marks at the end of the day. -/
theorem Traded.capitalNow {processed : List Day} (h : Sound b processed books)
    (ht : Traded b s processed books books') (hsome : (b.chains.snapshot s.day).isSome) :
    Sound b (processed ++ [s.day]) (b.capitalNow s books') := by
  have hmark : ∀ p ∈ books'.held.map (marked s), ∃ q ∈ books'.held, p.Same q := by
    intro p hp
    obtain ⟨q, hq, rfl⟩ := List.mem_map.mp hp
    exact ⟨q, hq, marked_same s q⟩
  have hequity : (b.capitalNow s books').equity = b.settings.capital + books'.cash +
      ((books'.held.map (marked s)).map (·.unrealised)).sum := foldl_unrealised ..
  refine ⟨ht.ledger.marked, hequity, ?_, ?_, ⟨ht.entered.1, fun p hp => ?_⟩, fun p hp => ?_,
    fun p hp hlast => ?_⟩
  · change ((books'.days ++ [_]).map DayPnl.pnl).sum = _
    rw [List.map_append, List.sum_append, ht.days, h.pnl, ht.equity, List.map_singleton,
      List.sum_singleton]
    change _ + ((b.capitalNow s books').equity - _) = _
    ring
  · change (books'.days ++ [_]).map DayPnl.day = _
    have hday : [s.day].filter (fun day => (b.chains.snapshot day).isSome) = [s.day] :=
      List.filter_cons_of_pos hsome
    rw [List.map_append, ht.days, h.figures, List.filter_append, hday]
    rfl
  · obtain ⟨q, hq, hpq⟩ := hmark p hp
    rw [hpq.entryDay]
    exact ht.entered.2 q hq
  · obtain ⟨q, hq, hpq⟩ := hmark p hp
    rw [hpq.entryDay, hpq.plan]
    exact ht.current q hq
  · obtain ⟨q, hq, hpq⟩ := hmark p hp
    rw [List.getLast?_concat, hpq.entryDay] at hlast
    change ((books'.held.map (marked s)).map (·.margin)).sum ≤ _
    rw [margin_marked, hpq.entryCharges]
    exact ht.margined q hq (Option.some.inj hlast).symm

/-- What a day of the loop does. -/
theorem step_cases {day : Day} (h : b.step books day = .ok books') :
    (b.chains.snapshot day = none ∧
      books' = { books with skipped := books.skipped ++ ["no_chain"] }) ∨
    ∃ s mid traded, b.chains.snapshot day = some s ∧ s.day = day ∧
      (∀ p ∈ books.held, s.day ≤ p.plan.expiry) ∧
      b.manageAll s books.held { books with held := [] } = .ok mid ∧
      b.enterIfRoom s mid = .ok traded ∧ books' = b.capitalNow s traded := by
  unfold SpreadBacktester.step at h
  split at h
  · rename_i hnone
    exact .inl ⟨hnone, (Except.ok.inj h).symm⟩
  · rename_i s hsnapshot
    obtain rfl := b.chains.day_of_snapshot hsnapshot
    split at h
    · cases h
    · rename_i hexpired
      have hexpiry : ∀ p ∈ books.held, s.day ≤ p.plan.expiry := by
        intro p hp
        have := List.find?_eq_none.mp hexpired p hp
        simpa using this
      obtain ⟨mid, hmanage, h⟩ := exists_of_bind h
      obtain ⟨traded, henter, h⟩ := exists_of_bind h
      exact .inr ⟨s, mid, traded, hsnapshot, rfl, hexpiry, hmanage, henter,
        (Except.ok.inj h).symm⟩

/-- **One day of the loop** keeps the ledger sound, and loses no spread. -/
theorem Sound.step {processed : List Day} {day : Day} (h : Sound b processed books)
    (hday : ∀ d ∈ processed, d < day) (hrun : b.step books day = .ok books') :
    Sound b (processed ++ [day]) books' ∧
      ∀ p, Carried p books.trades books.held → Carried p books'.trades books'.held := by
  rcases step_cases hrun with
    ⟨hnone, rfl⟩ | ⟨s, mid, traded, hsnapshot, rfl, hexpiry, hmanage, henter, rfl⟩
  · exact ⟨h.skip hday hnone, fun _ hp => hp⟩
  · have ht := h.traded hday hexpiry hmanage henter
    refine ⟨ht.capitalNow h (by rw [hsnapshot]; rfl), fun p hp => ?_⟩
    rcases ht.carried p hp with hp | ⟨q, hq, hqp⟩
    · exact .inl hp
    · exact .inr ⟨marked s q, List.mem_map_of_mem hq, (marked_same s q).trans hqp⟩

/-- **A run of days**, by induction on them. -/
theorem Sound.days {pre post : List Day} (h : Sound b pre books)
    (hsorted : (pre ++ post).Pairwise (· < ·)) (hrun : post.foldlM b.step books = .ok books') :
    Sound b (pre ++ post) books' ∧
      ∀ p, Carried p books.trades books.held → Carried p books'.trades books'.held := by
  induction post generalizing pre books with
  | nil =>
      obtain rfl := Except.ok.inj hrun
      rw [List.append_nil]
      exact ⟨h, fun _ hp => hp⟩
  | cons day post ih =>
      rw [List.foldlM_cons] at hrun
      cases hstep : b.step books day with
      | error e =>
          rw [hstep] at hrun
          cases hrun
      | ok mid =>
          rw [hstep] at hrun
          have hday : ∀ d ∈ pre, d < day := fun d hd =>
            (List.pairwise_append.mp hsorted).2.2 d hd day (List.mem_cons_self ..)
          obtain ⟨hmid, hcarried⟩ := h.step hday hstep
          have happend : pre ++ day :: post = pre ++ [day] ++ post := by simp
          rw [happend] at hsorted ⊢
          obtain ⟨hend, hcarried'⟩ := ih hmid hsorted hrun
          exact ⟨hend, fun p hp => hcarried' p (hcarried p hp)⟩

theorem sum_worth (spreads : List OpenSpread) :
    (spreads.map fun p => p.unrealised - p.entryCharges.total).sum =
      (spreads.map (·.unrealised)).sum - (spreads.map (·.entryCharges.total)).sum := by
  induction spreads with
  | nil => simp
  | cons p rest ih =>
      rw [List.map_cons, List.sum_cons, ih, List.map_cons, List.map_cons, List.sum_cons,
        List.sum_cons]
      ring

theorem exists_of_run {first last : Day} {result : BacktestResult}
    (h : b.run first last = .ok result) : ∃ books, b.loop first last = .ok books ∧
      result = ⟨books.trades, books.days, books.skipped⟩ := by
  unfold run at h
  cases hloop : b.loop first last with
  | error e =>
      rw [hloop] at h
      cases h
  | ok books =>
      rw [hloop] at h
      exact ⟨books, rfl, (Except.ok.inj h).symm⟩

/-- What a prefix of the days leaves, the rest of the run has as well. -/
theorem exists_of_prefix {first last : Day} {pre post : List Day}
    (h : b.loop first last = .ok books) (hwindow : b.window first last = pre ++ post) :
    ∃ mid, pre.foldlM b.step b.start = .ok mid ∧ post.foldlM b.step mid = .ok books := by
  unfold loop at h
  rw [hwindow, List.foldlM_append] at h
  cases hpre : pre.foldlM b.step b.start with
  | error e =>
      rw [hpre] at h
      cases h
  | ok mid =>
      rw [hpre] at h
      exact ⟨mid, rfl, h⟩

theorem sorted_window {first last : Day} : (b.window first last).Pairwise (· < ·) :=
  b.chains.sorted.sublist List.filter_sublist

/-- **The ledger of a run.** For every chain source, entry planner, exit
policy, depth policy, margin estimator and schedule, in every run that
comes through: there is one figure for each day of the window that has a
chain, and the figures add up to the net result of the trades and what the
open spreads are worth at their last mark less their entry charges; every
trade was sold for a credit below its width and closed after its entry day
and by its expiry, and one closed on its expiry day lost at most its
recorded worst case before charges; every spread that was open after some
day is in a trade of the result or still open, no two spreads share an
entry day, and none is open past a day with a chain that reaches its
expiry; and at every entry the margins of all open spreads are within the
capital and what has been realised after costs. -/
theorem ledger_balances {first last : Day} {result : BacktestResult}
    (h : b.run first last = .ok result) :
    ∃ books, b.loop first last = .ok books ∧
      result = ⟨books.trades, books.days, books.skipped⟩ ∧
      result.days.map (·.day) = (b.window first last).filter
        (fun day => (b.chains.snapshot day).isSome) ∧
      result.dailyPnl.sum = result.netPnl +
        (books.held.map fun p => p.unrealised - p.entryCharges.total).sum ∧
      (∀ t ∈ result.trades, 0 < t.creditPerUnit ∧ t.creditPerUnit < t.plan.maxWidth ∧
        t.entryDay < t.exitDay ∧ t.exitDay ≤ t.plan.expiry ∧
        t.maxLoss = maxLoss t.plan t.creditPerUnit t.units ∧
        (t.exitDay = t.plan.expiry → 0 ≤ t.units →
          -t.maxLoss ≤ t.grossPnl ∧ t.grossPnl ≤ t.creditPerUnit * t.units)) ∧
      (result.trades.map (·.entryDay) ++ books.held.map (·.entryDay)).Nodup ∧
      (∀ p ∈ books.held, ∀ day ∈ b.window first last, (b.chains.snapshot day).isSome →
        p.entryDay < day → day < p.plan.expiry) ∧
      ∀ pre post, b.window first last = pre ++ post →
        ∃ mid, pre.foldlM b.step b.start = .ok mid ∧
          (∀ p ∈ mid.held, (∃ t ∈ result.trades, t.Closes p) ∨ ∃ q ∈ books.held, q.Same p) ∧
          ∀ p ∈ mid.held, pre.getLast? = some p.entryDay →
            (mid.held.map (·.margin)).sum ≤ b.settings.capital + ((mid.trades.map (·.netPnl)).sum -
              (mid.held.map (·.entryCharges.total)).sum) + p.entryCharges.total := by
  obtain ⟨books, hloop, rfl⟩ := exists_of_run h
  have hsound : Sound b (b.window first last) books :=
    (sound_start.days sorted_window hloop).1
  refine ⟨books, hloop, rfl, hsound.figures, ?_, fun t ht => ?_, hsound.ledger.once,
    hsound.current, fun pre post hwindow => ?_⟩
  · have hsum : (books.held.map fun p => p.unrealised - p.entryCharges.total).sum =
        (books.held.map (·.unrealised)).sum - (books.held.map (·.entryCharges.total)).sum :=
      sum_worth books.held
    change (books.days.map (·.pnl)).sum = (books.trades.map (·.netPnl)).sum + _
    rw [hsum, hsound.pnl, hsound.equity, hsound.ledger.cash]
    ring
  · have hfair := hsound.ledger.fair t ht
    exact ⟨hfair.credit_pos, hfair.credit_lt, hfair.entered, hfair.expired, hfair.maxLoss,
      hfair.settled_bounds⟩
  · obtain ⟨mid, hpre, hpost⟩ := exists_of_prefix hloop hwindow
    have hsorted : (pre ++ post).Pairwise (· < ·) := hwindow ▸ sorted_window
    have hmid : Sound b pre mid :=
      (sound_start.days (List.pairwise_append.mp hsorted).1 hpre).1
    obtain ⟨-, hcarried⟩ := hmid.days hsorted hpost
    refine ⟨mid, hpre, fun p hp => hcarried p (carried_of_mem hp), fun p hp hlast => ?_⟩
    rw [← hmid.ledger.cash]
    exact hmid.margined p hp hlast

/-! ## A spread that is settled -/

namespace OneSpread

def quote (strike : Decimal) (close : Decimal) (h : 0 < strike ∧ 0 ≤ close) : OptionQuote where
  strike := strike
  right := .put
  close := close
  settle := close
  openInterest := 100
  contractsTraded := 100
  strike_pos := h.1
  premiums_nonneg := ⟨h.2, h.2⟩

/-- Two puts, at 100 and at 90, on a day. -/
def chainOn (day : Day) (short long : Decimal) (h : 0 ≤ short ∧ 0 ≤ long) : ChainSnapshot where
  day := day
  underlyingClose := 110
  lotSize := 50
  strikeStep := 10
  tickSize := 1 / 20
  expiries := [(3, ⟨3, [((100, .put), quote 100 short ⟨by norm_num, h.1⟩),
    ((90, .put), quote 90 long ⟨by norm_num, h.2⟩)], none⟩)]
  settlements := [(3, 96)]
  underlyingClose_pos := by norm_num
  strikeStep_pos := by norm_num
  tickSize_pos := by norm_num
  one_le_lotSize := by norm_num

def chains : ChainSource where
  days := [1, 2, 3]
  snapshot day :=
    if day = 1 then some (chainOn 1 5 2 (by norm_num))
    else if day = 3 then some (chainOn 3 4 1 (by norm_num))
    else none
  sorted := by decide
  day_of_snapshot := by
    intro day s h
    split_ifs at h with h1 h3
    · rw [← Option.some.inj h, h1]
      rfl
    · rw [← Option.some.inj h, h3]
      rfl

def put : Vertical := ⟨.put, 100, 90, by norm_num⟩

theorem half_fits : (0 : Decimal) < 1 / 2 ∧ (1 : Decimal) / 2 ≤ 1 := by norm_num

theorem tenth_nonneg : (0 : Decimal) ≤ 1 / 10 := by norm_num

theorem capital_pos : (0 : Decimal) < 100000 := by norm_num

theorem single : 1 ≤ 1 ∧ 1 ≤ 1 := ⟨le_rfl, le_rfl⟩

def plan : SpreadPlan where
  expiry := 3
  verticals := [put]
  length_pos := by decide
  length_le := by decide
  rights := by decide
  condor := by decide +kernel

def backtester : SpreadBacktester where
  chains := chains
  entry s := if s.day = 1 then .ok (some plan) else .ok none
  exits := standardPolicy ⟨1 / 2, half_fits⟩ none ⟨1, Nat.one_pos⟩
  margin := spanLikeMargin ⟨1 / 10, tenth_nonneg⟩
  fees := ⟨20, 1 / 10, 1 / 8, 3 / 100, 10, 3 / 1000, 0, 18⟩
  settings := ⟨100000, 1, benchmark, 1, capital_pos, single⟩
  depth := fixedDepth ⟨1, Int.one_pos⟩

/-- The result, of a run that comes through. -/
def result : BacktestResult :=
  match backtester.run 1 3 with
  | .ok result => result
  | .error _ => ⟨[], [], []⟩

theorem run_eq : backtester.run 1 3 = .ok result := by
  have hok : (backtester.run 1 3).isOk = true := by decide +kernel
  unfold result
  cases h : backtester.run 1 3 with
  | error e =>
      rw [h] at hok
      cases hok
  | ok r => rfl

end OneSpread

open OneSpread in
theorem ledger_balances_sample :
    result.trades.map (fun t => (t.entryDay, t.exitDay, t.grossPnl)) = [(1, 3, -60)] ∧
      ∃ books, backtester.loop 1 3 = .ok books ∧ result.dailyPnl.sum = result.netPnl +
        (books.held.map fun p => p.unrealised - p.entryCharges.total).sum := by
  obtain ⟨books, hloop, -, -, hsum, -⟩ := ledger_balances run_eq
  exact ⟨by decide +kernel, books, hloop, hsum⟩

end SpreadBacktester

end Options

end Emporos
