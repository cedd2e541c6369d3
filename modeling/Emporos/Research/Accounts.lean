import Emporos.Research.Simulator
import Mathlib.Algebra.BigOperators.Group.List.Basic
import Mathlib.Data.List.Nodup
import Mathlib.Data.Rat.Floor
import Mathlib.Logic.Relation
import Mathlib.Tactic.FieldSimp
import Mathlib.Tactic.Linarith
import Mathlib.Tactic.Ring
/-!
# The accounts of a swing simulation

Every book of a run comes from the first by purchases and sales. A purchase
is of a name not held, while there is room, and never for more than the cash
there is; a sale is of a held position, for what it brings and costs.

What holds of the accounts is kept by each: the cash is the capital with the
trades' gains, less what the held positions cost.
-/

namespace Emporos

namespace Swing

/-- One purchase, one sale, or a buy that is skipped. -/
inductive Move (maxPositions : ℕ) : State → State → Prop
  | skipped {s : State} : Move maxPositions s s.skip
  | bought {s : State} {p : Position} (fresh : s.position p.instrumentId = none)
      (room : s.positions.length < maxPositions) (paid : p.cost ≤ s.cash) :
      Move maxPositions s (s.bought p)
  | sold {s : State} {p : Position} {day : Day} {price gross fees : Decimal}
      (held : s.position p.instrumentId = some p) :
      Move maxPositions s (s.sold p day price gross fees)

def Moves (maxPositions : ℕ) : State → State → Prop := Relation.ReflTransGen (Move maxPositions)

/-- What a trade and a position are matched by. -/
def Trade.entry (t : Trade) : String × Day × Decimal × ℕ :=
  (t.instrumentId, t.entryDay, t.entryPrice, t.quantity)

def Position.entry (p : Position) : String × Day × Decimal × ℕ :=
  (p.instrumentId, p.entryDay, p.entryPrice, p.quantity)

/-- The positions bought so far. -/
def State.purchases (s : State) : List Position :=
  (s.fills.filter fun f => f.sale.isNone).map (·.position)

/-- **What holds of a book**, at any time. -/
structure Booked (capital : Decimal) (maxPositions : ℕ) (s : State) : Prop where
  cash : s.cash = capital + (s.trades.map (·.netPnl)).sum - (s.positions.map (·.cost)).sum
  entries : (s.trades.map (·.entry) ++ s.positions.map (·.entry)).Perm (s.purchases.map (·.entry))
  nodup : (s.positions.map (·.instrumentId)).Nodup
  within : s.positions.length ≤ maxPositions
  held : ∀ f ∈ s.fills, f.held ≤ maxPositions
  paid : ∀ f ∈ s.fills, f.sale = none → f.position.cost ≤ f.before
  last : s.cash = (s.fills.getLast?.map (·.after)).getD capital

variable {capital : Decimal} {maxPositions : ℕ} {s s' : State} {p : Position}

theorem booked_initial : Booked capital maxPositions (.initial capital) where
  cash := by simp [State.initial]
  entries := List.Perm.refl _
  nodup := List.nodup_nil
  within := Nat.zero_le _
  held := List.forall_mem_nil _
  paid := List.forall_mem_nil _
  last := rfl

/-! ## One move -/

theorem perm_without (hnodup : (s.positions.map (·.instrumentId)).Nodup)
    (hheld : s.position p.instrumentId = some p) : s.positions.Perm (p :: s.without p) := by
  have hmem : p ∈ s.positions := Table.mem_of_lookup hheld
  have herase : s.positions.erase p = s.without p := by
    rw [hnodup.of_map.erase_eq_filter, State.without]
    refine List.filter_congr fun q hq => ?_
    have hsame : q = p ↔ q.instrumentId = p.instrumentId :=
      ⟨fun h => h ▸ rfl, fun h => Table.eq_of_key hnodup hq hmem h⟩
    rw [Bool.eq_iff_iff, bne_iff_ne, decide_eq_true_iff]
    exact not_congr hsame
  rw [← herase]
  exact List.perm_cons_erase hmem

theorem Booked.bought (h : Booked capital maxPositions s) (hfresh : s.position p.instrumentId = none)
    (hroom : s.positions.length < maxPositions) (hpaid : p.cost ≤ s.cash) :
    Booked capital maxPositions (s.bought p) where
  cash := by
    simp only [State.bought, h.cash, List.map_append, List.map_cons, List.map_nil, List.sum_append,
      List.sum_singleton]
    ring
  entries := by
    simp only [State.bought, State.purchases, List.map_append, List.filter_append, List.map_cons,
      List.map_nil]
    rw [← List.append_assoc]
    exact h.entries.append_right _
  nodup := by
    have hnew : p.instrumentId ∉ s.positions.map (·.instrumentId) := fun hmem => by
      obtain ⟨q, hq, hname⟩ := List.mem_map.mp hmem
      exact Table.lookup_eq_none.mp hfresh q hq hname
    rw [State.bought, List.map_append]
    refine List.nodup_append.mpr ⟨h.nodup, List.nodup_singleton _, fun x hx y hy => ?_⟩
    rw [List.map_singleton, List.mem_singleton] at hy
    exact fun hxy => hnew (hy ▸ hxy ▸ hx)
  within := by
    rw [State.bought, List.length_append]
    exact hroom
  held f hf := by
    rcases List.mem_append.mp hf with hf | hf
    · exact h.held f hf
    · rw [List.mem_singleton.mp hf]
      exact hroom
  paid f hf hsale := by
    rcases List.mem_append.mp hf with hf | hf
    · exact h.paid f hf hsale
    · rw [List.mem_singleton.mp hf]
      exact hpaid
  last := by
    rw [State.bought, List.getLast?_append_cons]
    rfl

theorem Booked.sold {day : Day} {price gross fees : Decimal} (h : Booked capital maxPositions s)
    (hheld : s.position p.instrumentId = some p) :
    Booked capital maxPositions (s.sold p day price gross fees) := by
  have hperm := perm_without h.nodup hheld
  have hsub : (s.without p).Sublist s.positions := List.filter_sublist
  have hlength : (s.without p).length ≤ maxPositions := hsub.length_le.trans h.within
  refine ⟨?_, ?_, h.nodup.sublist (hsub.map _), hlength, fun f hf => ?_, fun f hf hsale => ?_, ?_⟩
  · have hcost : (s.positions.map (·.cost)).sum = p.cost + ((s.without p).map (·.cost)).sum :=
      (hperm.map (·.cost)).sum_eq
    simp only [State.sold, h.cash, hcost, List.map_append, List.map_cons, List.map_nil,
      List.sum_append, List.sum_singleton]
    ring
  · have hpurchases : (s.sold p day price gross fees).purchases = s.purchases := by
      simp [State.sold, State.purchases]
    rw [hpurchases]
    refine List.Perm.trans ?_ h.entries
    rw [State.sold, List.map_append, List.append_assoc]
    have hentries : ((p :: s.without p).map (·.entry)).Perm (s.positions.map (·.entry)) :=
      (hperm.map _).symm
    exact hentries.append_left _
  · rcases List.mem_append.mp hf with hf | hf
    · exact h.held f hf
    · rw [List.mem_singleton.mp hf]
      exact hlength
  · rcases List.mem_append.mp hf with hf | hf
    · exact h.paid f hf hsale
    · rw [List.mem_singleton.mp hf] at hsale
      cases hsale
  · rw [State.sold, List.getLast?_append_cons]
    rfl

theorem Booked.move (h : Booked capital maxPositions s) (hmove : Move maxPositions s s') :
    Booked capital maxPositions s' := by
  cases hmove with
  | skipped => exact ⟨h.cash, h.entries, h.nodup, h.within, h.held, h.paid, h.last⟩
  | bought fresh room paid => exact h.bought fresh room paid
  | sold held => exact h.sold held

theorem Booked.moves (h : Booked capital maxPositions s) (hmoves : Moves maxPositions s s') :
    Booked capital maxPositions s' := by
  induction hmoves with
  | refl => exact h
  | tail _ hmove ih => exact ih.move hmove

/-- Fills are added only. -/
theorem fills_of_moves (hmoves : Moves maxPositions s s') : s.fills <+: s'.fills := by
  induction hmoves with
  | refl => exact List.prefix_rfl
  | tail _ hmove ih =>
      refine ih.trans ?_
      cases hmove with
      | skipped => exact List.prefix_rfl
      | bought => exact List.prefix_append _ _
      | sold => exact List.prefix_append _ _

/-- Cash is not negative, of a book whose fills left none negative. -/
theorem Booked.cash_nonneg (h : Booked capital maxPositions s) (hcapital : 0 ≤ capital)
    (hfills : ∀ f ∈ s.fills, 0 ≤ f.after) : 0 ≤ s.cash := by
  rw [h.last]
  cases hlast : s.fills.getLast? with
  | none => exact hcapital
  | some f => exact hfills f (List.mem_of_getLast? hlast)

/-! ## The fills of a session -/

section Fills

variable {data : SwingDataset} {config : SwingConfig} {costs : SwingCostModel} {day : Day} {i : ℕ}

theorem move_close {rawPrice multiplier : Decimal} (hheld : s.position p.instrumentId = some p)
    (h : close costs s p day rawPrice multiplier = .ok s') :
    Move maxPositions s s' ∧ s'.positions = s.without p := by
  obtain ⟨fees, -, h⟩ := exists_of_bind h
  obtain rfl := Except.ok.inj h
  exact ⟨.sold hheld, rfl⟩

theorem position_name {name : String} (h : s.position name = some p) :
    s.position p.instrumentId = some p := by
  rw [show p.instrumentId = name from Table.key_of_lookup h]
  exact h

theorem moves_fillExit {name : String} (h : fillExit data config costs day s name = .ok s') :
    Moves maxPositions s s' := by
  unfold fillExit at h
  cases hheld : s.position name with
  | none =>
      rw [hheld] at h
      obtain rfl := Except.ok.inj h
      exact .refl
  | some p =>
      rw [hheld] at h
      obtain ⟨bar, -, h⟩ := exists_of_bind h
      cases bar with
      | none =>
          obtain rfl := Except.ok.inj h
          exact .refl
      | some bar => exact .single (move_close (position_name hheld) h).1

/-- Steps that are moves are moves together. -/
theorem moves_foldlM {α : Type} {f : State → α → Except PyError State}
    (hf : ∀ {s s' a}, f s a = .ok s' → Moves maxPositions s s') {l : List α} {s s' : State}
    (h : l.foldlM f s = .ok s') : Moves maxPositions s s' := by
  induction l generalizing s with
  | nil =>
      obtain rfl := Except.ok.inj h
      exact .refl
  | cons a l ih =>
      rw [List.foldlM_cons] at h
      obtain ⟨s₁, hs₁, h⟩ := exists_of_bind h
      exact (hf hs₁).trans (ih h)

theorem moves_fillExits {exits : List String} (h : fillExits data config costs day s exits = .ok s') :
    Moves maxPositions s s' :=
  moves_foldlM moves_fillExit h

/-- What is bought fits what is allocated. -/
theorem cost_of_affordable {price allocation fees : Decimal} {quantity n : ℕ}
    (h : affordable costs price allocation n = .ok (some (quantity, fees))) :
    quantity * price + fees ≤ allocation := by
  induction n with
  | zero => cases h
  | succ n ih =>
      obtain ⟨fees', -, h⟩ := exists_of_bind h
      split at h
      · rename_i hfits
        cases h
        exact_mod_cast hfits
      · exact ih h

theorem move_buy {intent : Intent} {rawFill multiplier : Decimal}
    (hfresh : s.position intent.instrumentId = none) (hroom : s.positions.length < maxPositions)
    (h : buy data config costs s intent i day rawFill multiplier = .ok s') :
    Move maxPositions s s' := by
  obtain ⟨equity, -, h⟩ := exists_of_bind h
  obtain ⟨bought, hbought, h⟩ := exists_of_bind h
  cases bought with
  | none =>
      obtain rfl := Except.ok.inj h
      exact .skipped
  | some bought =>
      obtain rfl := Except.ok.inj h
      exact .bought hfresh hroom ((cost_of_affordable hbought).trans (min_le_right _ _))

theorem moves_fillEntries {intents : List Intent}
    (h : fillEntries data config costs i day s intents = .ok s') :
    Moves config.maxPositions s s' := by
  induction intents generalizing s with
  | nil =>
      obtain rfl := Except.ok.inj h
      exact .refl
  | cons intent intents ih =>
      rw [fillEntries] at h
      split at h
      · exact ih h
      · rename_i hfresh
        have hfresh : s.position intent.instrumentId = none := by simpa using hfresh
        split at h
        · obtain rfl := Except.ok.inj h
          exact .refl
        · rename_i hroom
          obtain ⟨bar, -, h⟩ := exists_of_bind h
          cases bar with
          | none => exact (Relation.ReflTransGen.single .skipped).trans (ih h)
          | some bar =>
              obtain ⟨s₁, hs₁, h⟩ := exists_of_bind h
              exact (Relation.ReflTransGen.single (move_buy hfresh (not_le.mp hroom) hs₁)).trans (ih h)

theorem move_liquidateOne {name : String} (h : liquidateOne data costs day s name = .ok s') :
    Moves maxPositions s s' ∧ s'.positions = s.positions.filter fun q => q.instrumentId ≠ name := by
  unfold liquidateOne at h
  cases hheld : s.position name with
  | none =>
      rw [hheld] at h
      cases h
  | some p =>
      rw [hheld] at h
      obtain ⟨series, -, h⟩ := exists_of_bind h
      cases hbar : series.lastOnOrBefore day with
      | none =>
          rw [hbar] at h
          cases h
      | some bar =>
          rw [hbar] at h
          have hclose : Move maxPositions s s' ∧ s'.positions = s.without p :=
            move_close (position_name hheld) h
          obtain ⟨hmove, hpositions⟩ := hclose
          have hname : p.instrumentId = name := Table.key_of_lookup hheld
          exact ⟨.single hmove, by rw [hpositions, State.without, hname]⟩

theorem moves_liquidate (h : liquidate data costs day s = .ok s') : Moves maxPositions s s' :=
  moves_foldlM (fun h => (move_liquidateOne h).1) h

/-- **Nothing is left** on the last session. -/
theorem positions_liquidate (h : liquidate data costs day s = .ok s') : s'.positions = [] := by
  have hfold : ∀ (names : List String) (s s' : State),
      names.foldlM (liquidateOne data costs day) s = .ok s' →
        s'.positions = s.positions.filter fun q => q.instrumentId ∉ names := by
    intro names
    induction names with
    | nil =>
        intro s s' h
        obtain rfl := Except.ok.inj h
        simp
    | cons name names ih =>
        intro s s' h
        rw [List.foldlM_cons] at h
        obtain ⟨s₁, hs₁, h⟩ := exists_of_bind h
        have hone : Moves 0 s s₁ ∧ s₁.positions = s.positions.filter fun q => q.instrumentId ≠ name :=
          move_liquidateOne hs₁
        rw [ih s₁ s' h, hone.2, List.filter_filter]
        refine List.filter_congr fun q _ => ?_
        simp only [List.mem_cons, not_or, Bool.decide_and]
        exact Bool.and_comm _ _
  rw [hfold _ _ _ h]
  refine List.filter_eq_nil_iff.mpr fun q hq => ?_
  have hname : q.instrumentId ∈ (s.positions.map (·.instrumentId)).insertionSort (· ≤ ·) :=
    (List.mem_insertionSort _).mpr (List.mem_map_of_mem hq)
  simpa using hname

end Fills

/-! ## The sessions of a run -/

section Sessions

variable {data : SwingDataset} {config : SwingConfig} {costs : SwingCostModel}
  {membership : Membership} {σ : Type} {strategy : SwingStrategy σ} {growth : Decimal}
  {first i : ℕ} {days : List Day} {orders : Orders σ} {sessions : List Session} {x : Session}

/-- The book that some sessions end with, from one they start with. -/
def lastOfSessions (s : State) (sessions : List Session) : State :=
  (sessions.getLast?.map (·.closed)).getD s

/-- What a session is, in a run that holds no yield on cash. -/
structure Held (data : SwingDataset) (config : SwingConfig) (s last : State) (x : Session) : Prop where
  filled : Moves config.maxPositions s x.filled
  closed : Moves config.maxPositions x.filled x.closed
  later : Moves config.maxPositions x.closed last
  marked : x.closed.equity data x.day false = .ok x.equity

theorem carried_one : s.carried 1 first i = s := by
  rw [State.carried, mul_one]
  split <;> rfl

/-- **What one session does.** -/
theorem session_cases {day : Day}
    (h : sessionsFrom data config costs membership strategy growth first i (day :: days) s orders =
      .ok sessions) : ∃ exited filled,
    fillExits data config costs day (s.carried growth first i) orders.exits = .ok exited ∧
      fillEntries data config costs i day exited (orders.entries.take config.maxPositions) =
        .ok filled ∧
      ((days = [] ∧ ∃ closed equity, liquidate data costs day filled = .ok closed ∧
          closed.equity data day false = .ok equity ∧ sessions = [⟨day, filled, closed, equity⟩]) ∨
        (days ≠ [] ∧ ∃ equity orders' rest, filled.equity data day false = .ok equity ∧
          Swing.decide data config membership strategy filled i day equity orders.strategy =
            .ok orders' ∧
          sessionsFrom data config costs membership strategy growth first (i + 1) days filled orders' =
            .ok rest ∧
          sessions = ⟨day, filled, filled, equity⟩ :: rest)) := by
  rw [sessionsFrom] at h
  obtain ⟨exited, hexited, h⟩ := exists_of_bind h
  obtain ⟨filled, hfilled, h⟩ := exists_of_bind h
  refine ⟨exited, filled, hexited, hfilled, ?_⟩
  split at h
  · rename_i hlast
    obtain ⟨closed, hclosed, h⟩ := exists_of_bind h
    obtain ⟨equity, hequity, h⟩ := exists_of_bind h
    exact .inl ⟨hlast, closed, equity, hclosed, hequity, (Except.ok.inj h).symm⟩
  · rename_i hrest
    obtain ⟨equity, hequity, h⟩ := exists_of_bind h
    obtain ⟨orders', horders, h⟩ := exists_of_bind h
    obtain ⟨rest, hsessions, h⟩ := exists_of_bind h
    exact .inr ⟨hrest, equity, orders', rest, hequity, horders, hsessions, (Except.ok.inj h).symm⟩

/-- The sessions are those of the calendar. -/
theorem days_sessionsFrom
    (h : sessionsFrom data config costs membership strategy growth first i days s orders =
      .ok sessions) : sessions.map (·.day) = days := by
  induction days generalizing i s orders sessions with
  | nil =>
      obtain rfl := Except.ok.inj h
      rfl
  | cons day days ih =>
      obtain ⟨exited, filled, -, -, h⟩ := session_cases h
      rcases h with ⟨rfl, closed, equity, -, -, rfl⟩ | ⟨-, equity, orders', rest, -, -, hrest, rfl⟩
      · rfl
      · rw [List.map_cons, ih hrest]

/-- **The sessions of a run.** Each book comes from the one before by moves,
and the last one holds nothing. -/
theorem held_sessionsFrom
    (h : sessionsFrom data config costs membership strategy 1 first i days s orders = .ok sessions) :
    (∀ x ∈ sessions, Held data config s (lastOfSessions s sessions) x) ∧
      ∀ x, sessions.getLast? = some x → x.closed.positions = [] := by
  induction days generalizing i s orders sessions with
  | nil =>
      obtain rfl := Except.ok.inj h
      exact ⟨nofun, nofun⟩
  | cons day days ih =>
      obtain ⟨exited, filled, hexited, hfilled, h⟩ := session_cases h
      rw [carried_one] at hexited
      have hmoves : Moves config.maxPositions s filled :=
        (moves_fillExits hexited).trans (moves_fillEntries hfilled)
      rcases h with ⟨rfl, closed, equity, hclosed, hequity, rfl⟩ |
        ⟨hdays, equity, orders', rest, hequity, -, hrest, rfl⟩
      · refine ⟨fun x hx => ?_, fun x hx => ?_⟩
        · obtain rfl := List.mem_singleton.mp hx
          exact ⟨hmoves, moves_liquidate hclosed, .refl, hequity⟩
        · obtain rfl := Option.some.inj hx
          exact positions_liquidate hclosed
      · obtain ⟨hheld, hempty⟩ := ih hrest
        have hne : rest ≠ [] := by
          rintro rfl
          exact hdays (days_sessionsFrom hrest).symm
        have hlast : (⟨day, filled, filled, equity⟩ :: rest).getLast? = rest.getLast? := by
          rw [List.getLast?_cons, List.getLast?_eq_some_getLast hne]
          rfl
        rw [lastOfSessions, hlast]
        refine ⟨fun x hx => ?_, fun x hx => hempty x hx⟩
        have hfrom : (rest.getLast?.map (·.closed)).getD s = lastOfSessions filled rest := by
          rw [lastOfSessions, List.getLast?_eq_some_getLast hne]
          rfl
        rw [hfrom]
        rcases List.mem_cons.mp hx with rfl | hx
        · obtain ⟨y, hy⟩ := List.exists_mem_of_ne_nil rest hne
          have hy := hheld y hy
          exact ⟨hmoves, .refl, hy.filled.trans (hy.closed.trans hy.later), hequity⟩
        · have hx := hheld x hx
          exact ⟨hmoves.trans hx.filled, hx.closed, hx.later, hx.marked⟩

/-- What a run is made of. -/
theorem exists_sessions {root : Decimal → Decimal} {initial : σ} {r : SwingRun}
    (h : run data config costs membership strategy root initial = .ok r) : ∃ first,
      firstIndex config data.calendar = .ok first ∧ data.calendar.drop first ≠ [] ∧
        sessionsFrom data config costs membership strategy (root (1 + config.cashYield)) first first
          (data.calendar.drop first) (.initial config.capital) ⟨[], [], initial⟩ = .ok r.sessions ∧
        r.days = data.calendar.drop first ∧ r.equity = r.sessions.map (·.equity) ∧
        r.trades = (lastState config r.sessions).trades ∧ r.capital = config.capital := by
  unfold run at h
  split at h
  · cases h
  · rename_i hcalendar
    obtain ⟨first, hfirst, h⟩ := exists_of_bind h
    obtain ⟨sessions, hsessions, h⟩ := exists_of_bind h
    obtain rfl := Except.ok.inj h
    refine ⟨first, hfirst, ?_, hsessions, rfl, rfl, rfl, rfl⟩
    -- the first session is one of the calendar
    have hlt : first < data.calendar.length := by
      unfold firstIndex at hfirst
      split at hfirst
      · obtain rfl := Except.ok.inj hfirst
        exact List.length_pos_iff.mpr hcalendar
      · split at hfirst
        · cases hfirst
        · rename_i hindex
          obtain rfl := Except.ok.inj hfirst
          exact (List.findIdx?_eq_some_iff_findIdx_eq.mp hindex).1
    exact List.ne_nil_of_length_pos (by rw [List.length_drop]; omega)

end Sessions

/-! ## The accounts of a run -/

namespace SwingRun

/-- Every purchase and sale of the run. -/
def fills (r : SwingRun) : List Fill := (r.sessions.getLast?.map (·.closed.fills)).getD []

/-- What the run gained is what its trades gained, and every position that
was bought ends in one trade. -/
structure Balanced (r : SwingRun) : Prop where
  gain : ∃ e, r.equity.getLast? = some e ∧ e - r.capital = (r.trades.map (·.netPnl)).sum
  matched : (r.trades.map (·.entry)).Perm
    (((r.fills.filter fun f => f.sale.isNone).map (·.position)).map (·.entry))

/-- The book never holds more than it may. -/
def Within (r : SwingRun) (maxPositions : ℕ) : Prop :=
  (∀ f ∈ r.fills, f.held ≤ maxPositions) ∧ ∀ x ∈ r.sessions,
    x.filled.positions.length ≤ maxPositions ∧ x.closed.positions.length ≤ maxPositions

/-- Cash is not negative behind any fill, nor at any close. -/
def Solvent (r : SwingRun) : Prop :=
  (∀ f ∈ r.fills, 0 ≤ f.after) ∧ ∀ x ∈ r.sessions, 0 ≤ x.filled.cash ∧ 0 ≤ x.closed.cash

/-- **What equity is made of**: the cash, and what each holding is worth. A
holding whose raw close is the last one divided by `k`, and its multiplier
the last one times `k`, is worth what it was the session before. -/
structure SplitNeutral (data : SwingDataset) (r : SwingRun) : Prop where
  marked : ∀ x ∈ r.sessions, x.closed.equity data x.day false = .ok x.equity
  neutral : ∀ before a b after, r.sessions = before ++ a :: b :: after →
    ∀ p ∈ a.closed.positions, p ∈ b.closed.positions →
      ∀ series earlier x y later, data.find p.instrumentId = .ok series →
        series.bars = earlier ++ x :: y :: later → y.day = b.day → ∀ k > 0,
          y.raw.close.amount = x.raw.close.amount / k → y.multiplier = x.multiplier * k →
            value data p b.day false = value data p a.day false

/-- **Every sale covers its fees**, with the cash there is before it. -/
def Covered (r : SwingRun) : Prop :=
  ∀ f ∈ r.fills, ∀ sale, f.sale = some sale → sale.fees ≤ f.before + sale.gross

end SwingRun

section Accounts

variable {data : SwingDataset} {config : SwingConfig} {costs : SwingCostModel}
  {membership : Membership} {σ : Type} {strategy : SwingStrategy σ} {root : Decimal → Decimal}
  {initial : σ} {r : SwingRun}

/-- The calendar has nothing between a session and the next. -/
theorem le_or_le_of_adjacent {before after : List Day} {a b c : Day}
    (h : data.calendar = before ++ a :: b :: after) (hc : c ∈ data.calendar) : c ≤ a ∨ b ≤ c := by
  have hsorted := data.calendar_sorted
  rw [h, List.pairwise_append] at hsorted
  obtain ⟨-, htail, hcross⟩ := hsorted
  rw [h] at hc
  rcases List.mem_append.mp hc with hc | hc
  · exact .inl (hcross c hc a List.mem_cons_self).le
  · rcases List.mem_cons.mp hc with rfl | hc
    · exact .inl le_rfl
    · rcases List.mem_cons.mp hc with rfl | hc
      · exact .inr le_rfl
      · exact .inr ((List.pairwise_cons.mp (List.pairwise_cons.mp htail).2).1 c hc).le

/-- A split moves the price and the multiplier, and not the value. -/
theorem value_of_split {before after : List Day} {a b : Day} {series : SwingSeries}
    {earlier later : List SwingBar} {x y : SwingBar} {k : ℚ} {p : Position}
    (hcalendar : data.calendar = before ++ a :: b :: after)
    (hseries : data.find p.instrumentId = .ok series)
    (hbars : series.bars = earlier ++ x :: y :: later) (hy : y.day = b) (hk : 0 < k)
    (hraw : y.raw.close.amount = x.raw.close.amount / k)
    (hmultiplier : y.multiplier = x.multiplier * k) : value data p b false = value data p a false := by
  have hmem : series ∈ data.series := Table.mem_of_lookup (SwingDataset.find_eq_ok.mp hseries)
  have hrising := series.rising
  rw [hbars, List.pairwise_append] at hrising
  have htail := List.pairwise_cons.mp hrising.2.1
  have hxy : x.day < y.day := htail.1 y List.mem_cons_self
  have hab : a < b := by
    have hsorted := data.calendar_sorted
    rw [hcalendar, List.pairwise_append] at hsorted
    exact (List.pairwise_cons.mp hsorted.2.1).1 b List.mem_cons_self
  have hx : x.day ≤ a := by
    have hin : x.day ∈ data.calendar := SwingDataset.mem_calendar.mpr
      ⟨series, hmem, x, by rw [hbars]; simp, rfl⟩
    rcases le_or_le_of_adjacent hcalendar hin with h | h
    · exact h
    · exact absurd (hy ▸ hxy) h.not_gt
  have hlast : series.lastOnOrBefore b = some y := by
    have hsplit : series.bars = (earlier ++ [x]) ++ y :: later := by simpa using hbars
    refine SwingSeries.lastOnOrBefore_eq hsplit hy.le fun z hz => ?_
    rw [← hy]
    exact (List.pairwise_cons.mp htail.2).1 z hz
  have hprevious : series.lastOnOrBefore a = some x := by
    refine SwingSeries.lastOnOrBefore_eq hbars hx fun z hz => ?_
    rcases List.mem_cons.mp hz with rfl | hz
    · exact hy ▸ hab
    · exact hab.trans (hy ▸ (List.pairwise_cons.mp htail.2).1 z hz)
  have hsame : y.analysis.close.amount = x.analysis.close.amount := by
    rw [y.multiplier_eq, x.multiplier_eq, hraw, hmultiplier]
    field_simp
  simp only [value, hseries, ok_bind, hlast, hprevious, Bool.false_eq_true, false_and, if_false,
    hsame]

theorem lastState_eq {sessions : List Session} :
    lastState config sessions = lastOfSessions (.initial config.capital) sessions := rfl

/-- **The accounts of a run** that holds no yield on cash. -/
theorem accounts_of_run (hroot : root 1 = 1) (hyield : config.cashYield = 0)
    (h : run data config costs membership strategy root initial = .ok r) :
    r.Balanced ∧ r.Within config.maxPositions ∧ r.SplitNeutral data ∧ (r.Solvent ↔ r.Covered) := by
  obtain ⟨first, -, hne, hsessions, hdays, hequity, htrades, hcapital⟩ := exists_sessions h
  rw [hyield, add_zero, hroot] at hsessions
  have hcalendar := days_sessionsFrom hsessions
  obtain ⟨hheld, hempty⟩ := held_sessionsFrom hsessions
  have hsome : r.sessions ≠ [] := by
    intro hnil
    rw [hnil] at hcalendar
    exact hne hcalendar.symm
  obtain ⟨z, hz⟩ : ∃ z, r.sessions.getLast? = some z := ⟨_, List.getLast?_eq_some_getLast hsome⟩
  have hzmem : z ∈ r.sessions := List.mem_of_getLast? hz
  have hlast : lastOfSessions (.initial config.capital) r.sessions = z.closed := by
    rw [lastOfSessions, hz]
    rfl
  rw [hlast] at hheld
  have hfills : r.fills = z.closed.fills := by
    rw [SwingRun.fills, hz]
    rfl
  have hbooked (x : Session) (hx : x ∈ r.sessions) :
      Booked config.capital config.maxPositions x.filled ∧
        Booked config.capital config.maxPositions x.closed :=
    ⟨booked_initial.moves (hheld x hx).filled,
      booked_initial.moves ((hheld x hx).filled.trans (hheld x hx).closed)⟩
  obtain ⟨-, hz'⟩ := hbooked z hzmem
  refine ⟨⟨?_, ?_⟩, ⟨?_, fun x hx => ⟨(hbooked x hx).1.within, (hbooked x hx).2.within⟩⟩,
    ⟨fun x hx => (hheld x hx).marked, ?_⟩, ?_⟩
  · -- the last book holds nothing: its cash is its equity
    refine ⟨z.equity, by rw [hequity, List.getLast?_map, hz]; rfl, ?_⟩
    have hmarked := (hheld z hzmem).marked
    rw [State.equity, hempty z hz] at hmarked
    have hcash : z.closed.cash + 0 = z.equity := Except.ok.inj hmarked
    rw [hcapital, htrades, lastState_eq, hlast, ← hcash, hz'.cash, hempty z hz]
    simp
  · have hentries := hz'.entries
    rw [hempty z hz, List.map_nil, List.append_nil] at hentries
    rwa [htrades, lastState_eq, hlast, hfills]
  · rw [hfills]
    exact hz'.held
  · intro before a b after hsplit p hp hp' series earlier x y later hseries hbars hy k hk hraw
      hmultiplier
    have hcal : data.calendar = (data.calendar.take first ++ before.map (·.day)) ++
        a.day :: b.day :: after.map (·.day) := by
      rw [hsplit] at hcalendar
      rw [List.append_assoc]
      conv_lhs => rw [← List.take_append_drop first data.calendar, ← hcalendar]
      simp
    exact value_of_split hcal hseries hbars hy hk hraw hmultiplier
  · rw [SwingRun.Solvent, SwingRun.Covered, hfills]
    constructor
    · rintro ⟨hafter, -⟩ f hf sale hsale
      have := hafter f hf
      rw [Fill.after, hsale] at this
      linarith
    · intro hcovered
      have hafter : ∀ f ∈ z.closed.fills, 0 ≤ f.after := by
        intro f hf
        rw [Fill.after]
        cases hsale : f.sale with
        | none => exact sub_nonneg.mpr (hz'.paid f hf hsale)
        | some sale =>
            have := hcovered f hf sale hsale
            show 0 ≤ f.before + (sale.gross - sale.fees)
            linarith
      refine ⟨hafter, fun x hx => ?_⟩
      have hclosed := fills_of_moves (hheld x hx).later
      have hfilled := (fills_of_moves (hheld x hx).closed).trans hclosed
      have hcapital := config.capital_pos.le
      exact ⟨(hbooked x hx).1.cash_nonneg hcapital fun f hf => hafter f (hfilled.subset hf),
        (hbooked x hx).2.cash_nonneg hcapital fun f hf => hafter f (hclosed.subset hf)⟩

end Accounts

end Swing

end Emporos
