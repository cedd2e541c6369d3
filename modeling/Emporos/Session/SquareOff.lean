import Emporos.Execution.Books
import Emporos.Execution.Scripts
import Emporos.Risk.Rules
import Emporos.Session.Worker
import Mathlib.Algebra.BigOperators.Ring.Finset
/-!
# The square-off

A session is squared off by one pass over the open positions; from there on
it only polls. The books move all the while: orders are placed, change
their state, are replaced and fill. A position that a fill increases behind
the pass gets no exit, and one that the pass finds an exit working for gets
none for what that exit leaves open.

What is submitted for a position is on a log with what increased it; what
the session awaits besides the books and the signals is left out.
-/

namespace Emporos

/-! ## The books -/

namespace Store

variable (account : String) (s : Store)

def openPositions : List PositionRecord :=
  s.positions.filter fun p => p.accountId = account ∧ p.netQuantity ≠ 0

/-- What the account holds of an instrument. -/
def netQuantity (instrumentId : String) : ℤ := ((s.position account instrumentId).map (·.netQuantity)).getD 0

end Store

namespace OrderRecord

/-- An EXIT order of the instrument, on the side. -/
def Exits (instrumentId : String) (side : OrderSide) (o : OrderRecord) : Prop :=
  o.instrumentId = instrumentId ∧ o.side = side ∧ o.signalKind = some "EXIT"

instance (instrumentId : String) (side : OrderSide) (o : OrderRecord) :
    Decidable (o.Exits instrumentId side) := inferInstanceAs (Decidable (_ ∧ _))

/-- What it still sells or buys of the account's position. -/
def rest (account instrumentId : String) (side : OrderSide) (o : OrderRecord) : ℕ :=
  if o.accountId = some account ∧ !o.state.terminal ∧ o.Exits instrumentId side then
    o.quantity - o.filledQuantity
  else 0

end OrderRecord

namespace SquareOffService

/-- The side that closes a position. -/
def closingSide (net : ℤ) : OrderSide := if 0 < net then .sell else .buy

/-- An exit of the position is already working. -/
def isClosing (working : List OrderRecord) (p : PositionRecord) : Bool :=
  working.any fun o => o.Exits p.instrumentId (closingSide p.netQuantity)

/-- What becomes of a position. -/
inductive Treatment
  | skipped
  | closing
  | unpriced
  | submitted (signal : Signal)

/-- The body of the loop. -/
def treat (reason : String) (only : Option String) (working : List OrderRecord)
    (marks : String → Option Money) (now : Timestamp) (p : PositionRecord) :
    Except PyError Treatment :=
  if only.any (· ≠ p.instrumentId) then .ok .skipped
  else if isClosing working p then .ok .closing
  else
    match marks p.instrumentId with
    | none => .ok .unpriced
    | some mark => do
        let signal ← Signal.make "session-square-off" p.instrumentId .exit
          (closingSide p.netQuantity) .limit p.netQuantity.natAbs mark now reason none none
        return .submitted signal

/-- The report with one more position. -/
def add (report : SquareOffReport) (p : PositionRecord) : Treatment → SquareOffReport
  | .skipped => report
  | .closing => { report with alreadyClosing := report.alreadyClosing ++ [p.instrumentId] }
  | .unpriced => { report with unpriced := report.unpriced ++ [p.instrumentId] }
  | .submitted _ => { report with submitted := report.submitted ++ [p.instrumentId] }

end SquareOffService

open SquareOffService

/-- How far a pass has come. -/
inductive Pass
  | start
  /-- It has read the working orders and the marks. -/
  | reading (working : List OrderRecord) (marks : String → Option Money)
  | exiting (working : List OrderRecord) (marks : String → Option Money)
      (todo : List PositionRecord) (report : SquareOffReport)
  | over (report : SquareOffReport)
  | failed

/-- What the log keeps. -/
inductive Note
  | increased (instrumentId : String)
  | submitted (signal : Signal)

/-- A session that is squaring off. Order ids are distinct. -/
structure Squaring where
  store : Store
  ids : (store.orders.map (·.id)).Nodup
  marks : String → Option Money
  pass : Pass
  /-- Newest first. -/
  log : List Note

namespace Squaring

/-- An EXIT signal of the instrument was submitted after its last
increase. -/
def exited (instrumentId : String) : List Note → Bool
  | [] => false
  | .increased other :: log => other ≠ instrumentId && exited instrumentId log
  | .submitted signal :: log =>
      (signal.instrumentId = instrumentId && signal.kind = .exit) || exited instrumentId log

/-- What the working exits of the position are still for. -/
def exiting (account : String) (s : Store) (instrumentId : String) (side : OrderSide) : ℕ :=
  ((s.active account).map (OrderRecord.rest account instrumentId side)).sum

/-- The working exits are for the whole position. -/
def Covered (account : String) (s : Store) (instrumentId : String) : Prop :=
  (s.netQuantity account instrumentId).natAbs ≤
    exiting account s instrumentId (closingSide (s.netQuantity account instrumentId))

instance (account : String) (s : Store) (instrumentId : String) :
    Decidable (Covered account s instrumentId) := Nat.decLe ..

/-- A position got larger, or changed its side. -/
def Increased (before after : ℤ) : Prop :=
  ¬ (0 ≤ after ∧ after ≤ before) ∧ ¬ (before ≤ after ∧ after ≤ 0)

instance (before after : ℤ) : Decidable (Increased before after) :=
  inferInstanceAs (Decidable (_ ∧ _))

/-- What a fill leaves on the log. -/
def noted (instrumentId : String) (before after : ℤ) (log : List Note) : List Note :=
  if Increased before after then .increased instrumentId :: log else log

/-- What a treatment leaves on the log. -/
def submits (treatment : Treatment) (log : List Note) : List Note :=
  match treatment with
  | .submitted signal => .submitted signal :: log
  | .skipped | .closing | .unpriced => log

end Squaring

/-! ## How the books move -/

namespace Store

variable (account : String) (s : Store)

/-- One row is written over another of the same order. -/
structure Rewritten (p u : OrderRecord) (s' : Store) : Prop where
  mem : p ∈ s.orders
  intent : u.intent = p.intent
  orders : s'.orders = Table.replace (·.id) u s.orders

/-- An order is added. -/
structure Added (o : OrderRecord) (s' : Store) : Prop where
  fresh : ∀ x ∈ s.orders, x.id ≠ o.id
  orders : s'.orders = s.orders ++ [o]

/-- A fill of `n` of an order, and what it makes of the position. -/
structure Filled (p u : OrderRecord) (n : ℕ) (s' : Store) : Prop where
  rewritten : s.Rewritten p u s'
  quantity : u.filledQuantity = p.filledQuantity + n
  fits : u.filledQuantity ≤ p.quantity
  state : u.state = FillProcessor.targetState p u.filledQuantity
  net : ∀ i, s'.netQuantity account i = s.netQuantity account i + if i = p.instrumentId then
    signedQuantity p.side n else 0

end Store

section Execution

variable [DecimalContext] {cfg : Settings} {scope : Scope} {t : ℕ} {w : World} {s' : Store} {c : Call}

/-- **Execution moves the books so**: an order is added, a row is written
over its order, or an order fills and its position with it, if that was
read as it is. -/
theorem moves_of_effect (h : Effect cfg scope cfg.engine.accountId t w c s')
    (hb : Books cfg.engine.accountId w.store)
    (hread : ∀ e ∈ w.trace, e.ReadsBooked cfg.engine.accountId)
    (hcurrent : ∀ i held, LastPosition t w i held →
      w.store.position cfg.engine.accountId i = held) :
    (∃ o, w.store.Added o s' ∧ s'.positions = w.store.positions) ∨
    (∃ p u, w.store.Rewritten p u s' ∧ u.filledQuantity = p.filledQuantity ∧
      s'.positions = w.store.positions) ∨
    ∃ p u n, w.store.Filled cfg.engine.accountId p u n s' := by
  cases h with
  | @created o _ _ _ _ fresh eq =>
      exact .inl ⟨o.stored, ⟨fun x hx => (fresh x hx).1, by rw [eq]⟩, by rw [eq]⟩
  | changed held cur_of grounds follows fits last eq =>
      refine .inr (.inl ⟨_, _, ⟨cur_of.mem, ?_, by rw [eq]⟩, ?_, by rw [eq]⟩)
      · exact (OrderRecord.intent_stored _).trans cur_of.intent.symm
      · exact cur_of.filled.symm
  | @filled p cur u e q trade id now fees soFar held flatAt filledAt seq _ write cur_of fits fresh
      owner last eq =>
      have hqbooked := write.position_booked hread
      obtain ⟨hnet, -, -, hinstrument, -⟩ := PositionCalculator.apply_net write.position
      have haccepted := write.accepted
      have hheld := hcurrent _ _ write.read
      obtain rfl := write.updated
      obtain rfl := write.execution
      simp only [FillProcessor.refuses, decide_eq_false_iff_not, not_or, not_not] at haccepted
      obtain ⟨⟨htrade, hside⟩, hfill⟩ := haccepted
      refine .inr (.inr ⟨cur, _, trade.quantity, ⟨cur_of.mem, ?_, by rw [eq]⟩, ?_, ?_, ?_, fun i => ?_⟩)
      · exact (OrderRecord.intent_stored _).trans cur_of.intent.symm
      · show p.filledQuantity + trade.quantity = _
        rw [cur_of.filled]
      · show p.filledQuantity + trade.quantity ≤ _
        rw [cur_of.quantity_eq]
        omega
      · show FillProcessor.targetState p _ = FillProcessor.targetState cur _
        rw [FillProcessor.targetState, FillProcessor.targetState, cur_of.state, cur_of.quantity_eq]
        rfl
      · have hposition : s'.position cfg.engine.accountId i = if i = q.stored.instrumentId then
            some q.stored else w.store.position cfg.engine.accountId i :=
          Store.position_upsert hb.positions hqbooked (by rw [eq])
        have hbefore : (held.getD (.flat cfg.fills.accountId trade.instrumentId flatAt)).instrumentId =
            trade.instrumentId := by
          cases held with
          | none => rfl
          | some before => exact (Store.mem_of_position hheld).2
        have hcurrent : cur.instrumentId = trade.instrumentId :=
          (OrderRecord.instrumentId_of_intent cur_of.intent).trans htrade.symm
        have hkey : q.stored.instrumentId = cur.instrumentId :=
          hinstrument.trans (hbefore.trans hcurrent.symm)
        rw [Store.netQuantity, hposition, hkey]
        by_cases hi : i = cur.instrumentId
        · have hside : cur.side = trade.side :=
            (OrderRecord.side_of_intent cur_of.intent).trans hside.symm
          have hsigned : ExecutionRecord.signed (FillProcessor.executionOf cfg.fills p trade id now
              fees soFar) = signedQuantity cur.side trade.quantity := by
            rw [hside]
            cases hs : trade.side with
            | buy => simp [ExecutionRecord.signed, FillProcessor.executionOf, hs, signedQuantity]
            | sell => simp [ExecutionRecord.signed, FillProcessor.executionOf, hs, signedQuantity]
          have hwas : w.store.netQuantity cfg.engine.accountId i =
              (held.getD (.flat cfg.fills.accountId trade.instrumentId flatAt)).netQuantity := by
            rw [Store.netQuantity, hi, hcurrent, hheld]
            cases held <;> rfl
          rw [if_pos hi, if_pos hi, hwas, ← hsigned, Option.map_some, Option.getD_some]
          exact hnet
        · rw [if_neg hi, if_neg hi, add_zero, Store.netQuantity]

end Execution

namespace Squaring

open Store

/-- What happens while a session is squared off. -/
inductive Act
  | placed (o : OrderRecord)
  | changed (p u : OrderRecord)
  /-- A reprice: the order is over, and another is for what it left open. -/
  | replaced (p u o : OrderRecord)
  | filled (p : OrderRecord) (n : ℕ)
  /-- Anyone else submits a signal. -/
  | signalled (signal : Signal)
  | marked
  | read
  | listed
  | treated (p : PositionRecord) (treatment : Treatment)
  | finished
  | failed

variable (account reason : String) (only : Option String)

inductive Step : Squaring → Act → Squaring → Prop
  | placed {d d' : Squaring} {o : OrderRecord} (h : d.store.Added o d'.store)
      (positions : d'.store.positions = d.store.positions)
      (eq : d' = { d with store := d'.store, ids := d'.ids }) : Step d (.placed o) d'
  | changed {d d' : Squaring} {p u : OrderRecord} (h : d.store.Rewritten p u d'.store)
      (unfilled : u.filledQuantity = p.filledQuantity)
      (positions : d'.store.positions = d.store.positions)
      (eq : d' = { d with store := d'.store, ids := d'.ids }) : Step d (.changed p u) d'
  | replaced {d d' : Squaring} {p u o : OrderRecord} {s : Store} (h : d.store.Rewritten p u s)
      (unfilled : u.filledQuantity = p.filledQuantity) (working : p.state.terminal = false)
      (closed : u.state.terminal) (rest : s.Added o d'.store)
      (instrument : o.instrumentId = p.instrumentId) (side : o.side = p.side)
      (kind : o.signalKind = p.signalKind) (owner : o.accountId = p.accountId)
      (quantity : o.quantity = p.quantity - p.filledQuantity) (new : o.filledQuantity = 0)
      (state : o.state.terminal = false) (positions : d'.store.positions = d.store.positions)
      (eq : d' = { d with store := d'.store, ids := d'.ids }) : Step d (.replaced p u o) d'
  | filled {d d' : Squaring} {p u : OrderRecord} {n : ℕ}
      (h : d.store.Filled account p u n d'.store)
      (eq : d' = { d with
        store := d'.store
        ids := d'.ids
        log := noted p.instrumentId (d.store.netQuantity account p.instrumentId)
          (d'.store.netQuantity account p.instrumentId) d.log }) : Step d (.filled p n) d'
  | signalled {d : Squaring} {signal : Signal} :
      Step d (.signalled signal) { d with log := .submitted signal :: d.log }
  | marked {d : Squaring} {marks : String → Option Money} : Step d .marked { d with marks }
  | read {d : Squaring} (h : d.pass = .start) :
      Step d .read { d with pass := .reading (d.store.active account) d.marks }
  | listed {d : Squaring} {working : List OrderRecord} {marks : String → Option Money}
      (h : d.pass = .reading working marks) :
      Step d .listed
        { d with pass := .exiting working marks (d.store.openPositions account) ⟨[], [], []⟩ }
  | treated {d : Squaring} {working : List OrderRecord} {marks : String → Option Money}
      {p : PositionRecord} {todo : List PositionRecord} {report : SquareOffReport}
      {now : Timestamp} {treatment : Treatment} (h : d.pass = .exiting working marks (p :: todo) report)
      (ht : treat reason only working marks now p = .ok treatment) :
      Step d (.treated p treatment) { d with
        pass := .exiting working marks todo (add report p treatment)
        log := submits treatment d.log }
  | finished {d : Squaring} {working : List OrderRecord} {marks : String → Option Money}
      {report : SquareOffReport} (h : d.pass = .exiting working marks [] report) :
      Step d .finished { d with pass := .over report }
  | failed {d : Squaring} : Step d .failed { d with pass := .failed }

/-! ## What the pass is for -/

/-- The pass has not come to the position yet, and will exit it if it does
not fail. -/
def Awaited (d : Squaring) (instrumentId : String) : Prop :=
  match d.pass with
  | .start | .reading .. | .failed => True
  | .exiting working marks todo _ => ∃ p ∈ todo, p.instrumentId = instrumentId ∧
      isClosing working p = false ∧ (marks instrumentId).isSome
  | .over _ => False

/-- The position has no live mark, or is awaited, covered or exited. -/
def Secure (d : Squaring) : Prop :=
  ∀ i, d.marks i = none ∨ d.Awaited i ∨ Covered account d.store i ∨ exited i d.log

/-- **The condition on a step.** A fill increases no position that the pass
has passed by, but within what its working exits are for; no exit ends
unfilled, and unreplaced, that the position needs; the pass passes by no
position that its working exits do not cover. -/
def Good (d : Squaring) (a : Act) (d' : Squaring) : Prop :=
  match a with
  | .filled p _ =>
      Increased (d.store.netQuantity account p.instrumentId) (d'.store.netQuantity account p.instrumentId) →
        d.marks p.instrumentId = none ∨ d.Awaited p.instrumentId ∨
          Covered account d'.store p.instrumentId
  | .changed p u => p.signalKind = some "EXIT" → p.state.terminal = false → u.state.terminal →
      d.marks p.instrumentId = none ∨ d.Awaited p.instrumentId ∨
        Covered account d'.store p.instrumentId ∨ exited p.instrumentId d.log
  | .listed =>
      ∀ working marks, d.pass = .reading working marks →
        ∀ p ∈ d.store.openPositions account,
          isClosing working p ∨ marks p.instrumentId = none →
            d.marks p.instrumentId = none ∨ Covered account d.store p.instrumentId ∨
              exited p.instrumentId d.log
  | .marked => ∀ i, d.marks i = none → (d'.marks i).isSome →
      d.Awaited i ∨ Covered account d.store i ∨ exited i d.log
  | _ => True

/-! ## What the working exits are for -/

section Rows

variable {account : String} {s s' : Store} {p u o : OrderRecord} {i : String} {side : OrderSide}

/-- Every working exit of the account counts, in any order. -/
theorem exiting_eq : exiting account s i side = (s.orders.map (OrderRecord.rest account i side)).sum := by
  have hperm : (s.active account).Perm
      (s.orders.filter fun o => o.accountId = some account ∧ !o.state.terminal) :=
    List.perm_insertionSort _ _
  rw [exiting, (hperm.map _).sum_eq]
  induction s.orders with
  | nil => rfl
  | cons o l ih =>
      rw [List.filter_cons]
      split
      · simpa using ih
      · rename_i h
        have hzero : o.rest account i side = 0 :=
          if_neg fun hrest => h (by simpa using And.intro hrest.1 hrest.2.1)
        simpa [hzero] using ih

/-- A row of the table is exchanged, and with it what it counts for. -/
theorem sum_rewritten (hids : (s.orders.map (·.id)).Nodup) (h : s.Rewritten p u s')
    (f : OrderRecord → ℕ) : (s'.orders.map f).sum + f p = (s.orders.map f).sum + f u := by
  have hid : p.id = u.id := (OrderRecord.id_of_intent h.intent).symm
  have hupsert : Table.upsert (·.id) u s.orders = s'.orders := by
    rw [h.orders, Table.upsert, if_pos]
    exact List.any_eq_true.mpr ⟨p, h.mem, by simpa using hid⟩
  have hlookup : Table.lookup (·.id) u.id s.orders = some p := hid ▸ Table.lookup_of_mem hids h.mem
  let g (o : OrderRecord) : ℤ := f o
  have hrow : g u = ((Table.lookup (·.id) u.id s.orders).map g).getD 0 + (g u - g p) := by
    rw [hlookup, Option.map_some, Option.getD_some]
    omega
  have hsum := Table.sum_upsert hids hrow
  have hcast (l : List OrderRecord) : (l.map g).sum = ((l.map f).sum : ℕ) := by
    rw [Nat.cast_list_sum, List.map_map]
    rfl
  rw [hupsert, hcast, hcast] at hsum
  change _ = _ + ((f u : ℤ) - f p) at hsum
  omega

variable (account i side) in
theorem exiting_rewritten (hids : (s.orders.map (·.id)).Nodup) (h : s.Rewritten p u s') :
    exiting account s' i side + p.rest account i side =
      exiting account s i side + u.rest account i side := by
  rw [exiting_eq, exiting_eq]
  exact sum_rewritten hids h _

theorem exiting_added (h : s.Added o s') :
    exiting account s' i side = exiting account s i side + o.rest account i side := by
  rw [exiting_eq, exiting_eq, h.orders]
  simp

/-- What an order is for does not change. -/
theorem exits_of_intent (h : u.intent = p.intent) : u.Exits i side ↔ p.Exits i side := by
  rw [OrderRecord.Exits, OrderRecord.Exits, OrderRecord.instrumentId_of_intent h,
    OrderRecord.side_of_intent h, show u.signalKind = p.signalKind from congrArg (·.signalKind) h]

/-- A rewritten row counts for its own instrument. -/
theorem rest_of_ne (hne : p.instrumentId ≠ i) : p.rest account i side = 0 :=
  if_neg fun h => hne h.2.2.1

variable (account i side) in
theorem rest_le_of_state (hintent : u.intent = p.intent) (hfilled : u.filledQuantity = p.filledQuantity)
    (hstate : p.signalKind = some "EXIT" → p.state.terminal = false → u.state.terminal = false) :
    p.rest account i side ≤ u.rest account i side := by
  unfold OrderRecord.rest
  split
  · rename_i h
    obtain ⟨howner, hworking, hexits⟩ := h
    have hworking : u.state.terminal = false := hstate hexits.2.2 (by simpa using hworking)
    rw [if_pos ⟨(OrderRecord.accountId_of_intent hintent).trans howner, by simp [hworking],
      (exits_of_intent hintent).mpr hexits⟩, OrderRecord.quantity_of_intent hintent, hfilled]
  · exact Nat.zero_le _

variable (i side) in
/-- A fill of `n` leaves the exit `n` less to do. -/
theorem rest_filled {n : ℕ} (h : s.Filled account p u n s') :
    p.rest account i side ≤ u.rest account i side + n := by
  have hintent := h.rewritten.intent
  unfold OrderRecord.rest
  split
  · rename_i hrest
    obtain ⟨howner, hworking, hexits⟩ := hrest
    have hworking : p.state.terminal = false := by simpa using hworking
    have hquantity := h.quantity
    have hfits := h.fits
    by_cases hfull : u.filledQuantity = p.quantity
    · omega
    · have hopen : u.state.terminal = false := by
        rw [h.state, FillProcessor.targetState, if_neg (by simp [hworking]), if_neg hfull]
        split
        · exact hworking
        · rfl
      rw [if_pos ⟨(OrderRecord.accountId_of_intent hintent).trans howner, by simp [hopen],
        (exits_of_intent hintent).mpr hexits⟩, OrderRecord.quantity_of_intent hintent]
      omega
  · exact Nat.zero_le _

end Rows

section Coverage

variable {account : String} {s s' : Store} {p u o : OrderRecord} {i : String}

theorem covered_of_net_eq_zero (h : s.netQuantity account i = 0) : Covered account s i := by
  simp [Covered, h]

theorem net_of_positions (h : s'.positions = s.positions) : s'.netQuantity account i = s.netQuantity account i := by
  simp only [Store.netQuantity, Store.position, h]

/-- With the position as it was, more for the exits to do keeps it covered. -/
theorem Covered.mono (h : Covered account s i) (hnet : s'.netQuantity account i = s.netQuantity account i)
    (hexits : ∀ side, exiting account s i side ≤ exiting account s' i side) :
    Covered account s' i := by
  unfold Covered at h ⊢
  rw [hnet]
  exact h.trans (hexits _)

/-- **A fill that increases nothing uncovers nothing.** -/
theorem covered_filled {n : ℕ} (hids : (s.orders.map (·.id)).Nodup) (h : s.Filled account p u n s')
    (hless : ¬ Increased (s.netQuantity account p.instrumentId) (s'.netQuantity account p.instrumentId))
    (hcovered : Covered account s p.instrumentId) : Covered account s' p.instrumentId := by
  have hnet := h.net p.instrumentId
  rw [if_pos rfl] at hnet
  have hsum side := exiting_rewritten account p.instrumentId side hids h.rewritten
  have hrest side := rest_filled p.instrumentId side h
  -- an order of the other side is no exit of this one
  have hother side (hne : p.side ≠ side) : p.rest account p.instrumentId side = 0 :=
    if_neg fun h => hne h.2.2.2.1
  rw [Increased, not_and_or, not_not, not_not] at hless
  unfold Covered at hcovered ⊢
  generalize s.netQuantity account p.instrumentId = before at *
  generalize s'.netQuantity account p.instrumentId = after at *
  rcases hless with ⟨hpos, hle⟩ | ⟨hle, hneg⟩
  · by_cases hzero : after = 0
    · simp [hzero]
    · have hsell : closingSide after = .sell := if_pos (by omega)
      have hsell' : closingSide before = .sell := if_pos (by omega)
      rw [hsell'] at hcovered
      rw [hsell]
      have hsum := hsum .sell
      have hrest := hrest .sell
      cases hside : p.side with
      | buy =>
          have hother := hother .sell (by rw [hside]; nofun)
          simp only [hside, signedQuantity] at hnet
          omega
      | sell =>
          simp only [hside, signedQuantity] at hnet
          omega
  · by_cases hzero : after = 0
    · simp [hzero]
    · have hbuy : closingSide after = .buy := if_neg (by omega)
      have hbuy' : closingSide before = .buy := if_neg (by omega)
      rw [hbuy'] at hcovered
      rw [hbuy]
      have hsum := hsum .buy
      have hrest := hrest .buy
      cases hside : p.side with
      | buy =>
          simp only [hside, signedQuantity] at hnet
          omega
      | sell =>
          have hother := hother .buy (by rw [hside]; nofun)
          simp only [hside, signedQuantity] at hnet
          omega

end Coverage

/-! ## Steps -/

section Steps

variable {account reason : String} {d d' : Squaring} {a : Act} {i : String}

/-- An open position is on the list. -/
theorem exists_open (h : d.store.netQuantity account i ≠ 0) :
    ∃ p ∈ d.store.openPositions account, p.instrumentId = i := by
  cases hp : d.store.position account i with
  | none => simp [Store.netQuantity, hp] at h
  | some p =>
      have hmem := List.mem_of_find?_eq_some hp
      have hkey : p.accountId = account ∧ p.instrumentId = i := by simpa using List.find?_some hp
      have hnet : p.netQuantity ≠ 0 := by simpa [Store.netQuantity, hp] using h
      exact ⟨p, List.mem_filter.mpr ⟨hmem, by simpa using And.intro hkey.1 hnet⟩, hkey.2⟩

theorem treat_submitted {working : List OrderRecord} {marks : String → Option Money}
    {now : Timestamp} {p : PositionRecord} {treatment : Treatment}
    (h : treat reason none working marks now p = .ok treatment) (hopen : isClosing working p = false)
    (hmark : (marks p.instrumentId).isSome) :
    ∃ signal, treatment = .submitted signal ∧ signal.instrumentId = p.instrumentId ∧
      signal.kind = .exit := by
  obtain ⟨mark, hmark⟩ := Option.isSome_iff_exists.mp hmark
  rw [treat, if_neg (by simp), if_neg (by simp [hopen]), hmark] at h
  obtain ⟨signal, hsignal, h⟩ := exists_of_bind h
  obtain ⟨-, hinstrument, hkind, -⟩ := Signal.make_eq_ok hsignal
  exact ⟨signal, (Except.ok.inj h).symm, hinstrument, hkind⟩

/-- The books move, and the rest stays. -/
theorem Secure.books (h : d.Secure account) (hmarks : d'.marks = d.marks) (hpass : d'.pass = d.pass)
    (hkept : ∀ i, d.marks i ≠ none → ¬ d.Awaited i →
      Covered account d.store i ∨ exited i d.log →
        Covered account d'.store i ∨ exited i d'.log) : d'.Secure account := by
  intro i
  have hawaited : d'.Awaited i ↔ d.Awaited i := by rw [Awaited, Awaited, hpass]
  rw [hmarks, hawaited]
  by_cases hnone : d.marks i = none
  · exact .inl hnone
  by_cases hwait : d.Awaited i
  · exact .inr (.inl hwait)
  · exact .inr (.inr (hkept i hnone hwait (((h i).resolve_left hnone).resolve_left hwait)))

theorem secure_added {o : OrderRecord} (h : d.Secure account) (hadded : d.store.Added o d'.store)
    (hpositions : d'.store.positions = d.store.positions)
    (heq : d' = { d with store := d'.store, ids := d'.ids }) : d'.Secure account := by
  refine h.books (by rw [heq]) (by rw [heq]) fun i _ _ hkept => ?_
  refine hkept.imp (fun hcovered => hcovered.mono (net_of_positions hpositions) fun side => ?_)
    fun hexited => by rw [heq]; exact hexited
  rw [exiting_added hadded]
  exact Nat.le_add_right _ _

theorem secure_changed {p u : OrderRecord} (h : d.Secure account)
    (hgood : d.Good account (.changed p u) d') (hrewritten : d.store.Rewritten p u d'.store)
    (hunfilled : u.filledQuantity = p.filledQuantity)
    (hpositions : d'.store.positions = d.store.positions)
    (heq : d' = { d with store := d'.store, ids := d'.ids }) : d'.Secure account := by
  refine h.books (by rw [heq]) (by rw [heq]) fun i hmark hwait hkept => ?_
  have hlog : d'.log = d.log := by rw [heq]
  rw [hlog]
  refine hkept.elim (fun hcovered => ?_) .inr
  have hsum side := exiting_rewritten account i side d.ids hrewritten
  by_cases hends : p.signalKind = some "EXIT" ∧ p.state.terminal = false ∧ u.state.terminal ∧
      p.instrumentId = i
  · obtain ⟨hexit, hworking, hover, rfl⟩ := hends
    exact ((hgood hexit hworking hover).resolve_left hmark).resolve_left hwait
  · refine .inl (hcovered.mono (net_of_positions hpositions) fun side => ?_)
    by_cases hi : p.instrumentId = i
    · have hrest := rest_le_of_state account i side hrewritten.intent
        hunfilled fun hexit hworking => by
          by_contra hover
          exact hends ⟨hexit, hworking, by simpa using hover, hi⟩
      have := hsum side
      omega
    · have := hsum side
      rw [rest_of_ne hi] at this
      omega

theorem secure_replaced {p u o : OrderRecord} {s : Store} (h : d.Secure account)
    (hrewritten : d.store.Rewritten p u s) (hworking : p.state.terminal = false)
    (hover : u.state.terminal) (hadded : s.Added o d'.store)
    (hinstrument : o.instrumentId = p.instrumentId) (hside : o.side = p.side)
    (hkind : o.signalKind = p.signalKind) (howner : o.accountId = p.accountId)
    (hquantity : o.quantity = p.quantity - p.filledQuantity) (hnew : o.filledQuantity = 0)
    (hstate : o.state.terminal = false) (hpositions : d'.store.positions = d.store.positions)
    (heq : d' = { d with store := d'.store, ids := d'.ids }) : d'.Secure account := by
  refine h.books (by rw [heq]) (by rw [heq]) fun i _ _ hkept => ?_
  refine hkept.imp (fun hcovered => hcovered.mono (net_of_positions hpositions) fun side => ?_)
    fun hexited => by rw [heq]; exact hexited
  have hsum := exiting_rewritten account i side d.ids hrewritten
  have hzero : u.rest account i side = 0 := if_neg fun hrest => by simp [hover] at hrest
  -- the replacement is for what the order left open
  have hrest : o.rest account i side = p.rest account i side := by
    simp only [OrderRecord.rest, OrderRecord.Exits, hinstrument, hside, hkind, howner, hquantity,
      hnew, hstate, hworking, Nat.sub_zero]
  rw [exiting_added hadded, hrest]
  omega

theorem secure_filled {p u : OrderRecord} {n : ℕ} (h : d.Secure account)
    (hgood : d.Good account (.filled p n) d') (hfilled : d.store.Filled account p u n d'.store)
    (heq : d' = { d with
      store := d'.store
      ids := d'.ids
      log := noted p.instrumentId (d.store.netQuantity account p.instrumentId)
        (d'.store.netQuantity account p.instrumentId) d.log }) : d'.Secure account := by
  refine h.books (by rw [heq]) (by rw [heq]) fun i hmark hwait hkept => ?_
  have hlog : d'.log = noted p.instrumentId (d.store.netQuantity account p.instrumentId)
      (d'.store.netQuantity account p.instrumentId) d.log := by rw [heq]
  by_cases hi : p.instrumentId = i
  · subst hi
    by_cases hmore : Increased (d.store.netQuantity account p.instrumentId)
        (d'.store.netQuantity account p.instrumentId)
    · exact .inl (((hgood hmore).resolve_left hmark).resolve_left hwait)
    · rw [hlog, noted, if_neg hmore]
      exact hkept.imp_left (covered_filled d.ids hfilled hmore)
  · have hnet : d'.store.netQuantity account i = d.store.netQuantity account i := by
      rw [hfilled.net, if_neg (Ne.symm hi), add_zero]
    have hexited : exited i d'.log = exited i d.log := by
      rw [hlog, noted]
      split
      · simp [exited, hi]
      · rfl
    rw [hexited]
    refine hkept.imp_left fun hcovered => hcovered.mono hnet fun side => ?_
    have := exiting_rewritten account i side d.ids hfilled.rewritten
    rw [rest_of_ne hi] at this
    omega

theorem secure_listed {working : List OrderRecord} {marks : String → Option Money}
    (hgood : d.Good account .listed d') (hpass : d.pass = .reading working marks)
    (heq : d' = { d with
      pass := .exiting working marks (d.store.openPositions account) ⟨[], [], []⟩ }) :
    d'.Secure account := by
  subst heq
  intro i
  by_cases hflat : d.store.netQuantity account i = 0
  · exact .inr (.inr (.inl (covered_of_net_eq_zero hflat)))
  obtain ⟨p, hp, rfl⟩ := exists_open hflat
  by_cases hpassed : isClosing working p ∨ marks p.instrumentId = none
  · exact (hgood working marks hpass p hp hpassed).imp_right .inr
  · obtain ⟨hopen, hmark⟩ := not_or.mp hpassed
    exact .inr (.inl ⟨p, hp, rfl, by simpa using hopen, Option.isSome_iff_ne_none.mpr hmark⟩)

theorem secure_treated {working : List OrderRecord} {marks : String → Option Money}
    {p : PositionRecord} {todo : List PositionRecord} {report : SquareOffReport} {now : Timestamp}
    {treatment : Treatment} (h : d.Secure account)
    (hpass : d.pass = .exiting working marks (p :: todo) report)
    (ht : treat reason none working marks now p = .ok treatment)
    (heq : d' = { d with
      pass := .exiting working marks todo (add report p treatment)
      log := submits treatment d.log }) : d'.Secure account := by
  subst heq
  intro i
  -- what was exited is exited
  have hmono (hexited : exited i d.log) : exited i (submits treatment d.log) := by
    cases treatment <;> simp [submits, exited, hexited]
  rcases h i with hnone | hwait | hcovered | hexited
  · exact .inl hnone
  · rw [Awaited, hpass] at hwait
    obtain ⟨q, hq, hqi, hopen, hmark⟩ := hwait
    rcases List.mem_cons.mp hq with rfl | hq
    · obtain ⟨signal, rfl, hinstrument, hkind⟩ := treat_submitted ht hopen (hqi ▸ hmark)
      exact .inr (.inr (.inr (by simp [submits, exited, hinstrument, hqi, hkind])))
    · exact .inr (.inl ⟨q, hq, hqi, hopen, hmark⟩)
  · exact .inr (.inr (.inl hcovered))
  · exact .inr (.inr (.inr (hmono hexited)))

/-- **A good step keeps the session secure.** -/
theorem secure_step (h : d.Secure account) (hs : Step account reason none d a d')
    (hgood : d.Good account a d') : d'.Secure account := by
  cases hs with
  | placed hadded hpositions heq => exact secure_added h hadded hpositions heq
  | changed hrewritten hunfilled hpositions heq =>
      exact secure_changed h hgood hrewritten hunfilled hpositions heq
  | replaced hrewritten _ hworking hover hadded hinstrument hside hkind howner hquantity hnew hstate
      hpositions heq =>
      exact secure_replaced h hrewritten hworking hover hadded hinstrument hside hkind howner
        hquantity hnew hstate hpositions heq
  | filled hfilled heq => exact secure_filled h hgood hfilled heq
  | signalled =>
      refine h.books rfl rfl fun i _ _ hkept => hkept.imp_right fun hexited => ?_
      simp [exited, hexited]
  | marked =>
      intro i
      rcases h i with hnone | hsafe
      · rename_i marks
        by_cases hmark : marks i = none
        · exact .inl hmark
        · exact .inr (hgood i hnone (Option.isSome_iff_ne_none.mpr hmark))
      · exact .inr hsafe
  | read _ => exact fun i => .inr (.inl trivial)
  | listed hpass => exact secure_listed hgood hpass rfl
  | treated hpass ht => exact secure_treated h hpass ht rfl
  | finished hpass =>
      intro i
      have hwait : ¬ d.Awaited i := by simp [Awaited, hpass]
      exact (h i).imp_right fun hsafe => .inr (hsafe.resolve_left hwait)
  | failed => exact fun i => .inr (.inl trivial)

end Steps

/-! ## Runs -/

/-- What a session comes to. -/
def Run (account reason : String) : Squaring → Squaring → Prop :=
  Relation.ReflTransGen fun d d' => ∃ a, Step account reason none d a d'

/-- What it comes to by good steps. -/
def GoodRun (account reason : String) : Squaring → Squaring → Prop :=
  Relation.ReflTransGen fun d d' => ∃ a, Step account reason none d a d' ∧ d.Good account a d'

theorem GoodRun.secure {account reason : String} {d d' : Squaring} (hr : GoodRun account reason d d')
    (h : d.Secure account) : d'.Secure account := by
  induction hr with
  | refl => exact h
  | tail _ hs ih =>
      obtain ⟨a, hs, hgood⟩ := hs
      exact secure_step ih hs hgood

/-- **And only then**: a fill that increases a position behind the pass,
beyond what its exits are for, leaves it without. -/
theorem not_exited_of_not_good {account reason : String} {d d' : Squaring} {p : OrderRecord} {n : ℕ}
    (hs : Step account reason none d (.filled p n) d') (hbad : ¬ d.Good account (.filled p n) d') :
    ¬ Covered account d'.store p.instrumentId ∧ exited p.instrumentId d'.log = false := by
  cases hs with
  | filled hfilled heq =>
      rw [Good, Classical.not_imp, not_or, not_or] at hbad
      obtain ⟨hmore, -, -, huncovered⟩ := hbad
      have hlog := congrArg (·.log) heq
      simp only at hlog
      rw [noted, if_pos hmore] at hlog
      exact ⟨huncovered, by rw [hlog]; simp [exited]⟩

/-! ## An entry that rests -/

namespace Resting

open Sample

/-- Ten of `I` are bought, and five of them filled. -/
def entry : OrderRecord :=
  { ExecutionEngine.newOrder settings.engine (approval "S" .buy 10 ten_pos) none none "E" ⟨100⟩ none 0
    with state := .partiallyFilled, filledQuantity := 5 }

/-- The order that exits five. -/
def exit : OrderRecord :=
  { entry with
    id := "X", signalKind := some "EXIT", side := .sell, quantity := 5, state := .open
    filledQuantity := 0 }

/-- The books with so much held. -/
def books (orders : List OrderRecord) (net : ℤ) : Store :=
  ⟨orders, [], [], [⟨"A:I", "A", "I", net, ⟨100⟩, Money.zero, 0, none, none⟩]⟩

/-- Every instrument is marked at 100. -/
def squaring (orders : List OrderRecord) (net : ℤ) (hids : (orders.map (·.id)).Nodup) (pass : Pass)
    (log : List Note) : Squaring :=
  ⟨books orders net, hids, fun _ => some ⟨100⟩, pass, log⟩

theorem entry_nodup : ([entry].map (·.id)).Nodup := by decide

theorem exit_nodup : ([entry, exit].map (·.id)).Nodup := by decide

def filledEntry : OrderRecord := { entry with state := .filled, filledQuantity := 10 }

theorem filled_nodup : ([filledEntry, exit].map (·.id)).Nodup := by decide

def start : Squaring := squaring [entry] 5 entry_nodup .start []

/-- The pass exits the five, and the exit rests. -/
def passed (signal : Signal) : Squaring :=
  squaring [entry, exit] 5 exit_nodup (.over ⟨["I"], [], []⟩) [.submitted signal]

/-- The entry fills up. -/
def filled (signal : Signal) : Squaring :=
  squaring [filledEntry, exit] 10 filled_nodup (.over ⟨["I"], [], []⟩)
    [.increased "I", .submitted signal]

theorem net_books (orders : List OrderRecord) (net : ℤ) (i : String) :
    (books orders net).netQuantity "A" i = if i = "I" then net else 0 := by
  by_cases hi : i = "I"
  · simp [Store.netQuantity, Store.position, books, hi]
  · have hne : ¬ "I" = i := fun h => hi h.symm
    simp [Store.netQuantity, Store.position, books, hi, hne]

/-- What the books hold, as a position. -/
def held : PositionRecord := ⟨"A:I", "A", "I", 5, ⟨100⟩, Money.zero, 0, none, none⟩

theorem openPositions_start : start.store.openPositions "A" = [held] := by decide

theorem active_start : start.store.active "A" = [entry] := by decide

/-- The five are exited at their mark. -/
theorem exists_treat : ∃ signal : Signal, signal.instrumentId = "I" ∧ signal.kind = .exit ∧
    treat "square-off" none [entry] (fun _ => some ⟨100⟩) 0 held = .ok (.submitted signal) := by
  have hnamed : "session-square-off" ≠ "" ∧ "I" ≠ "" := by decide
  have hreason : Text.isMeaningful "square-off" := by decide
  have hlimit : Money.zero < ⟨100⟩ := by simp [Money.lt_iff, Money.zero]
  have hfive : 0 < 5 := by decide
  obtain ⟨signal, hsignal⟩ : ∃ signal, Signal.make "session-square-off" "I" .exit .sell .limit 5
      ⟨100⟩ 0 "square-off" none none = .ok signal :=
    Signal.exists_make hnamed hreason hfive hlimit trivial trivial
  obtain ⟨-, hinstrument, hkind, -⟩ := Signal.make_eq_ok hsignal
  refine ⟨signal, hinstrument, hkind, ?_⟩
  have hclosing : isClosing [entry] held = false := by decide
  rw [treat, if_neg (by simp), if_neg (by simp [hclosing])]
  change (Signal.make "session-square-off" "I" .exit .sell .limit 5 ⟨100⟩ 0 "square-off" none none >>=
    fun signal => pure (Treatment.submitted signal)) = _
  rw [hsignal]
  rfl

theorem passed_goodRun : ∃ signal : Signal, signal.instrumentId = "I" ∧ signal.kind = .exit ∧
    GoodRun "A" "square-off" start (passed signal) := by
  obtain ⟨signal, hinstrument, hkind, htreat⟩ := exists_treat
  refine ⟨signal, hinstrument, hkind, ?_⟩
  let reading : Squaring := { start with pass := .reading [entry] fun _ => some ⟨100⟩ }
  let exiting : Squaring := { start with
    pass := .exiting [entry] (fun _ => some ⟨100⟩) [held] ⟨[], [], []⟩ }
  let submitted : Squaring := { start with
    pass := .exiting [entry] (fun _ => some ⟨100⟩) [] ⟨["I"], [], []⟩
    log := [.submitted signal] }
  let ended : Squaring := { start with
    pass := .over ⟨["I"], [], []⟩
    log := [.submitted signal] }
  have hread : Step "A" "square-off" none start .read
      { start with pass := .reading (start.store.active "A") start.marks } := .read rfl
  rw [active_start] at hread
  have hlisted : Step "A" "square-off" none reading .listed { reading with
      pass := .exiting [entry] (fun _ => some ⟨100⟩) (reading.store.openPositions "A")
        ⟨[], [], []⟩ } := .listed rfl
  rw [show reading.store.openPositions "A" = [held] from openPositions_start] at hlisted
  have hgood : reading.Good "A" .listed exiting := by
    intro working marks hpass p hp hpassed
    obtain ⟨rfl, rfl⟩ := Pass.reading.inj hpass
    have hp : p ∈ [held] := openPositions_start ▸ hp
    obtain rfl := List.mem_singleton.mp hp
    have hclosing : isClosing [entry] held = false := by decide
    simp [hclosing] at hpassed
  have htreated : Step "A" "square-off" none exiting (.treated held (.submitted signal)) submitted := by
    have hpass : exiting.pass = .exiting [entry] (fun _ => some ⟨100⟩) [held] ⟨[], [], []⟩ := rfl
    exact .treated hpass htreat
  have hplaced : Step "A" "square-off" none ended (.placed exit) (passed signal) := by
    have hfresh : ∀ x ∈ [entry], x.id ≠ exit.id := by decide
    exact .placed ⟨hfresh, rfl⟩ rfl rfl
  exact ((((Relation.ReflTransGen.refl.tail ⟨_, hread, trivial⟩).tail ⟨_, hlisted, hgood⟩).tail
    ⟨_, htreated, trivial⟩).tail ⟨_, .finished rfl, trivial⟩).tail ⟨_, hplaced, trivial⟩

end Resting

open Resting

end Squaring

end Emporos
