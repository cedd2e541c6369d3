import Emporos.Core.Text
import Emporos.Paper.Books
/-!
# What a journal says

A ledger is what the entries of a paper session add up to: the orders in
the order they were placed, each with the number of its last event and of
its trades, and the fills with their charges in the order they were booked.
An entry has its place in a ledger, and what a run of the broker journals
always has.
-/

namespace Emporos

/-- An order, as far as a journal says. -/
structure LedgerLine where
  order : PaperOrder
  seq : ℕ
  trades : ℕ
  /-- The moment of its first event. -/
  created : Timestamp

structure Ledger where
  lines : List LedgerLine
  fills : List (BrokerTrade × Money)

/-- The account and the date a session is of, with the ids its orders may
have and the tags they may carry. -/
structure PaperScope where
  client : String
  date : ℤ
  ids : List String
  tags : List String

namespace LedgerLine

def id (line : LedgerLine) : String := line.order.brokerOrderId

/-- What is put back on the exchange for it. -/
def restored (line : LedgerLine) : RestoredOrder := ⟨line.order, line.seq, line.trades⟩

end LedgerLine

/-- An order as the exchange makes them. -/
structure PaperOrder.Complete (order : PaperOrder) : Prop where
  named : order.brokerOrderId ≠ ""
  tagged : order.clientTag.isSome
  typed : order.orderType.isSome
  priced : order.price.isSome

namespace Ledger

def empty : Ledger := ⟨[], []⟩

variable (l : Ledger)

/-- The line of an order after an event with so many trades. -/
def lineAfter (order : PaperOrder) (seq trades : ℕ) (moment : Timestamp) : LedgerLine :=
  match Table.lookup LedgerLine.id order.brokerOrderId l.lines with
  | some line => { line with order, seq, trades := line.trades + trades }
  | none => ⟨order, seq, trades, moment⟩

def put (order : PaperOrder) (seq trades : ℕ) (moment : Timestamp) : Ledger :=
  { l with lines := Table.upsert LedgerLine.id (l.lineAfter order seq trades moment) l.lines }

/-- The ledger once an entry is in it. A snapshot says nothing of its own. -/
def enter : JournalEntry → Ledger
  | .orderState e => l.put e.order e.seq 0 e.moment
  | .fill e => { l.put e.order e.seq 1 e.moment with fills := l.fills ++ [(e.trade, e.fees)] }
  | .snapshot _ => l

/-- The number of an order's last event, zero without any. -/
def seqOf (id : String) : ℕ := ((Table.lookup LedgerLine.id id l.lines).map (·.seq)).getD 0

/-! ## An entry's place -/

variable (scope : PaperScope)

/-- An order nothing has been said of, at its first event. -/
structure Opens (order : PaperOrder) (seq : ℕ) : Prop where
  id_mem : order.brokerOrderId ∈ scope.ids
  tag_mem : ∃ tag ∈ scope.tags, order.clientTag = some tag
  new_id : ∀ line ∈ l.lines, line.id ≠ order.brokerOrderId
  new_tag : ∀ line ∈ l.lines, line.order.clientTag ≠ order.clientTag
  seq_eq : seq = 1

/-- The next event of a line. -/
structure Continues (order : PaperOrder) (seq : ℕ) (line : LedgerLine) : Prop where
  mem : line ∈ l.lines
  id_eq : order.brokerOrderId = line.id
  tag_eq : order.clientTag = line.order.clientTag
  seq_eq : seq = line.seq + 1

/-- A trade of a line, under the next number of its series. -/
structure Trades (e : FillRecorded) (line : LedgerLine) : Prop where
  tradeId : e.trade.tradeId = s!"{line.id}-{line.trades + 1}"
  order_eq : e.trade.brokerOrderId = line.id
  executed : e.trade.executedAt = some e.moment
  number : e.number = l.fills.length + 1

/-- The next event of an order, its first one or a line's. -/
def Next (order : PaperOrder) (seq : ℕ) : Prop :=
  l.Opens scope order seq ∨ ∃ line, l.Continues order seq line

/-- An entry that may come next. -/
def Admits : JournalEntry → Prop
  | .orderState e => e.accountId = scope.client ∧ e.sessionDate = scope.date ∧ e.order.Complete ∧
      l.Next scope e.order e.seq
  | .fill e => e.accountId = scope.client ∧ e.sessionDate = scope.date ∧ e.order.Complete ∧
      ∃ line, l.Continues e.order e.seq line ∧ l.Trades e line
  | .snapshot _ => True

/-- Entries that each have their place, and the ledger they lead to. -/
inductive Chronicle (scope : PaperScope) : Ledger → List JournalEntry → Ledger → Prop
  | nil {l : Ledger} : Chronicle scope l [] l
  | cons {l l' : Ledger} {e : JournalEntry} {rest : List JournalEntry} :
      l.Admits scope e → Chronicle scope (l.enter e) rest l' → Chronicle scope l (e :: rest) l'

variable {l scope} {l' l'' : Ledger} {e : JournalEntry} {entries entries' : List JournalEntry}
  {order : PaperOrder} {line : LedgerLine} {seq trades : ℕ} {moment : Timestamp}

theorem Chronicle.append (h : Chronicle scope l entries l') (h' : Chronicle scope l' entries' l'') :
    Chronicle scope l (entries ++ entries') l'' := by
  induction h with
  | nil => exact h'
  | cons hadmits _ ih => exact .cons hadmits (ih h')

theorem Chronicle.single (h : l.Admits scope e) : Chronicle scope l [e] (l.enter e) := .cons h .nil

/-! ## Sound ledgers -/

/-- The trades of an order among the fills. -/
def dealt (l : Ledger) (id : String) : ℕ := (l.fills.filter fun f => f.1.brokerOrderId = id).length

/-- What holds of every ledger a chronicle leads to. -/
structure Sound (scope : PaperScope) (l : Ledger) : Prop where
  ids_nodup : (l.lines.map LedgerLine.id).Nodup
  tags_nodup : (l.lines.map fun line => line.order.clientTag).Nodup
  complete : ∀ line ∈ l.lines, line.order.Complete
  id_mem : ∀ line ∈ l.lines, line.id ∈ scope.ids
  tag_mem : ∀ line ∈ l.lines, ∃ tag ∈ scope.tags, line.order.clientTag = some tag
  numbered : ∀ line ∈ l.lines, line.trades = l.dealt line.id
  named : ∀ f ∈ l.fills, ∃ line ∈ l.lines, f.1.brokerOrderId = line.id ∧
    ∃ k ≤ line.trades, f.1.tradeId = s!"{line.id}-{k}"
  executed : ∀ f ∈ l.fills, f.1.executedAt.isSome

theorem sound_empty : Sound scope empty := by
  refine ⟨List.nodup_nil, List.nodup_nil, ?_, ?_, ?_, ?_, ?_, ?_⟩ <;> exact fun _ h => by cases h

theorem Sound.lookup_id (h : l.Sound scope) (hline : line ∈ l.lines) :
    Table.lookup LedgerLine.id line.id l.lines = some line :=
  Table.lookup_of_mem h.ids_nodup hline

theorem Opens.lookup_eq_none (h : l.Opens scope order seq) :
    Table.lookup LedgerLine.id order.brokerOrderId l.lines = none :=
  Table.lookup_eq_none.mpr h.new_id

/-- An order that opens goes behind the others. -/
theorem Opens.put_lines (h : l.Opens scope order seq) (trades : ℕ) (moment : Timestamp) :
    (l.put order seq trades moment).lines = l.lines ++ [⟨order, seq, trades, moment⟩] := by
  have hline : l.lineAfter order seq trades moment = ⟨order, seq, trades, moment⟩ := by
    simp only [lineAfter, h.lookup_eq_none]
  unfold put
  rw [hline]
  exact Table.upsert_of_ne h.new_id

theorem Continues.lineAfter_eq (h : l.Continues order seq line) (hs : l.Sound scope) :
    l.lineAfter order seq trades moment = { line with order, seq, trades := line.trades + trades } := by
  simp only [lineAfter, h.id_eq, hs.lookup_id h.mem]

/-- One that continues keeps its place. -/
theorem Continues.put_lines (h : l.Continues order seq line) (hs : l.Sound scope) (trades : ℕ)
    (moment : Timestamp) {ahead behind : List LedgerLine} (hsplit : l.lines = ahead ++ line :: behind) :
    (l.put order seq trades moment).lines =
      ahead ++ { line with order, seq, trades := line.trades + trades } :: behind := by
  unfold put
  rw [h.lineAfter_eq hs, hsplit]
  exact Table.upsert_middle (hsplit ▸ hs.ids_nodup) h.id_eq.symm

/-! ## Numbers -/

theorem lineAfter_order : (l.lineAfter order seq trades moment).order = order := by
  unfold lineAfter
  split <;> rfl

theorem lineAfter_id : (l.lineAfter order seq trades moment).id = order.brokerOrderId := by
  rw [LedgerLine.id, lineAfter_order]

theorem lineAfter_seq : (l.lineAfter order seq trades moment).seq = seq := by
  unfold lineAfter
  split <;> rfl

/-- An event moves the number of its own order. -/
theorem seqOf_put {id : String} : (l.put order seq trades moment).seqOf id =
    if id = order.brokerOrderId then seq else l.seqOf id := by
  unfold seqOf put
  rw [Table.lookup_upsert, lineAfter_id]
  split
  · rw [Option.map_some, Option.getD_some, lineAfter_seq]
  · rfl

theorem Next.id_mem (h : l.Next scope order seq) (hs : l.Sound scope) :
    order.brokerOrderId ∈ scope.ids := by
  rcases h with hopens | ⟨line, hcontinues⟩
  · exact hopens.id_mem
  · exact hcontinues.id_eq ▸ hs.id_mem line hcontinues.mem

/-- By one. -/
theorem Next.seq_eq (h : l.Next scope order seq) (hs : l.Sound scope) :
    seq = l.seqOf order.brokerOrderId + 1 := by
  rcases h with hopens | ⟨line, hcontinues⟩
  · rw [seqOf, hopens.lookup_eq_none, hopens.seq_eq]
    rfl
  · rw [seqOf, hcontinues.id_eq, hs.lookup_id hcontinues.mem, hcontinues.seq_eq]
    rfl

/-! ## What an entry keeps -/

theorem Opens.undealt (h : l.Opens scope order seq) (hs : l.Sound scope) :
    l.dealt order.brokerOrderId = 0 := by
  rw [dealt, List.length_eq_zero_iff, List.filter_eq_nil_iff]
  intro f hf hid
  obtain ⟨line, hline, hline', -⟩ := hs.named f hf
  exact h.new_id line hline (hline'.symm.trans (by simpa using hid))

theorem Opens.sound (h : l.Opens scope order seq) (hs : l.Sound scope) (hcomplete : order.Complete) :
    (l.put order seq 0 moment).Sound scope := by
  have hlines := h.put_lines 0 moment
  have hmem {x : LedgerLine} (hx : x ∈ (l.put order seq 0 moment).lines) :
      x ∈ l.lines ∨ x = ⟨order, seq, 0, moment⟩ := by
    simpa [hlines] using hx
  refine ⟨?_, ?_, ?_, ?_, ?_, ?_, ?_, hs.executed⟩
  · rw [hlines, List.map_append, List.nodup_append]
    refine ⟨hs.ids_nodup, by simp, ?_⟩
    rintro a ha b hb rfl
    obtain ⟨x, hx, rfl⟩ := List.mem_map.mp ha
    exact h.new_id x hx (List.mem_singleton.mp hb)
  · rw [hlines, List.map_append, List.nodup_append]
    refine ⟨hs.tags_nodup, by simp, ?_⟩
    rintro a ha b hb rfl
    obtain ⟨x, hx, hxa⟩ := List.mem_map.mp ha
    exact h.new_tag x hx (hxa.trans (List.mem_singleton.mp hb))
  · intro x hx
    rcases hmem hx with hx | rfl
    · exact hs.complete x hx
    · exact hcomplete
  · intro x hx
    rcases hmem hx with hx | rfl
    · exact hs.id_mem x hx
    · exact h.id_mem
  · intro x hx
    rcases hmem hx with hx | rfl
    · exact hs.tag_mem x hx
    · exact h.tag_mem
  · intro x hx
    rcases hmem hx with hx | rfl
    · exact hs.numbered x hx
    · exact (h.undealt hs).symm
  · intro f hf
    obtain ⟨line, hline, hrest⟩ := hs.named f hf
    exact ⟨line, by rw [hlines]; exact List.mem_append_left _ hline, hrest⟩

/-- The lines once one has continued: the others, and the one. -/
theorem Continues.mem_put (h : l.Continues order seq line) (hs : l.Sound scope) {x : LedgerLine}
    (hx : x ∈ (l.put order seq trades moment).lines) :
    (x ∈ l.lines ∧ x.id ≠ line.id) ∨ x = { line with order, seq, trades := line.trades + trades } := by
  have hput : (l.put order seq trades moment).lines = Table.upsert LedgerLine.id
      { line with order, seq, trades := line.trades + trades } l.lines := by
    rw [put, h.lineAfter_eq hs]
  rw [hput] at hx
  rcases Table.mem_upsert.mp hx with rfl | ⟨hx, hne⟩
  · exact .inr rfl
  · exact .inl ⟨hx, fun heq => hne (heq.trans h.id_eq.symm)⟩

/-- A line goes on: what does not concern the fills stays sound. -/
theorem Continues.keys (h : l.Continues order seq line) (hs : l.Sound scope) (trades : ℕ)
    (moment : Timestamp) :
    ((l.put order seq trades moment).lines.map LedgerLine.id = l.lines.map LedgerLine.id) ∧
      ((l.put order seq trades moment).lines.map fun x => x.order.clientTag) =
        l.lines.map fun x => x.order.clientTag := by
  obtain ⟨ahead, behind, hold⟩ := List.append_of_mem h.mem
  have hnew := h.put_lines hs trades moment hold
  have hid : LedgerLine.id { line with order, seq, trades := line.trades + trades } = line.id := h.id_eq
  rw [hold, hnew]
  simp only [List.map_append, List.map_cons, hid, h.tag_eq, and_self]

/-- A line that continues with the fills its trades make leaves a sound
ledger. -/
theorem Continues.sound (h : l.Continues order seq line) (hs : l.Sound scope)
    (hcomplete : order.Complete) (moment : Timestamp) (new : List (BrokerTrade × Money))
    (howned : ∀ f ∈ new, f.1.brokerOrderId = line.id) (hexecuted : ∀ f ∈ new, f.1.executedAt.isSome)
    (hnamed : ∀ f ∈ new, ∃ k ≤ line.trades + new.length, f.1.tradeId = s!"{line.id}-{k}") :
    Sound scope { l.put order seq new.length moment with fills := l.fills ++ new } := by
  obtain ⟨hids, htags⟩ := h.keys hs new.length moment
  have hself : { line with order, seq, trades := line.trades + new.length } ∈
      (l.put order seq new.length moment).lines := by
    obtain ⟨ahead, behind, hold⟩ := List.append_of_mem h.mem
    rw [h.put_lines hs new.length moment hold]
    exact List.mem_append_right _ (List.mem_cons_self ..)
  have hdealt (id : String) : dealt { l.put order seq new.length moment with fills := l.fills ++ new } id =
      l.dealt id + (new.filter fun f => f.1.brokerOrderId = id).length := by
    simp [dealt]
  refine ⟨hids ▸ hs.ids_nodup, htags ▸ hs.tags_nodup, ?_, ?_, ?_, ?_, ?_, ?_⟩
  · intro x hx
    rcases h.mem_put hs hx with ⟨hx, -⟩ | rfl
    · exact hs.complete x hx
    · exact hcomplete
  · intro x hx
    rcases h.mem_put hs hx with ⟨hx, -⟩ | rfl
    · exact hs.id_mem x hx
    · change order.brokerOrderId ∈ scope.ids
      exact h.id_eq ▸ hs.id_mem line h.mem
  · intro x hx
    rcases h.mem_put hs hx with ⟨hx, -⟩ | rfl
    · exact hs.tag_mem x hx
    · change ∃ tag ∈ scope.tags, order.clientTag = some tag
      exact h.tag_eq ▸ hs.tag_mem line h.mem
  · intro x hx
    rw [hdealt]
    rcases h.mem_put hs hx with ⟨hx, hne⟩ | rfl
    · have hnone : new.filter (fun f => f.1.brokerOrderId = x.id) = [] :=
        List.filter_eq_nil_iff.mpr fun f hf => by simpa [howned f hf] using hne.symm
      rw [hnone, List.length_nil, Nat.add_zero]
      exact hs.numbered x hx
    · have hall : new.filter (fun f => f.1.brokerOrderId = line.id) = new :=
        List.filter_eq_self.mpr fun f hf => by simpa using howned f hf
      change line.trades + new.length = l.dealt order.brokerOrderId +
        (new.filter fun f => f.1.brokerOrderId = order.brokerOrderId).length
      rw [h.id_eq, hall, hs.numbered line h.mem]
  · intro f hf
    rcases List.mem_append.mp hf with hf | hf
    · -- the line of an old fill may be the one that continues
      obtain ⟨x, hx, hid, k, hk, hname⟩ := hs.named f hf
      by_cases hsame : x.id = line.id
      · obtain rfl : x = line := Table.eq_of_key hs.ids_nodup hx h.mem hsame
        refine ⟨_, hself, hid.trans h.id_eq.symm, k, by simp only; omega, ?_⟩
        rw [hname]
        exact congrArg (fun i => s!"{i}-{k}") h.id_eq.symm
      · refine ⟨x, ?_, hid, k, hk, hname⟩
        rw [put, h.lineAfter_eq hs]
        exact Table.mem_upsert.mpr (.inr ⟨hx, fun heq => hsame (heq.trans h.id_eq)⟩)
    · obtain ⟨k, hk, hname⟩ := hnamed f hf
      refine ⟨_, hself, (howned f hf).trans h.id_eq.symm, k, hk, ?_⟩
      rw [hname]
      exact congrArg (fun i => s!"{i}-{k}") h.id_eq.symm
  · intro f hf
    rcases List.mem_append.mp hf with hf | hf
    · exact hs.executed f hf
    · exact hexecuted f hf

/-- **An entry in its place** leaves a sound ledger. -/
theorem Sound.enter (hs : l.Sound scope) (h : l.Admits scope e) : (l.enter e).Sound scope := by
  cases e with
  | snapshot => exact hs
  | orderState e =>
      obtain ⟨-, -, hcomplete, hopens | ⟨line, hcontinues⟩⟩ := h
      · exact hopens.sound hs hcomplete
      · have hnext := hcontinues.sound hs hcomplete e.moment [] (by simp) (by simp) (by simp)
        rwa [List.append_nil] at hnext
  | fill e =>
      obtain ⟨-, -, hcomplete, line, hcontinues, htrades⟩ := h
      refine hcontinues.sound hs hcomplete e.moment [(e.trade, e.fees)] ?_ ?_ ?_
      · simpa using htrades.order_eq
      · simp [htrades.executed]
      · simpa using ⟨line.trades + 1, le_rfl, htrades.tradeId⟩

theorem Chronicle.sound (h : Chronicle scope l entries l') (hs : l.Sound scope) : l'.Sound scope := by
  induction h with
  | nil => exact hs
  | cons hadmits _ ih => exact ih (hs.enter hadmits)

/-- A trade's id is new to the ledger. -/
theorem Trades.fresh {e : FillRecorded} (h : l.Trades e line) (hs : l.Sound scope)
    (hline : line ∈ l.lines) : ∀ f ∈ l.fills, f.1.tradeId ≠ e.trade.tradeId := by
  intro f hf hsame
  obtain ⟨x, hx, -, k, hk, hname⟩ := hs.named f hf
  rw [hname, h.tradeId] at hsame
  obtain ⟨hid, hk'⟩ := Text.numbered_inj hsame
  obtain rfl : x = line := Table.eq_of_key hs.ids_nodup hx hline hid
  omega

end Ledger

end Emporos
