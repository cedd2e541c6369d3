import Emporos.Paper.Ledger
/-!
# What a flush leaves

The books of a session are the ledger of what was flushed, row by row: the
rows of its orders in the order they were placed, one execution a fill, and
for each order the number of its last event. An entry is two operations, and
an attempt that stops between them, or behind them, is made good by the next
one: what is written already is written again to the same effect.
-/

namespace Emporos

namespace LedgerLine

/-- The row of an order. -/
def row (scope : PaperScope) (line : LedgerLine) : PaperOrderRecord where
  id := line.id
  idempotencyKey := s!"paper-{line.id}"
  ordertag := line.order.clientTag.getD ""
  instrumentId := line.order.instrumentId
  side := line.order.side
  orderType := line.order.orderType.getD .limit
  quantity := line.order.quantity
  limitPrice := line.order.price.getD Money.zero
  triggerPrice := line.order.triggerPrice
  state := line.order.status.value
  sessionDate := scope.date
  brokerOrderId := some line.id
  filledQuantity := line.order.filledQuantity
  createdAt := line.created.millis
  updatedAt := line.order.updatedAt.millis
  accountId := some scope.client
  averagePrice := line.order.averagePrice
  statusMessage := line.order.statusMessage

end LedgerLine

/-- The execution of a fill, under its number. -/
def PaperScope.execution (scope : PaperScope) (number : ℕ) (f : BrokerTrade × Money) :
    ExecutionRecord where
  id := s!"exec-{f.1.tradeId}"
  brokerTradeId := f.1.tradeId
  orderId := f.1.brokerOrderId
  instrumentId := f.1.instrumentId
  side := f.1.side
  quantity := f.1.quantity
  price := f.1.price
  ts := (f.1.executedAt.getD 0).millis
  accountId := some scope.client
  sessionDate := some scope.date
  fees := some f.2
  sessionTradeNo := some number

/-- The executions of fills that have so many ahead of them. -/
def PaperScope.executions (scope : PaperScope) : ℕ → List (BrokerTrade × Money) → List ExecutionRecord
  | _, [] => []
  | n, f :: rest => scope.execution (n + 1) f :: scope.executions (n + 1) rest

theorem PaperScope.executions_append {scope : PaperScope} {n : ℕ}
    {fills fills' : List (BrokerTrade × Money)} : scope.executions n (fills ++ fills') =
      scope.executions n fills ++ scope.executions (n + fills.length) fills' := by
  induction fills generalizing n with
  | nil => rfl
  | cons f rest ih =>
      have hlength : n + (f :: rest).length = n + 1 + rest.length := by
        rw [List.length_cons]
        omega
      rw [List.cons_append, executions, ih, hlength]
      rfl

theorem PaperScope.exists_of_mem_executions {scope : PaperScope} {n : ℕ}
    {fills : List (BrokerTrade × Money)} {x : ExecutionRecord} (h : x ∈ scope.executions n fills) :
    ∃ f ∈ fills, ∃ number, n < number ∧ x = scope.execution number f := by
  induction fills generalizing n with
  | nil => cases h
  | cons f rest ih =>
      rcases List.mem_cons.mp h with rfl | h
      · exact ⟨f, List.mem_cons_self .., n + 1, by omega, rfl⟩
      · obtain ⟨g, hg, number, hlt, rfl⟩ := ih h
        exact ⟨g, List.mem_cons_of_mem _ hg, number, by omega, rfl⟩

/-- Rows the session has nothing to do with. -/
structure PaperBooks.Clear (scope : PaperScope) (b : PaperBooks) : Prop where
  orders : ∀ r ∈ b.orders, r.id ∉ scope.ids ∧ r.ordertag ∉ scope.tags ∧
    ¬ (r.accountId = some scope.client ∧ r.sessionDate = scope.date)
  events : ∀ e ∈ b.events, e.orderId ∉ scope.ids
  executions : ∀ x ∈ b.executions, (∀ id ∈ scope.ids, ∀ k : ℕ, x.brokerTradeId ≠ s!"{id}-{k}") ∧
    ¬ (x.accountId = some scope.client ∧ x.sessionDate = some scope.date)

theorem PaperBooks.Clear.id_ne {scope : PaperScope} {b : PaperBooks} (h : b.Clear scope) {id : String}
    (hid : id ∈ scope.ids) : ∀ r ∈ b.orders, r.id ≠ id :=
  fun r hr heq => (h.orders r hr).1 (heq ▸ hid)

theorem PaperBooks.Clear.tag_ne {scope : PaperScope} {b : PaperBooks} (h : b.Clear scope) {tag : String}
    (htag : tag ∈ scope.tags) : ∀ r ∈ b.orders, r.ordertag ≠ tag :=
  fun r hr heq => (h.orders r hr).2.1 (heq ▸ htag)

theorem PaperBooks.clear_empty {scope : PaperScope} : PaperBooks.empty.Clear scope := by
  refine ⟨?_, ?_, ?_⟩ <;> exact fun _ h => by cases h

namespace PaperJournal

/-- The orders and fills of a ledger are in the books, behind what they had. -/
structure Shelved (b₀ : PaperBooks) (scope : PaperScope) (l : Ledger) (b : PaperBooks) : Prop where
  orders : b.orders = b₀.orders ++ l.lines.map (LedgerLine.row scope)
  executions : b.executions = b₀.executions ++ scope.executions 0 l.fills

/-- And the events, up to the last one of each order. -/
def Numbered (scope : PaperScope) (l : Ledger) (b : PaperBooks) : Prop :=
  ∀ id ∈ scope.ids, b.lastSeq id = l.seqOf id

variable {b₀ b b' : PaperBooks} {scope : PaperScope} {l : Ledger} {line : LedgerLine}
  {order : PaperOrder} {moment : Timestamp} {seq trades : ℕ} {tag : String}

/-! ## Rows -/

variable (scope) in
/-- `_order_record` makes the row of the line an event leads to, from no row
or from that of the line before. -/
theorem orderRecord_eq (hcomplete : order.Complete) (horder : line.order = order)
    {existing : Option PaperOrderRecord}
    (hexisting : (existing = none ∧ moment = line.created) ∨
      ∃ r, existing = some r ∧ r.id = line.id ∧ r.idempotencyKey = s!"paper-{line.id}" ∧
        r.createdAt.millis = line.created.millis) :
    ∃ record, orderRecord scope.client scope.date order moment existing = .ok record ∧
      record.stored = line.row scope ∧ record.id = line.id := by
  obtain ⟨tag, htag⟩ := Option.isSome_iff_exists.mp hcomplete.tagged
  obtain ⟨orderType, htype⟩ := Option.isSome_iff_exists.mp hcomplete.typed
  obtain ⟨price, hprice⟩ := Option.isSome_iff_exists.mp hcomplete.priced
  subst horder
  unfold orderRecord tagOf
  rw [htype, hprice, htag]
  refine ⟨_, rfl, ?_, ?_⟩
  · rcases hexisting with ⟨rfl, rfl⟩ | ⟨r, rfl, hid, hkey, hcreated⟩
    · simp [PaperOrderRecord.stored, LedgerLine.row, LedgerLine.id, htag, htype, hprice]
    · simp [PaperOrderRecord.stored, LedgerLine.row, hid, hkey, hcreated, htag, htype, hprice]
      rfl
  · rcases hexisting with ⟨rfl, rfl⟩ | ⟨r, rfl, hid, -, -⟩
    · rfl
    · exact hid

theorem row_tag (hcomplete : line.order.Complete) :
    line.order.clientTag = some (line.row scope).ordertag := by
  obtain ⟨tag, htag⟩ := Option.isSome_iff_exists.mp hcomplete.tagged
  simp [LedgerLine.row, htag]

/-- Rows are found by their tag. -/
theorem byOrdertag_of_mem (hshelved : Shelved b₀ scope l b) (hclear : b₀.Clear scope)
    (hs : l.Sound scope) (hline : line ∈ l.lines) (htag : line.order.clientTag = some tag) :
    b.byOrdertag tag = some (line.row scope) := by
  obtain ⟨tag', hmem, htag'⟩ := hs.tag_mem line hline
  obtain rfl : tag' = tag := Option.some.inj (htag'.symm.trans htag)
  have hrow : (line.row scope).ordertag = tag' :=
    Option.some.inj ((row_tag (hs.complete line hline)).symm.trans htag)
  have hnd : (l.lines.map fun x => (x.row scope).ordertag).Nodup := by
    refine List.Nodup.of_map some ?_
    rw [List.map_map]
    refine (List.map_congr_left fun x hx => ?_) ▸ hs.tags_nodup
    exact row_tag (hs.complete x hx)
  unfold PaperBooks.byOrdertag
  rw [hshelved.orders, Table.lookup_append_of_ne (hclear.tag_ne hmem), Table.lookup_map, ← hrow,
    Table.lookup_of_mem hnd hline]
  rfl

theorem byOrdertag_of_new (hshelved : Shelved b₀ scope l b) (hclear : b₀.Clear scope)
    (hs : l.Sound scope) (hmem : tag ∈ scope.tags)
    (hnew : ∀ line ∈ l.lines, line.order.clientTag ≠ some tag) : b.byOrdertag tag = none := by
  unfold PaperBooks.byOrdertag
  rw [hshelved.orders, Table.lookup_append_of_ne (hclear.tag_ne hmem), Table.lookup_eq_none]
  intro r hr htag
  obtain ⟨line, hline, rfl⟩ := List.mem_map.mp hr
  exact hnew line hline ((row_tag (hs.complete line hline)).trans (congrArg some htag))

/-- An order's row goes into its place. -/
theorem orders_of_replaceOrder {upsert : Bool} {record : PaperOrderRecord}
    (h : b.replaceOrder upsert record = .ok b')
    (hold : b.orders = b₀.orders ++ l.lines.map (LedgerLine.row scope))
    (hclear : b₀.Clear scope) (hid : line.id ∈ scope.ids) (hrow : record.stored = line.row scope)
    (hplace : upsert = true ∨ ∃ x ∈ l.lines, x.id = line.id) :
    b'.orders = b₀.orders ++ (Table.upsert LedgerLine.id line l.lines).map (LedgerLine.row scope) ∧
      b'.events = b.events ∧ b'.executions = b.executions := by
  have horders : Table.upsert (·.id) record.stored b.orders =
      b₀.orders ++ (Table.upsert LedgerLine.id line l.lines).map (LedgerLine.row scope) := by
    have hne : ∀ r ∈ b₀.orders, r.id ≠ (line.row scope).id := hclear.id_ne hid
    rw [hrow, hold, Table.upsert_append hne, Table.upsert_map]
    rfl
  unfold PaperBooks.replaceOrder at h
  split_ifs at h with h₁ h₂ h₃
  · obtain rfl := Except.ok.inj h
    exact ⟨horders, rfl, rfl⟩
  · obtain rfl := Except.ok.inj h
    refine ⟨?_, rfl, rfl⟩
    obtain ⟨x, hx, hxid⟩ := hplace.resolve_left h₃
    rw [← horders]
    refine (if_pos (List.any_eq_true.mpr ⟨x.row scope, ?_, ?_⟩)).symm
    · rw [hold]
      exact List.mem_append_right _ (List.mem_map_of_mem hx)
    · rw [hrow]
      exact decide_eq_true hxid

/-! ## Events -/

variable {e : PaperEventRecord} {id : String}

theorem le_lastSeq (he : e ∈ b.events) (hid : e.orderId = id) : e.seq ≤ b.lastSeq id := by
  have hmem : e.seq ∈ (b.events.filter fun x => x.orderId = id).map (·.seq) :=
    List.mem_map_of_mem (List.mem_filter.mpr ⟨he, by simpa using hid⟩)
  unfold PaperBooks.lastSeq
  cases hmax : ((b.events.filter fun x => x.orderId = id).map (·.seq)).max? with
  | none =>
      rw [List.max?_eq_none_iff] at hmax
      rw [hmax] at hmem
      cases hmem
  | some n => exact (List.max?_eq_some_iff.mp hmax).2 _ hmem

theorem lastSeq_append (hevents : b'.events = b.events ++ [e]) :
    b'.lastSeq id = if e.orderId = id then max (b.lastSeq id) e.seq else b.lastSeq id := by
  unfold PaperBooks.lastSeq
  rw [hevents, List.filter_append]
  by_cases h : e.orderId = id
  · rw [if_pos h]
    have hone : [e].filter (fun x => x.orderId = id) = [e] := by simp [h]
    rw [hone, List.map_append, List.map_singleton]
    cases (b.events.filter fun x => x.orderId = id).map (·.seq) with
    | nil => simp
    | cons n rest =>
        rw [List.cons_append, List.max?_cons', List.max?_cons', List.foldl_append]
        rfl
  · have hone : [e].filter (fun x => x.orderId = id) = [] := by simp [h]
    rw [if_neg h, hone, List.append_nil]

/-- The number of an order goes on by its event, whether it was there or
not, and no other does. -/
theorem lastSeq_of_appendEvent {reason : String} (h : appendEvent id seq moment order reason b = .ok b')
    (hnumber : b.lastSeq id + 1 = seq ∨ b.lastSeq id = seq) :
    b'.lastSeq id = seq ∧ (∀ other, other ≠ id → b'.lastSeq other = b.lastSeq other) ∧
      b'.orders = b.orders ∧ b'.executions = b.executions := by
  unfold appendEvent PaperBooks.insertEvent at h
  split_ifs at h with hthere
  · obtain rfl := Except.ok.inj h
    obtain ⟨x, hx, hsame⟩ := List.any_eq_true.mp hthere
    obtain ⟨hid, hseq⟩ := of_decide_eq_true hsame
    have hle : x.seq ≤ b.lastSeq id := le_lastSeq hx hid
    refine ⟨?_, fun _ _ => rfl, rfl, rfl⟩
    simp only at hseq
    omega
  · obtain rfl := Except.ok.inj h
    refine ⟨?_, fun other hother => ?_, rfl, rfl⟩
    · rw [lastSeq_append rfl]
      simp only [PaperEventRecord.stored, if_true]
      omega
    · rw [lastSeq_append rfl, if_neg]
      exact Ne.symm hother

/-! ## Fills -/

variable {execution : ExecutionRecord} {record : PaperOrderRecord} {position : PositionRecord}

/-- A fill is applied, or is stored already. -/
theorem applyFill_cases (h : applyFill execution record position b = .ok b') :
    ((∃ x ∈ b.executions, x.brokerTradeId = execution.brokerTradeId) ∧ b' = b) ∨
      ((∀ x ∈ b.executions, x.brokerTradeId ≠ execution.brokerTradeId) ∧
        b'.executions = b.executions ++ [execution.stored] ∧ b'.events = b.events ∧
        ∃ b₁, PaperBooks.replaceOrder { b with executions := b.executions ++ [execution.stored] }
          false record = .ok b₁ ∧ b'.orders = b₁.orders) := by
  unfold applyFill fillWrites at h
  cases hinsert : b.insertExecution execution with
  | error error =>
      -- the execution is refused for its id or for its trade
      rw [hinsert, error_bind] at h
      unfold PaperBooks.insertExecution at hinsert
      split_ifs at hinsert with hid htrade
      · obtain rfl := Except.error.inj hinsert
        simp only [isRedelivery, List.cons.injEq, String.reduceEq, false_and, if_false, if_true] at h
        split_ifs at h with hthere
        · obtain rfl := Except.ok.inj h
          obtain ⟨x, hx⟩ := Option.isSome_iff_exists.mp hthere
          exact .inl ⟨⟨x, Table.mem_of_lookup hx, Table.key_of_lookup hx⟩, rfl⟩
      · obtain rfl := Except.error.inj hinsert
        simp only [isRedelivery, if_true] at h
        obtain rfl := Except.ok.inj h
        obtain ⟨x, hx, hsame⟩ := List.any_eq_true.mp htrade
        exact .inl ⟨⟨x, hx, of_decide_eq_true hsame⟩, rfl⟩
  | ok b₁ =>
      rw [hinsert, ok_bind] at h
      unfold PaperBooks.insertExecution at hinsert
      split_ifs at hinsert with hid htrade
      obtain rfl := Except.ok.inj hinsert
      have hfresh : ∀ x ∈ b.executions, x.brokerTradeId ≠ execution.brokerTradeId :=
        fun x hx hsame => htrade (List.any_eq_true.mpr ⟨x, hx, decide_eq_true hsame⟩)
      cases hreplace : PaperBooks.replaceOrder
          { b with executions := b.executions ++ [execution.stored] } false record with
      | error error =>
          -- a collision on an order is no redelivery
          exfalso
          rw [hreplace] at h
          unfold PaperBooks.replaceOrder at hreplace
          split_ifs at hreplace
          all_goals
            obtain rfl := Except.error.inj hreplace
            simp [isRedelivery] at h
      | ok b₂ =>
          rw [hreplace, ok_bind] at h
          have hsame : b₂.executions = b.executions ++ [execution.stored] ∧ b₂.events = b.events := by
            unfold PaperBooks.replaceOrder at hreplace
            split_ifs at hreplace <;> (obtain rfl := Except.ok.inj hreplace; exact ⟨rfl, rfl⟩)
          unfold PaperBooks.replacePosition at h
          split_ifs at h with hposition
          · simp [isRedelivery] at h
          · obtain rfl := Except.ok.inj h
            exact .inr ⟨hfresh, hsame.1, hsame.2, b₂, rfl, rfl⟩

/-! ## An entry -/

/-- The books of a ledger. -/
structure Holds (b₀ : PaperBooks) (scope : PaperScope) (l : Ledger) (b : PaperBooks) : Prop where
  shelved : Shelved b₀ scope l b
  numbered : Numbered scope l b

/-- The books while an entry is written: those of the ledger before it, the
same with its order and its fill, or those of the ledger after it. -/
inductive Underway (b₀ : PaperBooks) (scope : PaperScope) (l : Ledger) (entry : JournalEntry)
    (b : PaperBooks) : Prop
  | before : Holds b₀ scope l b → Underway b₀ scope l entry b
  | between : Shelved b₀ scope (l.enter entry) b → Numbered scope l b → Underway b₀ scope l entry b
  | after : Holds b₀ scope (l.enter entry) b → Underway b₀ scope l entry b

theorem Underway.shelved {entry : JournalEntry} (h : Underway b₀ scope l entry b) :
    Shelved b₀ scope l b ∨ Shelved b₀ scope (l.enter entry) b := by
  cases h with
  | before h => exact .inl h.shelved
  | between h _ => exact .inr h
  | after h => exact .inr h.shelved

theorem Underway.numbered {entry : JournalEntry} (h : Underway b₀ scope l entry b) :
    Numbered scope l b ∨ Numbered scope (l.enter entry) b := by
  cases h with
  | before h => exact .inl h.numbered
  | between _ h => exact .inl h
  | after h => exact .inr h.numbered

/-- What the first operation of an entry does at any of these points. -/
def Shelves (b₀ : PaperBooks) (scope : PaperScope) (l : Ledger) (entry : JournalEntry)
    (operation : BookWrite) : Prop :=
  ∀ b b', Shelved b₀ scope l b ∨ Shelved b₀ scope (l.enter entry) b → operation b = .ok b' →
    Shelved b₀ scope (l.enter entry) b' ∧ b'.events = b.events

/-- And the second. -/
def Numbers (scope : PaperScope) (l : Ledger) (entry : JournalEntry) (operation : BookWrite) : Prop :=
  ∀ b b', Numbered scope l b ∨ Numbered scope (l.enter entry) b → operation b = .ok b' →
    Numbered scope (l.enter entry) b' ∧ b'.orders = b.orders ∧ b'.executions = b.executions

theorem Shelved.congr (h : Shelved b₀ scope l b) (horders : b'.orders = b.orders)
    (hexecutions : b'.executions = b.executions) : Shelved b₀ scope l b' :=
  ⟨horders.trans h.orders, hexecutions.trans h.executions⟩

theorem Numbered.congr (h : Numbered scope l b) (hevents : b'.events = b.events) :
    Numbered scope l b' := by
  intro id hid
  rw [← h id hid, PaperBooks.lastSeq, hevents, PaperBooks.lastSeq]

variable {entry : JournalEntry} {first second : BookWrite}

/-- Two operations, stopped anywhere or not at all. -/
theorem underway_of_perform (hfirst : Shelves b₀ scope l entry first)
    (hsecond : Numbers scope l entry second) (hb : Underway b₀ scope l entry b) (n : ℕ)
    (h : perform b ([first, second].take n) = .ok b') :
    Underway b₀ scope l entry b' ∧ (2 ≤ n → Holds b₀ scope (l.enter entry) b') := by
  have hshelved := hb.shelved
  have hnumbered := hb.numbered
  rcases n with _ | _ | n
  · obtain rfl := Except.ok.inj h
    exact ⟨hb, by omega⟩
  · obtain ⟨b₁, h₁, hrest⟩ := exists_of_bind h
    obtain rfl := Except.ok.inj hrest
    obtain ⟨hb₁, hevents⟩ := hfirst b b₁ hshelved h₁
    refine ⟨?_, by omega⟩
    rcases hnumbered with hnumbered | hnumbered
    · exact .between hb₁ (hnumbered.congr hevents)
    · exact .after ⟨hb₁, hnumbered.congr hevents⟩
  · obtain ⟨b₁, h₁, hrest⟩ := exists_of_bind h
    obtain ⟨b₂, h₂, hrest⟩ := exists_of_bind hrest
    rw [List.take_nil] at hrest
    obtain rfl := Except.ok.inj hrest
    obtain ⟨hb₁, hevents⟩ := hfirst b b₁ hshelved h₁
    have hnumbered₁ : Numbered scope l b₁ ∨ Numbered scope (l.enter entry) b₁ :=
      hnumbered.imp (·.congr hevents) (·.congr hevents)
    obtain ⟨hb₂, horders, hexecutions⟩ := hsecond b₁ b₂ hnumbered₁ h₂
    have hholds : Holds b₀ scope (l.enter entry) b₂ := ⟨hb₁.congr horders hexecutions, hb₂⟩
    exact ⟨.after hholds, fun _ => hholds⟩

/-- What is stored of an order when its next event is written, for the first
time or again. -/
theorem existing_cases (hs : l.Sound scope) (hclear : b₀.Clear scope) (hnext : l.Next scope order seq)
    {l' : Ledger} (hs' : l'.Sound scope) (hline' : l.lineAfter order seq trades moment ∈ l'.lines)
    (hb : Shelved b₀ scope l b ∨ Shelved b₀ scope l' b) (htag : order.clientTag = some tag) :
    (b.byOrdertag tag = none ∧ moment = (l.lineAfter order seq trades moment).created) ∨
      ∃ r, b.byOrdertag tag = some r ∧ r.id = (l.lineAfter order seq trades moment).id ∧
        r.idempotencyKey = s!"paper-{(l.lineAfter order seq trades moment).id}" ∧
        r.createdAt.millis = (l.lineAfter order seq trades moment).created.millis := by
  rcases hb with hb | hb
  · rcases hnext with hopens | ⟨line, hcontinues⟩
    · refine .inl ⟨?_, ?_⟩
      · obtain ⟨tag', hmem, htag'⟩ := hopens.tag_mem
        obtain rfl : tag' = tag := Option.some.inj (htag'.symm.trans htag)
        exact byOrdertag_of_new hb hclear hs hmem fun line hline => htag ▸ hopens.new_tag line hline
      · simp only [Ledger.lineAfter, hopens.lookup_eq_none]
    · have hfound := byOrdertag_of_mem hb hclear hs hcontinues.mem (hcontinues.tag_eq ▸ htag)
      rw [hcontinues.lineAfter_eq hs]
      have hid : (line.row scope).id = order.brokerOrderId := hcontinues.id_eq.symm
      refine .inr ⟨_, hfound, hid, ?_, Timestamp.millis_millis _⟩
      exact congrArg (fun id => s!"paper-{id}") hid
  · have hfound := byOrdertag_of_mem hb hclear hs' hline' (by rw [Ledger.lineAfter_order, htag])
    exact .inr ⟨_, hfound, rfl, rfl, Timestamp.millis_millis _⟩

/-- The event of an entry puts the order's number one up. -/
theorem numbers_appendEvent {l' : Ledger} {id reason : String}
    (hid : id ∈ scope.ids) (hnext : seq = l.seqOf id + 1)
    (hseq : ∀ other, l'.seqOf other = if other = id then seq else l.seqOf other)
    (hb : Numbered scope l b ∨ Numbered scope l' b)
    (h : appendEvent id seq moment order reason b = .ok b') :
    Numbered scope l' b' ∧ b'.orders = b.orders ∧ b'.executions = b.executions := by
  have hnumber : b.lastSeq id + 1 = seq ∨ b.lastSeq id = seq := by
    rcases hb with hb | hb
    · exact .inl ((hb id hid).symm ▸ hnext.symm)
    · exact .inr ((hb id hid).trans ((hseq id).trans (if_pos rfl)))
  obtain ⟨hself, hothers, horders, hexecutions⟩ := lastSeq_of_appendEvent h hnumber
  refine ⟨fun other hother => ?_, horders, hexecutions⟩
  by_cases hsame : other = id
  · rw [hsame, hself, hseq, if_pos rfl]
  · rw [hothers other hsame, hseq, if_neg hsame]
    rcases hb with hb | hb
    · exact hb other hother
    · exact (hb other hother).trans ((hseq other).trans (if_neg hsame))

variable [DecimalContext]

/-- **An entry with an order** is two operations: its row and its fill, then
its event. -/
theorem writes_orderState {e : OrderStateRecorded} (hs : l.Sound scope) (hclear : b₀.Clear scope)
    (hadmits : l.Admits scope (.orderState e)) (hb : Underway b₀ scope l (.orderState e) b) :
    ∃ first second, writes b (.orderState e) = .ok [first, second] ∧
      Shelves b₀ scope l (.orderState e) first ∧ Numbers scope l (.orderState e) second := by
  have hs' := hs.enter hadmits
  obtain ⟨hclient, hdate, hcomplete, hnext⟩ := hadmits
  obtain ⟨tag, htag⟩ := Option.isSome_iff_exists.mp hcomplete.tagged
  let line := l.lineAfter e.order e.seq 0 e.moment
  have hline : line ∈ (l.enter (.orderState e)).lines := Table.mem_upsert_self
  have hid : line.id = e.order.brokerOrderId := Ledger.lineAfter_id
  have hmem : line.id ∈ scope.ids := hid ▸ hnext.id_mem hs
  obtain ⟨record, hrecord, hrow, hrecordId⟩ := orderRecord_eq scope hcomplete Ledger.lineAfter_order
    (existing_cases hs hclear hnext hs' hline hb.shelved htag)
  refine ⟨fun b => b.replaceOrder true record,
    appendEvent record.id e.seq e.moment e.order e.reason, ?_, ?_, ?_⟩
  · simp only [writes, tagOf, htag, ok_bind, hclient, hdate, hrecord]
    rfl
  · intro b b' hshelved h
    rcases hshelved with hshelved | hshelved
    · obtain ⟨horders, hevents, hexecutions⟩ := orders_of_replaceOrder h hshelved.orders hclear hmem hrow
        (.inl rfl)
      exact ⟨⟨horders, hexecutions.trans hshelved.executions⟩, hevents⟩
    · obtain ⟨horders, hevents, hexecutions⟩ := orders_of_replaceOrder h hshelved.orders hclear hmem hrow
        (.inl rfl)
      rw [Table.upsert_self hs'.ids_nodup hline] at horders
      exact ⟨⟨horders, hexecutions.trans hshelved.executions⟩, hevents⟩
  · intro b b' hnumbered h
    rw [hrecordId, hid] at h
    exact numbers_appendEvent (hnext.id_mem hs) (hnext.seq_eq hs) (fun _ => Ledger.seqOf_put) hnumbered h

theorem writes_fill {e : FillRecorded} (hs : l.Sound scope) (hclear : b₀.Clear scope)
    (hadmits : l.Admits scope (.fill e)) (hb : Underway b₀ scope l (.fill e) b) :
    ∃ first second, writes b (.fill e) = .ok [first, second] ∧
      Shelves b₀ scope l (.fill e) first ∧ Numbers scope l (.fill e) second := by
  have hs' := hs.enter hadmits
  obtain ⟨hclient, hdate, hcomplete, old, hcontinues, htrades⟩ := hadmits
  have hnext : l.Next scope e.order e.seq := .inr ⟨old, hcontinues⟩
  obtain ⟨tag, htag⟩ := Option.isSome_iff_exists.mp hcomplete.tagged
  let line := l.lineAfter e.order e.seq 1 e.moment
  have hline : line ∈ (l.enter (.fill e)).lines := Table.mem_upsert_self
  have hid : line.id = e.order.brokerOrderId := Ledger.lineAfter_id
  have hmem : line.id ∈ scope.ids := hid ▸ hnext.id_mem hs
  have hexisting := existing_cases hs hclear hnext hs' hline hb.shelved htag
  -- the order is stored since it was accepted
  obtain ⟨r, hr⟩ : ∃ r, b.byOrdertag tag = some r := by
    rcases hb.shelved with hshelved | hshelved
    · exact ⟨_, byOrdertag_of_mem hshelved hclear hs hcontinues.mem (hcontinues.tag_eq ▸ htag)⟩
    · have htag' : line.order.clientTag = some tag := by rw [Ledger.lineAfter_order, htag]
      exact ⟨_, byOrdertag_of_mem hshelved hclear hs' hline htag'⟩
  obtain ⟨record, hrecord, hrow, hrecordId⟩ := orderRecord_eq scope hcomplete Ledger.lineAfter_order hexisting
  have hexecution : (executionRecord e record.id).stored =
      scope.execution (l.fills.length + 1) (e.trade, e.fees) := by
    have horder : record.id = old.id := hrecordId.trans (hid.trans hcontinues.id_eq)
    simp only [executionRecord, ExecutionRecord.stored, PaperScope.execution, hclient, hdate,
      htrades.number, htrades.executed, htrades.order_eq, horder, Option.getD_some]
  have hexecutions : scope.executions 0 (l.enter (.fill e)).fills =
      scope.executions 0 l.fills ++ [(executionRecord e record.id).stored] := by
    rw [hexecution]
    change scope.executions 0 (l.fills ++ [(e.trade, e.fees)]) = _
    rw [PaperScope.executions_append, Nat.zero_add]
    rfl
  refine ⟨applyFill (executionRecord e record.id) record
      (positionRecord e (b.position scope.client e.position.instrumentId)),
    appendEvent record.id e.seq e.moment e.order "", ?_, ?_, ?_⟩
  · rw [hr] at hrecord
    simp only [writes, tagOf, htag, ok_bind, hclient, hdate, hr, hrecord]
    rfl
  · intro b b' hshelved h
    rcases hshelved with hshelved | hshelved
    · rcases applyFill_cases h with ⟨⟨x, hx, htradeId⟩, -⟩ | ⟨-, hexecuted, hevents, b₁, hreplace, horders⟩
      · -- the trade's id is new to the books
        exfalso
        have htradeId : x.brokerTradeId = e.trade.tradeId := htradeId
        rw [hshelved.executions] at hx
        rcases List.mem_append.mp hx with hx | hx
        · refine (hclear.executions x hx).1 old.id (hs.id_mem old hcontinues.mem) (old.trades + 1) ?_
          exact htradeId.trans htrades.tradeId
        · obtain ⟨f, hf, number, -, rfl⟩ := PaperScope.exists_of_mem_executions hx
          exact htrades.fresh hs hcontinues.mem f hf htradeId
      · obtain ⟨hrows, -, -⟩ := orders_of_replaceOrder hreplace hshelved.orders hclear hmem hrow
          (.inr ⟨old, hcontinues.mem, hcontinues.id_eq.symm.trans hid.symm⟩)
        refine ⟨⟨horders.trans hrows, ?_⟩, hevents⟩
        rw [hexecuted, hshelved.executions, hexecutions, List.append_assoc]
    · rcases applyFill_cases h with ⟨-, rfl⟩ | ⟨hfresh, -⟩
      · exact ⟨hshelved, rfl⟩
      · -- it is stored already
        exfalso
        refine hfresh (executionRecord e record.id).stored ?_ rfl
        rw [hshelved.executions, hexecutions]
        exact List.mem_append_right _ (List.mem_append_right _ (List.mem_singleton_self _))
  · intro b b' hnumbered h
    rw [hrecordId, hid] at h
    exact numbers_appendEvent (hnext.id_mem hs) (hnext.seq_eq hs) (fun _ => Ledger.seqOf_put) hnumbered h

omit [DecimalContext] in
theorem addSnapshot_kept {e : SnapshotRecorded} (h : addSnapshot e b = .ok b') :
    b'.orders = b.orders ∧ b'.events = b.events ∧ b'.executions = b.executions := by
  unfold addSnapshot PaperBooks.insertSnapshot at h
  split_ifs at h <;> (obtain rfl := Except.ok.inj h; exact ⟨rfl, rfl, rfl⟩)

omit [DecimalContext] in
theorem Holds.of_perform {e : SnapshotRecorded} (hb : Holds b₀ scope l b) (n : ℕ)
    (h : perform b ([addSnapshot e].take n) = .ok b') : Holds b₀ scope l b' := by
  rcases n with _ | n
  · obtain rfl := Except.ok.inj h
    exact hb
  · obtain ⟨b₁, h₁, hrest⟩ := exists_of_bind h
    rw [List.take_nil] at hrest
    obtain rfl := Except.ok.inj hrest
    obtain ⟨horders, hevents, hexecutions⟩ := addSnapshot_kept h₁
    exact ⟨hb.shelved.congr horders hexecutions, hb.numbered.congr hevents⟩

omit [DecimalContext] in
/-- Books with a snapshot under way are those of the ledger. -/
theorem Underway.holds {e : SnapshotRecorded} (h : Underway b₀ scope l (.snapshot e) b) :
    Holds b₀ scope l b := by
  cases h with
  | before h => exact h
  | between hshelved hnumbered => exact ⟨hshelved, hnumbered⟩
  | after h => exact h

/-- **One attempt at an entry**, stopped behind `n` operations: the entry is
under way, and where it was not stopped it is written. -/
theorem underway_of_attempt (hs : l.Sound scope) (hclear : b₀.Clear scope)
    (hadmits : l.Admits scope entry) (hb : Underway b₀ scope l entry b) {operations : List BookWrite}
    (hwrites : writes b entry = .ok operations) (n : ℕ)
    (h : perform b (operations.take n) = .ok b') :
    Underway b₀ scope l entry b' ∧ (operations.length ≤ n → Holds b₀ scope (l.enter entry) b') := by
  cases entry with
  | orderState e =>
      obtain ⟨first, second, heq, hfirst, hsecond⟩ := writes_orderState hs hclear hadmits hb
      obtain rfl := Except.ok.inj (hwrites.symm.trans heq)
      exact underway_of_perform hfirst hsecond hb n h
  | fill e =>
      obtain ⟨first, second, heq, hfirst, hsecond⟩ := writes_fill hs hclear hadmits hb
      obtain rfl := Except.ok.inj (hwrites.symm.trans heq)
      exact underway_of_perform hfirst hsecond hb n h
  | snapshot e =>
      obtain rfl := Except.ok.inj hwrites
      have hholds := hb.holds.of_perform n h
      exact ⟨.before hholds, fun _ => hholds⟩

/-- The books in front of the entries that are left. -/
def Awaits (b₀ : PaperBooks) (scope : PaperScope) (l : Ledger) (b : PaperBooks) :
    List JournalEntry → Prop
  | [] => Holds b₀ scope l b
  | entry :: _ => Underway b₀ scope l entry b

variable {entries : List JournalEntry} {l' : Ledger}

omit [DecimalContext] in
theorem Holds.awaits (h : Holds b₀ scope l b) : Awaits b₀ scope l b entries := by
  cases entries with
  | nil => exact h
  | cons entry rest => exact .before h

/-- **A completed flush** leaves the books of the ledger its entries lead
to, however often an attempt failed. -/
theorem Flushed.holds (h : Flushed b entries b') (hchronicle : Ledger.Chronicle scope l entries l')
    (hs : l.Sound scope) (hclear : b₀.Clear scope) (hb : Awaits b₀ scope l b entries) :
    Holds b₀ scope l' b' := by
  induction h generalizing l with
  | done =>
      cases hchronicle
      exact hb
  | failed n hinterrupted _ ih =>
      cases hchronicle with
      | cons hadmits hrest =>
          obtain ⟨operations, hwrites, hperform⟩ := exists_of_bind hinterrupted
          exact ih (.cons hadmits hrest) hs
            (underway_of_attempt hs hclear hadmits hb hwrites n hperform).1
  | written hwrite _ ih =>
      cases hchronicle with
      | cons hadmits hrest =>
          obtain ⟨operations, hwrites, hperform⟩ := exists_of_bind hwrite
          rw [← List.take_length (l := operations)] at hperform
          have hholds := (underway_of_attempt hs hclear hadmits hb hwrites _ hperform).2 le_rfl
          exact ih hrest (hs.enter hadmits) hholds.awaits

end PaperJournal

end Emporos
