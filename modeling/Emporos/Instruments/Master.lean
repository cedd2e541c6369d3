import Emporos.Common.Table
import Emporos.Domain.Fees
import Mathlib.Data.List.Sort
import Mathlib.Data.String.Basic
/-!
# The instrument master

The cash instruments of a day, the gate a downloaded master must pass
before it may replace the current one, and the difference between two
masters. A row of the download is turned into an instrument by a parser,
which is a parameter; what it refuses it names in a text.

Both sides of a difference are read by instrument id. Of masters whose ids
are distinct, an instrument is added, changed, removed or the same in both
(`mem_diff_added` and the lemmas after it).
-/

namespace Emporos

namespace Instruments

/-- One cash instrument as the exchange master defines it. -/
structure Instrument where
  exchange : Exchange
  token : String
  tradingsymbol : String
  name : String
  lotSize : ℕ
  tickSize : Money
  named : token ≠ "" ∧ tradingsymbol ≠ ""
  lot_pos : 0 < lotSize
  tick_pos : Money.zero < tickSize

namespace Instrument

/-- An instrument is what its fields say. -/
theorem eq_iff (a b : Instrument) : (a.exchange = b.exchange ∧ a.token = b.token ∧
    a.tradingsymbol = b.tradingsymbol ∧ a.name = b.name ∧ a.lotSize = b.lotSize ∧
    a.tickSize = b.tickSize) ↔ a = b := by
  cases a
  cases b
  simp only [mk.injEq]

instance : DecidableEq Instrument := fun a b => decidable_of_iff _ (eq_iff a b)

/-- The constructor of the source. -/
def make (exchange : Exchange) (token tradingsymbol name : String) (lotSize : ℕ)
    (tickSize : Money) : Except PyError Instrument :=
  if hnamed : token ≠ "" ∧ tradingsymbol ≠ "" then
    if hlot : 0 < lotSize then
      if htick : Money.zero < tickSize then
        .ok ⟨exchange, token, tradingsymbol, name, lotSize, tickSize, hnamed, hlot, htick⟩
      else .error (.valueError "tick size must be positive")
    else .error (.valueError "lot size must be positive")
  else .error (.valueError "an instrument needs a token and a tradingsymbol")

/-- The id candles and orders refer to, the same in every master. -/
def instrumentId (i : Instrument) : String := i.exchange.value ++ ":" ++ i.token

@[simp] theorem make_self (i : Instrument) :
    make i.exchange i.token i.tradingsymbol i.name i.lotSize i.tickSize = .ok i := by
  simp [make, i.named, i.lot_pos, i.tick_pos]

/-- The id says which exchange and token. -/
theorem key_of_instrumentId {i j : Instrument} (h : i.instrumentId = j.instrumentId) :
    i.exchange = j.exchange ∧ i.token = j.token := by
  have hlist : i.exchange.value.toList ++ ':' :: i.token.toList =
      j.exchange.value.toList ++ ':' :: j.token.toList := by
    have := congrArg String.toList h
    simpa [instrumentId] using this
  have hlength : ∀ x y : Exchange, x.value.toList.length = y.value.toList.length := by
    intro x y
    cases x <;> cases y <;> rfl
  obtain ⟨hexchange, htoken⟩ := List.append_inj hlist (hlength _ _)
  refine ⟨?_, String.toList_inj.mp (List.cons.inj htoken).2⟩
  have hinj : ∀ x y : Exchange, x.value.toList = y.value.toList → x = y := by
    intro x y
    cases x <;> cases y <;> decide
  exact hinj _ _ hexchange

end Instrument

/-! ## The validation gate -/

structure ValidationPolicy where
  rowCountTolerance : Decimal
  maxInvalidFraction : Decimal
  minRows : ℕ

/-- A fifth more or less, one bad row in a hundred, a thousand rows. -/
def ValidationPolicy.standard : ValidationPolicy := ⟨1 / 5, 1 / 100, 1000⟩

/-- Why a whole master is refused. -/
inductive RejectionReason
  | tooFewRows (total : ℕ)
  | rowCount (total current : ℕ)
  | unusableRows (bad total : ℕ)
  | duplicatedKeys (keys : List String)
  deriving DecidableEq

structure ValidatedMaster where
  instruments : List Instrument
  droppedRows : ℕ

namespace InstrumentMasterValidator

section Reasons

variable [DecimalContext] (policy : ValidationPolicy)

def rowCountReasons (total currentCount : ℕ) : List RejectionReason :=
  (if total < policy.minRows then [.tooFewRows total] else []) ++
    if 0 < currentCount ∧ policy.rowCountTolerance <
        (Decimal.abs ((total : ℤ) - currentCount : ℤ)).div currentCount then
      [.rowCount total currentCount]
    else []

def invalidReasons (total bad : ℕ) : List RejectionReason :=
  if total = 0 ∨ Decimal.div bad total ≤ policy.maxInvalidFraction then []
  else [.unusableRows bad total]

end Reasons

def duplicateReasons (instruments : List Instrument) : List RejectionReason :=
  let ids := instruments.map (·.instrumentId)
  let duplicated := (ids.dedup.filter fun id => 1 < ids.count id).insertionSort (· ≤ ·)
  if duplicated = [] then [] else [.duplicatedKeys duplicated]

variable [DecimalContext] (policy : ValidationPolicy) {Row : Type}
  (parse : Row → Except String Instrument)

/-- The usable instruments of a download, or every reason to refuse it. -/
def validate (rows : List Row) (currentCount : ℕ) :
    Except (List RejectionReason) ValidatedMaster :=
  let instruments := rows.filterMap fun row => (parse row).toOption
  let bad := rows.length - instruments.length
  let reasons := rowCountReasons policy rows.length currentCount ++
    invalidReasons policy rows.length bad ++ duplicateReasons instruments
  if reasons = [] then .ok ⟨instruments, bad⟩ else .error reasons

omit [DecimalContext] in
theorem nodup_of_duplicateReasons {instruments : List Instrument}
    (h : duplicateReasons instruments = []) : (instruments.map (·.instrumentId)).Nodup := by
  rw [duplicateReasons] at h
  split at h
  case isFalse => cases h
  case isTrue hnone =>
    rw [List.nodup_iff_count_le_one]
    intro id
    by_contra hcount
    have hmem : id ∈ instruments.map (·.instrumentId) :=
      List.count_pos_iff.mp (by omega)
    have hdup : id ∈ (((instruments.map (·.instrumentId)).dedup.filter fun id =>
        1 < (instruments.map (·.instrumentId)).count id).insertionSort (· ≤ ·)) := by
      rw [List.mem_insertionSort, List.mem_filter, List.mem_dedup]
      exact ⟨hmem, by simpa using hcount⟩
    rw [hnone] at hdup
    cases hdup

/-- **A master that passes the gate lists an instrument once.** -/
theorem nodup_of_validate {rows : List Row} {currentCount : ℕ} {m : ValidatedMaster}
    (h : validate policy parse rows currentCount = .ok m) :
    (m.instruments.map (·.instrumentId)).Nodup := by
  rw [validate] at h
  split at h
  case isFalse => cases h
  case isTrue hreasons =>
    cases h
    exact nodup_of_duplicateReasons (List.append_eq_nil_iff.mp hreasons).2

end InstrumentMasterValidator

/-! ## The difference of two masters -/

structure InstrumentChange where
  before : Instrument
  after : Instrument
  deriving DecidableEq

structure InstrumentDiff where
  added : List Instrument
  changed : List InstrumentChange
  removed : List Instrument
  deriving DecidableEq

def InstrumentDiff.isEmpty (d : InstrumentDiff) : Bool :=
  d.added.isEmpty && d.changed.isEmpty && d.removed.isEmpty

namespace InstrumentDiffer

/-- `{i.instrument_id: i for i in instruments}`. -/
def byId (instruments : List Instrument) : List Instrument :=
  Table.dict Instrument.instrumentId instruments

def ids (instruments : List Instrument) : List String :=
  (byId instruments).map (·.instrumentId)

/-- The entries of `table` under the ids that pass, in the order of the ids. -/
def select (table : List Instrument) (keep : String → Bool) : List Instrument :=
  (((ids table).filter keep).insertionSort (· ≤ ·)).filterMap fun id =>
    Table.lookup Instrument.instrumentId id (byId table)

/-- The change of one instrument, if both masters list it and it changed. -/
def changeOf (current : List Instrument) (after : Instrument) : Option InstrumentChange :=
  (Table.lookup Instrument.instrumentId after.instrumentId (byId current)).bind fun before =>
    if before ≠ after then some ⟨before, after⟩ else none

/-- `InstrumentDiffer.diff`. -/
def diff (current new : List Instrument) : InstrumentDiff where
  added := select new fun id => id ∉ ids current
  changed := (select new fun id => id ∈ ids current).filterMap (changeOf current)
  removed := select current fun id => id ∉ ids new

variable {table current new : List Instrument} {keep : String → Bool} {i : Instrument}

theorem mem_ids {id : String} : id ∈ ids table ↔ id ∈ table.map (·.instrumentId) :=
  Table.mem_map_key_dict

theorem byId_eq (h : (table.map (·.instrumentId)).Nodup) : byId table = table := by
  rw [byId, Table.dict, Table.foldl_upsert_of_nodup (by simpa using h), List.nil_append]

theorem mem_select (h : (table.map (·.instrumentId)).Nodup) :
    i ∈ select table keep ↔ i ∈ table ∧ keep i.instrumentId := by
  simp only [select, List.mem_filterMap, List.mem_insertionSort, List.mem_filter, byId_eq h]
  constructor
  · rintro ⟨id, ⟨-, hkeep⟩, hlookup⟩
    obtain rfl := Table.key_of_lookup hlookup
    exact ⟨Table.mem_of_lookup hlookup, hkeep⟩
  · rintro ⟨hi, hkeep⟩
    exact ⟨i.instrumentId, ⟨mem_ids.2 (List.mem_map_of_mem hi), hkeep⟩, Table.lookup_of_mem h hi⟩

theorem nodup_select : ((select table keep).map (·.instrumentId)).Nodup := by
  have hids : (((ids table).filter keep).insertionSort (· ≤ ·)).Nodup := by
    rw [(List.perm_insertionSort _ _).nodup_iff]
    exact Table.nodup_dict.filter _
  refine (hids.sublist ?_)
  rw [select, List.map_filterMap]
  generalize ((ids table).filter keep).insertionSort (· ≤ ·) = keys
  induction keys with
  | nil => exact .slnil
  | cons id keys ih =>
      rcases hl : Table.lookup Instrument.instrumentId id (byId table) with _ | x
      · rw [List.filterMap_cons_none (by simp [hl])]
        exact ih.cons _
      · rw [List.filterMap_cons_some (b := id) (by simp [hl, Table.key_of_lookup hl])]
        exact ih.cons_cons _

/-! Of masters with distinct ids: -/

variable (hcurrent : (current.map (·.instrumentId)).Nodup)
  (hnew : (new.map (·.instrumentId)).Nodup)

include hnew in
theorem mem_diff_added : i ∈ (diff current new).added ↔
    i ∈ new ∧ i.instrumentId ∉ current.map (·.instrumentId) := by
  rw [diff, mem_select hnew]
  simp [mem_ids]

include hcurrent in
theorem mem_diff_removed : i ∈ (diff current new).removed ↔
    i ∈ current ∧ i.instrumentId ∉ new.map (·.instrumentId) := by
  rw [diff, mem_select hcurrent]
  simp [mem_ids]

include hcurrent hnew in
theorem mem_diff_changed {c : InstrumentChange} : c ∈ (diff current new).changed ↔
    c.before ∈ current ∧ c.after ∈ new ∧ c.before.instrumentId = c.after.instrumentId ∧
      c.before ≠ c.after := by
  simp only [diff, List.mem_filterMap, mem_select hnew, changeOf, byId_eq hcurrent,
    Option.bind_eq_some_iff, decide_eq_true_eq]
  constructor
  · rintro ⟨a, ⟨ha, -⟩, b, hb, hc⟩
    split at hc
    case isTrue hne =>
      cases hc
      exact ⟨Table.mem_of_lookup hb, ha, Table.key_of_lookup hb, hne⟩
    case isFalse => cases hc
  · rintro ⟨hb, ha, hid, hne⟩
    refine ⟨c.after, ⟨ha, mem_ids.2 (hid ▸ List.mem_map_of_mem hb)⟩, c.before, ?_, if_pos hne⟩
    rw [← hid]
    exact Table.lookup_of_mem hcurrent hb

theorem nodup_diff_changed : ((diff current new).changed.map (·.after.instrumentId)).Nodup := by
  have hsub : ((diff current new).changed.map (·.after.instrumentId)).Sublist
      ((select new fun id => id ∈ ids current).map (·.instrumentId)) := by
    rw [diff]
    generalize select new (fun id => id ∈ ids current) = l
    induction l with
    | nil => exact .slnil
    | cons a l ih =>
        rcases hc : changeOf current a with _ | c
        · rw [List.filterMap_cons_none hc]
          exact ih.cons _
        · have hafter : c.after = a := by
            obtain ⟨b, -, hb⟩ := Option.bind_eq_some_iff.mp hc
            split at hb
            · cases hb; rfl
            · cases hb
          rw [List.filterMap_cons_some hc, List.map_cons, List.map_cons, hafter]
          exact ih.cons_cons _
  exact nodup_select.sublist hsub

end InstrumentDiffer

end Instruments

end Emporos
