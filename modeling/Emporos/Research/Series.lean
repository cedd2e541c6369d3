import Emporos.Common.Table
import Emporos.Domain.Candles
import Mathlib.Data.List.Sort
/-!
# The bars of a swing simulation

Each name has its daily bars twice over, at the prices that traded and on the
analysis basis, and a dataset has the names on one calendar. A view is what a
strategy may see at the close of a session.

Two datasets agree up to a day if every name has the same bars up to it. A
view of that day tells them apart only by the names.
-/

namespace Emporos

namespace Swing

/-- The date of a session, as the number of the day. -/
abbrev Day := ℤ

/-- One session of a name. The multiplier is the analysis price over the raw
one; `neutralised` if an artifact gap was flattened there. -/
structure SwingBar where
  day : Day
  raw : Candle
  analysis : Candle
  multiplier : Decimal
  neutralised : Bool
  multiplier_pos : 0 < multiplier
  multiplier_eq : analysis.close.amount = raw.close.amount * multiplier
  deriving DecidableEq

/-- Oldest first, one bar a session. -/
structure SwingSeries where
  instrumentId : String
  bars : List SwingBar
  rising : bars.Pairwise fun a b => a.day < b.day

namespace SwingSeries

variable (s : SwingSeries) (day : Day)

/-- The bars that `bisect_right` has before it. -/
def upTo : List SwingBar := s.bars.filter fun b => b.day ≤ day

def lastOnOrBefore : Option SwingBar := (s.upTo day).getLast?

/-- The bar of a day, if the name traded on it. -/
def barOn : Option SwingBar := (s.lastOnOrBefore day).filter fun b => b.day = day

end SwingSeries

/-- The names of a dataset are told apart, and each has a bar. -/
structure SwingDataset where
  series : List SwingSeries
  nodup : (series.map (·.instrumentId)).Nodup
  filled : ∀ s ∈ series, s.bars ≠ []

/-- What a strategy may see at the close of a session. -/
structure AsOfView where
  day : Day
  instrumentIds : List String
  previousSession : Option Day
  sessions : List Day
  history : String → ℤ → Except PyError (List Candle)
  neutralisedWithin : String → ℤ → Except PyError Bool

namespace SwingDataset

variable (data : SwingDataset) (name : String) (day : Day)

/-- The sessions that any of the names traded. -/
def calendar : List Day :=
  ((data.series.flatMap fun s => s.bars.map (·.day)).dedup).insertionSort (· ≤ ·)

def instrumentIds : List String := (data.series.map (·.instrumentId)).insertionSort (· ≤ ·)

/-- `self._series[instrument_id]`. -/
def find : Except PyError SwingSeries :=
  match Table.lookup SwingSeries.instrumentId name data.series with
  | none => .error (.other "KeyError")
  | some s => .ok s

def barOn : Except PyError (Option SwingBar) := do
  let s ← data.find name
  return s.barOn day

/-- The last so many of a list. -/
def lastOf {α : Type} (l : List α) (sessions : ℤ) : List α := l.drop (l.length - sessions).toNat

/-- `AsOfView(dataset, day)`. -/
def asOf : AsOfView where
  day
  instrumentIds := data.instrumentIds
  previousSession := (data.calendar.filter (· ≤ day)).dropLast.getLast?
  sessions := data.calendar.filter (· ≤ day)
  history name sessions := do
    let s ← data.find name
    return (lastOf (s.upTo day) sessions).map (·.analysis)
  neutralisedWithin name sessions := do
    let s ← data.find name
    return (lastOf (s.upTo day) sessions).any (·.neutralised)

/-- The bars of a name up to a day: none of a name that is not there. -/
def barsUpTo : List SwingBar :=
  ((Table.lookup SwingSeries.instrumentId name data.series).map (·.upTo day)).getD []

end SwingDataset

namespace SwingSeries

variable {s s' : SwingSeries} {d day : Day} {b x : SwingBar} {before after : List SwingBar}

theorem upTo_upTo (h : day ≤ d) : (s.upTo d).filter (fun b => b.day ≤ day) = s.upTo day := by
  rw [upTo, upTo, List.filter_filter]
  refine List.filter_congr fun b _ => ?_
  rw [Bool.and_eq_left_iff_imp, decide_eq_true_iff, decide_eq_true_iff]
  exact fun hb => hb.trans h

theorem upTo_congr (h : s.upTo d = s'.upTo d) (hday : day ≤ d) : s.upTo day = s'.upTo day := by
  rw [← upTo_upTo hday, h, upTo_upTo hday]

theorem lastOnOrBefore_congr (h : s.upTo d = s'.upTo d) (hday : day ≤ d) :
    s.lastOnOrBefore day = s'.lastOnOrBefore day := by
  rw [lastOnOrBefore, lastOnOrBefore, upTo_congr h hday]

theorem barOn_congr (h : s.upTo d = s'.upTo d) (hday : day ≤ d) : s.barOn day = s'.barOn day := by
  rw [barOn, barOn, lastOnOrBefore_congr h hday]

/-- The last bar on or before a day, where it stands in the series. -/
theorem lastOnOrBefore_eq (hbars : s.bars = before ++ x :: after) (hx : x.day ≤ day)
    (hafter : ∀ b ∈ after, day < b.day) : s.lastOnOrBefore day = some x := by
  have hlate : after.filter (fun b => b.day ≤ day) = [] :=
    List.filter_eq_nil_iff.mpr fun b hb => by simpa using hafter b hb
  rw [lastOnOrBefore, upTo, hbars, List.filter_append, List.filter_cons,
    if_pos (decide_eq_true hx), hlate, List.getLast?_append_cons]
  rfl

theorem day_of_barOn (h : s.barOn day = some b) : b ∈ s.bars ∧ b.day = day := by
  obtain ⟨hlast, hday⟩ := Option.filter_eq_some_iff.mp h
  exact ⟨List.mem_of_mem_filter (List.mem_of_getLast? hlast), of_decide_eq_true hday⟩

end SwingSeries

namespace SwingDataset

variable {data data' : SwingDataset} {name : String} {d day : Day} {s : SwingSeries}

theorem find_eq_ok : data.find name = .ok s ↔
    Table.lookup SwingSeries.instrumentId name data.series = some s := by
  unfold find
  cases Table.lookup SwingSeries.instrumentId name data.series with
  | none => simp
  | some x => simp

theorem mem_calendar : day ∈ data.calendar ↔ ∃ s ∈ data.series, ∃ b ∈ s.bars, b.day = day := by
  simp only [calendar, List.mem_insertionSort, List.mem_dedup, List.mem_flatMap, List.mem_map]

theorem calendar_sorted : data.calendar.Pairwise (· < ·) := by
  have hsorted : data.calendar.Pairwise (· ≤ ·) := List.pairwise_insertionSort _ _
  have hnodup : data.calendar.Pairwise (· ≠ ·) :=
    (List.perm_insertionSort (· ≤ ·) _).nodup_iff.mpr (List.nodup_dedup _)
  exact hsorted.imp₂ (fun _ _ hle hne => lt_of_le_of_ne hle hne) hnodup

theorem mem_instrumentIds : name ∈ data.instrumentIds ↔
    ∃ s, Table.lookup SwingSeries.instrumentId name data.series = some s := by
  rw [instrumentIds, List.mem_insertionSort, List.mem_map]
  constructor
  · rintro ⟨s, hs, rfl⟩
    exact ⟨s, Table.lookup_of_mem data.nodup hs⟩
  · rintro ⟨s, hs⟩
    exact ⟨s, Table.mem_of_lookup hs, Table.key_of_lookup hs⟩

/-! ## Agreement up to a day -/

/-- Every name has the same bars up to the day. -/
def AgreeUpTo (d : Day) (data data' : SwingDataset) : Prop :=
  ∀ name, data.barsUpTo name d = data'.barsUpTo name d

/-- The names are the same, those without a bar so far included. -/
def SameNames (data data' : SwingDataset) : Prop := data.instrumentIds = data'.instrumentIds

instance : Decidable (SameNames data data') := inferInstanceAs (Decidable (_ = _))

theorem find_congr (h : AgreeUpTo d data data') (hnames : SameNames data data') (name : String) :
    (∃ e, data.find name = .error e ∧ data'.find name = .error e) ∨
      ∃ s s', data.find name = .ok s ∧ data'.find name = .ok s' ∧ s.upTo d = s'.upTo d := by
  have hsame : name ∈ data.instrumentIds ↔ name ∈ data'.instrumentIds := by rw [hnames]
  rw [mem_instrumentIds, mem_instrumentIds] at hsame
  have hbars := h name
  unfold barsUpTo at hbars
  unfold find
  cases hs : Table.lookup SwingSeries.instrumentId name data.series with
  | none =>
      cases hs' : Table.lookup SwingSeries.instrumentId name data'.series with
      | none => exact .inl ⟨_, rfl, rfl⟩
      | some s' =>
          obtain ⟨s, hs''⟩ := hsame.mpr ⟨s', hs'⟩
          rw [hs] at hs''
          cases hs''
  | some s =>
      obtain ⟨s', hs'⟩ := hsame.mp ⟨s, hs⟩
      rw [hs, hs'] at hbars
      rw [hs']
      exact .inr ⟨s, s', rfl, rfl, hbars⟩

theorem barOn_congr (h : AgreeUpTo d data data') (hnames : SameNames data data') (hday : day ≤ d)
    (name : String) : data.barOn name day = data'.barOn name day := by
  unfold barOn
  rcases find_congr h hnames name with ⟨e, hs, hs'⟩ | ⟨s, s', hs, hs', hbars⟩
  · rw [hs, hs']
  · rw [hs, hs', ok_bind, ok_bind, SwingSeries.barOn_congr hbars hday]

theorem mem_barsUpTo {b : SwingBar} : b ∈ data.barsUpTo name d ↔
    ∃ s ∈ data.series, s.instrumentId = name ∧ b ∈ s.bars ∧ b.day ≤ d := by
  unfold barsUpTo
  constructor
  · intro hb
    cases hs : Table.lookup SwingSeries.instrumentId name data.series with
    | none =>
        rw [hs] at hb
        cases hb
    | some s =>
        rw [hs] at hb
        obtain ⟨hmem, hle⟩ := List.mem_filter.mp hb
        exact ⟨s, Table.mem_of_lookup hs, Table.key_of_lookup hs, hmem, of_decide_eq_true hle⟩
  · rintro ⟨s, hs, rfl, hb, hle⟩
    rw [Table.lookup_of_mem data.nodup hs]
    exact List.mem_filter.mpr ⟨hb, decide_eq_true hle⟩

/-- The calendars agree up to the day. -/
theorem calendar_congr (h : AgreeUpTo d data data') :
    data.calendar.filter (· ≤ d) = data'.calendar.filter (· ≤ d) := by
  have hmem (x : SwingDataset) : ∀ day, day ∈ x.calendar.filter (· ≤ d) ↔
      ∃ name, ∃ b ∈ x.barsUpTo name d, b.day = day := by
    intro day
    rw [List.mem_filter, mem_calendar, decide_eq_true_iff]
    simp only [mem_barsUpTo]
    constructor
    · rintro ⟨⟨s, hs, b, hb, rfl⟩, hle⟩
      exact ⟨s.instrumentId, b, ⟨s, hs, rfl, hb, hle⟩, rfl⟩
    · rintro ⟨name, b, ⟨s, hs, -, hb, hle⟩, rfl⟩
      exact ⟨⟨s, hs, b, hb, rfl⟩, hle⟩
  have hsorted (x : SwingDataset) : (x.calendar.filter (· ≤ d)).Pairwise (· < ·) :=
    x.calendar_sorted.filter _
  refine List.Perm.eq_of_pairwise (fun a b _ _ hab hba => absurd hab hba.asymm) (hsorted data)
    (hsorted data') ?_
  refine (List.perm_ext_iff_of_nodup ((hsorted data).imp fun hlt => ne_of_lt hlt)
    ((hsorted data').imp fun hlt => ne_of_lt hlt)).mpr fun day => ?_
  rw [hmem, hmem]
  exact exists_congr fun name => by rw [h name]

theorem sessions_congr (h : AgreeUpTo d data data') (hday : day ≤ d) :
    data.calendar.filter (· ≤ day) = data'.calendar.filter (· ≤ day) := by
  have hupTo (x : SwingDataset) : x.calendar.filter (· ≤ day) =
      (x.calendar.filter (· ≤ d)).filter (· ≤ day) := by
    rw [List.filter_filter]
    refine List.filter_congr fun t _ => ?_
    rw [eq_comm, Bool.and_eq_left_iff_imp, decide_eq_true_iff, decide_eq_true_iff]
    exact fun ht => ht.trans hday
  rw [hupTo, hupTo, calendar_congr h]

/-- **A view has no look-ahead**, but for the names. -/
theorem asOf_congr (h : AgreeUpTo d data data') (hnames : SameNames data data') (hday : day ≤ d) :
    data.asOf day = data'.asOf day := by
  have hread {α : Type} (f : List SwingBar → α) (name : String) :
      (data.find name >>= fun s => Except.ok (f (s.upTo day))) =
        (data'.find name >>= fun s => Except.ok (f (s.upTo day))) := by
    rcases find_congr h hnames name with ⟨e, hs, hs'⟩ | ⟨s, s', hs, hs', hbars⟩
    · rw [hs, hs']
    · rw [hs, hs', ok_bind, ok_bind, SwingSeries.upTo_congr hbars hday]
  have hhistory : (data.asOf day).history = (data'.asOf day).history :=
    funext fun name => funext fun sessions =>
      hread (fun bars => (lastOf bars sessions).map SwingBar.analysis) name
  have hneutralised : (data.asOf day).neutralisedWithin = (data'.asOf day).neutralisedWithin :=
    funext fun name => funext fun sessions =>
      hread (fun bars => (lastOf bars sessions).any SwingBar.neutralised) name
  have hsessions := sessions_congr h hday
  simp only [asOf, AsOfView.mk.injEq] at hhistory hneutralised ⊢
  exact ⟨trivial, hnames, by rw [hsessions], hsessions, hhistory, hneutralised⟩

end SwingDataset

end Swing

end Emporos
