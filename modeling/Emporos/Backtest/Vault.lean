import Emporos.Core.Calendar
import Emporos.Core.Hashing
import Emporos.Core.Zoned
import Emporos.Marketdata.Session
import Emporos.Persistence.CandleSource
import Mathlib.Data.Finset.Sort
import Mathlib.Data.List.Sort
import Mathlib.Data.String.Basic
/-!
# The vault

A slice of history that nothing reads until a committed record for one frozen
candidate admits it. The gate is built from a seal and its records, which it
validates together; the reader asks it before every read. What is sealed is
days in India, both ends included, and what is read is a half-open range of
moments.

The vault does not leak (`VaultedCandleReader.no_leak`): sources that differ
only in what it hides answer every read alike, with bars or with the same
refusal.
-/

namespace Emporos

open Timestamp

/-- What a gate raises. -/
inductive VaultError
  /-- `VaultViolation`. -/
  | violation (message : String)
  /-- `VaultBurnedError`. -/
  | burned (message : String)
  /-- `OverflowError`: there is no date after the last, and no clock shows it. -/
  | overflow
  deriving DecidableEq

namespace Vault

/-- `MAX_OPENS`. -/
def maxOpens : ℕ := 3

/-- `date.max`. -/
def lastDate : ℤ := 2932896

/-- `_interval`: days in India, both included, as a half-open range. -/
def interval (first last : ℤ) : Except VaultError (Timestamp × Timestamp) :=
  if last < lastDate then .ok (first * day - indiaOffset, (last + 1) * day - indiaOffset)
  else .error .overflow

/-- The clock in India at a moment, by `astimezone`. -/
def indiaClock (z : Zoned) : Except VaultError Timestamp :=
  if z.offset = indiaOffset then .ok z.wall
  else if earliest ≤ z.moment ∧ z.moment + indiaOffset ≤ latest then .ok (z.moment + indiaOffset)
  else .error .overflow

/-- What a clock shows, in minutes. -/
def clockText (t : Timestamp) : String :=
  dateText (t / day) ++ String.ofList (' ' :: digits 2 (t / (3600 * second) % 24) ++
    ':' :: digits 2 (t / (60 * second) % 60))

end Vault

open Vault

/-! ## The seal and the records -/

/-- What is sealed: the days, and the instruments, all of them if none is
named. -/
structure VaultSeal where
  firstDay : ℤ
  lastDay : ℤ
  instrumentIds : Option (Finset String)
  maxOpens : ℕ
  first_le_last : firstDay ≤ lastDay
  opens_fit : 1 ≤ maxOpens ∧ maxOpens ≤ Vault.maxOpens
  instruments_nonempty : ∀ ids ∈ instrumentIds, ids.Nonempty

namespace VaultSeal

variable (s : VaultSeal)

def canonical : Canonical :=
  .dict [("first_day", .str (dateText s.firstDay)),
    ("instruments", match s.instrumentIds with
      | none => .null
      | some ids => .list ((ids.sort (· ≤ ·)).map Canonical.str)),
    ("last_day", .str (dateText s.lastDay)),
    ("max_opens", .int s.maxOpens)]

/-- `content_hash`, which a record names. -/
def contentHash (sha256 : List Char → String) : String := sha256 s.canonical.text

def seals (instrumentId : String) : Bool :=
  match s.instrumentIds with
  | none => true
  | some ids => decide (instrumentId ∈ ids)

def window : Except VaultError (Timestamp × Timestamp) := interval s.firstDay s.lastDay

end VaultSeal

/-- One open: its number, the seal and the candidate it is for, why, and what
it admits. -/
structure UnsealRecord where
  openNumber : ℕ
  sealHash : String
  candidateHash : String
  reason : String
  openedAt : Zoned
  firstDay : ℤ
  lastDay : ℤ
  instrumentIds : Option (Finset String)
  open_pos : 1 ≤ openNumber
  candidate_meaningful : Text.isMeaningful candidateHash
  reason_meaningful : Text.isMeaningful reason
  first_le_last : firstDay ≤ lastDay

namespace UnsealRecord

variable (record : UnsealRecord)

def covers (instrumentId : String) : Bool :=
  match record.instrumentIds with
  | none => true
  | some ids => decide (instrumentId ∈ ids)

/-- It covers the instrument over the whole of a range. -/
def admits (instrumentId : String) (start stop : Timestamp) : Except VaultError Bool :=
  if record.covers instrumentId then do
    let (first, last) ← interval record.firstDay record.lastDay
    .ok (first ≤ start ∧ stop ≤ last)
  else .ok false

end UnsealRecord

/-! ## The gate -/

structure VaultGate where
  vaultSeal : VaultSeal
  opens : List UnsealRecord

namespace VaultGate

variable (sha256 : List Char → String) (gate : VaultGate)

/-- The records one after the other, against the seal and its window. -/
def validateOpens (first last : Timestamp) : List UnsealRecord → Except VaultError Unit
  | [] => .ok ()
  | record :: rest =>
      if record.sealHash ≠ gate.vaultSeal.contentHash sha256 then
        .error (.burned s!"open {record.openNumber} was made against a different seal ({record.sealHash.take 12}), not {(gate.vaultSeal.contentHash sha256).take 12}")
      else do
        let (openedFirst, openedLast) ← interval record.firstDay record.lastDay
        if openedFirst < first ∨ last < openedLast then
          .error (.burned s!"open {record.openNumber} admits days outside the vault {dateText gate.vaultSeal.firstDay}..{dateText gate.vaultSeal.lastDay}")
        else validateOpens first last rest

/-- `_validate`. -/
def validate : Except VaultError Unit :=
  let numbers := gate.opens.map (·.openNumber)
  if gate.vaultSeal.maxOpens < gate.opens.length then
    .error (.burned s!"{gate.opens.length} unseal records but the vault allows {gate.vaultSeal.maxOpens}: it is burned, and only forward paper trading is clean evidence now")
  else if numbers ≠ List.range' 1 numbers.length then
    .error (.burned s!"unseal records are numbered {numbers}; they must be 1..{numbers.length} with no gap and no repeat")
  else do
    let (first, last) ← gate.vaultSeal.window
    gate.validateOpens sha256 first last gate.opens

/-- The gate of a seal and its records, if they fit together. -/
def build (vaultSeal : VaultSeal) (opens : List UnsealRecord) : Except VaultError VaultGate := do
  let gate : VaultGate := ⟨vaultSeal, opens.insertionSort fun a b => a.openNumber ≤ b.openNumber⟩
  gate.validate sha256
  .ok gate

/-- Some record for the candidate, if one is named, admits the range. -/
def admitted (candidateHash : Option String) (instrumentId : String) (start stop : Timestamp) :
    List UnsealRecord → Except VaultError Bool
  | [] => .ok false
  | record :: rest =>
      if candidateHash = some record.candidateHash then do
        if ← record.admits instrumentId start stop then .ok true
        else admitted candidateHash instrumentId start stop rest
      else admitted candidateHash instrumentId start stop rest

/-- `_refusal`. -/
def refusal (instrumentId : String) (start stop : Zoned) (candidateHash : Option String) :
    Except VaultError String := do
  let first ← indiaClock start
  let last ← indiaClock stop
  let base := s!"{instrumentId} {clockText first}..{clockText last} touches the vault ({dateText gate.vaultSeal.firstDay}..{dateText gate.vaultSeal.lastDay}), which only the S5 stage may read, once per frozen candidate."
  if candidateHash = none then .ok s!"{base} No candidate was named."
  else if gate.vaultSeal.maxOpens - gate.opens.length = 0 then
    .ok s!"{base} All {gate.vaultSeal.maxOpens} opens are used: the vault is burned."
  else .ok s!"{base} No committed unseal record admits this candidate over this range."

/-- A range that touches the sealed days needs a record for the part of it
that does. -/
def check (instrumentId : String) (start stop : Zoned) (candidateHash : Option String) :
    Except VaultError Unit :=
  if gate.vaultSeal.seals instrumentId then do
    let (first, last) ← gate.vaultSeal.window
    if stop.moment ≤ first ∨ last ≤ start.moment then .ok ()
    else if ← admitted candidateHash instrumentId (max start.moment first)
        (min stop.moment last) gate.opens then .ok ()
    else do
      let message ← gate.refusal instrumentId start stop candidateHash
      .error (.violation message)
  else .ok ()

end VaultGate

/-! ## The reader -/

structure VaultRead where
  instrumentId : String
  timeframe : Timeframe
  start : Zoned
  stop : Zoned

namespace VaultedCandleReader

variable (gate : VaultGate) (candidateHash : Option String)

def getRange (source : CandleSource) (read : VaultRead) : Except VaultError (List Candle) := do
  gate.check read.instrumentId read.start read.stop candidateHash
  .ok (source.getRange read.instrumentId read.timeframe read.start.moment read.stop.moment)

/-- The answers to a client's first reads, each chosen from the answers
before it. -/
def answers (source : CandleSource)
    (client : List (Except VaultError (List Candle)) → VaultRead) :
    ℕ → List (Except VaultError (List Candle))
  | 0 => []
  | n + 1 =>
      let before := answers source client n
      before ++ [getRange gate candidateHash source (client before)]

end VaultedCandleReader

/-! ## What is hidden -/

/-- A moment is in days of India, both included. -/
def Timestamp.InDays (t : Timestamp) (first last : ℤ) : Prop :=
  first ≤ sessionDate t ∧ sessionDate t ≤ last

/-- A bar of the sealed instruments and days that no record of the candidate
admits. -/
def VaultSeal.Hidden (s : VaultSeal) (opens : List UnsealRecord) (candidateHash : Option String)
    (bar : Candle) : Prop :=
  s.seals bar.instrumentId = true ∧ bar.ts.InDays s.firstDay s.lastDay ∧
    ¬∃ record ∈ opens, candidateHash = some record.candidateHash ∧
      record.covers bar.instrumentId = true ∧ bar.ts.InDays record.firstDay record.lastDay

/-- A read with nothing of the sealed days in it, where it starts included,
or of an instrument that is not sealed. -/
def VaultRead.Outside (read : VaultRead) (s : VaultSeal) : Prop :=
  s.seals read.instrumentId = false ∨
    ∀ t, t = read.start.moment ∨ read.start.moment ≤ t ∧ t < read.stop.moment →
      ¬t.InDays s.firstDay s.lastDay

namespace Vault

variable {first last : ℤ} {t start stop : Timestamp}

theorem interval_eq_ok : interval first last = .ok (start, stop) ↔
    last < lastDate ∧ start = first * day - indiaOffset ∧ stop = (last + 1) * day - indiaOffset := by
  unfold interval
  split
  · rename_i hlast
    simp only [Except.ok.injEq, Prod.mk.injEq, hlast, true_and]
    exact and_congr eq_comm eq_comm
  · simp [*]

/-- **The half-open range has the moments of the days.** -/
theorem mem_interval (h : interval first last = .ok (start, stop)) :
    start ≤ t ∧ t < stop ↔ t.InDays first last := by
  obtain ⟨-, rfl, rfl⟩ := interval_eq_ok.1 h
  simp only [InDays, sessionDate_eq, day, indiaOffset, second, Timestamp, Duration] at *
  omega

theorem interval_lt (h : interval first last = .ok (start, stop)) (hle : first ≤ last) :
    start < stop := by
  obtain ⟨-, rfl, rfl⟩ := interval_eq_ok.1 h
  simp only [day, indiaOffset, second, Timestamp, Duration] at *
  omega

end Vault

/-! ## The gate answers as it should -/

namespace VaultGate

variable {sha256 : List Char → String} {gate : VaultGate} {vaultSeal : VaultSeal}
variable {opens : List UnsealRecord} {candidateHash : Option String} {i : String}

/-- The days of every record of a list have a day after them. -/
theorem lastDay_lt_of_validateOpens {a b : Timestamp} {l : List UnsealRecord}
    (h : gate.validateOpens sha256 a b l = .ok ()) : ∀ record ∈ l, record.lastDay < lastDate := by
  induction l with
  | nil => simp
  | cons record rest ih =>
      unfold validateOpens at h
      split at h
      · cases h
      · obtain ⟨⟨openedFirst, openedLast⟩, hinterval, h⟩ := exists_of_bind h
        dsimp only at h
        split at h
        · cases h
        · exact List.forall_mem_cons.2 ⟨(interval_eq_ok.1 hinterval).1, ih h⟩

/-- What holds of a gate that was built. -/
structure Valid (gate : VaultGate) (vaultSeal : VaultSeal) (opens : List UnsealRecord) : Prop where
  vaultSeal_eq : gate.vaultSeal = vaultSeal
  mem_opens : ∀ record, record ∈ gate.opens ↔ record ∈ opens
  lastDay_lt : vaultSeal.lastDay < lastDate
  records_lastDay_lt : ∀ record ∈ gate.opens, record.lastDay < lastDate

theorem valid_of_build (h : build sha256 vaultSeal opens = .ok gate) :
    gate.Valid vaultSeal opens := by
  obtain ⟨_, hvalidate, hgate⟩ := exists_of_bind h
  cases hgate
  unfold validate at hvalidate
  dsimp only at hvalidate
  split at hvalidate
  · cases hvalidate
  · split at hvalidate
    · cases hvalidate
    · obtain ⟨⟨first, last⟩, hwindow, hvalidate⟩ := exists_of_bind hvalidate
      exact ⟨rfl, fun record => List.mem_insertionSort _, (interval_eq_ok.1 hwindow).1,
        lastDay_lt_of_validateOpens hvalidate⟩

/-- What a record admits, by its days. -/
theorem exists_admits {record : UnsealRecord} (h : record.lastDay < lastDate) (i : String)
    (start stop : Timestamp) : ∃ a, record.admits i start stop = .ok a ∧ (a = true ↔
      record.covers i = true ∧ record.firstDay * day - indiaOffset ≤ start ∧
        stop ≤ (record.lastDay + 1) * day - indiaOffset) := by
  unfold UnsealRecord.admits
  rw [interval_eq_ok.2 ⟨h, rfl, rfl⟩]
  by_cases hcovers : record.covers i = true
  · rw [if_pos hcovers]
    exact ⟨_, rfl, by simp [hcovers]⟩
  · rw [if_neg hcovers]
    exact ⟨_, rfl, by simp [hcovers]⟩

/-- The records of a list admit a range for a candidate if one of them
does. -/
theorem exists_admitted {l : List UnsealRecord} (candidateHash : Option String) (i : String)
    (start stop : Timestamp) (hl : ∀ record ∈ l, record.lastDay < lastDate) :
    ∃ a, admitted candidateHash i start stop l = .ok a ∧ (a = true →
      ∃ record ∈ l, candidateHash = some record.candidateHash ∧ record.covers i = true ∧
        record.firstDay * day - indiaOffset ≤ start ∧
        stop ≤ (record.lastDay + 1) * day - indiaOffset) := by
  induction l with
  | nil => exact ⟨false, rfl, by simp⟩
  | cons record rest ih =>
      obtain ⟨hrecord, hrest⟩ := List.forall_mem_cons.1 hl
      obtain ⟨later, hlater, hsome⟩ := ih hrest
      have hbehind : later = true → ∃ r ∈ record :: rest, candidateHash = some r.candidateHash ∧
          r.covers i = true ∧ r.firstDay * day - indiaOffset ≤ start ∧
          stop ≤ (r.lastDay + 1) * day - indiaOffset := fun h => by
        obtain ⟨r, hr, hadmits⟩ := hsome h
        exact ⟨r, List.mem_cons_of_mem _ hr, hadmits⟩
      unfold admitted
      by_cases hcandidate : candidateHash = some record.candidateHash
      · obtain ⟨a, ha, hiff⟩ := exists_admits hrecord i start stop
        rw [if_pos hcandidate, ha]
        cases a with
        | true => exact ⟨true, rfl, fun _ => ⟨record, List.mem_cons_self, hcandidate, hiff.1 rfl⟩⟩
        | false => exact ⟨later, hlater, hbehind⟩
      · rw [if_neg hcandidate]
        exact ⟨later, hlater, hbehind⟩

namespace Valid

variable {start stop : Zoned}

/-- **A range that is not refused has nothing hidden.** -/
theorem not_hidden (h : gate.Valid vaultSeal opens)
    (hcheck : gate.check i start stop candidateHash = .ok ()) {bar : Candle}
    (hi : bar.instrumentId = i) (hstart : start.moment ≤ bar.ts) (hstop : bar.ts < stop.moment) :
    ¬vaultSeal.Hidden opens candidateHash bar := by
  rintro ⟨hseals, hdays, hno⟩
  subst hi
  have hwindow : gate.vaultSeal.window = .ok _ :=
    interval_eq_ok.2 ⟨h.vaultSeal_eq ▸ h.lastDay_lt, rfl, rfl⟩
  rw [← h.vaultSeal_eq, ← mem_interval hwindow] at hdays
  obtain ⟨hfirst, hlast⟩ := hdays
  unfold check at hcheck
  rw [if_pos (by rw [h.vaultSeal_eq, hseals]), hwindow] at hcheck
  change (if _ then _ else _) = _ at hcheck
  -- the bar is in the read and in the days, so they meet
  rw [if_neg (by
    rintro (hstopped | hstarted)
    · exact absurd (hfirst.trans_lt hstop) hstopped.not_gt
    · exact absurd (hstart.trans_lt hlast) hstarted.not_gt)] at hcheck
  obtain ⟨a, hadmitted, hsome⟩ := exists_admitted candidateHash bar.instrumentId _ _
    h.records_lastDay_lt
  rw [hadmitted] at hcheck
  cases a with
  | false =>
      obtain ⟨_, hmessage, herror⟩ := exists_of_bind (f := fun message =>
        (Except.error (VaultError.violation message) : Except VaultError Unit)) hcheck
      cases herror
  | true =>
      obtain ⟨record, hrecord, hcandidate, hcovers, hfrom, hto⟩ := hsome rfl
      refine hno ⟨record, (h.mem_opens record).1 hrecord, hcandidate, hcovers, ?_⟩
      rw [← mem_interval (interval_eq_ok.2 ⟨h.records_lastDay_lt record hrecord, rfl, rfl⟩)]
      exact ⟨hfrom.trans (max_le hstart hfirst), (lt_min hstop hlast).trans_le hto⟩

/-- **Nothing outside the days is refused.** -/
theorem check_of_outside (h : gate.Valid vaultSeal opens) {read : VaultRead}
    (hread : read.Outside vaultSeal) :
    gate.check read.instrumentId read.start read.stop candidateHash = .ok () := by
  unfold check
  rw [h.vaultSeal_eq]
  obtain hseals | hdays := hread
  · rw [if_neg (by rw [hseals]; exact Bool.false_ne_true)]
  · split
    · have hwindow : vaultSeal.window = .ok _ := interval_eq_ok.2 ⟨h.lastDay_lt, rfl, rfl⟩
      rw [hwindow]
      refine if_pos ?_
      -- else the read starts in the days, or goes over their first moment
      by_contra hmeet
      obtain ⟨hstop, hstart⟩ := not_or.1 hmeet
      have hpos := interval_lt hwindow vaultSeal.first_le_last
      obtain hle | hlt := le_or_gt (vaultSeal.firstDay * day - indiaOffset) read.start.moment
      · exact hdays _ (.inl rfl) ((mem_interval hwindow).1 ⟨hle, not_le.1 hstart⟩)
      · exact hdays _ (.inr ⟨hlt.le, not_le.1 hstop⟩) ((mem_interval hwindow).1 ⟨le_rfl, hpos⟩)
    · rfl

end Valid

end VaultGate

/-! ## The vault does not leak -/

namespace VaultedCandleReader

variable {sha256 : List Char → String} {gate : VaultGate} {vaultSeal : VaultSeal}
variable {opens : List UnsealRecord} {candidateHash : Option String} {A B : CandleSource}

/-- Sources that differ in what is hidden only answer a read alike. -/
theorem getRange_eq (h : gate.Valid vaultSeal opens)
    (hsame : CandleSource.AgreeBut (vaultSeal.Hidden opens candidateHash) A B) (read : VaultRead) :
    getRange gate candidateHash A read = getRange gate candidateHash B read := by
  unfold getRange
  cases hcheck : gate.check read.instrumentId read.start read.stop candidateHash with
  | error e => rfl
  | ok u =>
      rw [hsame.getRange_eq fun c hi hstart hstop => h.not_hidden hcheck hi hstart hstop]

theorem answers_eq (h : gate.Valid vaultSeal opens)
    (hsame : CandleSource.AgreeBut (vaultSeal.Hidden opens candidateHash) A B)
    (client : List (Except VaultError (List Candle)) → VaultRead) (n : ℕ) :
    answers gate candidateHash A client n = answers gate candidateHash B client n := by
  induction n with
  | zero => rfl
  | succ n ih =>
      change _ ++ [getRange gate candidateHash A _] = _ ++ [getRange gate candidateHash B _]
      rw [ih, getRange_eq h hsame]

/-- **The vault does not leak.** Behind a gate that was built, two sources
that differ only in hidden bars give a client the same answers, bars and
refusals, however it goes on from them; and a read outside the sealed days
or instruments is answered with what the source has. -/
theorem no_leak (hbuild : VaultGate.build sha256 vaultSeal opens = .ok gate)
    (candidateHash : Option String) :
    (∀ A B : CandleSource, CandleSource.AgreeBut (vaultSeal.Hidden opens candidateHash) A B →
      ∀ (client : List (Except VaultError (List Candle)) → VaultRead) (n : ℕ),
        answers gate candidateHash A client n = answers gate candidateHash B client n) ∧
    ∀ (source : CandleSource) (read : VaultRead), read.Outside vaultSeal →
      getRange gate candidateHash source read = .ok
        (source.getRange read.instrumentId read.timeframe read.start.moment read.stop.moment) := by
  have hvalid := VaultGate.valid_of_build hbuild
  refine ⟨fun A B hsame client n => answers_eq hvalid hsame client n, fun source read hread => ?_⟩
  unfold getRange
  rw [hvalid.check_of_outside hread]
  rfl

/-! Half a year of every instrument, opened once, over its first month. -/
namespace HalfYear

/-- The digest of the seal's text. -/
def digest : String := "b4b21b9e8c0332c59a7de0d45de1bc2d9ef73c12107302a4082ef6353adbe7aa"

def digestOf (_ : List Char) : String := digest

theorem first_le_last : (20531 : ℤ) ≤ 20714 := by decide

theorem opens_fit : 1 ≤ Vault.maxOpens ∧ Vault.maxOpens ≤ Vault.maxOpens := by decide

theorem no_instruments : ∀ ids ∈ (none : Option (Finset String)), ids.Nonempty := nofun

def days : VaultSeal :=
  ⟨20531, 20714, none, Vault.maxOpens, first_le_last, opens_fit, no_instruments⟩

theorem offset_lt : |(0 : Duration)| < 86400 * second := by decide

theorem earliest_le : earliest ≤ 20774 * day + 0 := by decide

theorem le_latest : 20774 * day + 0 ≤ latest := by decide

def openedAt : Zoned := ⟨20774 * day, 0, offset_lt, earliest_le, le_latest⟩

theorem one_pos : 1 ≤ 1 := by decide

theorem candidate_meaningful : Text.isMeaningful "candidate" := by decide

theorem reason_meaningful : Text.isMeaningful "holdout" := by decide

theorem month : (20531 : ℤ) ≤ 20561 := by decide

def record : UnsealRecord :=
  ⟨1, digest, "candidate", "holdout", openedAt, 20531, 20561, none, one_pos, candidate_meaningful,
    reason_meaningful, month⟩

def built : VaultGate := ⟨days, [record]⟩

theorem build_eq : VaultGate.build digestOf days [record] = .ok built := rfl

end HalfYear

/-- Two sources that agree but for the months behind the first answer the
candidate alike. -/
theorem no_leak_halfYear :
    (∀ A B : CandleSource,
      CandleSource.AgreeBut (HalfYear.days.Hidden [HalfYear.record] (some "candidate"))
        A B →
      ∀ (client : List (Except VaultError (List Candle)) → VaultRead) (n : ℕ),
        answers HalfYear.built (some "candidate") A client n =
          answers HalfYear.built (some "candidate") B client n) ∧
    ∀ (source : CandleSource) (read : VaultRead), read.Outside HalfYear.days →
      getRange HalfYear.built (some "candidate") source read = .ok
        (source.getRange read.instrumentId read.timeframe read.start.moment read.stop.moment) :=
  no_leak HalfYear.build_eq (some "candidate")

end VaultedCandleReader

end Emporos
