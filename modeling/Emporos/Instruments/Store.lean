import Emporos.Instruments.Master
/-!
# The master store and the daily sync

The current definitions are one collection, each in force since its
`validFrom`; what a sync supersedes goes to the versions as a closed
record. A difference is written in one transaction, and the first load of an
empty master is staged and swapped in: each is all or nothing, so a write
here either comes through or leaves the store as it was.

BSON keeps whole milliseconds, and the moments of the records are those.
-/

namespace Emporos

namespace Instruments

/-- The current definition of an instrument, in force since `validFrom`. -/
structure InstrumentRecord where
  id : String
  exchange : String
  token : String
  tradingsymbol : String
  name : String
  lotSize : ℕ
  tickSize : Money
  validFrom : Timestamp
  deriving DecidableEq

/-- A superseded definition, in force from `validFrom` until `validTo`. The
`_id` of the source is the instrument id and `validFrom` in one text. -/
structure InstrumentVersionRecord where
  instrumentId : String
  exchange : String
  token : String
  tradingsymbol : String
  name : String
  lotSize : ℕ
  tickSize : Money
  validFrom : Timestamp
  validTo : Timestamp
  deriving DecidableEq

def InstrumentRecord.stored (r : InstrumentRecord) : InstrumentRecord :=
  { r with validFrom := r.validFrom.millis }

def InstrumentVersionRecord.stored (v : InstrumentVersionRecord) : InstrumentVersionRecord :=
  { v with validFrom := v.validFrom.millis, validTo := v.validTo.millis }

/-- What makes up the `_id` of a version. -/
def InstrumentVersionRecord.key (v : InstrumentVersionRecord) : String × Timestamp :=
  (v.instrumentId, v.validFrom)

namespace InstrumentRecordMapper

def toRecord (i : Instrument) (validFrom : Timestamp) : InstrumentRecord where
  id := i.instrumentId
  exchange := i.exchange.value
  token := i.token
  tradingsymbol := i.tradingsymbol
  name := i.name
  lotSize := i.lotSize
  tickSize := i.tickSize
  validFrom := validFrom

def toDomain (r : InstrumentRecord) : Except PyError Instrument := do
  let exchange ← Exchange.ofValue r.exchange
  Instrument.make exchange r.token r.tradingsymbol r.name r.lotSize r.tickSize

def toClosedVersion (superseded : InstrumentRecord) (validTo : Timestamp) :
    InstrumentVersionRecord where
  instrumentId := superseded.id
  exchange := superseded.exchange
  token := superseded.token
  tradingsymbol := superseded.tradingsymbol
  name := superseded.name
  lotSize := superseded.lotSize
  tickSize := superseded.tickSize
  validFrom := superseded.validFrom
  validTo := validTo

/-- The definition a version held, as `toDomain` reads it off a record. -/
def versionToDomain (v : InstrumentVersionRecord) : Except PyError Instrument := do
  let exchange ← Exchange.ofValue v.exchange
  Instrument.make exchange v.token v.tradingsymbol v.name v.lotSize v.tickSize

variable {i j : Instrument} {s t s' t' : Timestamp}

@[simp] theorem toDomain_toRecord : toDomain (toRecord i s) = .ok i := by
  have hexchange : Exchange.ofValue i.exchange.value = .ok i.exchange := by
    cases i.exchange <;> rfl
  rw [toDomain, toRecord, hexchange, ok_bind, Instrument.make_self]

@[simp] theorem versionToDomain_toClosedVersion :
    versionToDomain (toClosedVersion (toRecord i s) t) = .ok i :=
  toDomain_toRecord (s := s)

@[simp] theorem stored_toRecord : (toRecord i s).stored = toRecord i s.millis := rfl

@[simp] theorem stored_toClosedVersion : (toClosedVersion (toRecord i s) t).stored =
    toClosedVersion (toRecord i s.millis) t.millis := rfl

/-- A record has one instrument and one start. -/
theorem toRecord_inj : toRecord i s = toRecord j t ↔ i = j ∧ s = t := by
  constructor
  · intro h
    have hi : Except.ok (ε := PyError) i = .ok j := by
      rw [← toDomain_toRecord (i := i) (s := s), ← toDomain_toRecord (i := j) (s := t), h]
    exact ⟨Except.ok.inj hi, congrArg InstrumentRecord.validFrom h⟩
  · rintro ⟨rfl, rfl⟩
    rfl

theorem toClosedVersion_inj : toClosedVersion (toRecord i s) t =
    toClosedVersion (toRecord j s') t' ↔ i = j ∧ s = s' ∧ t = t' := by
  constructor
  · intro h
    have hi : Except.ok (ε := PyError) i = .ok j := by
      rw [← versionToDomain_toClosedVersion (i := i) (s := s) (t := t),
        ← versionToDomain_toClosedVersion (i := j) (s := s') (t := t'), h]
    exact ⟨Except.ok.inj hi, congrArg InstrumentVersionRecord.validFrom h,
      congrArg InstrumentVersionRecord.validTo h⟩
  · rintro ⟨rfl, rfl, rfl⟩
    rfl

end InstrumentRecordMapper

/-! ## The two collections -/

/-- `instruments` and `instrument_versions`. -/
structure MasterStore where
  instruments : List InstrumentRecord
  versions : List InstrumentVersionRecord
  deriving DecidableEq

namespace MasterStore

open InstrumentRecordMapper

def empty : MasterStore := ⟨[], []⟩

/-- Insert into `instruments`: ids are unique, and so are exchange and token. -/
def insertRecords (rows new : List InstrumentRecord) :
    Except PyError (List InstrumentRecord) :=
  new.foldlM (fun rows r =>
    if ∃ x ∈ rows, x.id = r.id then .error (.duplicateRecord ["_id"])
    else if ∃ x ∈ rows, x.exchange = r.exchange ∧ x.token = r.token then
      .error (.duplicateRecord ["exchange", "token"])
    else .ok (rows ++ [r.stored])) rows

/-- Insert into `instrument_versions`, whose ids are unique. -/
def insertVersions (rows new : List InstrumentVersionRecord) :
    Except PyError (List InstrumentVersionRecord) :=
  new.foldlM (fun rows v =>
    if ∃ x ∈ rows, x.key = v.stored.key then .error (.duplicateRecord ["_id"])
    else .ok (rows ++ [v.stored])) rows

def loadCurrent (s : MasterStore) : Except PyError (List Instrument) :=
  s.instruments.mapM toDomain

/-- The records a difference closes. -/
def superseded (s : MasterStore) (diff : InstrumentDiff) : List InstrumentRecord :=
  s.instruments.filter fun r => r.id ∈ diff.changed.map (·.before.instrumentId) ++
    diff.removed.map (·.instrumentId)

/-- The records it does not delete. -/
def remaining (s : MasterStore) (diff : InstrumentDiff) : List InstrumentRecord :=
  s.instruments.filter fun r => r.id ∉ diff.removed.map (·.instrumentId)

/-- Every change, put in the place of what it changes. -/
def replaceChanged (rows : List InstrumentRecord) (diff : InstrumentDiff) (now : Timestamp) :
    List InstrumentRecord :=
  diff.changed.foldl
    (fun rows c => Table.replace InstrumentRecord.id (toRecord c.after now).stored rows) rows

/-- The body of the transaction. -/
def writeIncremental (s : MasterStore) (diff : InstrumentDiff) (now : Timestamp) :
    Except PyError MasterStore := do
  let versions ← insertVersions s.versions ((s.superseded diff).map (toClosedVersion · now))
  let replaced := replaceChanged (s.remaining diff) diff now
  let instruments ← insertRecords replaced (diff.added.map (toRecord · now))
  .ok ⟨instruments, versions⟩

/-- The staged load: the new contents in place of the old. -/
def bulkLoad (s : MasterStore) (diff : InstrumentDiff) (now : Timestamp) :
    Except PyError MasterStore := do
  .ok { s with instruments := ← insertRecords [] (diff.added.map (toRecord · now)) }

/-- `apply`, where `fault` is what the write raises from outside, if it
does. Nothing is written then. -/
def apply (s : MasterStore) (diff : InstrumentDiff) (now : Timestamp) (fault : Option PyError) :
    Except PyError MasterStore :=
  if diff.isEmpty then .ok s
  else
    match fault with
    | some e => .error e
    | none =>
        if diff.changed.isEmpty ∧ diff.removed.isEmpty ∧ s.instruments.length = 0 then
          s.bulkLoad diff now
        else s.writeIncremental diff now

/-- The instruments the records have in force at a moment. -/
def validAt (s : MasterStore) (t : Timestamp) : Except PyError (List Instrument) := do
  let current ← (s.instruments.filter fun r => r.validFrom ≤ t).mapM toDomain
  let closed ← (s.versions.filter fun v => v.validFrom ≤ t ∧ t < v.validTo).mapM versionToDomain
  .ok (current ++ closed)

end MasterStore

/-! ## The sync -/

inductive SyncOutcome
  | applied
  | noChange
  | rejected
  | unavailable
  deriving DecidableEq

def SyncOutcome.succeeded : SyncOutcome → Bool
  | applied | noChange => true
  | rejected | unavailable => false

/-- What the master source may raise. -/
inductive SourceError
  /-- `MasterDownloadError` or `MasterFormatError`. -/
  | unavailable
  | other (error : PyError)

/-- What one run of the sync meets: what loading the current master raises,
if it does, what the source answers, what the write raises, and the clock. -/
structure SyncCall (Row : Type) where
  loadFault : Option PyError
  download : Except SourceError (List Row)
  writeFault : Option PyError
  now : Timestamp

/-- The store, and the instruments the cache resolves. -/
structure MasterState where
  store : MasterStore
  cache : List Instrument

namespace InstrumentSyncService

open InstrumentDiffer

variable [DecimalContext] (policy : ValidationPolicy) {Row : Type}
  (parse : Row → Except String Instrument)

/-- From a validated master on. -/
def swap (w : MasterState) (current : List Instrument) (validated : ValidatedMaster)
    (call : SyncCall Row) : Except PyError SyncOutcome × MasterState :=
  let d := diff current validated.instruments
  if d.isEmpty then (.ok .noChange, w)
  else
    match w.store.apply d call.now call.writeFault with
    | .error e => (.error e, w)
    | .ok store => (.ok .applied, ⟨store, validated.instruments⟩)

/-- `run`. The messages and alerts are left out. -/
def run (call : SyncCall Row) (w : MasterState) : Except PyError SyncOutcome × MasterState :=
  match call.loadFault with
  | some e => (.error e, w)
  | none =>
      match w.store.loadCurrent with
      | .error e => (.error e, w)
      | .ok current =>
          let w := { w with cache := current }
          match call.download with
          | .error (.other e) => (.error e, w)
          | .error .unavailable => (.ok .unavailable, w)
          | .ok rows =>
              match InstrumentMasterValidator.validate policy parse rows current.length with
              | .error _ => (.ok .rejected, w)
              | .ok validated => swap w current validated call

end InstrumentSyncService

end Instruments

end Emporos
