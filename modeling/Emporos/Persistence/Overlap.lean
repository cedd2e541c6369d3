import Emporos.Async.Schedule
import Emporos.Persistence.Rollups
/-!
# Upserts and rollups at once

Any number of upserts and rollups over the same two tiers, interleaved at
their awaits. An archive reads an object, merges and puts it back, and a
rollup deletes by timestamp what it read before, so a put that falls
between another's get and put, or a hot write between a rollup's read and
its delete, is lost. `Undisturbed` is the absence of that, call by call;
where it holds no bar that landed is lost.
-/

namespace Emporos

open Async CandleTask

/-- The two tiers, and what tells one history from another. -/
structure CandleTraffic where
  tiers : CandleTiers
  /-- The task got the object, and nobody put it since. -/
  fetched : ℕ → Partition → Bool
  /-- The task read the hot bar, and nobody wrote or deleted it since. -/
  seen : ℕ → CandleKey → Bool
  /-- The bars upserted, in the order they landed. -/
  log : List Candle

namespace CandleCall

/-- A document that a delete is for. -/
def dooms (instrumentId : String) (timeframe : Timeframe) (stamps : List Timestamp)
    (k : CandleKey) : Bool :=
  k.instrumentId = instrumentId ∧ k.timeframe = timeframe ∧ k.ts ∈ stamps.map Timestamp.millis

def fetchedAfter (t : ℕ) (fetched : ℕ → Partition → Bool) : CandleCall → ℕ → Partition → Bool
  | get object => fun u q => (u = t ∧ q = object) || fetched u q
  | put object _ _ _ => fun u q => q ≠ object && fetched u q
  | _ => fetched

def seenAfter (t : ℕ) (hot : List Candle) (seen : ℕ → CandleKey → Bool) :
    CandleCall → ℕ → CandleKey → Bool
  | hotRead i tf start stop => fun u k =>
      (u = t && (MongoCandleStore.read hot i tf start stop).any fun c => c.key = k) || seen u k
  | hotUpsert candles => fun u k => (candles.all fun c => c.stored.key ≠ k) && seen u k
  | hotDelete i tf stamps => fun u k => !dooms i tf stamps k && seen u k
  | _ => seen

/-- The bars of an upsert that land with the call. What a rollup puts is
no upsert. -/
def lands (d : CandleSettings) : CandleCall → List Candle
  | hotUpsert candles => if candles.all d.bson then d.order candles else []
  | put _ _ incoming .repository => incoming
  | _ => []

end CandleCall

/-- The same settings, with bulk writes in this order. -/
def CandleSettings.shuffled (d : CandleSettings) (order : List Candle → List Candle)
    (h : ∀ l, (order l).Perm l) : CandleSettings :=
  { d with order := order, order_perm := h }

namespace CandleTraffic

def answer (d : CandleSettings) (t : ℕ) (clock : Timestamp) (c : candleInterface.Call)
    (w : CandleTraffic) : Except PyError (candleInterface.Value c) × CandleTraffic :=
  ((d.answer c (w.tiers.later clock)).1,
    { tiers := (d.answer c (w.tiers.later clock)).2
      fetched := c.fetchedAfter t w.fetched
      seen := c.seenAfter t w.tiers.hot w.seen
      log := w.log ++ c.lands d })

/-- Time passes before a call is answered, and an unordered bulk write
puts its bars in any order. -/
def platform (d : CandleSettings) : Platform candleInterface PyError CandleTraffic where
  step t w c a w' := ∃ clock ≥ w.tiers.clock, ∃ (order : List Candle → List Candle)
    (h : ∀ l, (order l).Perm l),
      (a, w') = answer (d.shuffled order h) t clock c w
  restart w := { w with fetched := fun _ _ => false, seen := fun _ _ => false }

/-- Nobody came between what the task read and what it now puts or
deletes, and nothing goes cold under a hot copy that is not the same. -/
def Undisturbed (t : ℕ) (w : CandleTraffic) : CandleCall → Prop
  | .hotUpsert candles => ∀ c ∈ candles, c.ts.Whole
  | .put object _ incoming .repository =>
      w.fetched t object ∧ ∀ c ∈ incoming, ∀ x, w.tiers.hotCopy c.key = some x → x = c
  | .put object _ incoming .rollup => w.fetched t object ∧ ∀ c ∈ incoming, w.seen t c.key
  | .hotDelete i tf stamps => ∀ c ∈ w.tiers.hot, CandleCall.dooms i tf stamps c.key → w.seen t c.key
  | _ => True

/-- The last bar to land under each key is the copy a reader finds. -/
structure Logged (d : CandleSettings) (w : CandleTraffic) : Prop where
  kept : w.tiers.Kept d
  copies : ∀ k, w.tiers.copy k = Table.latest Candle.key k w.log

instance : ∀ (t : ℕ) (w : CandleTraffic) (c : CandleCall), Decidable (Undisturbed t w c)
  | _, _, .hotUpsert _ => inferInstanceAs (Decidable (∀ _ ∈ _, _))
  | _, w, .put _ _ incoming .repository =>
      inferInstanceAs (Decidable (_ ∧ ∀ c ∈ incoming, ∀ x ∈ w.tiers.hotCopy c.key, x = c))
  | _, _, .put _ _ _ .rollup => inferInstanceAs (Decidable (_ ∧ ∀ _ ∈ _, _))
  | _, _, .hotDelete .. => inferInstanceAs (Decidable (∀ _ ∈ _, _ → _))
  | _, _, .now => isTrue trivial
  | _, _, .hotRead .. => isTrue trivial
  | _, _, .instrumentsBefore .. => isTrue trivial
  | _, _, .get _ => isTrue trivial
  | _, _, .alert .. => isTrue trivial

/-- What a task owes where it puts or deletes. -/
def Owes (d : CandleSettings) (t : ℕ) (w : CandleTraffic) : CandleCall → Prop
  | .put object rows incoming who =>
      (∀ c ∈ incoming, c.partition = object) ∧ rows.all d.parquet ∧
        (w.fetched t object →
          rows = ParquetCandleArchive.merged ((w.tiers.cold object).getD []) incoming) ∧
        (who = .rollup → ∀ c ∈ incoming, w.seen t c.key → w.tiers.hotCopy c.key = some c)
  | .hotDelete i tf stamps => ∀ c ∈ w.tiers.hot, CandleCall.dooms i tf stamps c.key →
      w.seen t c.key → w.tiers.coldCopy c.key = some c
  | _ => True

/-- What stays for a task while others move: what landed, and the copies
of the hot bars it has seen, in both tiers. -/
structure Keeps (t : ℕ) (w w' : CandleTraffic) : Prop where
  log : w.log ⊆ w'.log
  seen : ∀ k, w'.seen t k → w.seen t k ∧ w'.tiers.hotCopy k = w.tiers.hotCopy k
  shelved : ∀ k c, w'.seen t k → w.tiers.hotCopy k = some c → w.tiers.coldCopy k = some c →
    w'.tiers.coldCopy k = some c

/-- And the objects it got. -/
structure Rely (t : ℕ) (w w' : CandleTraffic) : Prop extends Keeps t w w' where
  fetched : ∀ p, w'.fetched t p → w.fetched t p ∧ w'.tiers.cold p = w.tiers.cold p

variable {d : CandleSettings} {t u : ℕ} {w w' w₁ w₂ w₃ : CandleTraffic}

theorem Keeps.refl : Keeps t w w :=
  ⟨List.Subset.refl _, fun _ h => ⟨h, rfl⟩, fun _ _ _ _ h => h⟩

theorem Keeps.trans (h : Keeps t w₁ w₂) (h' : Keeps t w₂ w₃) : Keeps t w₁ w₃ where
  log := List.Subset.trans h.log h'.log
  seen k hk := by
    obtain ⟨hk₂, hhot⟩ := h'.seen k hk
    obtain ⟨hk₁, hhot'⟩ := h.seen k hk₂
    exact ⟨hk₁, hhot.trans hhot'⟩
  shelved k c hk hhot hcold := by
    obtain ⟨hk₂, -⟩ := h'.seen k hk
    exact h'.shelved k c hk ((h.seen k hk₂).2.trans hhot) (h.shelved k c hk₂ hhot hcold)

theorem Rely.refl : Rely t w w := ⟨.refl, fun _ h => ⟨h, rfl⟩⟩

theorem Rely.trans (h : Rely t w₁ w₂) (h' : Rely t w₂ w₃) : Rely t w₁ w₃ where
  toKeeps := h.toKeeps.trans h'.toKeeps
  fetched p hp := by
    obtain ⟨hp₂, hcold⟩ := h'.fetched p hp
    obtain ⟨hp₁, hcold'⟩ := h.fetched p hp₂
    exact ⟨hp₁, hcold.trans hcold'⟩

/-! ## One call -/

/-- Bars that land are the copies of their keys, and move no other. -/
theorem Logged.landed {tiers : CandleTiers} (hw : Logged d w) (bars : List Candle)
    (hkept : tiers.Kept d)
    (hcopy : ∀ k, tiers.copy k = (Table.latest Candle.key k bars).or (w.tiers.copy k))
    (fetched : ℕ → Partition → Bool) (seen : ℕ → CandleKey → Bool) :
    Logged d ⟨tiers, fetched, seen, w.log ++ bars⟩ := by
  refine ⟨hkept, fun k => ?_⟩
  rw [hcopy k, hw.copies k, Table.latest_append]

theorem Logged.later (hw : Logged d w) (clock : Timestamp) (fetched : ℕ → Partition → Bool)
    (seen : ℕ → CandleKey → Bool) :
    Logged d ⟨w.tiers.later clock, fetched, seen, w.log ++ []⟩ :=
  hw.landed [] (hw.kept.later clock) (fun _ => rfl) fetched seen

/-- A bulk write leaves the hot tier with the bars that land. -/
theorem answer_hotUpsert {tiers : CandleTiers} {candles : List Candle} :
    (d.answer (.hotUpsert candles) tiers).2 =
      tiers.written (CandleCall.lands d (.hotUpsert candles)) := by
  by_cases hall : candles.all d.bson
  · rw [CandleSettings.answer, if_pos hall, CandleCall.lands, if_pos hall]
    rfl
  · rw [CandleSettings.answer, if_neg hall, CandleCall.lands, if_neg hall]
    rfl

theorem mem_of_lands {candles : List Candle} {c : Candle}
    (h : c ∈ CandleCall.lands d (.hotUpsert candles)) : c ∈ candles := by
  rw [CandleCall.lands] at h
  split at h
  · exact (d.order_perm candles).mem_iff.mp h
  · cases h

theorem fetched_of_put {object : Partition} {rows incoming : List Candle} {who : Archiver}
    (hcalm : Undisturbed t w (.put object rows incoming who)) : w.fetched t object := by
  cases who <;> exact hcalm.1

/-- A bar that is merged in goes under no hot copy but its own. -/
theorem same_of_incoming {object : Partition} {rows incoming : List Candle} {who : Archiver}
    (howes : Owes d t w (.put object rows incoming who))
    (hcalm : Undisturbed t w (.put object rows incoming who)) (k : CandleKey) (c x : Candle)
    (hlast : Table.latest Candle.key k incoming = some c) (hhot : w.tiers.hotCopy k = some x) :
    x = c := by
  have hc := Table.mem_of_latest hlast
  rw [← Table.key_of_latest hlast] at hhot
  cases who with
  | repository => exact hcalm.2 c hc x hhot
  | rollup =>
      have hown := howes.2.2.2 rfl c hc (hcalm.2 c hc)
      rw [hown, Option.some.injEq] at hhot
      exact hhot.symm

open CandleTiers in
/-- **A call keeps the log true.** -/
theorem step_logged {c : candleInterface.Call} {a : Except PyError (candleInterface.Value c)}
    (hw : Logged d w) (howes : Owes d t w c) (h : (platform d).step t w c a w')
    (hcalm : Undisturbed t w c) : Logged d w' := by
  obtain ⟨clock, -, order, horder, heq⟩ := h
  obtain ⟨-, rfl⟩ := Prod.mk.inj heq
  have hkept := hw.kept.later clock
  cases c with
  | now => exact hw.later ..
  | hotRead => exact hw.later ..
  | instrumentsBefore => exact hw.later ..
  | get => exact hw.later ..
  | alert => exact hw.later ..
  | hotUpsert candles =>
      rw [answer_hotUpsert]
      have hwhole : ∀ c ∈ CandleCall.lands (d.shuffled order horder) (.hotUpsert candles),
          c.ts.Whole := fun c hc => hcalm c (mem_of_lands hc)
      refine hw.landed _ (hkept.written hwhole) (fun k => ?_) ..
      rw [copy, hotCopy_written hwhole, Option.or_assoc]
      rfl
  | hotDelete i tf stamps =>
      -- what goes from the hot tier has the same copy in the cold one
      have halike : (w.tiers.later clock).Alike d ((w.tiers.later clock).cleared i tf stamps) := by
        refine alike_cleared hkept fun k c hhot hki hktf hkts => ?_
        have hc := mem_of_hotCopy hhot
        have hck := key_of_hotCopy hhot
        have hdooms : CandleCall.dooms i tf stamps c.key := by
          rw [hck]
          exact decide_eq_true ⟨hki, hktf, hkts⟩
        rw [← hck]
        exact howes c hc hdooms (hcalm c hc hdooms)
      exact hw.landed [] halike.kept halike.copy ..
  | put object rows incoming who =>
      have hincoming := same_of_incoming howes hcalm
      obtain ⟨hplaced, hencoded, hrows, hseen⟩ := howes
      obtain rfl := hrows (fetched_of_put hcalm)
      have hkept' : CandleTiers.Kept d ((w.tiers.later clock).shelved object
          (ParquetCandleArchive.merged ((w.tiers.cold object).getD []) incoming)) :=
        hkept.shelved_merged hplaced hencoded
      have hcopy : ∀ k, ((w.tiers.later clock).shelved object (ParquetCandleArchive.merged
          ((w.tiers.cold object).getD []) incoming)).copy k = (w.tiers.hotCopy k).or
            ((Table.latest Candle.key k incoming).or (w.tiers.coldCopy k)) :=
        fun k => congrArg _ (coldCopy_shelved_merged hkept hplaced)
      cases who with
      | repository =>
          refine hw.landed incoming hkept' (fun k => ?_) ..
          refine (hcopy k).trans ?_
          rw [copy]
          cases hlast : Table.latest Candle.key k incoming with
          | none => rfl
          | some c =>
              cases hhot : w.tiers.hotCopy k with
              | none => rfl
              | some x => rw [hincoming k c x hlast hhot]
      | rollup =>
          refine hw.landed [] hkept' (fun k => ?_) ..
          refine (hcopy k).trans ?_
          rw [copy]
          cases hlast : Table.latest Candle.key k incoming with
          | none => rfl
          | some c =>
              have hc := Table.mem_of_latest hlast
              have hhot := hseen rfl c hc (hcalm.2 c hc)
              rw [← Table.key_of_latest hlast, hhot]
              rfl

/-- A call that is no read of the hot tier. -/
def Blind : CandleCall → Prop
  | .hotRead .. => False
  | _ => True

/-- **What a call leaves to a task**: to the one that made it, if it read
no hot bar, and to every other. -/
theorem step_keeps {c : candleInterface.Call} {a : Except PyError (candleInterface.Value c)}
    (hw : Logged d w) (howes : Owes d t w c) (h : (platform d).step t w c a w')
    (hcalm : Undisturbed t w c) (hu : u ≠ t ∨ Blind c) : Keeps u w w' := by
  obtain ⟨clock, -, order, horder, heq⟩ := h
  obtain ⟨-, rfl⟩ := Prod.mk.inj heq
  have hlog : w.log ⊆ w.log ++ CandleCall.lands (d.shuffled order horder) c :=
    List.subset_append_left ..
  cases c with
  | now => exact ⟨hlog, fun _ h => ⟨h, rfl⟩, fun _ _ _ _ h => h⟩
  | hotRead i tf start stop =>
      have hne : u ≠ t := hu.resolve_right id
      refine ⟨hlog, fun k hk => ⟨?_, rfl⟩, fun _ _ _ _ h => h⟩
      simpa [CandleCall.seenAfter, hne] using hk
  | instrumentsBefore => exact ⟨hlog, fun _ h => ⟨h, rfl⟩, fun _ _ _ _ h => h⟩
  | get => exact ⟨hlog, fun _ h => ⟨h, rfl⟩, fun _ _ _ _ h => h⟩
  | alert => exact ⟨hlog, fun _ h => ⟨h, rfl⟩, fun _ _ _ _ h => h⟩
  | hotUpsert candles =>
      refine ⟨hlog, fun k hk => ?_, fun k c _ _ hcold => ?_⟩
      · obtain ⟨hother, hseen⟩ : (∀ c ∈ candles, c.stored.key ≠ k) ∧ w.seen u k := by
          simpa [CandleCall.seenAfter] using hk
        have hwhole : ∀ c ∈ CandleCall.lands (d.shuffled order horder) (.hotUpsert candles),
            c.ts.Whole := fun c hc => hcalm c (mem_of_lands hc)
        refine ⟨hseen, ?_⟩
        rw [answer_hotUpsert, CandleTiers.hotCopy_written hwhole]
        -- no bar that lands is of the key
        rw [Table.latest_eq_none.mpr fun c hc => ?_]
        · rfl
        · have hstored : c.stored = c := Candle.stored_eq (hwhole c hc)
          rw [← hstored]
          exact hother c (mem_of_lands hc)
      · rw [answer_hotUpsert]
        exact hcold
  | hotDelete i tf stamps =>
      refine ⟨hlog, fun k hk => ?_, fun _ _ _ _ h => h⟩
      obtain ⟨hdooms, hseen⟩ : CandleCall.dooms i tf stamps k = false ∧ w.seen u k := by
        simpa [CandleCall.seenAfter] using hk
      refine ⟨hseen, ?_⟩
      refine CandleTiers.hotCopy_cleared.trans (if_neg fun h => ?_)
      rw [CandleCall.dooms, decide_eq_true h] at hdooms
      cases hdooms
  | put object rows incoming who =>
      refine ⟨hlog, fun k hk => ⟨hk, rfl⟩, fun k c _ hhot hcold => ?_⟩
      have hincoming := same_of_incoming howes hcalm
      obtain ⟨hplaced, -, hrows, -⟩ := howes
      obtain rfl := hrows (fetched_of_put hcalm)
      refine (CandleTiers.coldCopy_shelved_merged (hw.kept.later clock) hplaced).trans ?_
      cases hlast : Table.latest Candle.key k incoming with
      | none => exact hcold
      | some x => rw [hincoming k x c hlast hhot]; rfl

theorem step_rely {c : candleInterface.Call} {a : Except PyError (candleInterface.Value c)}
    (hw : Logged d w) (howes : Owes d t w c) (h : (platform d).step t w c a w')
    (hcalm : Undisturbed t w c) (hu : u ≠ t) : Rely u w w' := by
  refine ⟨step_keeps hw howes h hcalm (Or.inl hu), fun p hp => ?_⟩
  obtain ⟨clock, -, order, horder, heq⟩ := h
  obtain ⟨-, rfl⟩ := Prod.mk.inj heq
  cases c with
  | now => exact ⟨hp, rfl⟩
  | hotRead => exact ⟨hp, rfl⟩
  | instrumentsBefore => exact ⟨hp, rfl⟩
  | alert => exact ⟨hp, rfl⟩
  | hotUpsert candles =>
      rw [answer_hotUpsert]
      exact ⟨hp, rfl⟩
  | hotDelete i tf stamps => exact ⟨hp, rfl⟩
  | get object =>
      refine ⟨?_, rfl⟩
      simpa [CandleCall.fetchedAfter, hu] using hp
  | put object rows incoming who =>
      obtain ⟨hne, hfetched⟩ : p ≠ object ∧ w.fetched u p := by
        simpa [CandleCall.fetchedAfter] using hp
      exact ⟨hfetched, CandleTiers.shelved_of_ne hne⟩

/-- What upserts and rollups owe each other. -/
def contract (d : CandleSettings) : Contract ((platform d).restrict Undisturbed) where
  inv := Logged d
  rely := Rely
  guar := Owes d
  rely_refl _ _ := .refl
  rely_trans := Rely.trans
  step_inv hw howes h := step_logged hw howes h.1 h.2
  step_rely hw howes h hu := step_rely hw howes h.1 h.2 hu
  restart_inv hw := ⟨hw.kept, hw.copies⟩

/-! ## What a program keeps -/

/-- A call that nothing is owed for. -/
def Free : CandleCall → Prop
  | .hotRead .. => False
  | .hotDelete .. => False
  | .put .. => False
  | _ => True

theorem Free.blind {c : candleInterface.Call} (h : Free c) : Blind c := by
  cases c <;> first | exact h.elim | trivial

theorem Free.owes {c : candleInterface.Call} (h : Free c) : Owes d t w c := by
  cases c <;> first | exact h.elim | trivial

variable {α β : Type} {p : CandleTask α} {Q : Except PyError α → CandleTraffic → Prop}
  {F : CandleTraffic → Prop}

/-- What others leave a task, and its own blind calls, it has at its end. -/
theorem safe_keeps (h : (contract d).Safe t p Q w) (honly : p.Only Blind)
    (hlasting : ∀ {w w'}, Keeps t w w' → F w → F w') (hF : F w) :
    (contract d).Safe t p (fun r w' => Q r w' ∧ F w') w :=
  h.frame hF honly (fun hr => hlasting hr.toKeeps) fun hinv howes hstep hblind =>
    hlasting (step_keeps hinv howes hstep.1 hstep.2 (Or.inr hblind))

theorem safe_free (honly : p.Only Free) : (contract d).Safe t p (fun _ _ => True) w :=
  Contract.Safe.of_only honly fun _ hfree => hfree.owes

/-- A sequence of programs that promise nothing. -/
theorem safe_seq {f : α → CandleTask β} (hp : (contract d).Safe t p (fun _ _ => True) w)
    (hf : ∀ a w, (contract d).Safe t (f a) (fun _ _ => True) w) :
    (contract d).Safe t (p >>= f) (fun _ _ => True) w := by
  rw [Contract.safe_bind]
  refine hp.mono fun r w' _ => ?_
  cases r with
  | ok a => exact hf a w'
  | error e => trivial

/-! ## Archiving -/

open ParquetCandleArchive

/-- A month is read as it stands, until somebody puts it. -/
theorem safe_readMonth {object : Partition} : (contract d).Safe t (readMonth object)
    (fun r w' => ∃ rows, r = .ok rows ∧
      (w'.fetched t object → rows = (w'.tiers.cold object).getD [])) w := by
  rw [readMonth, Contract.safe_bind, Contract.safe_attempt]
  refine fun w' _ _ => ⟨trivial, fun a w'' hstep _ => ?_⟩
  obtain ⟨clock, -, order, horder, heq⟩ := hstep.1
  obtain ⟨rfl, rfl⟩ := Prod.mk.inj heq
  change (contract d).Safe t (orNone ((d.shuffled order horder).answer (.get object)
    (w'.tiers.later clock)).1) _ _
  rw [orNone_get]
  exact ⟨_, rfl, fun _ => rfl⟩

/-- An archive under way: what it has put and what it has left to put. -/
structure Underway (who : Archiver) (t : ℕ) (candles : List Candle) (left : List Partition)
    (w : CandleTraffic) : Prop where
  hot : who = .rollup → ∀ c ∈ candles, w.seen t c.key → w.tiers.hotCopy c.key = some c
  cold : who = .rollup → ∀ c ∈ candles, c.partition ∉ left → w.seen t c.key →
    w.tiers.coldCopy c.key = some c
  landed : who = .repository → ∀ c ∈ candles, c.partition ∉ left → c ∈ w.log

theorem Underway.keeps {who : Archiver} {candles : List Candle} {left : List Partition}
    (h : Underway who t candles left w) (hk : Keeps t w w') :
    Underway who t candles left w' where
  hot hwho c hc hseen := by
    obtain ⟨hseen', hhot⟩ := hk.seen _ hseen
    exact hhot.trans (h.hot hwho c hc hseen')
  cold hwho c hc hleft hseen := by
    obtain ⟨hseen', -⟩ := hk.seen _ hseen
    exact hk.shelved _ c hseen (h.hot hwho c hc hseen') (h.cold hwho c hc hleft hseen')
  landed hwho c hc hleft := hk.log (h.landed hwho c hc hleft)

/-- Putting an object leaves one less to put. -/
theorem Underway.put {who : Archiver} {candles : List Candle} {object : Partition}
    {rest : List Partition} {rows : List Candle} {a : Except PyError Unit}
    (hnd : who = .rollup → (candles.map Candle.key).Nodup)
    (h : Underway who t candles (object :: rest) w) (hw : Logged d w)
    (howes : Owes d t w (.put object rows (candles.filter fun c => c.partition = object) who))
    (hstep : (platform d).step t w
      (.put object rows (candles.filter fun c => c.partition = object) who) a w')
    (hcalm : Undisturbed t w (.put object rows (candles.filter fun c => c.partition = object) who)) :
    Underway who t candles rest w' := by
  have hkeeps := step_keeps hw howes hstep hcalm (Or.inr trivial : t ≠ t ∨ _)
  obtain ⟨hhot, hcold, hlanded⟩ := h.keeps hkeeps
  obtain ⟨hplaced, -, hrows, -⟩ := howes
  obtain rfl := hrows (fetched_of_put hcalm)
  obtain ⟨clock, -, order, horder, heq⟩ := hstep
  obtain ⟨-, rfl⟩ := Prod.mk.inj heq
  refine ⟨hhot, fun hwho c hc hrest hseen => ?_, fun hwho c hc hrest => ?_⟩
  · by_cases hobject : c.partition = object
    · refine (CandleTiers.coldCopy_shelved_merged (hw.kept.later clock) hplaced).trans ?_
      rw [Table.latest_of_mem ((hnd hwho).sublist (List.filter_sublist.map _))
        (List.mem_filter.mpr ⟨hc, decide_eq_true hobject⟩)]
      rfl
    · exact hcold hwho c hc (by simp [hobject, hrest]) hseen
  · by_cases hobject : c.partition = object
    · subst hwho
      exact List.mem_append_right _ (List.mem_filter.mpr ⟨hc, decide_eq_true hobject⟩)
    · exact hlanded hwho c hc (by simp [hobject, hrest])

/-- **Archiving among others**, object by object. -/
theorem safe_archiveInto {who : Archiver} {candles : List Candle}
    (hnd : who = .rollup → (candles.map Candle.key).Nodup) (left : List Partition)
    (h : Underway who t candles left w) :
    (contract d).Safe t (archiveInto d who candles left)
      (fun r w' => r = .ok () → Underway who t candles [] w') w := by
  induction left generalizing w with
  | nil => exact fun _ => h
  | cons object rest ih =>
      rw [archiveInto, Contract.safe_bind]
      refine (safe_keeps safe_readMonth (only_readMonth fun _ => trivial)
        (fun hk h => h.keeps hk) h).mono ?_
      rintro - w₁ ⟨⟨existing, rfl, hexisting⟩, h₁⟩
      dsimp only
      rw [Contract.safe_bind]
      by_cases hall : (merged existing (candles.filter fun c => c.partition = object)).all d.parquet
      · have hencode : encode d (merged existing (candles.filter fun c => c.partition = object)) =
            .ok _ := if_pos hall
        rw [hencode]
        change (contract d).Safe t (await (.put object _ _ who) >>= _) _ w₁
        rw [Contract.safe_bind]
        intro w₂ hw₂ hrely
        have howes : Owes d t w₂ (.put object
            (merged existing (candles.filter fun c => c.partition = object))
            (candles.filter fun c => c.partition = object) who) := by
          refine ⟨fun c hc => ?_, hall, fun hfetched => ?_, fun hwho c hc hseen => ?_⟩
          · simpa using (List.mem_filter.mp hc).2
          · -- nobody put the object since, so it still holds what was read
            obtain ⟨hfetched₁, hcold⟩ := hrely.fetched object hfetched
            rw [hcold, hexisting hfetched₁]
          · exact (h₁.keeps hrely.toKeeps).hot hwho c (List.mem_of_mem_filter hc) hseen
        refine ⟨howes, fun a w₃ hstep _ => ?_⟩
        have h₃ := (h₁.keeps hrely.toKeeps).put hnd hw₂ howes hstep.1 hstep.2
        cases a with
        | ok _ => exact ih h₃
        | error e => exact fun h => by cases h
      · have hencode : encode d (merged existing (candles.filter fun c => c.partition = object)) =
            .error (.other "ArrowInvalid") := if_neg hall
        rw [hencode]
        exact fun h => by cases h

theorem only_archiveInto {who : Archiver} {candles : List Candle} (left : List Partition) :
    (archiveInto d who candles left).Only Blind := by
  induction left with
  | nil => trivial
  | cons object rest ih =>
      refine (only_readMonth fun _ => trivial).bind fun existing => ?_
      refine Task.Only.bind (Task.only_done _) fun rows => ?_
      exact (Task.only_ask (I := candleInterface) (c := .put object rows _ who) trivial).bind
        fun _ => ih

theorem mem_partitions {candles : List Candle} {c : Candle} (hc : c ∈ candles) :
    c.partition ∈ partitions candles :=
  List.mem_eraseDups.mpr (List.mem_map_of_mem hc)

/-! ## Upserting -/

/-- A batch is split whole. -/
theorem safe_split {candles : List Candle} :
    (contract d).Safe t (CandleRepository.split d candles)
      (fun r _ => ∀ recent old, r = .ok (recent, old) → ∀ c ∈ candles, c ∈ recent ∨ c ∈ old) w := by
  unfold CandleRepository.split
  split
  · rintro recent old h c hc
    obtain ⟨rfl, -⟩ := Prod.mk.inj (Except.ok.inj h)
    exact Or.inl hc
  · rw [Contract.safe_bind]
    refine (safe_free (CandleRepository.only_cutoffs trivial _)).mono fun r w' _ => ?_
    cases r with
    | error e => exact fun _ _ h => by cases h
    | ok cutoffs =>
        rintro recent old h c hc
        obtain ⟨rfl, rfl⟩ := Prod.mk.inj (Except.ok.inj h)
        by_cases hold : CandleRepository.isOld cutoffs c
        · exact Or.inr (List.mem_filter.mpr ⟨hc, hold⟩)
        · exact Or.inl (List.mem_filter.mpr ⟨hc, by simpa using hold⟩)

/-- A bulk write that returned has landed. -/
theorem safe_hotUpsert {candles : List Candle} :
    (contract d).Safe t (await (.hotUpsert candles))
      (fun r w' => r = .ok () → ∀ c ∈ candles, c ∈ w'.log) w := by
  refine fun w₁ _ _ => ⟨trivial, fun a w₂ hstep _ hok c hc => ?_⟩
  obtain ⟨clock, -, order, horder, heq⟩ := hstep.1
  obtain ⟨rfl, rfl⟩ := Prod.mk.inj heq
  refine List.mem_append_right _ ?_
  by_cases hall : candles.all d.bson
  · have hlands : CandleCall.lands (d.shuffled order horder) (.hotUpsert candles) =
        order candles := if_pos hall
    rw [hlands]
    exact (horder candles).mem_iff.mpr hc
  · have hanswer : (d.shuffled order horder).answer (.hotUpsert candles) (w₁.tiers.later clock) =
        (.error (.other "Inexact"), w₁.tiers.later clock) := if_neg hall
    rw [hanswer] at hok
    cases hok

/-- The old bars of a batch land where its recent ones have. -/
theorem safe_old (recent : List Candle) {old : List Candle} (h : ∀ c ∈ recent, c ∈ w.log) :
    (contract d).Safe t (if old ≠ [] then archive d .repository old else pure ())
      (fun r w' => r = .ok () → ∀ c, c ∈ recent ∨ c ∈ old → c ∈ w'.log) w := by
  split
  · have hstart : Underway .repository t old (partitions old) w :=
      ⟨fun h => (by cases h), fun h => (by cases h),
        fun _ c hc hleft => absurd (mem_partitions hc) hleft⟩
    refine (safe_keeps (F := fun w => ∀ c ∈ recent, c ∈ w.log)
      (safe_archiveInto (fun h => (by cases h)) _ hstart) (only_archiveInto _)
      (fun hk hF c hc => hk.log (hF c hc)) h).mono ?_
    rintro r w' ⟨hend, hrecent⟩ hok c (hc | hc)
    · exact hrecent c hc
    · exact (hend hok).landed rfl c hc List.not_mem_nil
  · rename_i hempty
    obtain rfl := not_ne_iff.mp hempty
    rintro - c (hc | hc)
    · exact h c hc
    · cases hc

/-- **An upsert that returned has landed**, every bar of it. -/
theorem safe_upsert {candles : List Candle} :
    (contract d).Safe t (CandleRepository.upsert d candles)
      (fun r w' => r = .ok () → ∀ c ∈ candles, c ∈ w'.log) w := by
  rw [CandleRepository.upsert, Contract.safe_bind]
  refine safe_split.mono fun r w₁ hsplit => ?_
  cases r with
  | error e => exact fun h => by cases h
  | ok parts =>
      obtain ⟨recent, old⟩ := parts
      have hwhole := hsplit recent old rfl
      dsimp only
      split
      · rw [Contract.safe_bind]
        refine safe_hotUpsert.mono fun r w₂ hrecent => ?_
        cases r with
        | error e => exact fun h => by cases h
        | ok _ =>
            exact (safe_old recent (hrecent rfl)).mono fun r w₃ hlanded hok c hc =>
              hlanded hok c (hwhole c hc)
      · rename_i hempty
        obtain rfl := not_ne_iff.mp hempty
        exact (safe_old [] fun c hc => by cases hc).mono
          fun r w₃ hlanded hok c hc => hlanded hok c (hwhole c hc)

/-! ## Rolling up -/

theorem safe_deleteAll {i : String} {tf : Timeframe} {old : List Candle} (hold : CandleRollup.Aged i tf old)
    (batches : List (List Timestamp)) (deleted : ℕ)
    (hbatches : ∀ stamps ∈ batches, stamps ⊆ old.map (·.ts))
    (h : Underway .rollup t old [] w) :
    (contract d).Safe t (CandleRollup.deleteAll i tf batches deleted) (fun _ _ => True) w := by
  induction batches generalizing w deleted with
  | nil => trivial
  | cons stamps rest ih =>
      rw [CandleRollup.deleteAll, Contract.safe_bind]
      intro w₁ hw₁ hrely
      have h₁ := h.keeps hrely.toKeeps
      have howes : Owes d t w₁ (.hotDelete i tf stamps) := by
        intro x hx hdooms hseen
        obtain ⟨hxi, hxtf, hxts⟩ := of_decide_eq_true hdooms
        -- the hot bar is the one that was read
        obtain ⟨c, hc, hck⟩ := hold.exists_of_stamp (hbatches stamps (List.mem_cons_self ..))
          hxi hxtf hxts
        have hhot := h₁.hot rfl c hc (hck ▸ hseen)
        rw [hck, hw₁.kept.hotCopy_of_mem hx, Option.some.injEq] at hhot
        have hcold := h₁.cold rfl c hc List.not_mem_nil (hck ▸ hseen)
        rw [hck, ← hhot] at hcold
        exact hcold
      refine ⟨howes, fun a w₂ hstep _ => ?_⟩
      have h₂ := h₁.keeps (step_keeps hw₁ howes hstep.1 hstep.2 (Or.inr trivial))
      cases a with
      | error e => trivial
      | ok n => exact ih _ (fun s hs => hbatches s (List.mem_cons_of_mem _ hs)) h₂

/-- **A rollup among others.** What it deletes undisturbed has its copy in
the cold tier. -/
theorem safe_roll {i : String} {tf : Timeframe} {cutoff : Timestamp} {report : RollupReport} :
    (contract d).Safe t (CandleRollup.roll d i tf cutoff report) (fun _ _ => True) w := by
  rw [CandleRollup.roll, Contract.safe_bind]
  refine fun w₁ hw₁ _ => ⟨trivial, fun a w₂ hstep _ => ?_⟩
  obtain ⟨clock, -, order, horder, heq⟩ := hstep.1
  obtain ⟨ha, rfl⟩ := Prod.mk.inj heq
  obtain ⟨hold, hhot⟩ := CandleRollup.aged_read hw₁.kept i tf 0 cutoff
  obtain ⟨old, hread⟩ : ∃ old, MongoCandleStore.read w₁.tiers.hot i tf 0 cutoff = old := ⟨_, rfl⟩
  rw [hread] at hold hhot
  obtain rfl : a = .ok old := ha.trans (congrArg Except.ok hread)
  rw [Contract.safe_done]
  dsimp only
  split
  · trivial
  have hstart : Underway .rollup t old (partitions old)
      (answer (d.shuffled order horder) t clock (.hotRead i tf 0 cutoff) w₁).2 :=
    ⟨fun _ c hc _ => hhot c hc, fun _ c hc hleft => absurd (mem_partitions hc) hleft,
      fun h => (by cases h)⟩
  -- the archive, what reads it back, and what follows if neither raised
  rw [Contract.safe_bind, Contract.safe_attempt, Contract.safe_bind]
  refine (safe_archiveInto (fun _ => hold.keys) _ hstart).mono fun r w₂ harchived => ?_
  cases r with
  | error e => trivial
  | ok _ =>
      refine (safe_keeps (safe_free (CandleRollup.only_verify (fun _ => trivial) old))
        (CandleRollup.only_verify (fun _ => trivial) old) (fun hk h => h.keeps hk)
        (harchived rfl)).mono ?_
      rintro r w₃ ⟨-, h₃⟩
      cases r with
      | error e => trivial
      | ok _ =>
          refine safe_seq (safe_deleteAll hold _ 0 (fun stamps hstamps s hs => ?_) h₃)
            fun _ _ => trivial
          exact CandleRollup.mem_flatten_batches.mp (List.mem_flatten.mpr ⟨stamps, hstamps, hs⟩)

theorem safe_rollInstruments {only : Option (List String)} {tf : Timeframe} {cutoff : Timestamp}
    (instruments : List String) (report : RollupReport) :
    (contract d).Safe t (CandleRollup.rollInstruments d only tf cutoff instruments report)
      (fun _ _ => True) w := by
  induction instruments generalizing report w with
  | nil => trivial
  | cons i rest ih =>
      rw [CandleRollup.rollInstruments]
      split
      · exact ih report
      · exact safe_seq safe_roll fun report _ => ih report

theorem safe_rollTimeframes {only : Option (List String)} (timeframes : List Timeframe)
    (report : RollupReport) :
    (contract d).Safe t (CandleRollup.rollTimeframes d only timeframes report)
      (fun _ _ => True) w := by
  induction timeframes generalizing report w with
  | nil => trivial
  | cons tf rest ih =>
      refine safe_seq (safe_free (CandleRepository.only_hotCutoff trivial)) fun cutoff w' => ?_
      cases cutoff with
      | none => exact ih report
      | some cutoff =>
          exact safe_seq (safe_free (Task.only_ask (I := candleInterface)
            (c := .instrumentsBefore tf cutoff) trivial)) fun instruments _ =>
              safe_seq (safe_rollInstruments instruments report) fun report _ => ih report

theorem safe_run {timeframes : List Timeframe} {only : Option (List String)} :
    (contract d).Safe t (CandleRollup.run d timeframes only) (fun _ _ => True) w := by
  refine safe_seq (safe_rollTimeframes _ _) fun report w' => ?_
  split
  · exact safe_seq (safe_free (Task.only_ask (I := candleInterface) (c := .alert _ _) trivial))
      fun _ _ => trivial
  · trivial

end CandleTraffic

/-! ## Upserts and rollups in one pool -/

inductive CandleJob
  | upsert (candles : List Candle)
  | rollup (timeframes : List Timeframe) (only : Option (List String))

/-- What a job that returned has done. -/
inductive CandleOutcome
  | upserted (candles : List Candle)
  | rolled (report : RollupReport)
  deriving DecidableEq

def CandleJob.program (d : CandleSettings) : CandleJob → CandleTask CandleOutcome
  | upsert candles => do
      CandleRepository.upsert d candles
      pure (.upserted candles)
  | rollup timeframes only => do
      let report ← CandleRollup.run d timeframes only
      pure (.rolled report)

namespace CandleTraffic

variable {d : CandleSettings} {w : CandleTraffic} {t n : ℕ}

/-- The pools that jobs pass through, over any number of them. -/
abbrev Pools (d : CandleSettings) (P : Platform candleInterface PyError CandleTraffic)
    (w : CandleTraffic) (n : ℕ) (s : Pool candleInterface PyError CandleOutcome CandleTraffic) :
    Prop :=
  Pool.Reachable P (fun p => ∃ job : CandleJob, p = job.program d) (Pool.idle w n) s

/-- An upsert that returned has landed. -/
def Landed (r : Except PyError CandleOutcome) (w : CandleTraffic) : Prop :=
  ∀ candles, r = .ok (.upserted candles) → ∀ c ∈ candles, c ∈ w.log

theorem safe_program (job : CandleJob) :
    (contract d).Safe t (job.program d) (fun r w' => Landed r w') w := by
  cases job with
  | upsert candles =>
      refine (Contract.safe_bind _ _).mpr (safe_upsert.mono fun r w' h => ?_)
      cases r with
      | error e => exact fun _ h => by cases h
      | ok _ =>
          rintro candles' heq
          obtain rfl : candles = candles' := by
            injection heq with heq
            injection heq
          exact h rfl
  | rollup timeframes only =>
      refine (Contract.safe_bind _ _).mpr (safe_run.mono fun r w' _ => ?_)
      cases r with
      | error e => exact fun _ h => by cases h
      | ok report => exact fun _ h => by cases h

open CandleRepository (sampleSettings sampleBar day)

/-- Nothing was ever written. -/
def empty : CandleTraffic := ⟨⟨0, [], fun _ => none⟩, fun _ _ => false, fun _ _ => false, []⟩

theorem logged_empty : Logged d empty := ⟨CandleTiers.Kept.empty 0, fun _ => rfl⟩

def sampleClock (w : CandleTraffic) : CandleCall → Timestamp
  | .now => w.tiers.clock + 2 * day
  | _ => w.tiers.clock

def sampleRespond : Responder candleInterface PyError CandleTraffic := fun t w c =>
  some (answer sampleSettings t (sampleClock w c) c w)

/-- The same where the call is undisturbed; otherwise the task waits. -/
def sampleCalm : Responder candleInterface PyError CandleTraffic := fun t w c =>
  if Undisturbed t w c then sampleRespond t w c else none

theorem sampleRespond_within : sampleRespond.Within (platform sampleSettings) := by
  intro t w c a w' h
  refine ⟨sampleClock w c, ?_, id, List.Perm.refl, (Option.some.inj h).symm⟩
  cases c with
  | now =>
      simp only [sampleClock, day, Timestamp.second, Timestamp, Duration]
      omega
  | _ => exact Int.le_refl _

theorem sampleCalm_within :
    sampleCalm.Within ((platform sampleSettings).restrict Undisturbed) := by
  intro t w c a w' h
  unfold sampleCalm at h
  split at h
  · rename_i hcalm
    exact ⟨sampleRespond_within t w c a w' h, hcalm⟩
  · cases h

/-- The pool that moves lead to. -/
def samplePlay (respond : Responder candleInterface PyError CandleTraffic)
    (moves : List (Move CandleJob)) :
    Pool candleInterface PyError CandleOutcome CandleTraffic :=
  Pool.play respond (platform sampleSettings).restart (CandleJob.program sampleSettings) moves
    (Pool.idle empty 0)

/-- A bar is written hot, rolled up when it aged, and corrected. -/
def sampleMoves : List (Move CandleJob) :=
  [.start (.upsert [sampleBar (day / 2) 100]), .run 0 10, .start (.rollup [.m1] none), .run 1 10,
    .start (.upsert [sampleBar (day / 2) 101]), .run 2 10]

/-- A bar is written hot. A rollup of it and an upsert of another old bar
both get the object of the month before either puts it; the upsert puts
last, and the rollup, which had read its own bar back, deletes it. -/
def lostMoves : List (Move CandleJob) :=
  [.start (.upsert [sampleBar (day / 2) 100]), .run 0 10, .start (.rollup [.m1] none), .run 1 4,
    .start (.upsert [sampleBar (day / 4) 101]), .run 2 2, .run 1 2, .run 2 1, .run 1 1]

end CandleTraffic

end Emporos
