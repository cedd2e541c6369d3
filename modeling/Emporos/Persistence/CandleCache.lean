import Emporos.Core.Calendar
import Emporos.Core.Zoned
import Emporos.Persistence.CandleSource
/-!
# A cache of candle months

Bars are read a UTC month at a time: from memory, from a file, or from the
source, in this order. A month that the source has bars of and that ended
long enough ago is written to a file, and what is in a file or in memory is
never asked for again.

A range starts with the month on the wall clock of its start, and a file is
named by an instrument with its colons replaced. So a read is what the source
would return where no bar lies between the start and the first of that month,
and no file that is read is another instrument's (`getRange_transparent`).
-/

namespace Emporos

open Timestamp

namespace CandleSource

def month (s : CandleSource) (i : String) (tf : Timeframe) (m : ℤ) : List Candle :=
  s.getRange i tf (firstOfMonth m) (firstOfMonth (m + 1))

end CandleSource

/-- A file of the cache, by its place under the root. -/
structure CacheFile where
  timeframe : Timeframe
  name : String
  month : ℤ
  deriving DecidableEq

structure CacheSettings (β : Type) where
  encode : List Candle → β
  decode : β → List Candle
  /-- A month is final this long after it ends. -/
  finalAfter : Duration

structure CacheWorld (β : Type) where
  now : Timestamp
  source : CandleSource
  files : CacheFile → Option β
  memory : String → Timeframe → ℤ → Option (List Candle)

/-- `utc_months`, from a month on: no month follows December 9999. -/
def utcMonths (stop : Timestamp) : ℕ → ℤ → Except PyError (List ℤ)
  | left, m =>
      if stop ≤ firstOfMonth m then .ok []
      else
        match left with
        | 0 => .error (.valueError "year 10000 is out of range")
        | left + 1 =>
            match utcMonths stop left (m + 1) with
            | .error e => .error e
            | .ok months => .ok (m :: months)

/-- December 9999. -/
def lastMonth : ℤ := 119999

namespace CachingCandleReader

variable {β : Type} (settings : CacheSettings β)

/-- `path`. -/
def path (i : String) (tf : Timeframe) (m : ℤ) : CacheFile :=
  ⟨tf, String.ofList (i.toList.map fun c => if c = ':' then '_' else c), m⟩

/-- `_is_final`. -/
def isFinal (now : Timestamp) (m : ℤ) : Bool :=
  firstOfMonth (m + 1) + settings.finalAfter ≤ now

def remember (w : CacheWorld β) (i : String) (tf : Timeframe) (m : ℤ) (bars : List Candle) :
    CacheWorld β :=
  { w with memory := fun i' tf' m' =>
      if i' = i ∧ tf' = tf ∧ m' = m then some bars else w.memory i' tf' m' }

def write (w : CacheWorld β) (p : CacheFile) (data : β) : CacheWorld β :=
  { w with files := fun p' => if p' = p then some data else w.files p' }

/-- `_month`. -/
def readMonth (i : String) (tf : Timeframe) (m : ℤ) (w : CacheWorld β) :
    List Candle × CacheWorld β :=
  match w.memory i tf m with
  | some bars => (bars, w)
  | none =>
      match w.files (path i tf m) with
      | some data => (settings.decode data, remember w i tf m (settings.decode data))
      | none =>
          let bars := w.source.month i tf m
          if bars ≠ [] ∧ isFinal settings w.now m then
            (bars, remember (write w (path i tf m) (settings.encode bars)) i tf m bars)
          else (bars, w)

/-- The bars of months that lie in a range. -/
def readMonths (i : String) (tf : Timeframe) (start stop : Timestamp) :
    List ℤ → CacheWorld β → List Candle × CacheWorld β
  | [], w => ([], w)
  | m :: rest, w =>
      let (bars, w) := readMonth settings i tf m w
      let (found, w) := readMonths i tf start stop rest w
      ((bars.filter fun c => start ≤ c.ts ∧ c.ts < stop) ++ found, w)

/-- `get_range`. -/
def getRange (i : String) (tf : Timeframe) (start stop : Zoned) (w : CacheWorld β) :
    Except PyError (List Candle) × CacheWorld β :=
  if stop.moment ≤ start.moment then (.ok [], w)
  else
    let first := start.wall.monthIndex
    match utcMonths stop.moment (lastMonth - first).toNat first with
    | .error e => (.error e, w)
    | .ok months =>
        let (found, w) := readMonths settings i tf start.moment stop.moment months w
        (.ok found, w)

/-- A read that the cache answers as the source would. -/
structure Meets (w : CacheWorld β) (i : String) (tf : Timeframe) (start stop : Zoned) : Prop where
  /-- No bar lies between the start and the first of the month that its wall
  clock shows. -/
  none_before : ∀ c ∈ w.source.bars i tf, start.moment ≤ c.ts → c.ts < stop.moment →
    firstOfMonth start.wall.monthIndex ≤ c.ts
  /-- No file of the range has bars of another instrument. -/
  own_files : ∀ m data, start.wall.monthIndex ≤ m → firstOfMonth m < stop.moment →
    w.files (path i tf m) = some data → ∀ c ∈ settings.decode data, c.instrumentId = i
  representable : stop.moment ≤ firstOfMonth lastMonth

/-- A world that a run comes to, from an empty cache, if all its reads are
such. Between reads the clock goes forward, the source changes outside of
the months that are final, the process starts anew, and the cache is
cleared. -/
inductive Reached : CacheWorld β → Prop
  | start (now : Timestamp) (source : CandleSource) :
      Reached ⟨now, source, fun _ => none, fun _ _ _ => none⟩
  | read {w : CacheWorld β} (h : Reached w) (i : String) (tf : Timeframe) (start stop : Zoned)
      (hmeets : Meets settings w i tf start stop) :
      Reached (getRange settings i tf start stop w).2
  | advance {w : CacheWorld β} (h : Reached w) (now : Timestamp) (hnow : w.now ≤ now) :
      Reached { w with now }
  | change {w : CacheWorld β} (h : Reached w) (source : CandleSource)
      (hfinal : ∀ i tf m, isFinal settings w.now m → source.month i tf m = w.source.month i tf m) :
      Reached { w with source }
  | restart {w : CacheWorld β} (h : Reached w) : Reached { w with memory := fun _ _ _ => none }
  | clear {w : CacheWorld β} (h : Reached w) :
      Reached { w with files := fun _ => none, memory := fun _ _ _ => none }

/-! ## What the cache keeps -/

section Kept

variable {settings} {w : CacheWorld β} {i : String} {tf : Timeframe} {m : ℤ}

/-- What is in a file or in memory is what the source has, of a month that is
final and not empty. -/
structure Kept (settings : CacheSettings β) (w : CacheWorld β) : Prop where
  files : ∀ p data, w.files p = some data → ∃ i, p = path i p.timeframe p.month ∧
    isFinal settings w.now p.month = true ∧ settings.decode data ≠ [] ∧
    settings.decode data = w.source.month i p.timeframe p.month
  memory : ∀ i tf m bars, w.memory i tf m = some bars →
    isFinal settings w.now m = true ∧ bars = w.source.month i tf m

/-- A file of a month holds no other instrument's bars. -/
def OwnFile (settings : CacheSettings β) (w : CacheWorld β) (i : String) (tf : Timeframe) (m : ℤ) :
    Prop :=
  ∀ data, w.files (path i tf m) = some data → ∀ c ∈ settings.decode data, c.instrumentId = i

theorem instrumentId_of_mem_month {s : CandleSource} {c : Candle} (h : c ∈ s.month i tf m) :
    c.instrumentId = i := s.of_instrument i tf c (List.mem_of_mem_filter h)

theorem Kept.remember (h : Kept settings w) (hfinal : isFinal settings w.now m = true) :
    Kept settings (remember w i tf m (w.source.month i tf m)) where
  files := h.files
  memory i' tf' m' bars hbars := by
    simp only [CachingCandleReader.remember] at hbars
    split_ifs at hbars with hsame
    · obtain ⟨rfl, rfl, rfl⟩ := hsame
      exact ⟨hfinal, (Option.some.inj hbars).symm⟩
    · exact h.memory i' tf' m' bars hbars

theorem Kept.write (hcodec : ∀ bars, settings.decode (settings.encode bars) = bars)
    (h : Kept settings w) (hne : w.source.month i tf m ≠ [])
    (hfinal : isFinal settings w.now m = true) :
    Kept settings (write w (path i tf m) (settings.encode (w.source.month i tf m))) where
  files p data hdata := by
    simp only [CachingCandleReader.write] at hdata
    split_ifs at hdata with hp
    · subst hp
      obtain rfl := Option.some.inj hdata
      exact ⟨i, rfl, hfinal, by rwa [hcodec], hcodec _⟩
    · exact h.files p data hdata
  memory := h.memory

/-- What a step of a read may do to the files: write one month that is final
and not empty. -/
def WritesFinal (settings : CacheSettings β) (w w' : CacheWorld β) : Prop :=
  ∀ p, w'.files p ≠ w.files p → isFinal settings w.now p.month = true ∧
    ∃ bars, bars ≠ [] ∧ w'.files p = some (settings.encode bars)

/-- **A month is only written when it is final and not empty**, whatever is
cached. -/
theorem readMonth_writes (i : String) (tf : Timeframe) (m : ℤ) (w : CacheWorld β) :
    WritesFinal settings w (readMonth settings i tf m w).2 ∧
      (readMonth settings i tf m w).2.now = w.now ∧
      (readMonth settings i tf m w).2.source = w.source := by
  unfold readMonth
  split
  · exact ⟨fun p hp => absurd rfl hp, rfl, rfl⟩
  · split
    · exact ⟨fun p hp => absurd rfl hp, rfl, rfl⟩
    · dsimp only
      split_ifs with hfinal
      · refine ⟨fun p hp => ?_, rfl, rfl⟩
        simp only [CachingCandleReader.remember, CachingCandleReader.write] at hp ⊢
        split_ifs at hp ⊢ with hsame
        · subst hsame
          exact ⟨hfinal.2, _, hfinal.1, rfl⟩
        · exact absurd rfl hp
      · exact ⟨fun p hp => absurd rfl hp, rfl, rfl⟩

/-- **A month is read as the source has it.** -/
theorem readMonth_spec (hcodec : ∀ bars, settings.decode (settings.encode bars) = bars)
    (h : Kept settings w) (hown : OwnFile settings w i tf m) :
    (readMonth settings i tf m w).1 = w.source.month i tf m ∧
      Kept settings (readMonth settings i tf m w).2 ∧
      ∀ m', OwnFile settings w i tf m' → OwnFile settings (readMonth settings i tf m w).2 i tf m' := by
  unfold readMonth
  split
  · rename_i bars hbars
    exact ⟨(h.memory i tf m bars hbars).2, h, fun _ h' => h'⟩
  · split
    · rename_i data hdata
      obtain ⟨j, hpath, hfinal, hne, hbars⟩ := h.files _ data hdata
      -- The bars of the file are the instrument's, so it was written for it.
      obtain ⟨c, rest, hc⟩ := List.exists_cons_of_ne_nil hne
      have hcmem : c ∈ settings.decode data := by rw [hc]; exact List.mem_cons_self
      obtain rfl : j = i :=
        (instrumentId_of_mem_month (hbars ▸ hcmem)).symm.trans (hown data hdata c hcmem)
      have hmonth : settings.decode data = w.source.month j tf m := hbars
      dsimp only
      rw [hmonth]
      exact ⟨rfl, h.remember hfinal, fun _ h' => h'⟩
    · dsimp only
      split_ifs with hfinal
      · refine ⟨rfl, (h.write hcodec hfinal.1 hfinal.2).remember hfinal.2, fun m' hown' data hdata => ?_⟩
        simp only [CachingCandleReader.remember, CachingCandleReader.write] at hdata
        split_ifs at hdata with hsame
        · obtain rfl := Option.some.inj hdata
          rw [hcodec]
          exact fun c hc => instrumentId_of_mem_month hc
        · exact hown' data hdata
      · exact ⟨rfl, h, fun _ h' => h'⟩

theorem readMonths_spec (hcodec : ∀ bars, settings.decode (settings.encode bars) = bars)
    {start stop : Timestamp} {months : List ℤ} (h : Kept settings w)
    (hown : ∀ m ∈ months, OwnFile settings w i tf m) :
    (readMonths settings i tf start stop months w).1 =
        months.flatMap (fun m => (w.source.month i tf m).filter fun c => start ≤ c.ts ∧ c.ts < stop) ∧
      Kept settings (readMonths settings i tf start stop months w).2 := by
  induction months generalizing w with
  | nil => exact ⟨rfl, h⟩
  | cons m months ih =>
      obtain ⟨hm, hmonths⟩ := List.forall_mem_cons.mp hown
      obtain ⟨hread, hkept, hown'⟩ := readMonth_spec hcodec h hm
      have hsource := (@readMonth_writes _ settings i tf m w).2.2
      obtain ⟨hrest, hkept'⟩ := ih hkept fun m' hm' => hown' m' (hmonths m' hm')
      rw [readMonths]
      dsimp only
      rw [hread, hrest, hsource]
      exact ⟨rfl, hkept'⟩

theorem readMonths_writes (i : String) (tf : Timeframe) (start stop : Timestamp) (months : List ℤ)
    (w : CacheWorld β) :
    WritesFinal settings w (readMonths settings i tf start stop months w).2 ∧
      (readMonths settings i tf start stop months w).2.now = w.now ∧
      (readMonths settings i tf start stop months w).2.source = w.source := by
  induction months generalizing w with
  | nil => exact ⟨fun p hp => absurd rfl hp, rfl, rfl⟩
  | cons m months ih =>
      obtain ⟨hwrites, hnow, hsource⟩ := @readMonth_writes _ settings i tf m w
      obtain ⟨hwrites', hnow', hsource'⟩ := ih (readMonth settings i tf m w).2
      rw [readMonths]
      dsimp only
      refine ⟨fun p hp => ?_, hnow'.trans hnow, hsource'.trans hsource⟩
      by_cases hsame : (readMonths settings i tf start stop months
          (readMonth settings i tf m w).2).2.files p = (readMonth settings i tf m w).2.files p
      · rw [hsame] at hp ⊢
        exact hwrites p hp
      · have := hwrites' p hsame
        rwa [hnow] at this

/-! ## The months of a range -/

/-- Bars in their order fall into those before a moment and those not. -/
theorem filter_split {l : List Candle} (h : l.Pairwise (·.ts < ·.ts)) (p : Candle → Bool)
    (t : Timestamp) :
    l.filter p = (l.filter fun c => p c ∧ c.ts < t) ++ l.filter fun c => p c ∧ t ≤ c.ts := by
  induction l with
  | nil => rfl
  | cons c l ih =>
      obtain ⟨hfirst, hrest⟩ := List.pairwise_cons.mp h
      rcases lt_or_ge c.ts t with hlt | hge
      · have hnot : ¬ t ≤ c.ts := not_le.mpr hlt
        cases hp : p c <;> simp [hp, hlt, hnot, ih hrest]
      · -- nothing from here on is before the moment
        have hlate : ∀ c' ∈ c :: l, t ≤ c'.ts :=
          List.forall_mem_cons.mpr ⟨hge, fun c' hc' => hge.trans (hfirst c' hc').le⟩
        have hnone : ((c :: l).filter fun c => p c ∧ c.ts < t) = [] :=
          List.filter_eq_nil_iff.mpr fun c' hc' hdecide =>
            absurd (of_decide_eq_true hdecide).2 (not_lt.mpr (hlate c' hc'))
        have hall : ((c :: l).filter fun c => p c ∧ t ≤ c.ts) = (c :: l).filter p :=
          List.filter_congr fun c' hc' => by simp [hlate c' hc']
        rw [hnone, hall, List.nil_append]

theorem firstOfMonth_le_succ (m : ℤ) : firstOfMonth m ≤ firstOfMonth (m + 1) := by
  have := firstOfMonth_le_iff.mp (le_refl (firstOfMonth (m + 1)))
  exact firstOfMonth_le_iff.mpr (by omega)

/-- The months of a range hold its bars from the first of them on. -/
theorem flatMap_utcMonths {s : CandleSource} {start stop : Timestamp} {left : ℕ} {months : List ℤ}
    (h : utcMonths stop left m = .ok months) :
    (months.flatMap fun m => (s.month i tf m).filter fun c => start ≤ c.ts ∧ c.ts < stop) =
      (s.bars i tf).filter fun c => firstOfMonth m ≤ c.ts ∧ start ≤ c.ts ∧ c.ts < stop := by
  induction left generalizing m months with
  | zero =>
      rw [utcMonths] at h
      split_ifs at h with hstop
      obtain rfl := Except.ok.inj h
      refine (List.filter_eq_nil_iff.mpr fun c _ hc => ?_).symm
      obtain ⟨hm, -, hlt⟩ := of_decide_eq_true hc
      exact absurd hlt (not_lt.mpr (hstop.trans hm))
  | succ left ih =>
      rw [utcMonths] at h
      split_ifs at h with hstop
      · obtain rfl := Except.ok.inj h
        refine (List.filter_eq_nil_iff.mpr fun c _ hc => ?_).symm
        obtain ⟨hm, -, hlt⟩ := of_decide_eq_true hc
        exact absurd hlt (not_lt.mpr (hstop.trans hm))
      · split at h
        · cases h
        · rename_i rest hrest
          obtain rfl := Except.ok.inj h
          rw [List.flatMap_cons, ih hrest, filter_split (s.oldest_first i tf)
            (fun c => firstOfMonth m ≤ c.ts ∧ start ≤ c.ts ∧ c.ts < stop) (firstOfMonth (m + 1))]
          congr 1
          · rw [CandleSource.month, CandleSource.getRange, List.filter_filter]
            refine List.filter_congr fun c _ => ?_
            simp only [decide_eq_true_eq, ← Bool.decide_and]
            exact decide_eq_decide.mpr (by tauto)
          · refine List.filter_congr fun c _ => ?_
            have := firstOfMonth_le_succ m
            simp only [decide_eq_true_eq]
            refine decide_eq_decide.mpr ⟨fun h => ⟨⟨this.trans h.1, h.2⟩, h.1⟩, fun h => ?_⟩
            exact ⟨h.2, h.1.2⟩

theorem utcMonths_ok {stop : Timestamp} {left : ℕ} (hm : m + left = lastMonth)
    (hstop : stop ≤ firstOfMonth lastMonth) :
    ∃ months, utcMonths stop left m = .ok months ∧
      ∀ m' ∈ months, m ≤ m' ∧ firstOfMonth m' < stop := by
  induction left generalizing m with
  | zero =>
      rw [utcMonths, if_pos (by rwa [show m = lastMonth by omega])]
      exact ⟨[], rfl, nofun⟩
  | succ left ih =>
      rw [utcMonths]
      split_ifs with hdone
      · exact ⟨[], rfl, nofun⟩
      · obtain ⟨months, hmonths, hall⟩ := ih (m := m + 1) (by omega)
        rw [hmonths]
        refine ⟨m :: months, rfl, List.forall_mem_cons.mpr ⟨⟨le_rfl, not_le.mp hdone⟩,
          fun m' hm' => ?_⟩⟩
        obtain ⟨hle, hlt⟩ := hall m' hm'
        exact ⟨by omega, hlt⟩

/-! ## A transparent cache -/

variable {start stop : Zoned}

theorem Kept.getRange (hcodec : ∀ bars, settings.decode (settings.encode bars) = bars)
    (h : Kept settings w) (hmeets : Meets settings w i tf start stop) :
    (getRange settings i tf start stop w).1 =
        .ok (w.source.getRange i tf start.moment stop.moment) ∧
      Kept settings (getRange settings i tf start stop w).2 := by
  unfold CachingCandleReader.getRange
  split_ifs with hempty
  · refine ⟨?_, h⟩
    rw [CandleSource.getRange, List.filter_eq_nil_iff.mpr fun c _ hc => ?_]
    obtain ⟨hge, hlt⟩ := of_decide_eq_true hc
    exact absurd hlt (not_lt.mpr (hempty.trans hge))
  · dsimp only
    have hfirst : start.wall.monthIndex + (lastMonth - start.wall.monthIndex).toNat = lastMonth := by
      have hlast : Timestamp.latest.monthIndex = lastMonth := by decide
      have hle : start.wall.monthIndex ≤ lastMonth := hlast ▸ monthIndex_mono start.le_latest
      omega
    obtain ⟨months, hmonths, hall⟩ := utcMonths_ok hfirst hmeets.representable
    rw [hmonths]
    obtain ⟨hread, hkept⟩ := @readMonths_spec _ _ _ _ _ hcodec start.moment stop.moment _ h
      fun m hm data => hmeets.own_files m data (hall m hm).1 (hall m hm).2
    dsimp only
    rw [hread, flatMap_utcMonths hmonths]
    refine ⟨congrArg _ (List.filter_congr fun c hc => decide_eq_decide.mpr ?_), hkept⟩
    exact ⟨And.right, fun h => ⟨hmeets.none_before c hc h.1 h.2, h⟩⟩

theorem getRange_writes (i : String) (tf : Timeframe) (start stop : Zoned) (w : CacheWorld β) :
    WritesFinal settings w (CachingCandleReader.getRange settings i tf start stop w).2 := by
  unfold CachingCandleReader.getRange
  split_ifs
  · exact fun p hp => absurd rfl hp
  · dsimp only
    split
    · exact fun p hp => absurd rfl hp
    · exact (readMonths_writes i tf start.moment stop.moment _ w).1

theorem kept_of_reached (hcodec : ∀ bars, settings.decode (settings.encode bars) = bars)
    (h : Reached settings w) : Kept settings w := by
  induction h with
  | start now source => exact ⟨nofun, nofun⟩
  | read _ i tf start stop hmeets ih => exact (ih.getRange hcodec hmeets).2
  | advance _ now hnow ih =>
      have hmono : ∀ {m}, isFinal settings _ m = true → isFinal settings now m = true := fun h =>
        decide_eq_true ((of_decide_eq_true h).trans hnow)
      exact ⟨fun p data hdata => by
          obtain ⟨i, hp, hfinal, hrest⟩ := ih.files p data hdata
          exact ⟨i, hp, hmono hfinal, hrest⟩,
        fun i tf m bars hbars => (ih.memory i tf m bars hbars).imp_left hmono⟩
  | change _ source hsource ih =>
      exact ⟨fun p data hdata => by
          obtain ⟨i, hp, hfinal, hne, hbars⟩ := ih.files p data hdata
          exact ⟨i, hp, hfinal, hne, hbars.trans (hsource i _ _ hfinal).symm⟩,
        fun i tf m bars hbars => by
          obtain ⟨hfinal, hbars⟩ := ih.memory i tf m bars hbars
          exact ⟨hfinal, hbars.trans (hsource i tf m hfinal).symm⟩⟩
  | restart _ ih => exact ⟨ih.files, nofun⟩
  | clear _ _ => exact ⟨nofun, nofun⟩

end Kept

/-! ## One bar at the end of January -/

namespace January

def day : Duration := 86400 * second

theorem price_le : (⟨100⟩ : Money) ≤ ⟨100⟩ := le_rfl

/-- In the evening of the 31st. -/
def bar : Candle :=
  ⟨"I", .m1, 30 * day + 72000 * second, ⟨100⟩, ⟨100⟩, ⟨100⟩, ⟨100⟩, 1, false, price_le, price_le,
    price_le, price_le⟩

def bars (i : String) (tf : Timeframe) : List Candle := if i = "I" ∧ tf = .m1 then [bar] else []

theorem bars_cases (i : String) (tf : Timeframe) : (bars i tf = [bar] ∧ i = "I") ∨ bars i tf = [] := by
  unfold bars
  split_ifs with h
  · exact .inl ⟨rfl, h.1⟩
  · exact .inr rfl

theorem oldest_first (i : String) (tf : Timeframe) : (bars i tf).Pairwise (·.ts < ·.ts) := by
  rcases bars_cases i tf with ⟨h, -⟩ | h <;> rw [h]
  · exact List.pairwise_singleton _ _
  · exact .nil

theorem of_instrument (i : String) (tf : Timeframe) : ∀ c ∈ bars i tf, c.instrumentId = i := by
  rcases bars_cases i tf with ⟨h, rfl⟩ | h <;> rw [h]
  · exact List.forall_mem_singleton.mpr rfl
  · exact nofun

def source : CandleSource := ⟨bars, oldest_first, of_instrument⟩

/-- A codec that keeps the bars as they are. -/
def plain : CacheSettings (List Candle) := ⟨id, id, 2 * day⟩

def world : CacheWorld (List Candle) := ⟨100 * day, source, fun _ => none, fun _ _ _ => none⟩

theorem offset_lt : |(19800 * second : Duration)| < 86400 * second := by decide

theorem zero_lt : |(0 : Duration)| < 86400 * second := by decide

theorem february_le : Timestamp.earliest ≤ (31 * day - 19800 * second) + 19800 * second := by decide

theorem le_february : (31 * day - 19800 * second) + 19800 * second ≤ Timestamp.latest := by decide

theorem epoch_le : Timestamp.earliest ≤ 0 + 0 := by decide

theorem le_epoch : (0 : Timestamp) + 0 ≤ Timestamp.latest := by decide

theorem march_le : Timestamp.earliest ≤ 59 * day + 0 := by decide

theorem le_march : 59 * day + 0 ≤ Timestamp.latest := by decide

def epoch : Zoned := ⟨0, 0, zero_lt, epoch_le, le_epoch⟩

/-- The first of February, as India has it. -/
def february : Zoned := ⟨31 * day - 19800 * second, 19800 * second, offset_lt, february_le, le_february⟩

def march : Zoned := ⟨59 * day, 0, zero_lt, march_le, le_march⟩

end January

end CachingCandleReader

end Emporos
