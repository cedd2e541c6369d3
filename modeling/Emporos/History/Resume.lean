import Emporos.History.Gaps
import Emporos.Marketdata.Batches
/-!
# Resuming a backfill

What a sequence of runs leaves behind, whatever fails and wherever it is
killed. That a complete day was fetched after its close and stored
(`Receipt.Earns`), and that it is left alone from then on (`Settled`), is
what holds of runs whose plans are `Tidy`: every day they lack has closed,
and no complete day lies between two that are asked for together.
-/

namespace Emporos

namespace History

open Async World Timestamp

namespace SessionGrid

variable {grid : SessionGrid} {d d' : ℤ} {t : Timestamp}

theorem openAt_mono (h : d ≤ d') : grid.window.openAt d ≤ grid.window.openAt d' := by
  simp only [SessionWindow.openAt, Timestamp.day, second, Timestamp, Duration] at *
  omega

theorem closeAt_mono (h : d ≤ d') : grid.window.closeAt d ≤ grid.window.closeAt d' := by
  simp only [SessionWindow.closeAt, Timestamp.day, second, Timestamp, Duration] at *
  omega

/-- One session is over before the next begins. -/
theorem closeAt_lt_openAt (h : d < d') : grid.window.closeAt d < grid.window.openAt d' := by
  have hopen := grid.open_nonneg
  have hclose := grid.close_lt
  simp only [SessionWindow.closeAt, SessionWindow.openAt, Timestamp.day, second, Timestamp,
    Duration] at *
  omega

/-- A moment of the session of its own day. -/
theorem between_of_contains (h : grid.window.contains t = true) :
    grid.window.openAt (sessionDate t) ≤ t ∧ t < grid.window.closeAt (sessionDate t) := by
  obtain ⟨-, hopen, hclose⟩ := SessionWindow.contains_iff.mp h
  simp only [SessionWindow.closeAt, SessionWindow.openAt, sessionDate, localTime, indiaOffset,
    Timestamp.day, second, Timestamp, Duration] at *
  omega

theorem sessionDate_of_between (hopen : grid.window.openAt d ≤ t)
    (hclose : t < grid.window.closeAt d) : sessionDate t = d := by
  have hpos := grid.open_nonneg
  have hlt := grid.close_lt
  simp only [SessionWindow.closeAt, SessionWindow.openAt, sessionDate, indiaOffset, Timestamp.day,
    second, Timestamp, Duration] at *
  omega

/-- A minute's bucket starts on its own day. -/
theorem sessionDate_start {tf : DerivedTimeframe} (h : grid.window.contains t = true) :
    sessionDate (BucketRule.start grid.window tf t) = sessionDate t := by
  obtain ⟨-, hopen, -⟩ := SessionWindow.contains_iff.mp h
  have hpos := grid.open_nonneg
  cases tf <;>
    simp only [BucketRule.start, SessionWindow.openAt, DerivedTimeframe.step,
      DerivedTimeframe.minutes, sessionDate, localTime, indiaOffset, minute, Timestamp.day, second,
      Timestamp, Duration] at * <;>
    omega

end SessionGrid

/-! ## Complete days -/

/-- A day is recorded complete. -/
def Complete (recorded : List DayCoverage) (i : String) (d : ℤ) : Prop :=
  (coverageOf recorded i .m1 d).any (·.complete) = true

instance (recorded : List DayCoverage) (i : String) (d : ℤ) : Decidable (Complete recorded i d) :=
  inferInstanceAs (Decidable (_ = true))

variable {o : BackfillOrchestrator} {w w' w'' : World} {i : String} {d first last : ℤ}
  {recorded coverages : List DayCoverage}

/-- What a read of a range says of a day of it. -/
theorem lookup_daysOf (hfirst : first ≤ d) (hlast : d ≤ last) :
    Table.lookup DayCoverage.day d (daysOf recorded i .m1 first last) =
      coverageOf recorded i .m1 d := by
  rw [Table.lookup, daysOf, List.find?_filter, coverageOf, Table.lookup]
  congr 1
  funext c
  rw [Bool.eq_iff_iff]
  simp only [DayCoverage.key, Bool.decide_and, Bool.and_eq_true, decide_eq_true_eq, Prod.mk.injEq]
  constructor
  · rintro ⟨⟨hi, htf, -, -⟩, hd⟩
    exact ⟨hi, htf, hd⟩
  · rintro ⟨hi, htf, hd⟩
    exact ⟨⟨hi, htf, by omega, by omega⟩, hd⟩

theorem mem_missing : d ∈ o.missing (daysOf recorded i .m1 first last) first last ↔
    d ∈ o.grid.tradingDays first last ∧ ¬ Complete recorded i d := by
  rw [BackfillOrchestrator.missing, List.mem_filter]
  refine and_congr_right fun hd => ?_
  obtain ⟨-, hfirst, hlast⟩ := SessionGrid.mem_tradingDays.mp hd
  rw [lookup_daysOf hfirst hlast, Complete]
  simp

theorem coverageOf_record : coverageOf (record recorded coverages) i .m1 d =
    (Table.latest DayCoverage.key (i, .m1, d) coverages).or (coverageOf recorded i .m1 d) :=
  Table.lookup_foldl_upsert

/-- A day becomes complete by a record of it. -/
theorem complete_record (h : Complete (record recorded coverages) i d) :
    Complete recorded i d ∨ ∃ c ∈ coverages, c.key = (i, .m1, d) := by
  rw [Complete, coverageOf_record] at h
  rcases hlatest : Table.latest DayCoverage.key (i, .m1, d) coverages with _ | c
  · rw [hlatest, Option.none_or] at h
    exact Or.inl h
  · exact Or.inr ⟨c, Table.mem_of_latest hlatest, Table.key_of_latest hlatest⟩

/-- Records of complete days leave no day less complete. -/
theorem Complete.record (hall : ∀ c ∈ coverages, c.complete = true) (h : Complete recorded i d) :
    Complete (World.record recorded coverages) i d := by
  rw [Complete, coverageOf_record]
  rcases hlatest : Table.latest DayCoverage.key (i, .m1, d) coverages with _ | c
  · rw [Option.none_or]
    exact h
  · exact hall c (Table.mem_of_latest hlatest)

/-! ## What is to hold -/

/-- The call asks for some of the session of a day, or writes a bar of it. -/
def Call.Touches (grid : SessionGrid) (i : String) (d : ℤ) : Call → Prop
  | .fetch i' _ start stop => i' = i ∧
      ∃ t, grid.window.openAt d ≤ t ∧ t < grid.window.closeAt d ∧ start ≤ t ∧ t < stop
  | .upsert candles => ∃ b ∈ candles, b.instrumentId = i ∧ sessionDate b.ts = d
  | _ => False

/-- A request with its response, what was stored of it, and what was then
recorded. -/
structure Receipt where
  asked : Timestamp
  start : Timestamp
  stop : Timestamp
  fetched : List Candle
  wrote : Timestamp
  candles : List Candle
  saved : Timestamp
  coverages : List DayCoverage
  answer : Except PyError Unit

/-- The day was recorded by the save, after all the bars that the broker
returned of its session were stored, and the session was over when they were
asked for. The trace is newest first. -/
structure Receipt.Earns (r : Receipt) (grid : SessionGrid) (trace : List Mark) (i : String) (d : ℤ) :
    Prop where
  order : [Mark.called r.saved (.save r.coverages) r.answer,
    Mark.called r.wrote (.upsert r.candles) (.ok ()),
    Mark.called r.asked (.fetch i .m1 r.start r.stop) (.ok r.fetched)].Sublist trace
  recorded : ∃ c ∈ r.coverages, c.key = (i, .m1, d) ∧ c.complete = true
  stored : ∀ b ∈ r.fetched, grid.window.contains b.ts = true → sessionDate b.ts = d → b ∈ r.candles
  start_le : r.start ≤ grid.window.openAt d
  le_stop : grid.window.closeAt d ≤ r.stop
  closed : grid.window.closeAt d ≤ r.asked

/-- A request for at most so many days. -/
def Mark.Short (o : BackfillOrchestrator) : Mark → Prop
  | .called _ (.fetch _ tf start stop) _ => tf = .m1 ∧ ∃ s : Span ℤ,
      start = o.grid.window.openAt s.first ∧ stop = o.grid.window.closeAt s.last ∧
        s.last - s.first + 1 ≤ o.chunkDays
  | _ => True

/-- The runs that began after a day was complete have left it alone. -/
def Settled (grid : SessionGrid) (trace : List Mark) (i : String) (d : ℤ) : Prop :=
  ∀ newer job recorded older, trace = newer ++ .began job recorded :: older →
    Complete recorded i d → ∀ moment c answer, Mark.called moment c answer ∈ newer →
      ¬ c.Touches grid i d

/-- What holds of the world between two calls. -/
structure Good (o : BackfillOrchestrator) (w : World) : Prop where
  earned : ∀ i d, Complete w.coverage i d → ∃ r : Receipt, r.Earns o.grid w.trace i d
  trading : ∀ i d, Complete w.coverage i d → o.grid.calendar d = true
  short : ∀ mark ∈ w.trace, mark.Short o
  settled : ∀ i d, Settled o.grid w.trace i d
  /-- What a run has found complete still is. -/
  stays : ∀ newer job recorded older, w.trace = newer ++ .began job recorded :: older →
    ∀ i d, Complete recorded i d → Complete w.coverage i d

/-! ## Tidy plans -/

/-- A day that a plan lacks. -/
def Lacks (o : BackfillOrchestrator) (w : World) (i : String) (first last d : ℤ) : Prop :=
  d ∈ o.grid.tradingDays first last ∧ ¬ Complete w.coverage i d

/-- Every day that is lacking has closed, and between a day that opens a
request and another that is asked for with it no day is complete. -/
structure Tidy (o : BackfillOrchestrator) (w : World) (i : String) (first last : ℤ) : Prop where
  closed : ∀ d, Lacks o w i first last d → o.grid.window.closeAt d ≤ w.clock
  unbroken : ∀ s, Span.Opens o.chunkDays (Lacks o w i first last) s → ∀ m,
    Lacks o w i first last m → m < s + o.chunkDays → ∀ d, s < d → d < m → ¬ Complete w.coverage i d

/-- Where a plan is made, it is tidy. -/
def Planned (o : BackfillOrchestrator) (w : World) : (c : Call) → c.Answer → World → Prop
  | .getDays i _ first last, .ok _, _ => Tidy o w i first last
  | _, _, _ => True

/-! ## One call -/

/-- Time has gone by, and calls were made, of one job. -/
structure Ran (w w' : World) : Prop where
  clock : w.clock ≤ w'.clock
  trace : ∃ new, w'.trace = new ++ w.trace ∧
    ∀ mark ∈ new, ∃ moment c answer, mark = .called moment c answer

namespace Ran

theorem refl (w : World) : Ran w w := ⟨le_rfl, [], rfl, by simp⟩

theorem trans (h : Ran w w') (h' : Ran w' w'') : Ran w w'' := by
  obtain ⟨new, hnew, hcalls⟩ := h.trace
  obtain ⟨new', hnew', hcalls'⟩ := h'.trace
  refine ⟨h.clock.trans h'.clock, new' ++ new, by rw [hnew', hnew, List.append_assoc], ?_⟩
  intro mark hmark
  exact (List.mem_append.mp hmark).elim (hcalls' mark) (hcalls mark)

theorem sublist (h : Ran w w') : w.trace.Sublist w'.trace := by
  obtain ⟨new, hnew, -⟩ := h.trace
  rw [hnew]
  exact List.sublist_append_right ..

end Ran

theorem ran_of_waits (h : Relation.ReflTransGen Waits w w') :
    Ran w w' ∧ w'.coverage = w.coverage ∧ w'.trace = w.trace := by
  induction h with
  | refl => exact ⟨.refl w, rfl, rfl⟩
  | tail _ hwait ih =>
      obtain ⟨t, hle, rfl⟩ := hwait
      exact ⟨⟨ih.1.clock.trans hle, ih.1.trace⟩, ih.2⟩

theorem ran_of_step {c : Call} {a : c.Answer} (h : World.Step w c a w') : Ran w w' :=
  ⟨h.2.1.ge, [.called w.clock c a], h.2.2, fun _ hmark =>
    ⟨_, _, _, List.mem_singleton.mp hmark⟩⟩

/-- Only a save changes what is recorded, by records of it. -/
theorem coverage_of_step {c : Call} {a : c.Answer} (h : World.Step w c a w') :
    ∃ part, w'.coverage = record w.coverage part ∧
      (part = [] ∨ ∃ coverages, c = .save coverages ∧ part.Sublist coverages) := by
  obtain ⟨hserves, -⟩ := h
  generalize w'.bars = bars at hserves
  generalize w'.coverage = recorded at hserves ⊢
  cases hserves with
  | saved => exact ⟨_, rfl, Or.inr ⟨_, rfl, .refl _⟩⟩
  | savedPart hpart => exact ⟨_, rfl, Or.inr ⟨_, rfl, hpart⟩⟩
  | _ => exact ⟨[], rfl, Or.inl rfl⟩

theorem Receipt.Earns.mono {r : Receipt} {grid : SessionGrid} {trace trace' : List Mark}
    (hsub : trace.Sublist trace') (h : r.Earns grid trace i d) : r.Earns grid trace' i d :=
  { h with order := h.order.trans hsub }

/-- What the others do is let time go by. -/
theorem Good.waits (h : Good o w) (hw : Waits w w') : Good o w' := by
  obtain ⟨t, -, rfl⟩ := hw
  exact ⟨h.earned, h.trading, h.short, h.settled, h.stays⟩

/-- A mark more, before a run that has begun. -/
theorem split_cons {trace newer older : List Mark} {moment : Timestamp} {c : Call} {a : c.Answer}
    {job : Job} (h : Mark.called moment c a :: trace = newer ++ .began job recorded :: older) :
    ∃ rest, newer = .called moment c a :: rest ∧ trace = rest ++ .began job recorded :: older := by
  rcases newer with _ | ⟨mark, rest⟩
  · cases h
  · obtain ⟨rfl, htrace⟩ := List.cons.inj h
    exact ⟨rest, rfl, htrace⟩

/-- **A call that touches no complete day.** What it makes complete has to
be earned. -/
theorem Good.step {c : Call} {a : c.Answer} (h : Good o w) (hs : World.Step w c a w')
    (hshort : (Mark.called w.clock c a).Short o)
    (hfree : ∀ i d, Complete w.coverage i d → ¬ c.Touches o.grid i d)
    (hsave : ∀ coverages, c = .save coverages → ∀ r ∈ coverages, r.complete = true ∧
      ∀ i d, r.key = (i, .m1, d) → o.grid.calendar d = true ∧
        ∃ receipt : Receipt, receipt.Earns o.grid w'.trace i d) : Good o w' := by
  have htrace := hs.2.2
  have hsub : w.trace.Sublist w'.trace := (ran_of_step hs).sublist
  obtain ⟨part, hpart, hfrom⟩ := coverage_of_step hs
  have hrecords : ∀ r ∈ part, r.complete = true ∧ ∀ i d, r.key = (i, .m1, d) →
      o.grid.calendar d = true ∧ ∃ receipt : Receipt, receipt.Earns o.grid w'.trace i d := by
    rcases hfrom with rfl | ⟨coverages, hc, hsub⟩
    · simp
    · exact fun r hr => hsave coverages hc r (hsub.subset hr)
  refine ⟨fun i d hd => ?_, fun i d hd => ?_, fun mark hmark => ?_, fun i d => ?_, ?_⟩
  · rw [hpart] at hd
    rcases complete_record hd with hd | ⟨r, hr, hkey⟩
    · obtain ⟨receipt, hearns⟩ := h.earned i d hd
      exact ⟨receipt, hearns.mono hsub⟩
    · exact ((hrecords r hr).2 i d hkey).2
  · rw [hpart] at hd
    rcases complete_record hd with hd | ⟨r, hr, hkey⟩
    · exact h.trading i d hd
    · exact ((hrecords r hr).2 i d hkey).1
  · rw [htrace] at hmark
    rcases List.mem_cons.mp hmark with rfl | hmark
    · exact hshort
    · exact h.short mark hmark
  · intro newer job recorded older hsplit hd moment c' a' hmem
    rw [htrace] at hsplit
    obtain ⟨rest, rfl, hrest⟩ := split_cons hsplit
    rcases List.mem_cons.mp hmem with hmem | hmem
    · cases hmem
      exact hfree i d (h.stays rest job recorded older hrest i d hd)
    · exact h.settled i d rest job recorded older hrest hd moment c' a' hmem
  · intro newer job recorded older hsplit i d hd
    rw [htrace] at hsplit
    obtain ⟨rest, rfl, hrest⟩ := split_cons hsplit
    rw [hpart]
    exact (h.stays rest job recorded older hrest i d hd).record fun r hr => (hrecords r hr).1

/-! ## The rules -/

variable (o) in
/-- What every program in the setting of the runs owes. -/
def resumeRules (kind : Job → Prop) :
    Rules ((setting (Job.program o) kind).restrict (Planned o)) where
  inv := Good o
  guar _ _ := True
  guar_refl _ := trivial
  guar_trans _ _ := trivial
  others_keep h hw := ⟨h.waits hw, trivial⟩

/-- The rule of a call other than a save. -/
theorem keeps_call {kind : Job → Prop} {α : Type} {c : Call} {k : c.Answer → Program α}
    {Q : Except PyError α → World → Prop} (hsave : ∀ coverages, c ≠ .save coverages)
    (hshort : ∀ moment a, (Mark.called moment c a).Short o)
    (hfree : ∀ i d, Complete w.coverage i d → ¬ c.Touches o.grid i d)
    (hk : ∀ a w' w'', Ran w w' → w'.coverage = w.coverage → World.Step w' c a w'' →
      Planned o w' c a w'' → Good o w'' → w''.coverage = w.coverage →
      (resumeRules o kind).Keeps (k a) Q w'') :
    (resumeRules o kind).Keeps (Task.call (I := calls) c k) Q w := by
  intro w' hgood hothers a w'' hs
  obtain ⟨hran, hsame, -⟩ := ran_of_waits hothers
  have hstep : World.Step w' c a w'' := hs.1
  have hgood' : Good o w'' := Good.step hgood hstep (hshort _ _) (hsame ▸ hfree)
    fun coverages hc => absurd hc (hsave coverages)
  have hcoverage : w''.coverage = w.coverage := by
    obtain ⟨part, hpart, hfrom⟩ := coverage_of_step hstep
    rcases hfrom with rfl | ⟨coverages, hc, -⟩
    · rw [hpart, ← hsame]
      rfl
    · exact absurd hc (hsave coverages)
  exact ⟨hgood', trivial, hk a w' w'' hran hsame hstep hs.2 hgood' hcoverage⟩

/-! ## One chunk -/

/-- A chunk none of whose days is complete, and all of whose trading days
have closed. -/
structure Ready (o : BackfillOrchestrator) (w : World) (chunk : Chunk) : Prop where
  lacking : ∀ d, chunk.span.Covers d → ¬ Complete w.coverage chunk.instrument d
  closed : ∀ d, chunk.span.Covers d → o.grid.calendar d = true →
    o.grid.window.closeAt d ≤ w.clock
  short : chunk.span.last - chunk.span.first + 1 ≤ o.chunkDays

/-- A request of a day was made since. -/
def Asked (grid : SessionGrid) (w w' : World) (i : String) (d : ℤ) : Prop :=
  ∃ new, w'.trace = new ++ w.trace ∧ ∃ moment start stop answer,
    Mark.called moment (.fetch i .m1 start stop) answer ∈ new ∧
      start ≤ grid.window.openAt d ∧ grid.window.closeAt d ≤ stop

/-- What became complete is of the chunks. -/
def Only (chunks : List Chunk) (w w' : World) : Prop :=
  ∀ i d, Complete w'.coverage i d → Complete w.coverage i d ∨
    ∃ chunk ∈ chunks, chunk.instrument = i ∧ chunk.span.Covers d

variable {chunk : Chunk} {chunks : List Chunk} {report : BackfillReport} {kind : Job → Prop}

theorem Asked.trans (h : Ran w w') (h' : Asked o.grid w' w'' i d) : Asked o.grid w w'' i d := by
  obtain ⟨new, hnew, -⟩ := h.trace
  obtain ⟨new', hnew', moment, start, stop, a, hmem, hspan⟩ := h'
  exact ⟨new' ++ new, by rw [hnew', hnew, List.append_assoc], moment, start, stop, a,
    List.mem_append_left _ hmem, hspan⟩

theorem Asked.mono (h : Asked o.grid w w' i d) (h' : Ran w' w'') : Asked o.grid w w'' i d := by
  obtain ⟨new', hnew', -⟩ := h'.trace
  obtain ⟨new, hnew, moment, start, stop, a, hmem, hspan⟩ := h
  exact ⟨new' ++ new, by rw [hnew', hnew, List.append_assoc], moment, start, stop, a,
    List.mem_append_right _ hmem, hspan⟩

/-- A bar of a session of the span is of a day of the span. -/
theorem covers_of_kept {fetched : List Candle} {b : Candle} (hb : b ∈ o.kept chunk fetched) :
    o.grid.window.contains b.ts = true ∧ chunk.span.Covers (sessionDate b.ts) := by
  obtain ⟨-, hkept⟩ := List.mem_filter.mp hb
  obtain ⟨hcontains, hfirst, hlast⟩ := of_decide_eq_true hkept
  obtain ⟨hopen, hclose⟩ := SessionGrid.between_of_contains hcontains
  refine ⟨hcontains, ?_, ?_⟩
  · by_contra hlt
    have hover : o.grid.window.closeAt _ < o.grid.window.openAt _ :=
      SessionGrid.closeAt_lt_openAt (not_le.mp hlt)
    exact lt_irrefl _ ((hclose.trans hover).trans_le hfirst)
  · by_contra hlt
    have hover : o.grid.window.closeAt _ < o.grid.window.openAt _ :=
      SessionGrid.closeAt_lt_openAt (not_le.mp hlt)
    exact lt_irrefl _ ((hlast.trans hover).trans_le hopen)

/-- What is written of a response is of the chunk. -/
theorem covers_of_withHigher {fetched candles : List Candle} {b : Candle}
    (hown : ∀ c ∈ fetched, c.instrumentId = chunk.instrument)
    (h : o.withHigher (o.kept chunk fetched) = .ok candles) (hb : b ∈ candles) :
    b.instrumentId = chunk.instrument ∧ chunk.span.Covers (sessionDate b.ts) := by
  have hkept : ∀ c ∈ o.kept chunk fetched, c.instrumentId = chunk.instrument ∧
      chunk.span.Covers (sessionDate c.ts) := fun c hc =>
    ⟨hown c (List.mem_of_mem_filter hc), (covers_of_kept hc).2⟩
  unfold BackfillOrchestrator.withHigher at h
  split at h
  · obtain ⟨higher, hderive, h⟩ := exists_of_bind h
    cases h
    rcases List.mem_append.mp hb with hb | hb
    · exact hkept b hb
    · obtain ⟨c, hc, tf, hinst, -, hts⟩ := ((derive_eq_ok hderive).2 b).mp hb |>.exists_minute
      rw [hinst, hts, SessionGrid.sessionDate_start (covers_of_kept hc).1]
      exact hkept c hc
  · cases h
    exact hkept b hb

/-- What is written of a response has all of it that is kept. -/
theorem mem_of_withHigher {bars candles : List Candle} {b : Candle}
    (h : o.withHigher bars = .ok candles) (hb : b ∈ bars) : b ∈ candles := by
  unfold BackfillOrchestrator.withHigher at h
  split at h
  · obtain ⟨higher, -, h⟩ := exists_of_bind h
    cases h
    exact List.mem_append_left _ hb
  · cases h
    exact hb

/-- Every bar of a session of a day of the span is kept. -/
theorem mem_kept {fetched : List Candle} {b : Candle} (hb : b ∈ fetched)
    (hcontains : o.grid.window.contains b.ts = true) (hcovers : chunk.span.Covers (sessionDate b.ts)) :
    b ∈ o.kept chunk fetched := by
  obtain ⟨hopen, hclose⟩ := SessionGrid.between_of_contains hcontains
  refine List.mem_filter.mpr ⟨hb, decide_eq_true ⟨hcontains, ?_, ?_⟩⟩
  · exact (SessionGrid.openAt_mono hcovers.1).trans hopen
  · exact hclose.trans_le (SessionGrid.closeAt_mono hcovers.2)

/-- A request of the span touches no day outside of it. -/
theorem covers_of_touches {i' : String} (h : (Call.fetch i' .m1 (o.grid.window.openAt chunk.span.first)
    (o.grid.window.closeAt chunk.span.last)).Touches o.grid i d) :
    i' = i ∧ chunk.span.Covers d := by
  obtain ⟨hi, t, hopen, hclose, hfirst, hlast⟩ := h
  refine ⟨hi, ?_, ?_⟩
  · by_contra hlt
    have hover : o.grid.window.closeAt _ < o.grid.window.openAt _ :=
      SessionGrid.closeAt_lt_openAt (not_le.mp hlt)
    exact lt_irrefl _ ((hclose.trans hover).trans_le hfirst)
  · by_contra hlt
    have hover : o.grid.window.closeAt _ < o.grid.window.openAt _ :=
      SessionGrid.closeAt_lt_openAt (not_le.mp hlt)
    exact lt_irrefl _ ((hlast.trans hover).trans_le hopen)

/-- What a chunk ends in: the process went on, and asked for its days if
the run goes on. -/
def ChunkDone (o : BackfillOrchestrator) (chunk : Chunk) (w : World)
    (r : Except PyError BackfillReport) (w' : World) : Prop :=
  Good o w' ∧ Ran w w' ∧ Only [chunk] w w' ∧ ∀ report, r = .ok report → ∀ d, chunk.span.Covers d →
    Asked o.grid w w' chunk.instrument d

theorem only_of_coverage (h : w'.coverage = w.coverage) : Only chunks w w' :=
  fun _ _ hd => Or.inl (h ▸ hd)

theorem fetched_of_step {tf : Timeframe} {start stop : Timestamp}
    {fetched : List Candle} (h : World.Step w (.fetch i tf start stop) (.ok fetched) w') :
    ∀ b ∈ fetched, b.instrumentId = i ∧ b.timeframe = tf := by
  obtain ⟨hserves, -⟩ := h
  generalize w'.bars = bars at hserves
  generalize w'.coverage = recorded at hserves
  cases hserves with
  | fetched hown => exact hown

/-- A response that is stored, and the coverage that is then recorded. -/
theorem keeps_storeFetched {asked : Timestamp} {fetched : List Candle} (hgood : Good o w)
    (hready : Ready o w chunk)
    (hown : ∀ c ∈ fetched, c.instrumentId = chunk.instrument)
    (hclosed : ∀ d, chunk.span.Covers d → o.grid.calendar d = true →
      o.grid.window.closeAt d ≤ asked)
    (hfetch : [Mark.called asked (.fetch chunk.instrument .m1
      (o.grid.window.openAt chunk.span.first) (o.grid.window.closeAt chunk.span.last))
        (.ok fetched)].Sublist w.trace) :
    (resumeRules o kind).Keeps (o.storeFetched chunk report fetched)
      (fun _ w' => Good o w' ∧ Ran w w' ∧ Only [chunk] w w') w := by
  unfold BackfillOrchestrator.storeFetched
  dsimp only
  rcases hhigher : o.withHigher (o.kept chunk fetched) with e | candles
  · exact ⟨hgood, .refl w, only_of_coverage rfl⟩
  refine keeps_call (fun _ h => (by cases h)) (fun _ _ => trivial) ?_
    fun answer w₁ w₂ hran₁ _ hupsert _ hgood₂ hsame₂ => ?_
  · rintro i d hd ⟨b, hb, rfl, rfl⟩
    obtain ⟨hinst, hcovers⟩ := covers_of_withHigher hown hhigher hb
    exact hready.lacking _ hcovers (hinst ▸ hd)
  have hran₂ : Ran w w₂ := hran₁.trans (ran_of_step hupsert)
  rcases answer with e | u
  · exact ⟨hgood₂, hran₂, only_of_coverage hsame₂⟩
  have hwrote : [Mark.called w₁.clock (.upsert candles) (.ok ()),
      Mark.called asked (.fetch chunk.instrument .m1 (o.grid.window.openAt chunk.span.first)
        (o.grid.window.closeAt chunk.span.last)) (.ok fetched)].Sublist w₂.trace := by
    rw [hupsert.2.2]
    exact .cons_cons _ (hfetch.trans hran₁.sublist)
  refine keeps_call (fun _ h => (by cases h)) (fun _ _ => trivial) (fun _ _ _ h => h)
    fun answer w₃ w₄ hran₃ _ hnow _ hgood₄ hsame₄ => ?_
  have hran₄ : Ran w w₄ := (hran₂.trans hran₃).trans (ran_of_step hnow)
  rcases answer with e | now
  · exact ⟨hgood₄, hran₄, only_of_coverage (hsame₄.trans hsame₂)⟩
  intro w₅ hgood₅ hothers answer w₆ hs
  obtain ⟨hran₅, hsame₅, -⟩ := ran_of_waits hothers
  have hsave : World.Step w₅ (.save (o.coverages chunk (o.kept chunk fetched) now)) answer w₆ := hs.1
  have hsub : w₂.trace.Sublist w₅.trace :=
    ((hran₃.trans (ran_of_step hnow)).trans hran₅).sublist
  -- a record is of a trading day of the span
  have hrecord : ∀ r ∈ o.coverages chunk (o.kept chunk fetched) now, ∀ i d, r.key = (i, .m1, d) →
      i = chunk.instrument ∧ o.grid.calendar d = true ∧ chunk.span.Covers d := by
    intro r hr i d hkey
    obtain ⟨d', hd', rfl⟩ := List.mem_map.mp hr
    simp only [DayCoverage.key, BackfillOrchestrator.coverage, Prod.mk.injEq, true_and] at hkey
    obtain ⟨rfl, rfl⟩ := hkey
    obtain ⟨htrading, hcovers⟩ := SessionGrid.mem_tradingDays.mp hd'
    exact ⟨rfl, htrading, hcovers⟩
  have honly : Only [chunk] w w₆ := by
    intro i d hd
    obtain ⟨part, hpart, hfrom⟩ := coverage_of_step hsave
    have hsame : w₅.coverage = w.coverage := hsame₅.trans (hsame₄.trans hsame₂)
    rw [hpart] at hd
    rcases complete_record hd with hd | ⟨r, hr, hkey⟩
    · exact Or.inl (hsame ▸ hd)
    · rcases hfrom with rfl | ⟨coverages, hc, hpartsub⟩
      · cases hr
      · cases hc
        obtain ⟨rfl, -, hcovers⟩ := hrecord r (hpartsub.subset hr) i d hkey
        exact Or.inr ⟨chunk, List.mem_singleton_self _, rfl, hcovers⟩
  have hgood₆ : Good o w₆ := by
    refine hgood₅.step hsave trivial (fun _ _ _ h => h) fun coverages hc r hr => ?_
    cases hc
    refine ⟨?_, fun i d hkey => ?_⟩
    · obtain ⟨d', -, rfl⟩ := List.mem_map.mp hr
      rfl
    obtain ⟨rfl, htrading, hcovers⟩ := hrecord r hr i d hkey
    refine ⟨htrading, ⟨asked, o.grid.window.openAt chunk.span.first,
      o.grid.window.closeAt chunk.span.last, fetched, w₁.clock, candles, w₅.clock,
      o.coverages chunk (o.kept chunk fetched) now, answer⟩, ?_, ⟨r, hr, hkey, ?_⟩,
      fun b hb hin hday => ?_, SessionGrid.openAt_mono hcovers.1, SessionGrid.closeAt_mono hcovers.2,
      hclosed d hcovers htrading⟩
    · rw [hsave.2.2]
      exact .cons_cons _ (hwrote.trans hsub)
    · obtain ⟨d', -, rfl⟩ := List.mem_map.mp hr
      rfl
    · exact mem_of_withHigher hhigher (mem_kept hb hin (hday ▸ hcovers))
  have hran₆ : Ran w w₆ := (hran₄.trans hran₅).trans (ran_of_step hsave)
  refine ⟨hgood₆, trivial, ?_⟩
  rcases answer with e | u
  · exact ⟨hgood₆, hran₆, honly⟩
  · exact ⟨hgood₆, hran₆, honly⟩

/-- **A chunk that is ready.** -/
theorem keeps_runChunk (hready : Ready o w chunk) :
    (resumeRules o kind).Keeps (o.runChunk chunk report) (ChunkDone o chunk w) w := by
  refine keeps_call (fun _ h => (by cases h)) (fun _ _ => ⟨rfl, chunk.span, rfl, rfl, hready.short⟩)
    ?_ fun answer w₁ w₂ hran₁ hsame₁ hfetch _ hgood₂ hsame₂ => ?_
  · intro i d hd h
    obtain ⟨rfl, hcovers⟩ := covers_of_touches h
    exact hready.lacking d hcovers hd
  have hran₂ : Ran w w₂ := hran₁.trans (ran_of_step hfetch)
  have hasked : ∀ d, chunk.span.Covers d → Asked o.grid w w₂ chunk.instrument d := by
    intro d hcovers
    refine Asked.trans hran₁ ⟨_, hfetch.2.2, _, _, _, _, List.mem_singleton_self _, ?_, ?_⟩
    · exact SessionGrid.openAt_mono hcovers.1
    · exact SessionGrid.closeAt_mono hcovers.2
  rcases answer with e | fetched
  · change (resumeRules o kind).Keeps (ite _ _ _) _ _
    split
    · exact ⟨hgood₂, hran₂, only_of_coverage hsame₂, fun _ _ => hasked⟩
    · exact ⟨hgood₂, hran₂, only_of_coverage hsame₂, fun _ h => (by cases h)⟩
  · have hready₂ : Ready o w₂ chunk := by
      refine ⟨hsame₂ ▸ hready.lacking, fun d hcovers htrading => ?_, hready.short⟩
      exact (hready.closed d hcovers htrading).trans hran₂.clock
    refine (keeps_storeFetched hgood₂ hready₂ (fun c hc => (fetched_of_step hfetch c hc).1)
      (fun d hcovers htrading => (hready.closed d hcovers htrading).trans hran₁.clock) ?_).mono ?_
    · rw [hfetch.2.2]
      exact List.singleton_sublist.mpr (List.mem_cons_self ..)
    · rintro r w₃ ⟨hgood₃, hran₃, honly₃⟩
      refine ⟨hgood₃, hran₂.trans hran₃, fun i d hd => hsame₂ ▸ honly₃ i d hd,
        fun _ _ d hcovers => ?_⟩
      exact (hasked d hcovers).mono hran₃

/-! ## The chunks of a plan -/

/-- What the chunks of an instrument end in. -/
def ChunksDone (o : BackfillOrchestrator) (chunks : List Chunk) (w : World)
    (r : Except PyError BackfillReport) (w' : World) : Prop :=
  Good o w' ∧ Ran w w' ∧ Only chunks w w' ∧ ∀ report, r = .ok report → ∀ chunk ∈ chunks, ∀ d,
    chunk.span.Covers d → Asked o.grid w w' chunk.instrument d

/-- **Chunks that do not meet**, one after another: what one completes is
not asked for by the next. -/
theorem keeps_runChunks (hgood : Good o w) (hready : ∀ chunk ∈ chunks, Ready o w chunk)
    (horder : chunks.Pairwise fun c c' => c.span.last < c'.span.first) :
    (resumeRules o kind).Keeps (o.runChunks chunks report) (ChunksDone o chunks w) w := by
  induction chunks generalizing w report with
  | nil => exact ⟨hgood, .refl w, only_of_coverage rfl, fun _ _ _ h => absurd h List.not_mem_nil⟩
  | cons chunk rest ih =>
      obtain ⟨hbefore, hrest⟩ := List.pairwise_cons.mp horder
      refine (Rules.keeps_bind _ _).mpr
        ((keeps_runChunk (hready chunk (List.mem_cons_self ..))).mono ?_)
      rintro (e | report') w₁ ⟨hgood₁, hran₁, honly₁, hasked₁⟩
      · refine ⟨hgood₁, hran₁, fun i d hd => ?_, fun _ h => (by cases h)⟩
        rcases honly₁ i d hd with hd | ⟨c, hc, hcovers⟩
        · exact Or.inl hd
        · exact Or.inr ⟨c, List.mem_singleton.mp hc ▸ List.mem_cons_self .., hcovers⟩
      · have hready₁ : ∀ c ∈ rest, Ready o w₁ c := by
          intro c hc
          have hc' := hready c (List.mem_cons_of_mem _ hc)
          refine ⟨fun d hcovers hd => ?_, fun d hcovers htrading => ?_, hc'.short⟩
          · rcases honly₁ _ d hd with hd | ⟨c', hc'mem, -, hcovers'⟩
            · exact hc'.lacking d hcovers hd
            · obtain rfl := List.mem_singleton.mp hc'mem
              exact absurd (hcovers.1.trans hcovers'.2) (not_le.mpr (hbefore c hc))
          · exact (hc'.closed d hcovers htrading).trans hran₁.clock
        refine (ih hgood₁ hready₁ hrest).mono ?_
        rintro r w₂ ⟨hgood₂, hran₂, honly₂, hasked₂⟩
        refine ⟨hgood₂, hran₁.trans hran₂, fun i d hd => ?_, fun report hr c hc d hcovers => ?_⟩
        · rcases honly₂ i d hd with hd | ⟨c, hc, hcovers⟩
          · rcases honly₁ i d hd with hd | ⟨c, hc, hcovers⟩
            · exact Or.inl hd
            · exact Or.inr ⟨c, List.mem_singleton.mp hc ▸ List.mem_cons_self .., hcovers⟩
          · exact Or.inr ⟨c, List.mem_cons_of_mem _ hc, hcovers⟩
        · rcases List.mem_cons.mp hc with rfl | hc
          · exact (hasked₁ _ rfl d hcovers).mono hran₂
          · exact (hasked₂ report hr c hc d hcovers).trans hran₁

theorem days_of_step {tf : Timeframe} {covered : List DayCoverage}
    (h : World.Step w (.getDays i tf first last) (.ok covered) w') :
    covered = daysOf w.coverage i tf first last := by
  obtain ⟨hserves, -⟩ := h
  generalize w'.bars = bars at hserves
  generalize w'.coverage = recorded at hserves
  cases hserves with
  | getDays => rfl

/-- **The chunks of a tidy plan are ready**, and cover what it lacks. -/
theorem ready_of_tidy (h : Tidy o w i first last) :
    (∀ chunk ∈ o.chunks i (o.missing (daysOf w.coverage i .m1 first last) first last),
      chunk.instrument = i ∧ Ready o w chunk) ∧
    (o.chunks i (o.missing (daysOf w.coverage i .m1 first last) first last)).Pairwise
      (fun c c' => c.span.last < c'.span.first) ∧
    ∀ d, Lacks o w i first last d →
      ∃ chunk ∈ o.chunks i (o.missing (daysOf w.coverage i .m1 first last) first last),
        chunk.span.Covers d := by
  have hpos : 0 < o.chunkDays := o.chunkDays_pos
  have horder : (o.missing (daysOf w.coverage i .m1 first last) first last).Pairwise (· < ·) :=
    SessionGrid.pairwise_tradingDays.filter _
  have hlacks : (fun d => d ∈ o.missing (daysOf w.coverage i .m1 first last) first last) =
      Lacks o w i first last := funext fun d => propext mem_missing
  refine ⟨fun chunk hchunk => ?_, List.pairwise_map.mpr (Span.pairwise_group hpos horder),
    fun d hd => ?_⟩
  · obtain ⟨span, hspan, rfl⟩ := List.mem_map.mp hchunk
    obtain ⟨hopens, hlast, hle, hshort⟩ := Span.opens_of_mem_group hpos horder hspan
    rw [hlacks] at hopens
    have hfirst : Lacks o w i first last span.first := hopens.mem
    rw [mem_missing] at hlast
    have hlacking : ∀ d, span.Covers d → ¬ Complete w.coverage i d := by
      rintro d ⟨hd, hd'⟩
      rcases hd.eq_or_lt with rfl | hd
      · exact hfirst.2
      · rcases hd'.eq_or_lt with rfl | hd'
        · exact hlast.2
        · exact h.unbroken _ hopens _ hlast hshort d hd hd'
    refine ⟨rfl, hlacking, fun d hcovers htrading => h.closed d ⟨?_, hlacking d hcovers⟩, ?_⟩
    · have hbounds := SessionGrid.mem_tradingDays.mp hfirst.1
      have hbounds' := SessionGrid.mem_tradingDays.mp hlast.1
      exact SessionGrid.mem_tradingDays.mpr
        ⟨htrading, hbounds.2.1.trans hcovers.1, hcovers.2.trans hbounds'.2.2⟩
    · change span.last - span.first + 1 ≤ o.chunkDays
      omega
  · obtain ⟨span, hspan, hcovers⟩ := Span.exists_covers_of_mem hpos horder (mem_missing.2 hd)
    exact ⟨⟨i, span⟩, List.mem_map_of_mem hspan, hcovers⟩

/-- **A plan is broken where it asks for a complete day**: on a day between
one that opens a request and another that is asked for with it. -/
theorem broken_iff :
    (∃ chunk ∈ o.chunks i (o.missing (daysOf w.coverage i .m1 first last) first last),
      ∃ d, chunk.span.Covers d ∧ Complete w.coverage i d) ↔
    ∃ s m d, Span.Opens o.chunkDays (Lacks o w i first last) s ∧ Lacks o w i first last m ∧
      m < s + o.chunkDays ∧ s < d ∧ d < m ∧ Complete w.coverage i d := by
  have hpos : 0 < o.chunkDays := o.chunkDays_pos
  have horder : (o.missing (daysOf w.coverage i .m1 first last) first last).Pairwise (· < ·) :=
    SessionGrid.pairwise_tradingDays.filter _
  have hlacks : (fun d => d ∈ o.missing (daysOf w.coverage i .m1 first last) first last) =
      Lacks o w i first last := funext fun d => propext mem_missing
  constructor
  · rintro ⟨chunk, hchunk, d, hcovers, hcomplete⟩
    obtain ⟨span, hspan, rfl⟩ := List.mem_map.mp hchunk
    obtain ⟨hopens, hlast, -, hshort⟩ := Span.opens_of_mem_group hpos horder hspan
    rw [hlacks] at hopens
    rw [mem_missing] at hlast
    refine ⟨span.first, span.last, d, hopens, hlast, hshort, ?_, ?_, hcomplete⟩
    · refine lt_of_le_of_ne hcovers.1 fun he => hopens.mem.2 ?_
      rw [he]
      exact hcomplete
    · refine lt_of_le_of_ne hcovers.2 fun he => hlast.2 ?_
      rw [← he]
      exact hcomplete
  · rintro ⟨s, m, d, hopens, hm, hlt, hsd, hdm, hcomplete⟩
    rw [← hlacks] at hopens
    obtain ⟨span, hspan, rfl⟩ := Span.exists_first_of_opens hpos horder hopens
    have hcovers := Span.covers_of_lt hpos horder hspan (mem_missing.2 hm) (hsd.trans hdm).le hlt
    exact ⟨⟨i, span⟩, List.mem_map_of_mem hspan, d, ⟨hsd.le, hdm.le.trans hcovers.2⟩, hcomplete⟩

/-! ## A run -/

/-- What the instruments of a run end in: every trading day of the range
that was not complete has been asked for. -/
def AllDone (o : BackfillOrchestrator) (instruments : List String) (first last : ℤ) (w : World)
    (r : Except PyError BackfillReport) (w' : World) : Prop :=
  Good o w' ∧ Ran w w' ∧ ∀ report, r = .ok report → ∀ i ∈ instruments, ∀ d,
    Lacks o w i first last d → Asked o.grid w w' i d

/-- **A run whose plans are tidy.** -/
theorem keeps_runAll {instruments : List String} (hgood : Good o w) :
    (resumeRules o kind).Keeps (o.runAll first last instruments report)
      (AllDone o instruments first last w) w := by
  induction instruments generalizing w report with
  | nil => exact ⟨hgood, .refl w, fun _ _ _ h => absurd h List.not_mem_nil⟩
  | cons i rest ih =>
      refine keeps_call (fun _ h => (by cases h)) (fun _ _ => trivial) (fun _ _ _ h => h)
        fun answer w₁ w₂ hran₁ hsame₁ hdays hplanned hgood₂ hsame₂ => ?_
      have hran₂ : Ran w w₂ := hran₁.trans (ran_of_step hdays)
      rcases answer with e | covered
      · exact ⟨hgood₂, hran₂, fun _ h => (by cases h)⟩
      obtain rfl := days_of_step hdays
      obtain ⟨hready, horder, hcover⟩ := ready_of_tidy hplanned
      have hready₂ : ∀ chunk ∈ o.chunks i (o.missing (daysOf w₁.coverage i .m1 first last) first last),
          Ready o w₂ chunk := by
        intro chunk hchunk
        obtain ⟨-, hlacking, hclosed, hshort⟩ := hready chunk hchunk
        rw [hsame₁, ← hsame₂] at hlacking
        exact ⟨hlacking, fun d hd htrading =>
          (hclosed d hd htrading).trans (ran_of_step hdays).clock, hshort⟩
      change (resumeRules o kind).Keeps (o.runChunks _ _ >>= fun report =>
        o.runAll first last rest report) _ _
      refine (Rules.keeps_bind _ _).mpr ((keeps_runChunks hgood₂ hready₂ horder).mono ?_)
      rintro (e | report') w₃ ⟨hgood₃, hran₃, honly₃, hasked₃⟩
      · exact ⟨hgood₃, hran₂.trans hran₃, fun _ h => (by cases h)⟩
      refine (ih hgood₃).mono ?_
      rintro r w₄ ⟨hgood₄, hran₄, hasked₄⟩
      refine ⟨hgood₄, (hran₂.trans hran₃).trans hran₄, fun report hr i' hi' d hd => ?_⟩
      by_cases hown : i' = i
      · subst hown
        have hlacks : Lacks o w₁ i' first last d := ⟨hd.1, hsame₁ ▸ hd.2⟩
        obtain ⟨chunk, hchunk, hcovers⟩ := hcover d hlacks
        have := hasked₃ _ rfl chunk hchunk d hcovers
        rw [(hready chunk hchunk).1] at this
        exact (this.mono hran₄).trans hran₂
      · -- the chunks of another instrument complete no day of this one
        have hrest : i' ∈ rest := (List.mem_cons.mp hi').resolve_left hown
        refine (hasked₄ report hr i' hrest d ⟨hd.1, fun hcomplete => ?_⟩).trans (hran₂.trans hran₃)
        rcases honly₃ i' d hcomplete with hcomplete | ⟨chunk, hchunk, rfl, -⟩
        · exact hd.2 (hsame₂ ▸ hcomplete)
        · exact hown (hready chunk hchunk).1

end History

end Emporos
