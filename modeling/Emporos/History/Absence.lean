import Emporos.History.Checkpoints
/-!
# Minutes confirmed absent

What losses of bars, finds and fills leave behind. A fill looks at no clock:
a minute that it asks for before it has ended is recorded absent like any
other, and is never asked for again. Where every fetch of a fill comes after
the gaps that it is for, a minute recorded absent was fetched when it was
over and did not come (`GapRun.Sound.absences`).
-/

namespace Emporos

namespace History

open Async Program Rules World Timestamp

/-! ## The minutes of a grid -/

/-- How far into a minute the sessions of a grid open. -/
def SessionGrid.phase (grid : SessionGrid) : Duration := grid.window.openTime % minute

namespace SessionGrid

variable {grid : SessionGrid} {d : ℤ} {m : Timestamp}

theorem mem_minutes (h : m ∈ grid.minutes d) : grid.calendar d = true ∧ InPhase grid.phase m ∧
    grid.window.openAt d ≤ m ∧ m < grid.window.closeAt d := by
  unfold minutes at h
  split at h
  · rename_i htrading
    obtain ⟨n, hn, rfl⟩ := List.mem_map.1 h
    rw [List.mem_range] at hn
    refine ⟨htrading, ?_, ?_, ?_⟩
    · simp only [InPhase, phase, SessionWindow.openAt, Timestamp.day, indiaOffset, second, minute_eq,
        Timestamp, Duration] at *
      omega
    · simp only [minute_eq, Timestamp, Duration] at *
      omega
    · simp only [minute_eq, Timestamp, Duration] at *
      omega
  · cases h

theorem sessionDate_of_mem_minutes (h : m ∈ grid.minutes d) : sessionDate m = d := by
  obtain ⟨-, -, hopen, hclose⟩ := mem_minutes h
  exact sessionDate_of_between hopen hclose

end SessionGrid

/-! ## What is stored and recorded of a minute -/

section Minutes

variable (grid : SessionGrid) (w : World) (i : String) (d : ℤ) (m : Timestamp)

/-- Its bar is stored. -/
def Held : Prop := (i, Timeframe.m1, m) ∈ w.bars.map (·.identity)

/-- It is recorded as confirmed absent. -/
def Absent : Prop := ∃ row, coverageOf w.coverage i .m1 d = some row ∧ row.isAbsent m = true

/-- A fetch that covered it, made after it had ended, did not return it. -/
def Confirmed (trace : List Mark) : Prop := ∃ t start stop candles,
  Mark.called t (.fetch i .m1 start stop) (.ok candles) ∈ trace ∧ start ≤ m ∧ m < stop ∧
    m + minute ≤ t ∧ m ∉ candles.map (·.ts)

/-- **Every minute recorded absent is.** -/
def AbsencesSound : Prop := ∀ i d, ∀ m ∈ grid.minutes d, Absent w i d m → Confirmed i m w.trace

/-- What is recorded of a day starts on it. -/
def OwnDays : Prop := ∀ i d row, coverageOf w.coverage i .m1 d = some row →
  ∀ r ∈ row.absent, sessionDate r.start = d

end Minutes

/-- Nothing stored or recorded is lost, and some bars stay as they are. -/
structure Grows (grid : SessionGrid) (own : List Candle) (w w' : World) : Prop where
  held : ∀ i m, Held w i m → Held w' i m
  absent : ∀ i d, ∀ m ∈ grid.minutes d, Absent w i d m → Absent w' i d m
  stays : ∀ b ∈ own, b ∈ w.bars → b ∈ w'.bars
  trace : w.trace ⊆ w'.trace

namespace Grows

variable {grid : SessionGrid} {own : List Candle} {w w' w'' : World} {i : String} {d : ℤ}

theorem refl (w : World) : Grows grid own w w :=
  ⟨fun _ _ h => h, fun _ _ _ _ h => h, fun _ _ h => h, List.Subset.refl _⟩

theorem trans (h : Grows grid own w w') (h' : Grows grid own w' w'') : Grows grid own w w'' :=
  ⟨fun i m hm => h'.held i m (h.held i m hm),
    fun i d m hm ha => h'.absent i d m hm (h.absent i d m hm ha),
    fun b hb hw => h'.stays b hb (h.stays b hb hw), fun _ hm => h'.trace (h.trace hm)⟩

/-- What keeps the bars and the record. -/
theorem of_eq (hbars : w'.bars = w.bars) (hcoverage : w'.coverage = w.coverage)
    (htrace : w.trace ⊆ w'.trace) : Grows grid own w w' := by
  refine ⟨fun i m h => ?_, fun i d m _ h => ?_, fun b _ h => ?_, htrace⟩
  · rwa [Held, hbars]
  · rwa [Absent, hcoverage]
  · rwa [hbars]

end Grows

/-! ## The rules of fills -/

/-- A fetch that returns comes when what it asks for is over. -/
def Late (w : World) : (c : Call) → c.Answer → Prop
  | .fetch _ _ _ stop, .ok _ => stop ≤ w.clock
  | _, _ => True

/-- The answers to finds and fills; if careful, each fetch comes late. -/
def gapSetting (careful : Bool) : Setting calls PyError Unit World where
  answers w c a w' := World.Step w c a w' ∧ (careful = true → Late w c a)
  others := World.Waits
  starts _ _ _ := False
  restart w := w

theorem eq_of_waits {w w' : World} (h : Relation.ReflTransGen Waits w w') :
    w'.bars = w.bars ∧ w'.coverage = w.coverage ∧ w'.trace = w.trace := by
  induction h with
  | refl => exact ⟨rfl, rfl, rfl⟩
  | tail _ hwait ih =>
      obtain ⟨t, -, rfl⟩ := hwait
      exact ih

variable {grid : SessionGrid} {own : List Candle} {w w' w'' : World} {i : String} {d : ℤ}

variable (grid own) in
/-- What finds and fills owe where fetches come late. -/
def gapRules : Rules (gapSetting true) where
  inv w := OwnDays w ∧ AbsencesSound grid w
  guar := Grows grid own
  guar_refl := Grows.refl
  guar_trans := Grows.trans
  others_keep := by
    rintro w w' hinv ⟨t, -, rfl⟩
    exact ⟨hinv, .of_eq rfl rfl (List.Subset.refl _)⟩

theorem trace_subset {c : Call} {a : c.Answer} (h : World.Step w c a w') : w.trace ⊆ w'.trace :=
  h.2.2 ▸ List.subset_cons_self _ _

theorem AbsencesSound.of_eq (h : AbsencesSound grid w) (hcoverage : w'.coverage = w.coverage)
    (htrace : w.trace ⊆ w'.trace) : AbsencesSound grid w' := by
  intro i d m hm habsent
  rw [Absent, hcoverage] at habsent
  obtain ⟨t, start, stop, candles, hmark, hrest⟩ := h i d m hm habsent
  exact ⟨t, start, stop, candles, htrace hmark, hrest⟩

/-- Only a write changes the bars. -/
theorem bars_of_step {c : Call} {a : c.Answer} (h : World.Step w c a w')
    (hwrite : ∀ candles, c ≠ .upsert candles) : w'.bars = w.bars := by
  obtain ⟨hserves, -⟩ := h
  generalize w'.bars = bars at hserves ⊢
  generalize w'.coverage = recorded at hserves
  cases hserves with
  | written => exact absurd rfl (hwrite _)
  | writtenPart _ => exact absurd rfl (hwrite _)
  | _ => rfl

/-- A write that fails is made in part. -/
theorem written_of_step {candles : List Candle} {a : Except PyError Unit}
    (h : World.Step w (.upsert candles) a w') : ∃ part : List Candle, part.Sublist candles ∧
      w'.bars = write w.bars part ∧ (a = .ok () → part = candles) := by
  obtain ⟨hserves, -⟩ := h
  generalize w'.bars = bars at hserves ⊢
  generalize w'.coverage = recorded at hserves
  cases hserves with
  | written => exact ⟨_, .refl _, rfl, fun _ => rfl⟩
  | writtenPart hpart => exact ⟨_, hpart, rfl, nofun⟩
  | failed => exact ⟨[], List.nil_sublist _, rfl, nofun⟩

/-- The rule of a call that neither writes nor records. -/
theorem keeps_read {β : Type} {c : Call} {k : c.Answer → Program β}
    {Q : Except PyError β → World → Prop} (hwrite : ∀ candles, c ≠ .upsert candles)
    (hsave : ∀ coverages, c ≠ .save coverages)
    (hk : ∀ a w' w'', World.Step w' c a w'' → Late w' c a → w'.bars = w.bars →
      w'.coverage = w.coverage → w''.bars = w.bars → w''.coverage = w.coverage →
      w.trace ⊆ w''.trace → (gapRules grid own).Keeps (k a) Q w'') :
    (gapRules grid own).Keeps (Task.call (I := calls) c k) Q w := by
  rintro w' ⟨hdays, hsound⟩ hothers a w'' ⟨hstep, hlate⟩
  obtain ⟨hbars, hcoverage, htrace⟩ := eq_of_waits hothers
  have hbars' : w''.bars = w'.bars := bars_of_step hstep hwrite
  have hcoverage' : w''.coverage = w'.coverage := by
    obtain ⟨part, hpart, rfl | ⟨coverages, hc, -⟩⟩ := coverage_of_step hstep
    · exact hpart
    · exact absurd hc (hsave coverages)
  have htrace' := trace_subset hstep
  refine ⟨⟨fun i d row hrow => hdays i d row (hcoverage' ▸ hrow), hsound.of_eq hcoverage' htrace'⟩,
    .of_eq hbars' hcoverage' htrace', ?_⟩
  exact hk a w' w'' hstep (hlate rfl) hbars hcoverage (hbars'.trans hbars)
    (hcoverage'.trans hcoverage) (htrace ▸ htrace')

theorem held_write {bars candles : List Candle} {k : String × Timeframe × Timestamp}
    (h : k ∈ bars.map (·.identity)) : k ∈ (write bars candles).map (·.identity) := by
  unfold write
  induction candles generalizing bars with
  | nil => exact h
  | cons c candles ih =>
      refine ih ?_
      by_cases hk : c.identity = k
      · exact List.mem_map.2 ⟨c, Table.mem_upsert_self, hk⟩
      · obtain ⟨b, hb, rfl⟩ := List.mem_map.1 h
        exact List.mem_map.2 ⟨b, Table.mem_upsert.2 (.inr ⟨hb, Ne.symm hk⟩), rfl⟩

theorem written_held {bars candles : List Candle} {c : Candle} (hc : c ∈ candles) :
    c.identity ∈ (write bars candles).map (·.identity) := by
  induction candles generalizing bars with
  | nil => cases hc
  | cons c' candles ih =>
      obtain rfl | hc := List.mem_cons.1 hc
      · change _ ∈ (write (Table.upsert Candle.identity c bars) candles).map _
        exact held_write (List.mem_map.2 ⟨c, Table.mem_upsert_self, rfl⟩)
      · exact ih hc

theorem stays_write {bars candles : List Candle} {b : Candle} (hb : b ∈ bars)
    (hfree : ∀ c ∈ candles, c.identity ≠ b.identity) : b ∈ write bars candles := by
  unfold write
  induction candles generalizing bars with
  | nil => exact hb
  | cons c candles ih =>
      obtain ⟨hc, hrest⟩ := List.forall_mem_cons.1 hfree
      exact ih (Table.mem_upsert.2 (.inr ⟨hb, hc.symm⟩)) hrest

/-- The rule of a write. -/
theorem keeps_upsert {candles : List Candle} {Q : Except PyError Unit → World → Prop}
    (hfree : ∀ b ∈ own, ∀ c ∈ candles, c.identity ≠ b.identity)
    (hQ : ∀ a w', Grows grid own w w' →
      (a = .ok () → ∀ c ∈ candles, c.identity ∈ w'.bars.map (·.identity)) → Q a w') :
    (gapRules grid own).Keeps (await (.upsert candles)) Q w := by
  rintro w' ⟨hdays, hsound⟩ hothers a w'' ⟨hstep, -⟩
  obtain ⟨hsame, hrecorded, hmarks⟩ := eq_of_waits hothers
  have hcoverage : w''.coverage = w'.coverage := by
    obtain ⟨part, hpart, rfl | ⟨coverages, hc, -⟩⟩ := coverage_of_step hstep
    · exact hpart
    · cases hc
  have htrace := trace_subset hstep
  obtain ⟨part, hpart, hbars, hall⟩ := written_of_step hstep
  have hgrows : Grows grid own w' w'' := by
    refine ⟨fun i m h => ?_, fun i d m _ h => ?_, fun b hb h => ?_, htrace⟩
    · rw [Held, hbars]
      exact held_write h
    · rwa [Absent, hcoverage]
    · rw [hbars]
      exact stays_write h fun c hc => hfree b hb c (hpart.subset hc)
  refine ⟨⟨fun i d row hrow => hdays i d row (hcoverage ▸ hrow), hsound.of_eq hcoverage htrace⟩,
    hgrows, hQ a w'' ((Grows.of_eq hsame hrecorded fun _ h => hmarks ▸ h).trans hgrows) fun ha c hc => ?_⟩
  rw [hbars, hall ha]
  exact written_held hc

/-! ## What a fill writes -/

/-- **The write of what came.** Every bar of it is then stored. -/
theorem keeps_writeReturned (grid : SessionGrid) (d : ℤ) (w₀ : World) {returned : List Candle}
    (hm1 : ∀ b ∈ own, b.timeframe = .m1)
    (hreturned : ∀ c ∈ returned, c.instrumentId = i ∧ c.timeframe = .m1)
    (hfree : ∀ b ∈ own, ∀ c ∈ returned, c.identity ≠ b.identity) :
    (gapRules grid own).Keeps (GapFiller.writeReturned grid i d returned)
      (fun r w' => r = .ok () → ∀ c ∈ returned, Held w' i c.ts) w₀ := by
  have hidentity : ∀ c ∈ returned, c.identity = (i, .m1, c.ts) := fun c hc => by
    obtain ⟨hi, htf⟩ := hreturned c hc
    rw [Candle.identity, hi, htf]
  unfold GapFiller.writeReturned
  split
  · rename_i hnone
    rintro - c hc
    rw [hnone] at hc
    cases hc
  · rw [keeps_bind]
    refine keeps_upsert hfree fun a w _ hwritten => ?_
    cases a with
    | error e =>
        intro hok
        cases hok
    | ok u =>
        dsimp only
        unfold GapFiller.rebuildHigher
        rw [keeps_bind, keeps_bind]
        refine keeps_read (by simp) (by simp) fun a w' w'' _ _ _ _ hbars _ _ => ?_
        rw [keeps_done]
        cases a with
        | error e =>
            intro hok
            cases hok
        | ok minutes =>
            change (gapRules grid own).Keeps
              (Task.done (derive grid.window DerivedTimeframe.all minutes)) _ w''
            rw [keeps_done]
            cases hhigher : derive grid.window DerivedTimeframe.all minutes with
            | error e =>
                intro hok
                cases hok
            | ok higher =>
                apply keeps_upsert
                · -- what is derived is of no minute
                  intro b hb c hc heq
                  obtain ⟨-, -, tf, -, htf, -⟩ :=
                    (((derive_eq_ok hhigher).2 c).1 hc).exists_minute
                  have hsame : c.timeframe = b.timeframe := congrArg (·.2.1) heq
                  rw [hm1 b hb, htf] at hsame
                  cases tf <;> cases hsame
                · intro a w₃ hgrows _ _ c hc
                  refine hgrows.held i c.ts ?_
                  rw [Held, hbars, ← hidentity c hc]
                  exact hwritten rfl c hc

/-! ## What a fill records -/

theorem mem_minutesIn {r : TimeRange} {m : Timestamp} : m ∈ GapFiller.minutesIn grid r ↔
    m ∈ grid.minutes (sessionDate r.start) ∧ r.contains m = true := List.mem_filter

/-- **The new record of a day** has the minutes known to be absent and those
that did not come, and no other. -/
theorem recorded_spec (i : String) {existing : Option DayCoverage} {still : List Timestamp}
    (now : Timestamp)
    (hknown : ∀ row, existing = some row → ∀ r ∈ row.absent, sessionDate r.start = d)
    (hstill : ∀ m ∈ still, m ∈ grid.minutes d) :
    (∀ r ∈ (GapFiller.recorded grid i d existing still now).absent, sessionDate r.start = d) ∧
    ∀ m ∈ grid.minutes d, (GapFiller.recorded grid i d existing still now).isAbsent m = true ↔
      (∃ row, existing = some row ∧ row.isAbsent m = true) ∨ m ∈ still := by
  have hphase : ∀ {m d}, m ∈ grid.minutes d → InPhase grid.phase m := fun h =>
    (SessionGrid.mem_minutes h).2.1
  have hranged := ranged_compress fun m hm => hphase (hstill m hm)
  have hday : ∀ r ∈ (existing.map (·.absent)).getD [] ++ compress still, sessionDate r.start = d := by
    intro r hr
    obtain hr | hr := List.mem_append.1 hr
    · cases existing with
      | none => cases hr
      | some row => exact hknown row rfl r hr
    · exact SessionGrid.sessionDate_of_mem_minutes (hstill _ (hranged.starts r hr))
  have hmem : ∀ m, m ∈ ((existing.map (·.absent)).getD [] ++ compress still).flatMap
      (GapFiller.minutesIn grid) ↔ m ∈ grid.minutes d ∧
        ((∃ row, existing = some row ∧ row.isAbsent m = true) ∨ m ∈ still) := by
    intro m
    rw [List.mem_flatMap]
    constructor
    · rintro ⟨r, hr, hin⟩
      obtain ⟨hm, hcontains⟩ := mem_minutesIn.1 hin
      rw [hday r hr] at hm
      refine ⟨hm, (List.mem_append.1 hr).imp (fun hr => ?_) fun hr => ?_⟩
      · cases existing with
        | none => cases hr
        | some row => exact ⟨row, rfl, List.any_eq_true.2 ⟨r, hr, hcontains⟩⟩
      · exact (hranged.holds m (hphase hm)).1 (List.any_eq_true.2 ⟨r, hr, hcontains⟩)
    · rintro ⟨hm, habsent⟩
      obtain ⟨r, hr, hcontains⟩ : ∃ r ∈ (existing.map (·.absent)).getD [] ++ compress still,
          r.contains m = true := by
        obtain ⟨row, rfl, habsent⟩ | hin := habsent
        · obtain ⟨r, hr, hcontains⟩ := List.any_eq_true.1 habsent
          exact ⟨r, List.mem_append_left _ hr, hcontains⟩
        · obtain ⟨r, hr, hcontains⟩ :=
            List.any_eq_true.1 ((hranged.holds m (hphase hm)).2 hin)
          exact ⟨r, List.mem_append_right _ hr, hcontains⟩
      exact ⟨r, hr, mem_minutesIn.2 ⟨by rwa [hday r hr], hcontains⟩⟩
  have hmerged := ranged_compress fun m hm => hphase ((hmem m).1 hm).1
  refine ⟨fun r hr => ?_, fun m hm => ?_⟩
  · exact SessionGrid.sessionDate_of_mem_minutes ((hmem _).1 (hmerged.starts r hr)).1
  · exact (hmerged.holds m (hphase hm)).trans ((hmem m).trans (and_iff_right hm))

theorem coverageOf_record_one {recorded : List DayCoverage} {row : DayCoverage} :
    coverageOf (record recorded [row]) i .m1 d =
      if row.key = (i, .m1, d) then some row else coverageOf recorded i .m1 d := by
  rw [coverageOf_record, Table.latest_singleton]
  split
  · rfl
  · rfl

/-- A save that fails is made in part. -/
theorem saved_of_step {coverages : List DayCoverage} {a : Except PyError Unit}
    (h : World.Step w (.save coverages) a w') : w'.bars = w.bars ∧
      ∃ part : List DayCoverage, part.Sublist coverages ∧
        w'.coverage = record w.coverage part ∧ (a = .ok () → part = coverages) := by
  obtain ⟨hserves, -⟩ := h
  generalize w'.bars = bars at hserves ⊢
  generalize w'.coverage = recorded at hserves ⊢
  cases hserves with
  | saved => exact ⟨rfl, _, .refl _, rfl, fun _ => rfl⟩
  | savedPart hpart => exact ⟨rfl, _, hpart, rfl, nofun⟩
  | failed => exact ⟨rfl, [], List.nil_sublist _, rfl, nofun⟩

/-- The rule of a record of one day that has what was known of it. -/
theorem keeps_save {row : DayCoverage} {Q : Except PyError Unit → World → Prop}
    (hkey : row.key = (i, .m1, d)) (hday : ∀ r ∈ row.absent, sessionDate r.start = d)
    (hknown : ∀ m ∈ grid.minutes d, Absent w i d m → row.isAbsent m = true)
    (hsound : ∀ m ∈ grid.minutes d, row.isAbsent m = true → Confirmed i m w.trace)
    (hQ : ∀ a w', (a = .ok () → ∀ m, row.isAbsent m = true → Absent w' i d m) → Q a w') :
    (gapRules grid own).Keeps (await (.save [row])) Q w := by
  rintro w' ⟨hdays, hsounds⟩ hothers a w'' ⟨hstep, -⟩
  obtain ⟨-, hrecorded, hmarks⟩ := eq_of_waits hothers
  obtain ⟨hbars, part, hpart, hcoverage, hall⟩ := saved_of_step hstep
  have htrace := trace_subset hstep
  -- what is recorded of a day is the row, if it was saved, or what it was
  have hrow : ∀ i' d' row', coverageOf w''.coverage i' .m1 d' = some row' →
      (row' = row ∧ i' = i ∧ d' = d) ∨ coverageOf w'.coverage i' .m1 d' = some row' := by
    intro i' d' row' h
    rw [hcoverage] at h
    obtain rfl | rfl := List.sublist_singleton.1 hpart
    · exact .inr h
    · rw [coverageOf_record_one] at h
      split at h
      · rename_i hsame
        cases h
        rw [hkey] at hsame
        cases hsame
        exact .inl ⟨rfl, rfl, rfl⟩
      · exact .inr h
  refine ⟨⟨fun i' d' row' h => ?_, fun i' d' m hm habsent => ?_⟩,
    ⟨fun i' m h => ?_, fun i' d' m hm habsent => ?_, fun b _ h => ?_, htrace⟩,
    hQ a w'' fun ha m hm => ?_⟩
  · obtain ⟨rfl, rfl, rfl⟩ | h := hrow i' d' row' h
    · exact hday
    · exact hdays i' d' row' h
  · obtain ⟨row', h, habsent⟩ := habsent
    obtain ⟨rfl, rfl, rfl⟩ | h := hrow i' d' row' h
    · obtain ⟨t, start, stop, candles, hmark, hrest⟩ := hsound m hm habsent
      exact ⟨t, start, stop, candles, htrace (hmarks ▸ hmark), hrest⟩
    · obtain ⟨t, start, stop, candles, hmark, hrest⟩ := hsounds i' d' m hm ⟨row', h, habsent⟩
      exact ⟨t, start, stop, candles, htrace hmark, hrest⟩
  · rwa [Held, hbars]
  · rw [Absent, hcoverage]
    obtain rfl | rfl := List.sublist_singleton.1 hpart
    · exact habsent
    · rw [coverageOf_record_one]
      split
      · rename_i hsame
        rw [hkey] at hsame
        cases hsame
        refine ⟨row, rfl, hknown m hm ?_⟩
        rwa [Absent, ← hrecorded]
      · exact habsent
  · rwa [hbars]
  · rw [hall ha] at hcoverage
    rw [Absent, hcoverage, coverageOf_record_one, if_pos hkey]
    exact ⟨row, rfl, hm⟩

/-- **What did not come is recorded.** -/
theorem keeps_recordAbsent (own : List Candle) (i : String) (d : ℤ) (gaps : List Gap)
    (returned : List Candle) (hdays : OwnDays w) (hsound : AbsencesSound grid w)
    (hconfirmed : ∀ g ∈ gaps, ∀ m ∈ grid.minutes d, g.range.contains m = true →
      m ∉ returned.map (·.ts) → Confirmed i m w.trace) :
    (gapRules grid own).Keeps (GapFiller.recordAbsent grid i d gaps returned)
      (fun r w' => r = .ok () → ∀ g ∈ gaps, ∀ m ∈ grid.minutes d, g.range.contains m = true →
        m ∈ returned.map (·.ts) ∨ Absent w' i d m) w := by
  have hstill : ∀ m, m ∈ GapFiller.stillMissing grid d gaps returned ↔
      m ∈ grid.minutes d ∧ m ∉ returned.map (·.ts) ∧ ∃ g ∈ gaps, g.range.contains m = true := by
    intro m
    unfold GapFiller.stillMissing
    rw [List.mem_flatMap]
    constructor
    · rintro ⟨g, hg, hm⟩
      obtain ⟨hm, hmissing⟩ := List.mem_filter.1 hm
      obtain ⟨hcontains, hnot⟩ := of_decide_eq_true hmissing
      exact ⟨hm, hnot, g, hg, hcontains⟩
    · rintro ⟨hm, hnot, g, hg, hcontains⟩
      exact ⟨g, hg, List.mem_filter.2 ⟨hm, decide_eq_true ⟨hcontains, hnot⟩⟩⟩
  unfold GapFiller.recordAbsent
  rw [keeps_bind]
  refine keeps_read nofun nofun fun a w₁ w₂ hstep _ _ hsame _ hcoverage htrace => ?_
  rw [keeps_done]
  cases a with
  | error e => exact nofun
  | ok found =>
      dsimp only
      rw [keeps_bind]
      refine keeps_read nofun nofun fun a _ w₃ _ _ _ _ _ hcoverage' htrace' => ?_
      rw [keeps_done]
      cases a with
      | error e => exact nofun
      | ok now =>
          have hfound : Table.lookup DayCoverage.day d found = coverageOf w.coverage i .m1 d := by
            rw [days_of_step hstep, lookup_daysOf le_rfl le_rfl, hsame]
          have hknown : ∀ row, Table.lookup DayCoverage.day d found = some row →
              ∀ r ∈ row.absent, sessionDate r.start = d :=
            fun row hrow => hdays i d row (hfound ▸ hrow)
          obtain ⟨hday, hspec⟩ := recorded_spec i now hknown fun m hm => ((hstill m).1 hm).1
          have habsent : ∀ m, Absent w₃ i d m ↔ ∃ row,
              Table.lookup DayCoverage.day d found = some row ∧ row.isAbsent m = true := by
            intro m
            rw [Absent, hcoverage', hcoverage, hfound]
          apply keeps_save rfl hday
          · exact fun m hm h => (hspec m hm).2 (.inl ((habsent m).1 h))
          · intro m hm h
            have hgrown : w.trace ⊆ w₃.trace := fun _ hmark => htrace' (htrace hmark)
            obtain ⟨t, start, stop, candles, hmark, hrest⟩ : Confirmed i m w.trace := by
              obtain hknown | hmissing := (hspec m hm).1 h
              · rw [hfound] at hknown
                exact hsound i d m hm hknown
              · obtain ⟨-, hnot, g, hg, hcontains⟩ := (hstill m).1 hmissing
                exact hconfirmed g hg m hm hcontains hnot
            exact ⟨t, start, stop, candles, hgrown hmark, hrest⟩
          · intro a w' hrecorded ha g hg m hm hcontains
            by_cases hcame : m ∈ returned.map (·.ts)
            · exact .inl hcame
            · refine .inr (hrecorded ha m ((hspec m hm).2 (.inr ((hstill m).2 ?_))))
              exact ⟨hm, hcame, g, hg, hcontains⟩

/-! ## Filling gaps -/

/-- Gaps that stop at minutes, with none of the bars that are to stay. -/
structure Fits (grid : SessionGrid) (own : List Candle) (i : String) (gaps : List Gap) : Prop where
  stops : ∀ g ∈ gaps, InPhase grid.phase g.range.stop
  apart : ∀ g ∈ gaps, ∀ b ∈ own, b.instrumentId = i → g.range.contains b.ts = false
  minutes : ∀ b ∈ own, b.timeframe = .m1

/-- The minutes of a gap are accounted for. -/
def Filled (grid : SessionGrid) (w : World) (i : String) (g : Gap) : Prop :=
  ∀ m ∈ grid.minutes g.day, g.range.contains m = true → Held w i m ∨ Absent w i g.day m

theorem Filled.grows {g : Gap} (h : Filled grid w i g) (hgrows : Grows grid own w w') :
    Filled grid w' i g := fun m hm hcontains =>
  (h m hm hcontains).imp (hgrows.held i m) (hgrows.absent i g.day m hm)

/-- A request for gaps starts with the first of them, -/
theorem first_le {gaps : List Gap} {gap : Gap} : ∀ g ∈ gap :: gaps,
    gaps.foldl (fun t g => min t g.range.start) gap.range.start ≤ g.range.start := by
  have hfold : ∀ (l : List Gap) (t : Timestamp), l.foldl (fun t g => min t g.range.start) t ≤ t ∧
      ∀ g ∈ l, l.foldl (fun t g => min t g.range.start) t ≤ g.range.start := by
    intro l
    induction l with
    | nil => exact fun t => ⟨le_rfl, nofun⟩
    | cons g l ih =>
        intro t
        obtain ⟨hhere, hrest⟩ := ih (min t g.range.start)
        exact ⟨hhere.trans (min_le_left _ _),
          List.forall_mem_cons.2 ⟨hhere.trans (min_le_right _ _), hrest⟩⟩
  intro g hg
  obtain rfl | hg := List.mem_cons.1 hg
  · exact (hfold gaps g.range.start).1
  · exact (hfold gaps gap.range.start).2 g hg

/-- and stops with the last. -/
theorem le_last {gaps : List Gap} {gap : Gap} : ∀ g ∈ gap :: gaps,
    g.range.stop ≤ gaps.foldl (fun t g => max t g.range.stop) gap.range.stop := by
  have hfold : ∀ (l : List Gap) (t : Timestamp), t ≤ l.foldl (fun t g => max t g.range.stop) t ∧
      ∀ g ∈ l, g.range.stop ≤ l.foldl (fun t g => max t g.range.stop) t := by
    intro l
    induction l with
    | nil => exact fun t => ⟨le_rfl, nofun⟩
    | cons g l ih =>
        intro t
        obtain ⟨hhere, hrest⟩ := ih (max t g.range.stop)
        exact ⟨(le_max_left _ _).trans hhere,
          List.forall_mem_cons.2 ⟨(le_max_right _ _).trans hhere, hrest⟩⟩
  intro g hg
  obtain rfl | hg := List.mem_cons.1 hg
  · exact (hfold gaps g.range.stop).1
  · exact (hfold gaps gap.range.stop).2 g hg

/-- **A day that is filled** has its gaps accounted for. -/
theorem keeps_fillDay {gap : Gap} {gaps : List Gap} (report : FillReport) (hdays : OwnDays w)
    (hsound : AbsencesSound grid w) (hfits : Fits grid own i (gap :: gaps))
    (hday : ∀ g ∈ gap :: gaps, g.day = d) :
    (gapRules grid own).Keeps (GapFiller.fillDay grid i d gap gaps report)
      (fun r w' => ∀ report', r = .ok report' → report'.failedDays = report.failedDays ∧
        ∀ g ∈ gap :: gaps, Filled grid w' i g) w := by
  unfold GapFiller.fillDay
  rw [keeps_bind]
  refine keeps_read nofun nofun fun a w₁ w₂ hstep hlate _ _ hbars hcoverage htrace => ?_
  have hmark := hstep.2.2
  rw [keeps_done]
  cases a with
  | error e => exact nofun
  | ok fetched =>
      have hinv : (gapRules grid own).inv w₂ :=
        ⟨fun i d row h => hdays i d row (hcoverage ▸ h), hsound.of_eq hcoverage htrace⟩
      have hmem : ∀ c, c ∈ GapFiller.returned (gap :: gaps) fetched ↔
          c ∈ fetched ∧ ∃ g ∈ gap :: gaps, g.range.contains c.ts = true := by
        intro c
        rw [GapFiller.returned, List.mem_filter, List.any_eq_true]
      have hreturned : ∀ c ∈ GapFiller.returned (gap :: gaps) fetched,
          c.instrumentId = i ∧ c.timeframe = .m1 :=
        fun c hc => fetched_of_step hstep c ((hmem c).1 hc).1
      dsimp only
      rw [keeps_bind]
      have hwrite := keeps_writeReturned grid d w₂ hfits.minutes hreturned
        fun b hb c hc heq => by
          obtain ⟨-, g, hg, hcontains⟩ := (hmem c).1 hc
          have hts : c.ts = b.ts := congrArg (·.2.2) heq
          have hi : c.instrumentId = b.instrumentId := congrArg (·.1) heq
          rw [hts, hfits.apart g hg b hb (hi.symm.trans (hreturned c hc).1)] at hcontains
          exact Bool.false_ne_true hcontains
      refine ((hwrite.and_guar hinv).and_inv hinv).mono ?_
      rintro r w₃ ⟨⟨hheld, hgrows⟩, hdays', hsound'⟩
      cases r with
      | error e => exact nofun
      | ok u =>
          dsimp only
          rw [keeps_bind]
          have hrecord := keeps_recordAbsent own i d (gap :: gaps)
            (GapFiller.returned (gap :: gaps) fetched) hdays' hsound'
            fun g hg m hm hcontains hnot => by
              obtain ⟨hge, hlt⟩ := of_decide_eq_true hcontains
              have hstop := le_last g hg
              refine ⟨w₁.clock, _, _, fetched, hgrows.trace (hmark ▸ List.mem_cons_self),
                (first_le g hg).trans hge, hlt.trans_le hstop, ?_, fun hin => hnot ?_⟩
              · -- the minute has ended when its gap has, and the fetch came after that
                have hend := (SessionGrid.mem_minutes hm).2.1.add_minute_le (hfits.stops g hg) hlt
                exact (hend.trans hstop).trans hlate
              · obtain ⟨c, hc, rfl⟩ := List.mem_map.1 hin
                exact List.mem_map.2 ⟨c, (hmem c).2 ⟨hc, g, hg, hcontains⟩, rfl⟩
          refine (hrecord.and_guar ⟨hdays', hsound'⟩).mono ?_
          rintro r w₄ ⟨hrecorded, hgrows'⟩
          cases r with
          | error e => exact nofun
          | ok u =>
              rintro report' heq
              cases heq
              refine ⟨rfl, fun g hg m hm hcontains => ?_⟩
              rw [hday g hg] at hm ⊢
              refine (hrecorded rfl g hg m hm hcontains).imp_left fun hin => ?_
              obtain ⟨c, hc, rfl⟩ := List.mem_map.1 hin
              exact hgrows'.held i c.ts (hheld rfl c hc)

theorem Fits.mono {gaps gaps' : List Gap} (h : Fits grid own i gaps) (hsub : gaps' ⊆ gaps) :
    Fits grid own i gaps' :=
  ⟨fun g hg => h.stops g (hsub hg), fun g hg => h.apart g (hsub hg), h.minutes⟩

theorem keeps_fillDays {gaps : List Gap} (hfits : Fits grid own i gaps) :
    ∀ (days : List ℤ) (report : FillReport) (w : World), (gapRules grid own).inv w →
    (gapRules grid own).Keeps (GapFiller.fillDays grid i gaps days report)
      (fun r w' => ∀ report', r = .ok report' → report'.failedDays = [] →
        report.failedDays = [] ∧ ∀ d ∈ days, ∀ g ∈ gaps, g.day = d → Filled grid w' i g) w := by
  intro days
  induction days with
  | nil =>
      rintro report w - report' heq hnone
      cases heq
      exact ⟨hnone, nofun⟩
  | cons d rest ih =>
      intro report w hinv
      unfold GapFiller.fillDays
      have hmem : ∀ g, g ∈ (gaps.filter fun g => g.day = d) ↔ g ∈ gaps ∧ g.day = d := fun g => by
        rw [List.mem_filter, decide_eq_true_eq]
      cases hgaps : gaps.filter fun g => g.day = d with
      | nil =>
          refine (ih report w hinv).mono fun r w' hrest report' heq hnone => ?_
          obtain ⟨hbefore, hfilled⟩ := hrest report' heq hnone
          refine ⟨hbefore, List.forall_mem_cons.2 ⟨fun g hg hd => ?_, hfilled⟩⟩
          have hin := (hmem g).2 ⟨hg, hd⟩
          rw [hgaps] at hin
          cases hin
      | cons gap others =>
          rw [hgaps] at hmem
          dsimp only
          rw [keeps_bind, keeps_attempt]
          have hday := keeps_fillDay report hinv.1 hinv.2
            (hfits.mono fun g hg => ((hmem g).1 hg).1) fun g hg => ((hmem g).1 hg).2
          refine ((hday.and_guar hinv).and_inv hinv).mono ?_
          rintro r w₁ ⟨⟨hfilled, -⟩, hinv₁⟩
          cases r with
          | ok report₁ =>
              obtain ⟨hsame, hfilled⟩ := hfilled report₁ rfl
              refine ((ih report₁ w₁ hinv₁).and_guar hinv₁).mono ?_
              rintro r w' ⟨hrest, hgrows⟩ report' heq hnone
              obtain ⟨hbefore, hlater⟩ := hrest report' heq hnone
              refine ⟨hsame ▸ hbefore, List.forall_mem_cons.2 ⟨fun g hg hd => ?_, hlater⟩⟩
              exact (hfilled g ((hmem g).2 ⟨hg, hd⟩)).grows hgrows
          | error e =>
              dsimp only
              split
              · -- a day that failed is in the report
                refine (ih _ w₁ hinv₁).mono fun r w' hrest report' heq hnone => ?_
                obtain ⟨hbefore, -⟩ := hrest report' heq hnone
                exact absurd hbefore (List.append_ne_nil_of_right_ne_nil _ (List.cons_ne_nil _ _))
              · exact nofun

/-- **A fill with no failed day** accounts for all of its gaps. -/
theorem keeps_fill {gaps : List Gap} (hfits : Fits grid own i gaps)
    (hinv : (gapRules grid own).inv w) :
    (gapRules grid own).Keeps (GapFiller.fill grid i gaps)
      (fun r w' => ∀ report', r = .ok report' → report'.failedDays = [] →
        ∀ g ∈ gaps, Filled grid w' i g) w := by
  refine (keeps_fillDays hfits _ _ w hinv).mono fun r w' h report' heq hnone g hg => ?_
  refine (h report' heq hnone).2 g.day ?_ g hg rfl
  rw [List.mem_insertionSort, List.mem_dedup]
  exact List.mem_map_of_mem hg

/-! ## Finding gaps -/

variable (grid) in
/-- Gaps that a find returns: day by day what is neither stored nor recorded
absent. -/
def FoundIn (w : World) (i : String) (first last : ℤ) (gaps : List Gap) : Prop :=
  ∃ missing : ℤ → List Timestamp,
    gaps = ((grid.tradingDays first last).flatMap fun d =>
      (compress (missing d)).map (Gap.mk i d)) ∧
    ∀ d ∈ grid.tradingDays first last, ∀ m, m ∈ missing d ↔
      m ∈ grid.minutes d ∧ ¬Held w i m ∧ ¬Absent w i d m

theorem mem_read {bars : List Candle} {tf : Timeframe} {start stop : Timestamp} {c : Candle} :
    c ∈ read bars i tf start stop ↔ c ∈ bars ∧ c.instrumentId = i ∧ c.timeframe = tf ∧
      start ≤ c.ts ∧ c.ts < stop := by
  unfold World.read
  rw [List.mem_insertionSort, List.mem_filter, decide_eq_true_eq]

theorem read_of_step {tf : Timeframe} {start stop : Timestamp} {stored : List Candle}
    (h : World.Step w (.getRange i tf start stop) (.ok stored) w') :
    stored = read w.bars i tf start stop := by
  obtain ⟨hserves, -⟩ := h
  generalize w'.bars = bars at hserves
  generalize w'.coverage = recorded at hserves
  cases hserves with
  | getRange => rfl

/-- A minute of a day among others is stored if it is in what is read of
their sessions. -/
theorem mem_read_iff_held {first last : ℤ} {days : List ℤ} {d₀ : ℤ} {m : Timestamp}
    (hdays : grid.tradingDays first last = d₀ :: days) (hd : d ∈ grid.tradingDays first last)
    (hm : m ∈ grid.minutes d) :
    m ∈ (read w.bars i .m1 (grid.window.openAt d₀) (grid.window.closeAt
      ((d₀ :: days).getLast (List.cons_ne_nil _ _)))).map (·.ts) ↔ Held w i m := by
  obtain ⟨-, -, hopen, hclose⟩ := SessionGrid.mem_minutes hm
  have hsorted : (grid.tradingDays first last).Pairwise (· < ·) :=
    SessionGrid.pairwise_tradingDays
  rw [hdays] at hd hsorted
  have hfirst : d₀ ≤ d := by
    obtain rfl | hd := List.mem_cons.1 hd
    · exact le_rfl
    · exact ((List.pairwise_cons.1 hsorted).1 d hd).le
  have hlast : d ≤ (d₀ :: days).getLast (List.cons_ne_nil _ _) :=
    (hsorted.imp le_of_lt).rel_getLast hd
  rw [Held, List.mem_map, List.mem_map]
  refine exists_congr fun c => ?_
  rw [mem_read]
  constructor
  · rintro ⟨⟨hc, hi, htf, -, -⟩, rfl⟩
    exact ⟨hc, by rw [Candle.identity, hi, htf]⟩
  · rintro ⟨hc, hidentity⟩
    obtain ⟨hi, htf, rfl⟩ : c.instrumentId = i ∧ c.timeframe = .m1 ∧ c.ts = m := by
      simpa [Candle.identity] using hidentity
    refine ⟨⟨hc, hi, htf, ?_, ?_⟩, rfl⟩
    · exact (SessionGrid.openAt_mono hfirst).trans hopen
    · exact hclose.trans_le (SessionGrid.closeAt_mono hlast)

/-- **What a find returns**, from what is stored and recorded. -/
theorem keeps_find {first last : ℤ} :
    (gapRules grid own).Keeps (GapDetector.find grid i first last)
      (fun r w' => w'.bars = w.bars ∧ w'.coverage = w.coverage ∧
        ∀ gaps, r = .ok gaps → FoundIn grid w i first last gaps) w := by
  unfold GapDetector.find
  cases hdays : grid.tradingDays first last with
  | nil =>
      refine ⟨rfl, rfl, fun gaps heq => ?_⟩
      cases heq
      exact ⟨fun _ => [], by rw [hdays]; rfl, by rw [hdays]; exact nofun⟩
  | cons d₀ days =>
      dsimp only
      rw [keeps_bind]
      refine keeps_read nofun nofun fun a w₁ w₂ hstep _ hsame _ hbars hcoverage _ => ?_
      rw [keeps_done]
      cases a with
      | error e => exact ⟨hbars, hcoverage, nofun⟩
      | ok stored =>
          dsimp only
          rw [keeps_bind]
          refine keeps_read nofun nofun fun a w₃ w₄ hstep' _ _ hsame' hbars' hcoverage' _ => ?_
          rw [keeps_done]
          cases a with
          | error e => exact ⟨hbars'.trans hbars, hcoverage'.trans hcoverage, nofun⟩
          | ok covered =>
              refine ⟨hbars'.trans hbars, hcoverage'.trans hcoverage, fun gaps heq => ?_⟩
              cases heq
              refine ⟨GapDetector.missing grid stored covered, by rw [hdays], fun d hd m => ?_⟩
              obtain ⟨-, hfirst, hlast⟩ := SessionGrid.mem_tradingDays.1 hd
              have hheld : m ∈ grid.minutes d → (m ∈ stored.map (·.ts) ↔ Held w i m) := fun hm => by
                rw [read_of_step hstep, hsame]
                exact mem_read_iff_held hdays hd hm
              have habsent : (Table.lookup DayCoverage.day d covered).any (·.isAbsent m) = true ↔
                  Absent w i d m := by
                rw [days_of_step hstep', lookup_daysOf hfirst hlast, hsame', hcoverage, Absent,
                  Option.any_eq_true]
              rw [GapDetector.missing, List.mem_filter, decide_eq_true_eq]
              refine and_congr_right fun hm => ?_
              rw [hheld hm, habsent]

namespace FoundIn

variable {first last : ℤ} {gaps : List Gap}

theorem mem_gaps {missing : ℤ → List Timestamp} {g : Gap}
    (h : gaps = ((grid.tradingDays first last).flatMap fun d =>
      (compress (missing d)).map (Gap.mk i d))) :
    g ∈ gaps ↔ g.instrumentId = i ∧ g.day ∈ grid.tradingDays first last ∧
      g.range ∈ compress (missing g.day) := by
  rw [h, List.mem_flatMap]
  constructor
  · rintro ⟨d, hd, hg⟩
    obtain ⟨r, hr, rfl⟩ := List.mem_map.1 hg
    exact ⟨rfl, hd, hr⟩
  · rintro ⟨rfl, hd, hr⟩
    exact ⟨g.day, hd, List.mem_map.2 ⟨g.range, hr, rfl⟩⟩

/-- The gaps of a find have no bar that was stored then. -/
theorem fits (h : FoundIn grid w i first last gaps)
    (hphase : ∀ b ∈ w.bars, b.instrumentId = i → b.timeframe = .m1 → InPhase grid.phase b.ts) :
    Fits grid (w.bars.filter fun b => b.timeframe = .m1) i gaps := by
  obtain ⟨missing, hgaps, hmissing⟩ := h
  have hranged : ∀ d ∈ grid.tradingDays first last,
      Ranged grid.phase (missing d) (compress (missing d)) := fun d hd =>
    ranged_compress fun m hm => (SessionGrid.mem_minutes ((hmissing d hd m).1 hm).1).2.1
  refine ⟨fun g hg => ?_, fun g hg b hb hi => ?_, fun b hb => ?_⟩
  · obtain ⟨-, hd, hr⟩ := (mem_gaps hgaps).1 hg
    exact (hranged g.day hd).stops _ hr
  · obtain ⟨-, hd, hr⟩ := (mem_gaps hgaps).1 hg
    obtain ⟨hb, htf⟩ := List.mem_filter.1 hb
    have htf := of_decide_eq_true htf
    by_contra hcontains
    have hin := ((hranged g.day hd).holds b.ts (hphase b hb hi htf)).1
      (List.any_eq_true.2 ⟨g.range, hr, Bool.eq_true_of_not_eq_false hcontains⟩)
    refine ((hmissing g.day hd b.ts).1 hin).2.1 (List.mem_map.2 ⟨b, hb, ?_⟩)
    rw [Candle.identity, hi, htf]
  · exact of_decide_eq_true (List.mem_filter.1 hb).2

/-- A minute is accounted for, or in a gap. -/
theorem accounted (h : FoundIn grid w i first last gaps) (hd : d ∈ grid.tradingDays first last)
    {m : Timestamp} (hm : m ∈ grid.minutes d) :
    Held w i m ∨ Absent w i d m ∨ ∃ g ∈ gaps, g.day = d ∧ g.range.contains m = true := by
  obtain ⟨missing, hgaps, hmissing⟩ := h
  by_cases hin : m ∈ missing d
  · have hranged := ranged_compress fun m hm =>
      (SessionGrid.mem_minutes ((hmissing d hd m).1 hm).1).2.1
    obtain ⟨r, hr, hcontains⟩ :=
      List.any_eq_true.1 ((hranged.holds m (SessionGrid.mem_minutes hm).2.1).2 hin)
    exact .inr (.inr ⟨⟨i, d, r⟩, (mem_gaps hgaps).2 ⟨rfl, hd, hr⟩, rfl, hcontains⟩)
  · by_contra hnot
    obtain ⟨hheld, hnot⟩ := not_or.1 hnot
    exact hin ((hmissing d hd m).2 ⟨hm, hheld, (not_or.1 hnot).1⟩)

/-- Where every minute is accounted for, there is no gap. -/
theorem eq_nil (h : FoundIn grid w i first last gaps)
    (hall : ∀ d ∈ grid.tradingDays first last, ∀ m ∈ grid.minutes d,
      Held w i m ∨ Absent w i d m) : gaps = [] := by
  obtain ⟨missing, hgaps, hmissing⟩ := h
  refine List.eq_nil_iff_forall_not_mem.2 fun g hg => ?_
  obtain ⟨-, hd, hr⟩ := (mem_gaps hgaps).1 hg
  have hranged := ranged_compress fun m hm =>
    (SessionGrid.mem_minutes ((hmissing g.day hd m).1 hm).1).2.1
  obtain ⟨hm, hheld, habsent⟩ := (hmissing g.day hd _).1 (hranged.starts g.range hr)
  exact (hall g.day hd _ hm).elim hheld habsent

end FoundIn

/-! ## Losses, finds and fills -/

/-- A find that returned, and the bars that were stored then. -/
structure Found where
  instrument : String
  first : ℤ
  last : ℤ
  gaps : List Gap
  bars : List Candle

structure GapRun where
  world : World
  finds : List Found

inductive GapEvent
  | lost
  | waited
  | found (find : Found)
  | failed
  | filled (find : Found) (gaps : List Gap) (result : Except PyError FillReport)

namespace GapRun

variable (grid) in
/-- What may happen next: bars are lost, time goes by, gaps are found, or
gaps that were found are filled. If careful, what is fetched is over, and
the minutes stored where gaps are sought are those of the grid. -/
inductive Step (careful : Bool) : GapRun → GapEvent → GapRun → Prop
  | lost {s : GapRun} {bars : List Candle} (h : bars.Sublist s.world.bars) :
      Step careful s .lost ⟨{ s.world with bars := bars }, s.finds⟩
  | waited {s : GapRun} {t : Timestamp} (h : s.world.clock ≤ t) :
      Step careful s .waited ⟨{ s.world with clock := t }, s.finds⟩
  | found {s : GapRun} {i : String} {first last : ℤ} {gaps : List Gap} {w : World}
      (hcareful : careful = true → ∀ b ∈ s.world.bars, b.instrumentId = i → b.timeframe = .m1 →
        InPhase grid.phase b.ts)
      (h : Completes (gapSetting careful) (GapDetector.find grid i first last) s.world (.ok gaps) w) :
      Step careful s (.found ⟨i, first, last, gaps, s.world.bars⟩)
        ⟨w, ⟨i, first, last, gaps, s.world.bars⟩ :: s.finds⟩
  | failed {s : GapRun} {i : String} {first last : ℤ} {e : PyError} {w : World}
      (h : Completes (gapSetting careful) (GapDetector.find grid i first last) s.world (.error e) w) :
      Step careful s .failed ⟨w, s.finds⟩
  | filled {s : GapRun} {find : Found} {gaps : List Gap} {r : Except PyError FillReport} {w : World}
      (hfind : find ∈ s.finds) (hgaps : gaps ⊆ find.gaps)
      (h : Completes (gapSetting careful) (GapFiller.fill grid find.instrument gaps) s.world r w) :
      Step careful s (.filled find gaps r) ⟨w, s.finds⟩

variable (grid) in
def Reach (careful : Bool) : GapRun → GapRun → Prop :=
  Relation.ReflTransGen fun s s' => ∃ e, Step grid careful s e s'

variable (grid) in
/-- The same, without a loss. -/
def Steady (careful : Bool) : GapRun → GapRun → Prop :=
  Relation.ReflTransGen fun s s' => ∃ e, e ≠ .lost ∧ Step grid careful s e s'

variable (grid) in
/-- Nothing was found yet, and what is recorded is sound. -/
structure Start (s : GapRun) : Prop where
  finds : s.finds = []
  ownDays : OwnDays s.world
  absences : AbsencesSound grid s.world

variable (grid) in
/-- What is to hold of a run in a state: a minute is recorded absent only if
a fetch made when it was over did not return it; no bar stored when its gaps
were found is overwritten by a fill; and a fill of all gaps found that has
no failed day leaves none. -/
structure Sound (careful : Bool) (s : GapRun) : Prop where
  absences : AbsencesSound grid s.world
  untouched : ∀ find gaps r s', Step grid careful s (.filled find gaps r) s' →
    ∀ b ∈ find.bars, b.timeframe = .m1 → b ∈ s.world.bars → b ∈ s'.world.bars
  converges : ∀ find s₁ s₂ report s₃ s₄ again s₅, Step grid careful s (.found find) s₁ →
    Steady grid careful s₁ s₂ → Step grid careful s₂ (.filled find find.gaps (.ok report)) s₃ →
    report.failedDays = [] → Steady grid careful s₃ s₄ → Step grid careful s₄ (.found again) s₅ →
    again.instrument = find.instrument → again.first = find.first → again.last = find.last →
    again.gaps = []

/-- What careful steps keep. -/
structure Kept (grid : SessionGrid) (s : GapRun) : Prop where
  ownDays : OwnDays s.world
  absences : AbsencesSound grid s.world
  fits : ∀ f ∈ s.finds, Fits grid (f.bars.filter fun b => b.timeframe = .m1) f.instrument f.gaps

variable {s s' : GapRun}

theorem Kept.inv (h : Kept grid s) : (gapRules grid own).inv s.world := ⟨h.ownDays, h.absences⟩

/-- A find changes nothing, and returns what is not accounted for. -/
theorem Kept.found {find : Found} (h : Kept grid s) (hs : Step grid true s (.found find) s') :
    FoundIn grid s.world find.instrument find.first find.last find.gaps ∧
      s'.world.bars = s.world.bars ∧ s'.world.coverage = s.world.coverage := by
  cases hs with
  | found _ hrun =>
      obtain ⟨⟨hbars, hcoverage, hfound⟩, -, -⟩ :=
        hrun.sound (R := gapRules grid []) h.inv keeps_find
      exact ⟨hfound _ rfl, hbars, hcoverage⟩

/-- **A careful step keeps it**, and nothing is lost but in a loss. -/
theorem Kept.step {e : GapEvent} (h : Kept grid s) (hs : Step grid true s e s') :
    Kept grid s' ∧ (e ≠ .lost → Grows grid [] s.world s'.world) := by
  cases hs with
  | lost hbars => exact ⟨⟨h.ownDays, h.absences, h.fits⟩, fun hne => absurd rfl hne⟩
  | waited _ =>
      exact ⟨⟨h.ownDays, h.absences, h.fits⟩, fun _ => .of_eq rfl rfl (List.Subset.refl _)⟩
  | found hcareful hrun =>
      obtain ⟨⟨-, -, hfound⟩, hinv, hgrows⟩ :=
        hrun.sound (R := gapRules grid []) h.inv keeps_find
      exact ⟨⟨hinv.1, hinv.2,
        List.forall_mem_cons.2 ⟨(hfound _ rfl).fits (hcareful rfl), h.fits⟩⟩, fun _ => hgrows⟩
  | failed hrun =>
      obtain ⟨-, hinv, hgrows⟩ := hrun.sound (R := gapRules grid []) h.inv keeps_find
      exact ⟨⟨hinv.1, hinv.2, h.fits⟩, fun _ => hgrows⟩
  | @filled find gaps r w hfind hgaps hrun =>
      have hfits := h.fits find hfind
      have hnone : Fits grid [] find.instrument find.gaps :=
        ⟨hfits.stops, fun _ _ _ hb => absurd hb List.not_mem_nil,
          fun _ hb => absurd hb List.not_mem_nil⟩
      obtain ⟨-, hinv, hgrows⟩ := hrun.sound (R := gapRules grid []) h.inv
        (keeps_fill (hnone.mono hgaps) h.inv)
      exact ⟨⟨hinv.1, hinv.2, h.fits⟩, fun _ => hgrows⟩

theorem Kept.reach (h : Kept grid s) (hr : Reach grid true s s') : Kept grid s' := by
  induction hr with
  | refl => exact h
  | tail _ hs ih =>
      obtain ⟨e, hs⟩ := hs
      exact (ih.step hs).1

theorem Kept.steady (h : Kept grid s) (hr : Steady grid true s s') :
    Kept grid s' ∧ Grows grid [] s.world s'.world := by
  induction hr with
  | refl => exact ⟨h, .refl _⟩
  | tail _ hs ih =>
      obtain ⟨e, hne, hs⟩ := hs
      obtain ⟨hkept, hgrows⟩ := ih.1.step hs
      exact ⟨hkept, ih.2.trans (hgrows hne)⟩

/-- A fill leaves the bars that were stored when its gaps were found. -/
theorem Kept.untouched {find : Found} {gaps : List Gap} {r : Except PyError FillReport}
    (h : Kept grid s) (hs : Step grid true s (.filled find gaps r) s') {b : Candle}
    (hb : b ∈ find.bars) (hm1 : b.timeframe = .m1) (hstored : b ∈ s.world.bars) :
    b ∈ s'.world.bars := by
  cases hs with
  | filled hfind hgaps hrun =>
      have hfits := (h.fits find hfind).mono hgaps
      obtain ⟨-, -, hgrows⟩ := hrun.sound h.inv (keeps_fill hfits h.inv)
      exact hgrows.stays b (List.mem_filter.2 ⟨hb, decide_eq_true hm1⟩) hstored

/-- A fill with no failed day accounts for the gaps. -/
theorem Kept.filled {find : Found} {gaps : List Gap} {report : FillReport} (h : Kept grid s)
    (hs : Step grid true s (.filled find gaps (.ok report)) s') (hnone : report.failedDays = []) :
    ∀ g ∈ gaps, Filled grid s'.world find.instrument g := by
  cases hs with
  | filled hfind hgaps hrun =>
      have hfits := (h.fits find hfind).mono hgaps
      obtain ⟨hfilled, -, -⟩ := hrun.sound h.inv (keeps_fill hfits h.inv)
      exact hfilled report rfl hnone

/-- **Filling all gaps leaves none.** -/
theorem Kept.converges {find again : Found} {report : FillReport} {s₁ s₂ s₃ s₄ s₅ : GapRun}
    (h : Kept grid s) (hfind : Step grid true s (.found find) s₁) (h₁₂ : Steady grid true s₁ s₂)
    (hfill : Step grid true s₂ (.filled find find.gaps (.ok report)) s₃)
    (hnone : report.failedDays = []) (h₃₄ : Steady grid true s₃ s₄)
    (hagain : Step grid true s₄ (.found again) s₅) (hi : again.instrument = find.instrument)
    (hfirst : again.first = find.first) (hlast : again.last = find.last) : again.gaps = [] := by
  obtain ⟨hfound, hbars, hcoverage⟩ := h.found hfind
  have hkept₁ := (h.step hfind).1
  obtain ⟨hkept₂, hgrows₂⟩ := hkept₁.steady h₁₂
  have hfilled := hkept₂.filled hfill hnone
  obtain ⟨hkept₃, hgrows₃⟩ := hkept₂.step hfill
  obtain ⟨hkept₄, hgrows₄⟩ := hkept₃.steady h₃₄
  obtain ⟨hfoundAgain, -, -⟩ := hkept₄.found hagain
  have hgrows : Grows grid [] s₁.world s₄.world :=
    (hgrows₂.trans (hgrows₃ nofun)).trans hgrows₄
  refine hfoundAgain.eq_nil fun d hd m hm => ?_
  rw [hi]
  rw [hfirst, hlast] at hd
  -- stored or recorded when the gaps were found, or in a gap that was filled
  obtain hheld | habsent | ⟨g, hg, rfl, hcontains⟩ := hfound.accounted hd hm
  · refine .inl (hgrows.held _ m ?_)
    rwa [Held, hbars]
  · refine .inr (hgrows.absent _ d m hm ?_)
    rwa [Absent, hcoverage]
  · exact (hfilled g hg).grows hgrows₄ m hm hcontains

/-- **Careful runs are sound.** Where each fetch of a fill comes after the
end of what it asks for, and the minutes stored where gaps are sought are
those of the grid, absences are confirmed, fills overwrite nothing and
filling converges. -/
theorem Reach.gaps_confirmed {s s' : GapRun} (hstart : Start grid s) (hr : Reach grid true s s') :
    Sound grid true s' := by
  have hkept : Kept grid s :=
    ⟨hstart.ownDays, hstart.absences, by rw [hstart.finds]; exact nofun⟩
  have hkept' := hkept.reach hr
  refine ⟨hkept'.absences, fun find gaps r s₁ hs b hb hm1 hstored => ?_, ?_⟩
  · exact hkept'.untouched hs hb hm1 hstored
  · intro find s₁ s₂ report s₃ s₄ again s₅ hfind h₁₂ hfill hnone h₃₄ hagain
    exact hkept'.converges hfind h₁₂ hfill hnone h₃₄ hagain

/-! A broker that has no bars, asked for the minutes of a short session on a
Monday, when it opens and when it has closed. -/

theorem short_open : 0 ≤ regularOpen := by decide

theorem short_close : regularOpen + 2 * minute < Timestamp.day := by decide

/-- Two minutes on weekdays. -/
def shortGrid : SessionGrid :=
  ⟨SessionWindow.weekdays, ⟨regularOpen, regularOpen + 2 * minute, SessionWindow.weekdays⟩,
    short_open, short_close⟩

def early : PyError := .broker "BrokerError" .retryable "early"

/-- What is not over is refused, if careful. -/
def answer (careful : Bool) (c : Call) (w : World) : c.Answer × World :=
  match c with
  | .fetch i tf start stop =>
      if careful = false ∨ stop ≤ w.clock then sampleReply allReads w (.fetch i tf start stop)
      else
        let mark := Mark.called w.clock (.fetch i tf start stop) (.error early)
        (.error early, { w with trace := mark :: w.trace })
  | c => sampleReply allReads w c

theorem answer_step (careful : Bool) (w : World) (c : Call) :
    (gapSetting careful).answers w c (answer careful c w).1 (answer careful c w).2 := by
  have hreply := sampleReply_step allReads w c
  cases c with
  | fetch i tf start stop =>
      unfold answer
      dsimp only
      split
      · rename_i hlate
        exact ⟨hreply, fun hcareful => hlate.resolve_left (by rw [hcareful]; exact nofun)⟩
      · exact ⟨⟨.failed, rfl, rfl⟩, fun _ => trivial⟩
  | getDays _ _ _ _ => exact ⟨hreply, fun _ => trivial⟩
  | save _ => exact ⟨hreply, fun _ => trivial⟩
  | upsert _ => exact ⟨hreply, fun _ => trivial⟩
  | getRange _ _ _ _ => exact ⟨hreply, fun _ => trivial⟩
  | now => exact ⟨hreply, fun _ => trivial⟩

def monday (careful : Bool) (t : Timestamp) : Except PyError (List Gap) × World :=
  (GapDetector.find shortGrid "I" 4 4).exec (answer careful) (sampleAt t)

def mondayGaps (careful : Bool) (t : Timestamp) : List Gap :=
  (monday careful t).1.toOption.getD []

def mondayFound (careful : Bool) (t : Timestamp) : Found :=
  ⟨"I", 4, 4, mondayGaps careful t, []⟩

/-- The gaps of a find are filled. -/
def fillRun (careful : Bool) (find : Found) (w : World) : Except PyError FillReport × World :=
  (GapFiller.fill shortGrid find.instrument find.gaps).exec (answer careful) w

/-- The gaps of a Monday are found and filled. -/
def mondayRun (careful : Bool) (t : Timestamp) : GapRun :=
  ⟨(fillRun careful (mondayFound careful t) (monday careful t).2).2, [mondayFound careful t]⟩

theorem start_monday (t : Timestamp) : Start shortGrid ⟨sampleAt t, []⟩ := by
  refine ⟨rfl, fun i d row h => ?_, fun i d m _ h => ?_⟩
  · cases h
  · obtain ⟨row, h, -⟩ := h
    cases h

theorem monday_ok (careful : Bool) (t : Timestamp) :
    (monday careful t).1 = .ok (mondayGaps careful t) := by
  obtain ⟨gaps, hgaps⟩ : ∃ gaps, (monday careful t).1 = .ok gaps := ⟨_, rfl⟩
  rw [mondayGaps, hgaps]
  rfl

theorem found_monday (careful : Bool) (t : Timestamp) :
    Step shortGrid careful ⟨sampleAt t, []⟩ (.found (mondayFound careful t))
      ⟨(monday careful t).2, [mondayFound careful t]⟩ := by
  refine .found (fun _ b hb => absurd hb List.not_mem_nil) ?_
  rw [← monday_ok]
  exact Completes.of_exec (answer_step careful) _ _

theorem filled_fillRun (careful : Bool) (find : Found) (w : World) :
    Step shortGrid careful ⟨w, [find]⟩
      (.filled find find.gaps (fillRun careful find w).1) ⟨(fillRun careful find w).2, [find]⟩ :=
  .filled List.mem_cons_self (List.Subset.refl _) (Completes.of_exec (answer_step careful) _ _)

theorem reach_monday (careful : Bool) (t : Timestamp) :
    Reach shortGrid careful ⟨sampleAt t, []⟩ (mondayRun careful t) :=
  .head ⟨_, found_monday careful t⟩
    (.head ⟨_, filled_fillRun careful (mondayFound careful t) _⟩ .refl)

/-- After the close, the minutes that did not come are confirmed absent. -/
theorem gaps_confirmed_monday :
    Absent (mondayRun true (shortGrid.window.closeAt 4)).world "I" 4 (shortGrid.window.openAt 4) ∧
      Sound shortGrid true (mondayRun true (shortGrid.window.closeAt 4)) :=
  ⟨(Option.any_eq_true _ _).1 (by decide), Reach.gaps_confirmed (start_monday _) (reach_monday true _)⟩

/-- At the open, a minute that has just begun is recorded absent. -/
theorem gaps_unconfirmed : ¬∀ s s' : GapRun, Start shortGrid s → Reach shortGrid false s s' →
    Sound shortGrid false s' := fun h => by
  have hsound := h _ _ (start_monday (shortGrid.window.openAt 4))
    (reach_monday false (shortGrid.window.openAt 4))
  have habsent : Absent (mondayRun false (shortGrid.window.openAt 4)).world "I" 4
      (shortGrid.window.openAt 4) := (Option.any_eq_true _ _).1 (by decide)
  obtain ⟨t, start, stop, candles, hmark, -, -, hover, -⟩ :=
    hsound.absences "I" 4 _ (by decide) habsent
  have hall : (mondayRun false (shortGrid.window.openAt 4)).world.trace.all
      (Mark.by (shortGrid.window.openAt 4)) = true := by decide
  have hby : t ≤ shortGrid.window.openAt 4 := of_decide_eq_true (List.all_eq_true.1 hall _ hmark)
  exact absurd (hover.trans hby) (not_le.2 (lt_add_minute _))

end GapRun

end History

end Emporos
