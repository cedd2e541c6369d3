import Emporos.History.Resume
/-!
# Checkpoints

In every sequence of backfills whose plans are tidy a complete day is a
checkpoint: it was fetched whole, after its close, and stored, and no run
that begins later asks for it again or writes a bar of it. Requests are
short, and those of a run that came to its end cover every trading day that
it found lacking.

Neither half of tidiness can be left out. A run over the current day records
it complete at noon; and a run over three days of which the middle one is
complete asks for all three.
-/

namespace Emporos

namespace History

open Async World Timestamp

variable {o : BackfillOrchestrator}

abbrev State := Solo calls PyError Outcome World

def Job.IsBackfill (job : Job) : Prop := ∃ instruments first last, job = .backfill instruments first last

/-- The backfills of an orchestrator, one after another. -/
abbrev backfills (o : BackfillOrchestrator) : Setting calls PyError Outcome World :=
  setting (Job.program o) Job.IsBackfill

/-- The requests of the latest run cover the trading days it found lacking. -/
def Covered (o : BackfillOrchestrator) (trace : List Mark) : Prop :=
  ∀ newer instruments first last recorded older,
    trace = newer ++ .began (.backfill instruments first last) recorded :: older →
    (∀ mark ∈ newer, ∃ moment c answer, mark = .called moment c answer) →
    ∀ i ∈ instruments, ∀ d ∈ o.grid.tradingDays first last, ¬ Complete recorded i d →
      ∃ moment start stop answer, Mark.called moment (.fetch i .m1 start stop) answer ∈ newer ∧
        start ≤ o.grid.window.openAt d ∧ o.grid.window.closeAt d ≤ stop

/-- **A resumable history.** -/
structure Resumable (o : BackfillOrchestrator) (s : State) : Prop where
  /-- A complete day was fetched at or after its close, stored and then
  recorded. -/
  earned : ∀ i d, Complete s.world.coverage i d → ∃ r : Receipt, r.Earns o.grid s.world.trace i d
  /-- No later run fetches or rewrites it. -/
  settled : ∀ i d, Settled o.grid s.world.trace i d
  short : ∀ mark ∈ s.world.trace, mark.Short o
  /-- A run that has returned has asked for all it lacked. -/
  covered : ∀ outcome, s.job = some (.done (.ok outcome)) → Covered o s.world.trace

/-- Of calls before the latest start there is one list. -/
theorem latest_unique {l l' older older' : List Mark} {job job' : Job}
    {recorded recorded' : List DayCoverage}
    (hl : ∀ mark ∈ l, ∃ moment c answer, mark = .called moment c answer)
    (hl' : ∀ mark ∈ l', ∃ moment c answer, mark = .called moment c answer)
    (h : l ++ .began job recorded :: older = l' ++ .began job' recorded' :: older') :
    l = l' ∧ job = job' ∧ recorded = recorded' := by
  induction l generalizing l' with
  | nil =>
      rcases l' with _ | ⟨mark, l'⟩
      · cases h
        exact ⟨rfl, rfl, rfl⟩
      · obtain ⟨moment, c, a, rfl⟩ := hl' mark (List.mem_cons_self ..)
        cases h
  | cons mark l ih =>
      obtain ⟨moment, c, a, rfl⟩ := hl mark (List.mem_cons_self ..)
      rcases l' with _ | ⟨mark', l'⟩
      · cases h
      · obtain ⟨rfl, htail⟩ := List.cons.inj h
        obtain ⟨rfl, hjob⟩ := ih (fun m hm => hl m (List.mem_cons_of_mem _ hm))
          (fun m hm => hl' m (List.mem_cons_of_mem _ hm)) htail
        exact ⟨rfl, hjob⟩

/-- What a job ends in. -/
def Ends (o : BackfillOrchestrator) (r : Except PyError Outcome) (w : World) : Prop :=
  ∀ outcome, r = .ok outcome → Covered o w.trace

/-- **A run that begins**, in a good world. -/
theorem keeps_backfill {w : World} {instruments : List String} {first last : ℤ} (hgood : Good o w)
    (htrace : ∃ older, w.trace = .began (.backfill instruments first last) w.coverage :: older) :
    (resumeRules o Job.IsBackfill).Keeps (Job.program o (.backfill instruments first last))
      (Ends o) w := by
  refine (Rules.keeps_bind _ _).mpr ((keeps_runAll hgood).mono ?_)
  rintro (e | report) w' ⟨hgood', hran, hasked⟩
  · exact fun _ h => (by cases h)
  · rintro outcome - newer instruments' first' last' recorded older hsplit hnewer i hi d hd hlacks
    obtain ⟨older', holder⟩ := htrace
    obtain ⟨new, hnew, hcalls⟩ := hran.trace
    rw [hnew, holder] at hsplit
    obtain ⟨rfl, hjob, rfl⟩ := latest_unique hcalls hnewer hsplit
    cases hjob
    obtain ⟨new', hnew', moment, start, stop, a, hmem, hspan⟩ := hasked report rfl i hi d ⟨hd, hlacks⟩
    obtain rfl : new = new' := List.append_cancel_right (hnew.symm.trans hnew')
    exact ⟨moment, start, stop, a, hmem, hspan⟩

/-- A job begins. -/
theorem Good.begins {w : World} {job : Job} (h : Good o w) :
    Good o { w with trace := .began job w.coverage :: w.trace } := by
  have hsplit : ∀ {newer job' recorded older},
      Mark.began job w.coverage :: w.trace = newer ++ .began job' recorded :: older →
        (newer = [] ∧ recorded = w.coverage) ∨
          ∃ rest, newer = .began job w.coverage :: rest ∧
            w.trace = rest ++ .began job' recorded :: older := by
    intro newer job' recorded older h
    rcases newer with _ | ⟨mark, rest⟩
    · cases h
      exact Or.inl ⟨rfl, rfl⟩
    · obtain ⟨rfl, htrace⟩ := List.cons.inj h
      exact Or.inr ⟨rest, rfl, htrace⟩
  refine ⟨fun i d hd => ?_, h.trading, fun mark hmark => ?_, ?_, ?_⟩
  · obtain ⟨r, hr⟩ := h.earned i d hd
    exact ⟨r, hr.mono (List.sublist_cons_self ..)⟩
  · rcases List.mem_cons.mp hmark with rfl | hmark
    · trivial
    · exact h.short mark hmark
  · intro i d newer job' recorded older htrace hd moment c a hmem
    rcases hsplit htrace with ⟨rfl, -⟩ | ⟨rest, rfl, hrest⟩
    · cases hmem
    · rcases List.mem_cons.mp hmem with hmem | hmem
      · cases hmem
      · exact h.settled i d rest job' recorded older hrest hd moment c a hmem
  · intro newer job' recorded older htrace i d hd
    rcases hsplit htrace with ⟨-, rfl⟩ | ⟨rest, -, hrest⟩
    · exact hd
    · exact h.stays rest job' recorded older hrest i d hd

/-- **In every sequence of runs whose plans are tidy the history is
resumable**, whatever fails and wherever a run is killed. -/
theorem Reach.resumable {s : State}
    (h : Solo.Reach ((backfills o).restrict (Planned o)) ⟨World.start, none⟩ s) :
    Resumable o s := by
  have hgood : Good o World.start :=
    ⟨fun _ _ hd => absurd hd Bool.false_ne_true, fun _ _ hd => absurd hd Bool.false_ne_true,
      fun _ hmark => absurd hmark List.not_mem_nil,
      fun _ _ _ _ _ _ hsplit => by simp [World.start] at hsplit,
      fun _ _ _ _ hsplit => by simp [World.start] at hsplit⟩
  have hstart : Solo.Sound (resumeRules o Job.IsBackfill) (Ends o) ⟨World.start, none⟩ :=
    ⟨hgood, fun _ hp => (by cases hp)⟩
  have hsound := Solo.Reach.sound ?_ ?_ ?_ hstart h
  · obtain ⟨⟨hinv, hjob⟩, -⟩ := hsound
    exact ⟨hinv.earned, hinv.settled, hinv.short, fun outcome hdone => hjob _ hdone outcome rfl⟩
  · rintro w p w' hinv ⟨job, ⟨instruments, first, last, rfl⟩, rfl, rfl⟩
    exact ⟨hinv.begins, trivial, keeps_backfill hinv.begins ⟨_, rfl⟩⟩
  · rintro r w w' ⟨t, -, rfl⟩ hq
    exact hq
  · exact fun hinv => ⟨hinv, trivial⟩

/-! ## Runs with a broker that has no bars -/

theorem regular_bounds : 0 ≤ regularOpen ∧ regularClose < Timestamp.day := by decide

/-- Weekdays, at most 28 in a request. -/
def sampleOrchestrator : BackfillOrchestrator :=
  ⟨⟨SessionWindow.weekdays, ⟨regularOpen, regularClose, SessionWindow.weekdays⟩, regular_bounds.1,
    regular_bounds.2⟩, 28, true, by decide, by decide⟩

/-- Every call is answered, but for reads of what was recorded that are not
allowed. -/
def sampleServe (allowed : World → ℤ → ℤ → Bool) (w : World) :
    (c : Call) → c.Answer × List Candle × List DayCoverage
  | .getDays i tf first last =>
      (if allowed w first last then .ok (daysOf w.coverage i tf first last)
        else .error (.other "AutoReconnect"), w.bars, w.coverage)
  | .save coverages => (.ok (), w.bars, record w.coverage coverages)
  | .fetch .. => (.ok [], w.bars, w.coverage)
  | .upsert candles => (.ok (), write w.bars candles, w.coverage)
  | .getRange i tf start stop => (.ok (read w.bars i tf start stop), w.bars, w.coverage)
  | .now => (.ok w.clock, w.bars, w.coverage)

def sampleReply (allowed : World → ℤ → ℤ → Bool) (w : World) (c : Call) : c.Answer × World :=
  ((sampleServe allowed w c).1, ⟨w.clock, (sampleServe allowed w c).2.1,
    (sampleServe allowed w c).2.2, .called w.clock c (sampleServe allowed w c).1 :: w.trace⟩)

theorem sampleReply_step (allowed : World → ℤ → ℤ → Bool) (w : World) (c : Call) :
    World.Step w c (sampleReply allowed w c).1 (sampleReply allowed w c).2 := by
  refine ⟨?_, rfl, rfl⟩
  cases c with
  | getDays i tf first last =>
      dsimp only [sampleReply, sampleServe]
      split
      · exact .getDays
      · exact .failed
  | save coverages => exact .saved
  | fetch i tf start stop => exact .fetched (by simp)
  | upsert candles => exact .written
  | getRange i tf start stop => exact .getRange
  | now => exact .now

/-- A backfill of `I` that runs to its end. -/
def sampleRun (allowed : World → ℤ → ℤ → Bool) (first last : ℤ) (w : World) : State :=
  Solo.advance (sampleReply allowed) (fun _ => true) 20
    ⟨{ w with trace := .began (.backfill ["I"] first last) w.coverage :: w.trace },
      some (Job.program sampleOrchestrator (.backfill ["I"] first last))⟩

theorem reach_sampleRun {allowed : World → ℤ → ℤ → Bool} {first last : ℤ} {w : World}
    {cond : World → (c : Call) → c.Answer → World → Prop}
    (hcond : ∀ w c, cond w c (sampleReply allowed w c).1 (sampleReply allowed w c).2) :
    Solo.Reach ((backfills sampleOrchestrator).restrict cond) ⟨w, none⟩
      (sampleRun allowed first last w) := by
  have hreply : ∀ w c, ((backfills sampleOrchestrator).restrict cond).answers w c
      (sampleReply allowed w c).1 (sampleReply allowed w c).2 :=
    fun w c => ⟨sampleReply_step allowed w c, hcond w c⟩
  exact .head ⟨_, .start ⟨_, ⟨_, _, _, rfl⟩, rfl, rfl⟩⟩
    (Solo.Reach.of_restrict (Solo.reach_advance hreply _ _))

/-- At a moment, with nothing stored. -/
def sampleAt (t : Timestamp) : World := { World.start with clock := t }

/-- The close of the first Monday. -/
def mondayClose : Timestamp := sampleOrchestrator.grid.window.closeAt 4

/-- The first Monday is asked for after its close, with nothing recorded. -/
def tidyReads (w : World) (first last : ℤ) : Bool :=
  w.coverage = [] ∧ first = 4 ∧ last = 4 ∧ mondayClose ≤ w.clock

theorem tidyReads_planned (w : World) (c : Call) : Planned sampleOrchestrator w c
    (sampleReply tidyReads w c).1 (sampleReply tidyReads w c).2 := by
  cases c with
  | getDays i tf first last =>
      dsimp only [sampleReply, sampleServe]
      split
      · rename_i hallowed
        obtain ⟨-, rfl, rfl, hclock⟩ := of_decide_eq_true hallowed
        have honly : ∀ d, Lacks sampleOrchestrator w i 4 4 d → d = 4 := fun d hd => by
          obtain ⟨-, hfirst, hlast⟩ := SessionGrid.mem_tradingDays.mp hd.1
          omega
        refine ⟨fun d hd => honly d hd ▸ hclock, fun s hs m hm _ d hsd hdm => ?_⟩
        have := honly s hs.mem
        have := honly m hm
        omega
      · trivial
  | _ => trivial

theorem resumable_sample :
    Complete (sampleRun tidyReads 4 4 (sampleAt mondayClose)).world.coverage "I" 4 ∧
      Resumable sampleOrchestrator (sampleRun tidyReads 4 4 (sampleAt mondayClose)) :=
  ⟨by decide, Reach.resumable (.head ⟨_, .others ⟨mondayClose, by decide, rfl⟩⟩
    (reach_sampleRun tidyReads_planned))⟩

/-- Every read is allowed. -/
def allReads (_ : World) (_ _ : ℤ) : Bool := true

/-- Monday is backfilled at noon. -/
def noonState : State := sampleRun allReads 4 4 (sampleAt (mondayClose - 3 * 3600 * second))

/-- Tuesday is backfilled, and then Monday to Wednesday. -/
def middleState : State :=
  sampleRun allReads 4 6
    (sampleRun allReads 5 5 (sampleAt (sampleOrchestrator.grid.window.closeAt 6))).world

/-- No call of a trace was made after a moment. -/
def Mark.by (t : Timestamp) : Mark → Bool
  | .called moment _ _ => moment ≤ t
  | .began .. => true

/-- A record of a day that had not closed cannot be earned. -/
theorem not_resumable_of_early {s : State} {i : String} {d : ℤ} {t : Timestamp}
    (hcomplete : Complete s.world.coverage i d) (hby : s.world.trace.all (Mark.by t) = true)
    (hearly : t < o.grid.window.closeAt d) : ¬ Resumable o s := by
  intro h
  obtain ⟨r, hr⟩ := h.earned i d hcomplete
  have hmem : Mark.called r.asked (.fetch i .m1 r.start r.stop) (.ok r.fetched) ∈ s.world.trace :=
    hr.order.subset (by simp)
  have hle : r.asked ≤ t := of_decide_eq_true (List.all_eq_true.mp hby _ hmem)
  exact lt_irrefl _ ((hle.trans_lt hearly).trans_le hr.closed)

/-- A request of a complete day, of a run that began with it complete. -/
def Mark.asks (i : String) (t : Timestamp) : Mark → Bool
  | .called _ (.fetch i' _ start stop) _ => i' = i ∧ start ≤ t ∧ t < stop
  | _ => false

def Mark.found (i : String) (d : ℤ) : Mark → Bool
  | .began _ recorded => decide (Complete recorded i d)
  | _ => false

/-- The newest marks up to one that found the day complete have a request
of it. -/
def refetched (i : String) (d : ℤ) (t : Timestamp) : List Mark → Bool → Bool
  | [], _ => false
  | mark :: rest, seen => (seen && mark.found i d) || refetched i d t rest (seen || mark.asks i t)

theorem exists_of_refetched {i : String} {d : ℤ} {t : Timestamp} {trace : List Mark} {seen : Bool}
    (h : refetched i d t trace seen = true) : ∃ newer job recorded older,
      trace = newer ++ .began job recorded :: older ∧ Complete recorded i d ∧
        (seen = true ∨ ∃ mark ∈ newer, mark.asks i t = true) := by
  induction trace generalizing seen with
  | nil => cases h
  | cons mark rest ih =>
      rw [refetched, Bool.or_eq_true, Bool.and_eq_true] at h
      rcases h with ⟨hseen, hfound⟩ | h
      · rcases mark with ⟨job, recorded⟩ | _
        · exact ⟨[], job, recorded, rest, rfl, of_decide_eq_true hfound, Or.inl hseen⟩
        · cases hfound
      · obtain ⟨newer, job, recorded, older, rfl, hcomplete, hasked⟩ := ih h
        refine ⟨mark :: newer, job, recorded, older, rfl, hcomplete, ?_⟩
        rw [Bool.or_eq_true] at hasked
        rcases hasked with (hseen | hmark) | ⟨m, hm, hmark⟩
        · exact Or.inl hseen
        · exact Or.inr ⟨mark, List.mem_cons_self .., hmark⟩
        · exact Or.inr ⟨m, List.mem_cons_of_mem _ hm, hmark⟩

theorem not_resumable_of_refetched {s : State} {i : String} {d : ℤ} {t : Timestamp}
    (hopen : o.grid.window.openAt d ≤ t) (hclose : t < o.grid.window.closeAt d)
    (h : refetched i d t s.world.trace false = true) : ¬ Resumable o s := by
  intro hresumable
  obtain ⟨newer, job, recorded, older, hsplit, hcomplete, hasked⟩ := exists_of_refetched h
  obtain ⟨mark, hmark, hasks⟩ := hasked.resolve_left Bool.false_ne_true
  rcases mark with _ | ⟨moment, c, a⟩
  · cases hasks
  · cases c with
    | fetch i' tf start stop =>
        obtain ⟨rfl, hstart, hstop⟩ := of_decide_eq_true hasks
        exact hresumable.settled _ d newer job recorded older hsplit hcomplete moment _ a hmark
          ⟨rfl, t, hopen, hclose, hstart, hstop⟩
    | _ => cases hasks

/-- **A day recorded complete at noon, and a complete day asked for again.** -/
theorem not_resumable :
    (Solo.Reach (backfills sampleOrchestrator) ⟨World.start, none⟩ noonState ∧
        ¬ Resumable sampleOrchestrator noonState) ∧
      Solo.Reach (backfills sampleOrchestrator) ⟨World.start, none⟩ middleState ∧
        ¬ Resumable sampleOrchestrator middleState := by
  have hrun : ∀ first last w, Solo.Reach (backfills sampleOrchestrator) ⟨w, none⟩
      (sampleRun allReads first last w) := by
    intro first last w
    have hrun : Solo.Reach ((backfills sampleOrchestrator).restrict fun _ _ _ _ => True) ⟨w, none⟩
        (sampleRun allReads first last w) := reach_sampleRun fun _ _ => trivial
    exact hrun.of_restrict
  refine ⟨⟨.head ⟨.others, .others ⟨_, by decide, rfl⟩⟩ (hrun _ _ _), ?_⟩, ?_, ?_⟩
  · exact not_resumable_of_early (i := "I") (d := 4) (t := mondayClose - 3 * 3600 * second)
      (by decide) (by decide) (by decide)
  · refine .head ⟨.others, .others ⟨sampleOrchestrator.grid.window.closeAt 6, by decide, rfl⟩⟩ ?_
    exact ((hrun 5 5 _).tail ⟨.crash, .crash⟩).trans (hrun 4 6 _)
  · exact not_resumable_of_refetched (i := "I") (d := 5)
      (t := sampleOrchestrator.grid.window.openAt 5) le_rfl (by decide) (by decide)

end History

end Emporos
