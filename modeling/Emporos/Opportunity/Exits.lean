import Emporos.Opportunity.Pipeline
/-!
# No exit is lost

What a call collects is what it heard, in that order, so a call that
returns has every exit. It returns exactly when nothing it heard ends it:
no strategy raised past `Exception`, and every entry is one the scanner
can turn into a candidate.
-/

namespace Emporos

namespace PipelineTick

/-- What is collected once something more is heard. -/
def hear (t : PipelineTick) : Heard → PipelineTick
  | .regime instrumentId regime => { t with regimes := Function.update t.regimes instrumentId regime }
  | .signal run signal => OpportunityPipeline.collect run t signal
  | .fatal _ => t

/-- What is collected of a call that hears this. -/
def of (heard : List Heard) : PipelineTick := heard.foldl hear ⟨fun _ => none, [], []⟩

end PipelineTick

namespace Heard

/-- The exits heard, in their order. -/
def exits (heard : List Heard) : List Signal :=
  heard.filterMap fun h =>
    match h with
    | .signal _ s => if s.kind = .exit then some s else none
    | _ => none

/-- Nothing heard ends the call. -/
structure Sound (registry : StrategyRegistry) [DecimalContext] (heard : List Heard) : Prop where
  not_fatal : ∀ name, .fatal name ∉ heard
  admissible : ∀ run s, .signal run s ∈ heard → s.kind = .entry →
    OpportunityScanner.Admissible registry (run.entry s) s
      ((PipelineTick.of heard).regimes run.instrumentId)

end Heard

namespace OpportunityPipeline

section Calls

variable {σ : Type} {parts : PipelineParts σ} {p : OpportunityPipeline σ} {run : StrategyRun}
  {candle : Candle} {w w' : PipelineWorld σ} {t : PipelineTick}

/-! ## What is heard -/

/-- What driving a run comes to: the signals it returned are what was heard,
unless something passed through. -/
inductive Drove (run : StrategyRun) (w w' : PipelineWorld σ) (pulled : List Signal) :
    Except String (List Signal) → Prop
  | pulled (signals : List Signal) (heard : w'.heard = w.heard ++ signals.map (.signal run)) :
      Drove run w w' pulled (.ok (pulled ++ signals))
  | fatal (signals : List Signal) (name : String)
      (heard : w'.heard = w.heard ++ signals.map (.signal run) ++ [.fatal name]) :
      Drove run w w' pulled (.error name)

/-- Nothing pulled. -/
theorem Drove.silent {pulled : List Signal} (hheard : w'.heard = w.heard) :
    Drove run w w' pulled (.ok pulled) := by
  have : Drove run w w' pulled (.ok (pulled ++ [])) :=
    .pulled [] (hheard.trans (List.append_nil _).symm)
  rwa [List.append_nil] at this

theorem drove_pull (n : ℕ) : ∀ (w : PipelineWorld σ) (pulled : List Signal),
    Drove run w (pull parts run n w pulled).2 pulled (pull parts run n w pulled).1 := by
  induction n with
  | zero =>
      intro w pulled
      exact .silent rfl
  | succ n ih =>
      intro w pulled
      unfold pull
      rcases parts.generateSignal run.strategy w.state with ⟨error | signal, state⟩
      · cases error with
        | exception error =>
            exact .silent rfl
        | base name => exact .fatal [] name (by simp)
      · cases signal with
        | none =>
            exact .silent rfl
        | some signal =>
            dsimp only
            have hrest := ih { w with state, heard := w.heard ++ [.signal run signal] }
              (pulled ++ [signal])
            generalize pull parts run n { w with state, heard := w.heard ++ [.signal run signal] }
              (pulled ++ [signal]) = result at hrest
            obtain ⟨outcome, w'⟩ := result
            cases hrest with
            | pulled signals heard =>
                rw [List.append_assoc]
                exact .pulled (signal :: signals) (by simpa using heard)
            | fatal signals name heard => exact .fatal (signal :: signals) name (by simpa using heard)

theorem Drove.of_heard {v : PipelineWorld σ} {pulled : List Signal}
    {outcome : Except String (List Signal)} (h : Drove run v w' pulled outcome)
    (hheard : v.heard = w.heard) : Drove run w w' pulled outcome := by
  cases h with
  | pulled signals heard => exact .pulled signals (hheard ▸ heard)
  | fatal signals name heard => exact .fatal signals name (hheard ▸ heard)

theorem drove_drive (w : PipelineWorld σ) :
    Drove run w (drive parts run candle w).2 [] (drive parts run candle w).1 := by
  unfold drive
  rcases parts.onMarketData run.strategy candle w.state with ⟨_ | error, state⟩
  · exact (drove_pull maxSignalsPerEvent { w with state } []).of_heard rfl
  · cases error with
    | exception error => exact .pulled [] (List.append_nil _).symm
    | base name => exact .fatal [] name (by simp)

/-- What a loop over runs or bars comes to: it has collected what was heard,
unless something passed through. -/
inductive Collected (w w' : PipelineWorld σ) (t : PipelineTick) : Except String PipelineTick → Prop
  | ok (heard : List Heard) (hnone : ∀ name, .fatal name ∉ heard)
      (hheard : w'.heard = w.heard ++ heard) : Collected w w' t (.ok (heard.foldl PipelineTick.hear t))
  | fatal (heard : List Heard) (name : String) (hfatal : .fatal name ∈ heard)
      (hheard : w'.heard = w.heard ++ heard) : Collected w w' t (.error name)

/-- More collected behind what was. -/
theorem Collected.after {heard : List Heard} {outcome : Except String PipelineTick}
    {v : PipelineWorld σ} (hnone : ∀ name, .fatal name ∉ heard) (hheard : v.heard = w.heard ++ heard)
    (h : Collected v w' (heard.foldl PipelineTick.hear t) outcome) : Collected w w' t outcome := by
  cases h with
  | ok more hnone' hmore =>
      rw [← List.foldl_append]
      refine .ok (heard ++ more) (fun name hmem => ?_) ?_
      · rcases List.mem_append.mp hmem with hmem | hmem
        · exact hnone name hmem
        · exact hnone' name hmem
      · rw [hmore, hheard, List.append_assoc]
  | fatal more name hfatal hmore =>
      refine .fatal (heard ++ more) name (List.mem_append_right _ hfatal) ?_
      rw [hmore, hheard, List.append_assoc]

theorem foldl_collect (signals : List Signal) :
    ∀ t : PipelineTick, signals.foldl (collect run) t =
      (signals.map (.signal run)).foldl PipelineTick.hear t := by
  intro t
  rw [List.foldl_map]
  rfl

theorem collected_driveRuns (runs : List StrategyRun) : ∀ (t : PipelineTick) (w : PipelineWorld σ),
    Collected w (driveRuns parts candle runs t w).2 t (driveRuns parts candle runs t w).1 := by
  induction runs with
  | nil => exact fun t w => .ok [] (fun _ => List.not_mem_nil) (List.append_nil _).symm
  | cons run rest ih =>
      intro t w
      unfold driveRuns
      by_cases hhalted : run.strategy ∈ w.halted
      · rw [if_pos hhalted]
        exact ih t w
      · rw [if_neg hhalted]
        have hdrive : Drove run w (drive parts run candle w).2 [] (drive parts run candle w).1 :=
          drove_drive w
        generalize drive parts run candle w = result at hdrive
        obtain ⟨outcome, v⟩ := result
        cases hdrive with
        | pulled signals heard =>
            refine Collected.after ?_ heard ?_
            · intro name hmem
              obtain ⟨signal, -, heq⟩ := List.mem_map.mp hmem
              cases heq
            · dsimp only
              rw [← foldl_collect]
              exact ih _ v
        | fatal signals name heard =>
            refine .fatal (signals.map (.signal run) ++ [.fatal name]) name
              (List.mem_append_right _ List.mem_cons_self) ?_
            rw [heard, List.append_assoc]

theorem classify_eq : ∃ regime,
    (classify parts candle t w).1 = t.hear (.regime candle.instrumentId regime) ∧
    (classify parts candle t w).2.heard = w.heard ++ [.regime candle.instrumentId regime] :=
  ⟨_, rfl, rfl⟩

theorem collected_driveBars (candles : List Candle) : ∀ (t : PipelineTick) (w : PipelineWorld σ),
    Collected w (driveBars p candles t w).2 t (driveBars p candles t w).1 := by
  induction candles with
  | nil => exact fun t w => .ok [] (fun _ => List.not_mem_nil) (List.append_nil _).symm
  | cons candle rest ih =>
      intro t w
      unfold driveBars
      obtain ⟨regime, hregime, hheard⟩ := @classify_eq _ p.parts candle w t
      refine Collected.after ?_ hheard ?_
      · intro name hmem
        cases List.mem_singleton.mp hmem
      · have hruns := @collected_driveRuns _ p.parts candle
          (p.runs.filter fun run => run.instrumentId = candle.instrumentId)
          (classify p.parts candle t w).1 (classify p.parts candle t w).2
        rw [hregime] at hruns ⊢
        generalize driveRuns p.parts candle _ _ _ = result at hruns ⊢
        obtain ⟨outcome, v⟩ := result
        cases hruns with
        | ok heard hnone hheard' => exact (ih _ v).after hnone hheard'
        | fatal heard name hfatal hheard' => exact .fatal heard name hfatal hheard'

/-! ## What is collected -/

theorem foldl_hear_exits (heard : List Heard) : ∀ t : PipelineTick,
    (heard.foldl PipelineTick.hear t).exits = t.exits ++ Heard.exits heard := by
  induction heard with
  | nil => exact fun t => (List.append_nil _).symm
  | cons h rest ih =>
      intro t
      rw [List.foldl_cons, ih]
      cases h with
      | regime instrumentId regime => rfl
      | fatal name => rfl
      | signal run s =>
          by_cases hexit : s.kind = .exit
          · have hexits : Heard.exits (.signal run s :: rest) = s :: Heard.exits rest := by
              unfold Heard.exits
              rw [List.filterMap_cons]
              simp [hexit]
            rw [hexits, PipelineTick.hear, collect, if_pos hexit, List.append_assoc]
            rfl
          · have hexits : Heard.exits (.signal run s :: rest) = Heard.exits rest := by
              unfold Heard.exits
              rw [List.filterMap_cons]
              simp [hexit]
            rw [hexits, PipelineTick.hear, collect, if_neg hexit]

theorem mem_foldl_hear_entries {entry : StrategySignal} (heard : List Heard) : ∀ t : PipelineTick,
    entry ∈ (heard.foldl PipelineTick.hear t).entries ↔
      entry ∈ t.entries ∨ ∃ run s, .signal run s ∈ heard ∧ s.kind = .entry ∧ entry = run.entry s := by
  induction heard with
  | nil => exact fun t => by simp
  | cons h rest ih =>
      intro t
      rw [List.foldl_cons, ih]
      cases h with
      | regime instrumentId regime => simp [PipelineTick.hear]
      | fatal name => simp [PipelineTick.hear]
      | signal run s =>
          rw [PipelineTick.hear, collect]
          by_cases hexit : s.kind = .exit
          · have hne : s.kind ≠ .entry := fun h => by rw [hexit] at h; cases h
            rw [if_pos hexit]
            constructor
            · rintro (h | ⟨r, x, hmem, h⟩)
              · exact .inl h
              · exact .inr ⟨r, x, List.mem_cons_of_mem _ hmem, h⟩
            · rintro (h | ⟨r, x, hmem, hkind, h⟩)
              · exact .inl h
              · rcases List.mem_cons.mp hmem with heq | hmem
                · cases heq
                  exact absurd hkind hne
                · exact .inr ⟨r, x, hmem, hkind, h⟩
          · have hentry : s.kind = .entry := by
              cases hkind : s.kind with
              | entry => rfl
              | exit => exact absurd hkind hexit
            rw [if_neg hexit, List.mem_append, List.mem_singleton]
            constructor
            · rintro ((h | h) | ⟨r, x, hmem, h⟩)
              · exact .inl h
              · exact .inr ⟨run, s, List.mem_cons_self, hentry, h⟩
              · exact .inr ⟨r, x, List.mem_cons_of_mem _ hmem, h⟩
            · rintro (h | ⟨r, x, hmem, hkind, h⟩)
              · exact .inl (.inl h)
              · rcases List.mem_cons.mp hmem with heq | hmem
                · cases heq
                  exact .inl (.inr h)
                · exact .inr ⟨r, x, hmem, hkind, h⟩

/-! ## When a call returns every exit -/

variable [DecimalContext] {candles : List Candle}

/-- What a call hears. -/
def heardIn (p : OpportunityPipeline σ) (candles : List Candle) (w : PipelineWorld σ) : List Heard :=
  (p.onBars candles w).2.heard.drop w.heard.length

/-- The call returns, with every exit the strategies returned in it, each
once and in their order. -/
def KeepsExits (p : OpportunityPipeline σ) (candles : List Candle) (w : PipelineWorld σ) : Prop :=
  ∃ outcome, (p.onBars candles w).1 = .ok outcome ∧
    outcome.exits = Heard.exits (p.heardIn candles w)

/-- What becomes of the entries tells the pipeline nothing more, and exits
are not touched. -/
theorem select_spec (ts : Timestamp) :
    (p.select ts t w).2.heard = w.heard ∧
    ∀ outcome, (p.select ts t w).1 = .ok outcome → outcome.exits = t.exits := by
  unfold select
  cases OpportunityScanner.scan p.registry t.entries t.regimes ts with
  | error e => exact ⟨rfl, fun outcome h => by cases h⟩
  | ok scan =>
      refine ⟨rfl, fun outcome h => ?_⟩
      obtain rfl := Except.ok.inj h
      rfl

theorem select_isOk (ts : Timestamp) : (∃ outcome, (p.select ts t w).1 = .ok outcome) ↔
    ∃ scan, OpportunityScanner.scan p.registry t.entries t.regimes ts = .ok scan := by
  unfold select
  cases OpportunityScanner.scan p.registry t.entries t.regimes ts with
  | error e => exact ⟨fun ⟨_, h⟩ => (by cases h), fun ⟨_, h⟩ => (by cases h)⟩
  | ok scan => exact ⟨fun _ => ⟨scan, rfl⟩, fun _ => ⟨_, rfl⟩⟩

omit [DecimalContext] in
/-- The entries of a call are all of them entries. -/
theorem entries_of (heard : List Heard) : ∀ entry ∈ (PipelineTick.of heard).entries,
    ∃ s, entry.signal = some s ∧ s.kind = .entry := by
  intro entry hentry
  rcases (mem_foldl_hear_entries heard _).mp hentry with h | ⟨run, s, -, hkind, rfl⟩
  · exact absurd h List.not_mem_nil
  · exact ⟨s, rfl, hkind⟩

/-- What is heard is heard before the scan. -/
theorem heardIn_eq (hne : candles ≠ []) : p.heardIn candles w =
    (driveBars p candles ⟨fun _ => none, [], []⟩ w).2.heard.drop w.heard.length := by
  obtain ⟨first, rest, rfl⟩ := List.exists_cons_of_ne_nil hne
  unfold heardIn onBars
  dsimp only
  obtain ⟨outcome | t, v⟩ := driveBars p (first :: rest) ⟨fun _ => none, [], []⟩ w
  · rfl
  · dsimp only
    rw [(select_spec first.ts).1]

/-- **One call** returns every exit exactly when nothing it heard ends it. -/
theorem keepsExits_iff_sound (hne : candles ≠ []) :
    p.KeepsExits candles w ↔ Heard.Sound p.registry (p.heardIn candles w) := by
  rw [heardIn_eq hne, KeepsExits, heardIn_eq hne]
  obtain ⟨first, rest, rfl⟩ := List.exists_cons_of_ne_nil hne
  have hbars := collected_driveBars (p := p) (first :: rest) ⟨fun _ => none, [], []⟩ w
  unfold onBars
  dsimp only
  generalize driveBars p (first :: rest) ⟨fun _ => none, [], []⟩ w = result at hbars ⊢
  obtain ⟨outcome, v⟩ := result
  cases hbars with
  | fatal heard name hfatal hheard =>
      rw [hheard, List.drop_left]
      exact ⟨fun ⟨_, h, _⟩ => (by cases h), fun h => absurd hfatal (h.not_fatal name)⟩
  | ok heard hnone hheard =>
      dsimp only
      rw [hheard, List.drop_left]
      have hcollected := foldl_hear_exits heard ⟨fun _ => none, [], []⟩
      rw [List.nil_append] at hcollected
      have hscan := @OpportunityScanner.scan_isOk _ p.registry (PipelineTick.of heard).regimes
        first.ts _ (entries_of heard)
      constructor
      · rintro ⟨outcome, hok, -⟩
        refine ⟨hnone, fun run s hmem hkind => ?_⟩
        refine hscan.mp ((select_isOk first.ts).mp ⟨outcome, hok⟩) (run.entry s) ?_ s rfl
        exact (mem_foldl_hear_entries heard _).mpr (.inr ⟨run, s, hmem, hkind, rfl⟩)
      · intro hsound
        have hok : ∃ scan, OpportunityScanner.scan p.registry (PipelineTick.of heard).entries
            (PipelineTick.of heard).regimes first.ts = .ok scan := by
          refine hscan.mpr fun entry hentry s hs => ?_
          rcases (mem_foldl_hear_entries heard _).mp hentry with h | ⟨run, s', hmem, hkind, rfl⟩
          · exact absurd h List.not_mem_nil
          · obtain rfl := Option.some.inj hs
            exact hsound.admissible run s' hmem hkind
        obtain ⟨outcome, houtcome⟩ := (select_isOk (p := p) (w := v) first.ts).mpr hok
        refine ⟨outcome, houtcome, ?_⟩
        exact ((select_spec first.ts).2 outcome houtcome).trans hcollected

/-! ## Runs -/

/-- The pipeline after a run of calls. A call that raises leaves it as the
exception found it. -/
def after (p : OpportunityPipeline σ) (calls : List (List Candle)) (w : PipelineWorld σ) :
    PipelineWorld σ :=
  calls.foldl (fun w candles => (p.onBars candles w).2) w

/-- Every call of the run, in the state it finds. -/
def Throughout (p : OpportunityPipeline σ) (calls : List (List Candle)) (w : PipelineWorld σ)
    (P : List Candle → PipelineWorld σ → Prop) : Prop :=
  ∀ before candles later, calls = before ++ candles :: later → P candles (p.after before w)

end Calls

/-! ## An exit and a sale in one call -/

theorem samplePct_fits : (0 : Decimal) < 10000 ∧ (0 : Decimal) < 1 ∧ (1 : Decimal) < 100 ∧
    (0 : Decimal) < 5 ∧ (0 : Decimal) < 100 := by
  norm_num

/-- A stop at one percent. -/
def sampleSettings (targetPct : Decimal) (target_pos : 0 < targetPct) : RiskSettings where
  maxPositionValue := 10000
  maxOpenPositions := 1
  stopLossPct := 1
  targetPct := targetPct
  value_pos := samplePct_fits.1
  positions_pos := Nat.one_pos
  stop_pos := samplePct_fits.2.1
  stop_lt := samplePct_fits.2.2.1
  target_pos := target_pos

/-- Parts whose strategies return what is listed for them. -/
def scripted : PipelineParts (List (ℕ × Signal)) where
  onMarketData _ _ s := (none, s)
  generateSignal id s := (.ok ((s.find? fun x => x.1 = id).map Prod.snd), s.eraseP fun x => x.1 = id)
  regime _ := some fun _ s => (some .trending, s)
  account _ := {}
  filter candidates s := (candidates, s)

/-- Two strategies on one instrument, with one target. -/
def twoStrategies (targetPct : Decimal) (target_pos : 0 < targetPct) :
    OpportunityPipeline (List (ℕ × Signal)) where
  runs := [⟨"S", "I", .m5, 0, sampleSettings targetPct target_pos⟩,
    ⟨"S", "I", .m5, 1, sampleSettings targetPct target_pos⟩]
  registry := [("S", ⟨[], [], none⟩)]
  sectors := fun _ => none
  constraints := PortfolioAllocator.sampleConstraints
  parts := scripted

theorem sampleExit_fits : stopFits .exit .sell ⟨100⟩ none := trivial

/-- The first strategy leaves a position, the second sells short. -/
def exitAndSale : PipelineWorld (List (ℕ × Signal)) where
  state := [(0, { Signal.sample .sell 10 Sample.ten_pos with
      kind := .exit, stop_fits := sampleExit_fits }),
    (1, Signal.sample .sell 10 Sample.ten_pos)]
  halted := []
  alerts := []
  heard := []

theorem sampleBar_sound : (⟨100⟩ : Money) ≤ ⟨100⟩ := le_rfl

def sampleBars : List Candle :=
  [⟨"I", .m5, 0, ⟨100⟩, ⟨100⟩, ⟨100⟩, ⟨100⟩, 1, false, sampleBar_sound, sampleBar_sound,
    sampleBar_sound, sampleBar_sound⟩]

end OpportunityPipeline

end Emporos
