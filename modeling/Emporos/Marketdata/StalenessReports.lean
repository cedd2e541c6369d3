import Emporos.Marketdata.Staleness
/-!
# What the watchdog reports

Between two times an instrument is dropped, the watchdog says in turn that
it is stale and that it has recovered (`reports_alternate`). A check leaves
reported exactly what is stale, and answers with what it changed. It raises
the alarm of a silent open once a day, and only on a day without a tick.
-/

namespace Emporos

namespace Staleness

open Timestamp

/-- What is said of one instrument: a notice, or that it was dropped. -/
inductive Word
  | stale
  | recovered
  | dropped
  deriving DecidableEq

namespace Word

/-- Whether the instrument is reported stale after a word. Of one that is
reported, only a recovery is news. -/
def next : Bool → Word → Option Bool
  | false, stale => some true
  | true, recovered => some false
  | _, dropped => some false
  | true, stale => none
  | false, recovered => none

end Word

/-- What a notice says of an instrument. -/
def Notice.about (i : String) : Notice → Option Word
  | .onStale j _ => if j = i then some .stale else none
  | .onRecovered j => if j = i then some .recovered else none
  | .alert _ _ => none

namespace StalenessWatchdog

/-- What a call says of an instrument. -/
def wordsAt (cfg : Settings) (i : String) (w : StalenessWatchdog) (c : Call) : List Word :=
  match c.event with
  | .unwatch ids => if i ∈ ids then [.dropped] else []
  | _ => (w.step cfg c).2.filterMap (Notice.about i)

/-- What the calls of a run say of an instrument. -/
def words (cfg : Settings) (i : String) (w : StalenessWatchdog) : List Call → List Word
  | [] => []
  | c :: calls => w.wordsAt cfg i c ++ (w.step cfg c).1.words cfg i calls

/-- The notices lead from one watchdog's report of the instrument to the
other's. -/
def Leads (i : String) (w : StalenessWatchdog) (notices : List Notice) (w' : StalenessWatchdog) :
    Prop :=
  (notices.filterMap (Notice.about i)).foldlM Word.next (decide (i ∈ w.reportedStale)) =
    some (decide (i ∈ w'.reportedStale))

section Leads

variable {cfg : Settings} {i j : String} {now : Timestamp} {w w' w'' : StalenessWatchdog}
  {notices notices' : List Notice}

theorem Leads.silent (h : w.reportedStale = w'.reportedStale) : Leads i w [] w' := by
  rw [Leads, h]
  rfl

theorem Leads.trans (h : Leads i w notices w') (h' : Leads i w' notices' w'') :
    Leads i w (notices ++ notices') w'' := by
  unfold Leads at *
  rw [List.filterMap_append, List.foldlM_append, h]
  exact h'

theorem leads_goStale (h : j ∉ w.reportedStale) :
    Leads i w (w.goStale cfg j now).2 (w.goStale cfg j now).1 := by
  rw [Leads, goStale_fst]
  by_cases hij : j = i
  · subst hij
    simp [goStale, List.filterMap_cons, Notice.about, Word.next, h]
  · simp [goStale, List.filterMap_cons, Notice.about, hij, Ne.symm hij]

theorem leads_recover (h : j ∈ w.reportedStale) :
    Leads i w (w.recover j).2 (w.recover j).1 := by
  rw [Leads, recover_fst]
  by_cases hij : j = i
  · subst hij
    simp [recover, Notice.about, Word.next, h]
  · simp [recover, Notice.about, hij, Ne.symm hij]

theorem leads_onTick {t : Timestamp} :
    Leads i w (w.onTick cfg j now t).2 (w.onTick cfg j now t).1 := by
  unfold onTick
  dsimp only
  split
  · rename_i h
    exact (Leads.silent rfl).trans (leads_recover h.1)
  · exact Leads.silent rfl

variable (cfg i j now) in
/-- One turn of the loop of `check`. -/
theorem leads_checkOne (c : Checked) : ∃ told,
    (checkOne cfg now c j).notices = c.notices ++ told ∧
      Leads i c.watchdog told (checkOne cfg now c j).watchdog := by
  unfold checkOne
  dsimp only
  split
  · rename_i h
    exact ⟨_, rfl, leads_goStale h.2⟩
  · split
    · rename_i h
      exact ⟨_, rfl, leads_recover h.2⟩
    · exact ⟨[], (List.append_nil _).symm, Leads.silent rfl⟩

variable (cfg i now) in
theorem leads_foldl (ids : List String) (c : Checked) : ∃ told,
    (ids.foldl (checkOne cfg now) c).notices = c.notices ++ told ∧
      Leads i c.watchdog told (ids.foldl (checkOne cfg now) c).watchdog := by
  induction ids generalizing c with
  | nil => exact ⟨[], (List.append_nil _).symm, Leads.silent rfl⟩
  | cons j ids ih =>
      obtain ⟨told, hone, hleads⟩ := leads_checkOne cfg i j now c
      obtain ⟨rest, hrest, hleads'⟩ := ih (checkOne cfg now c j)
      refine ⟨told ++ rest, ?_, hleads.trans hleads'⟩
      rw [List.foldl_cons, hrest, hone, List.append_assoc]

/-- The alarm of a silent open is about no instrument. -/
theorem leads_checkMarketOpen :
    Leads i w (w.checkMarketOpen cfg now).2 (w.checkMarketOpen cfg now).1 := by
  unfold checkMarketOpen
  dsimp only
  split
  · exact Leads.silent rfl
  · split
    · exact Leads.silent rfl
    · simp [Leads, noTicksAtOpen, List.filterMap_cons, Notice.about]

theorem leads_check : Leads i w (w.check cfg now).notices (w.check cfg now).watchdog := by
  obtain ⟨told, hloop, hleads⟩ :=
    leads_foldl cfg i now (sorted w.watched) ⟨w, [], []⟩
  unfold check
  dsimp only
  rw [hloop]
  exact hleads.trans leads_checkMarketOpen

end Leads

section Runs

variable {cfg : Settings} {i : String} {w : StalenessWatchdog}

theorem wordsAt_leads (c : Call) :
    (w.wordsAt cfg i c).foldlM Word.next (decide (i ∈ w.reportedStale)) =
      some (decide (i ∈ (w.step cfg c).1.reportedStale)) := by
  obtain ⟨now, event⟩ := c
  cases event with
  | watch ids => rfl
  | unwatch ids =>
      by_cases hi : i ∈ ids
      · cases hin : decide (i ∈ w.reportedStale) <;>
          simp [wordsAt, step, unwatch_eq, hi, Word.next]
      · simp [wordsAt, step, unwatch_eq, hi]
  | tick j t => exact leads_onTick
  | connected => rfl
  | disconnected => rfl
  | check => exact leads_check

variable (cfg i w) in
theorem words_leads (calls : List Call) :
    (w.words cfg i calls).foldlM Word.next (decide (i ∈ w.reportedStale)) =
      some (decide (i ∈ (calls.foldl (fun w c => (w.step cfg c).1) w).reportedStale)) := by
  induction calls generalizing w with
  | nil => rfl
  | cons c calls ih =>
      rw [words, List.foldlM_append, wordsAt_leads]
      exact ih _

end Runs

/-! ## What a check leaves -/

section Check

variable {cfg : Settings} {i : String} {now : Timestamp} {w : StalenessWatchdog}

variable (cfg w i now) in
/-- Every turn reports its instrument as it is. -/
theorem mem_judged (j : String) : i ∈ w.judged cfg j now ↔
    if i = j then w.isStale cfg i now = true else i ∈ w.reportedStale := by
  unfold judged
  by_cases hij : i = j
  · subst hij
    cases h : w.isStale cfg i now <;> simp
  · cases h : w.isStale cfg j now <;> simp [hij]

theorem reported_foldl (ids : List String) (c : Checked) :
    i ∈ (ids.foldl (checkOne cfg now) c).watchdog.reportedStale ↔
      if i ∈ ids then c.watchdog.isStale cfg i now = true else i ∈ c.watchdog.reportedStale := by
  induction ids generalizing c with
  | nil => simp
  | cons j ids ih =>
      rw [List.foldl_cons, ih, checkOne_watchdog, isStale_report, report_reportedStale,
        mem_judged]
      by_cases hi : i ∈ ids <;> by_cases hij : i = j <;> simp [hi, hij]

theorem reported_check : i ∈ (w.check cfg now).watchdog.reportedStale ↔
    if i ∈ w.watched then w.isStale cfg i now = true else i ∈ w.reportedStale := by
  obtain ⟨alarms, h⟩ := checkMarketOpen_fst cfg
    ((sorted w.watched).foldl (checkOne cfg now) ⟨w, [], []⟩).watchdog now
  unfold check
  dsimp only
  rw [h, reported_foldl]
  simp only [mem_sorted]

/-- Only what is watched is stale. -/
theorem watched_of_isStale (h : w.isStale cfg i now) : i ∈ w.watched := (isStale_iff.mp h).1

theorem mem_changes_checkOne {j : String} {stale : Bool} (c : Checked) :
    (⟨i, stale⟩ : StalenessChange) ∈ (checkOne cfg now c j).changes ↔
      ⟨i, stale⟩ ∈ c.changes ∨ (i = j ∧ c.watchdog.isStale cfg i now = stale ∧
        decide (i ∈ c.watchdog.reportedStale) ≠ stale) := by
  unfold checkOne
  by_cases hij : i = j
  · subst hij
    cases hstale : c.watchdog.isStale cfg i now <;>
      by_cases hin : i ∈ c.watchdog.reportedStale <;> cases stale <;> simp [hin]
  · cases hstale : c.watchdog.isStale cfg j now <;>
      by_cases hin : j ∈ c.watchdog.reportedStale <;> simp [hin, hij]

variable (cfg i now) in
theorem mem_changes_foldl (stale : Bool) (ids : List String) (c : Checked) :
    (⟨i, stale⟩ : StalenessChange) ∈ (ids.foldl (checkOne cfg now) c).changes ↔
      ⟨i, stale⟩ ∈ c.changes ∨ (i ∈ ids ∧ c.watchdog.isStale cfg i now = stale ∧
        decide (i ∈ c.watchdog.reportedStale) ≠ stale) := by
  induction ids generalizing c with
  | nil => simp
  | cons j ids ih =>
      rw [List.foldl_cons, ih, mem_changes_checkOne, checkOne_watchdog, isStale_report,
        report_reportedStale, List.mem_cons]
      have hjudged := mem_judged cfg i now c.watchdog j
      by_cases hij : i = j
      · -- its turn leaves it as it is, so a second one changes nothing
        subst hij
        rw [if_pos rfl] at hjudged
        cases hstale : c.watchdog.isStale cfg i now <;> cases stale <;> simp [hjudged, hstale]
      · rw [if_neg hij] at hjudged
        simp only [hjudged, hij, false_or, false_and, or_false]

theorem mem_changes_check {stale : Bool} :
    (⟨i, stale⟩ : StalenessChange) ∈ (w.check cfg now).changes ↔
      i ∈ w.watched ∧ w.isStale cfg i now = stale ∧ decide (i ∈ w.reportedStale) ≠ stale := by
  have h := mem_changes_foldl cfg i now stale (sorted w.watched) ⟨w, [], []⟩
  rw [mem_sorted] at h
  unfold check
  dsimp only
  rw [h]
  simp

/-- Only what is watched is reported. -/
theorem reported_watched_step {c : Call} (h : w.reportedStale ⊆ w.watched) :
    (w.step cfg c).1.reportedStale ⊆ (w.step cfg c).1.watched := by
  obtain ⟨now, event⟩ := c
  cases event with
  | watch ids => exact h.trans Finset.subset_union_left
  | unwatch ids =>
      simp only [step, unwatch_eq]
      exact Finset.sdiff_subset_sdiff h (Finset.Subset.refl _)
  | tick j t =>
      simp only [step, onTick]
      split
      · exact (Finset.erase_subset _ _).trans h
      · exact h
  | connected => exact h
  | disconnected => exact h
  | check =>
      obtain ⟨stale, alarms, hcheck⟩ := check_fst cfg w now
      intro i hi
      have hin : i ∈ w.watched := by
        have hreported := reported_check.mp hi
        by_contra hnot
        rw [if_neg hnot] at hreported
        exact hnot (h hreported)
      simp only [step, hcheck]
      exact hin

variable (cfg) in
theorem reported_watched (calls : List Call) :
    (after cfg calls).reportedStale ⊆ (after cfg calls).watched := by
  induction calls using List.reverseRecOn with
  | nil => exact Finset.Subset.refl _
  | append_singleton calls c ih =>
      unfold after at *
      rw [List.foldl_append]
      exact reported_watched_step ih

end Check

/-- **The reports take turns, and a check makes them true.** In any run,
what is said of an instrument alternates, starting over where it is dropped,
and ends at what the watchdog has reported; a check leaves reported exactly
the stale instruments, and answers with those whose report it changed. -/
theorem reports_alternate (cfg : Settings) (calls : List Call) (i : String) :
    (initial.words cfg i calls).foldlM Word.next false =
      some (decide (i ∈ (after cfg calls).reportedStale)) ∧
    ∀ now, ((after cfg calls).check cfg now).watchdog.reportedStale =
        (after cfg calls).staleInstruments cfg now ∧
      ∀ stale, (⟨i, stale⟩ : StalenessChange) ∈ ((after cfg calls).check cfg now).changes ↔
        (after cfg calls).isStale cfg i now = stale ∧
          decide (i ∈ (after cfg calls).reportedStale) ≠ stale := by
  have hwatched := reported_watched cfg calls
  refine ⟨words_leads cfg i initial calls, fun now => ⟨?_, fun stale => ?_⟩⟩
  · ext j
    rw [reported_check, staleInstruments, Finset.mem_filter]
    by_cases hj : j ∈ (after cfg calls).watched
    · simp only [hj, if_true, true_and]
    · simp only [hj, if_false, false_and, iff_false]
      exact fun h => hj (hwatched h)
  · rw [mem_changes_check, and_iff_right_iff_imp]
    rintro ⟨hstale, hne⟩
    -- an instrument out of the watch is neither stale nor reported
    by_contra hj
    have hnot : i ∉ (after cfg calls).reportedStale := fun h => hj (hwatched h)
    cases stale with
    | true => exact hj (watched_of_isStale hstale)
    | false => exact hne (decide_eq_false hnot)

/-! ## The alarm of a silent open -/

section Alarm

variable {cfg : Settings} {w : StalenessWatchdog} {now : Timestamp}

theorem noTicksAtOpen_mem_checkOne {i : String} (c : Checked) :
    noTicksAtOpen ∈ (checkOne cfg now c i).notices ↔ noTicksAtOpen ∈ c.notices := by
  unfold checkOne
  dsimp only
  split
  · simp [goStale, noTicksAtOpen]
  · split
    · simp [recover, noTicksAtOpen]
    · rfl

theorem noTicksAtOpen_mem_foldl (ids : List String) (c : Checked) :
    noTicksAtOpen ∈ (ids.foldl (checkOne cfg now) c).notices ↔ noTicksAtOpen ∈ c.notices := by
  induction ids generalizing c with
  | nil => rfl
  | cons i ids ih => rw [List.foldl_cons, ih, noTicksAtOpen_mem_checkOne]

theorem noTicksAtOpen_mem_checkMarketOpen : noTicksAtOpen ∈ (w.checkMarketOpen cfg now).2 ↔
    cfg.window.contains now ∧ now.sessionDate ∉ w.noTickAlarmOn ∧
      cfg.window.openAt now.sessionDate + minute ≤ now ∧ now.sessionDate ∉ w.ticksSeenOn := by
  unfold checkMarketOpen
  dsimp only
  split
  · rename_i h
    simp only [List.not_mem_nil, false_iff]
    tauto
  · split
    · rename_i h
      simp only [List.not_mem_nil, false_iff]
      intro ⟨_, _, hle, hticks⟩
      exact h.elim (fun hlt => absurd hle (not_le.mpr hlt)) hticks
    · rename_i hin h
      obtain ⟨hin, halarm⟩ := not_or.mp hin
      obtain ⟨hlt, hticks⟩ := not_or.mp h
      simp only [List.mem_singleton, true_iff]
      exact ⟨not_not.mp hin, halarm, not_lt.mp hlt, hticks⟩

theorem mem_noTickAlarmOn_checkMarketOpen {date : Int} :
    date ∈ (w.checkMarketOpen cfg now).1.noTickAlarmOn ↔
      (noTicksAtOpen ∈ (w.checkMarketOpen cfg now).2 ∧ now.sessionDate = date) ∨
        date ∈ w.noTickAlarmOn := by
  unfold checkMarketOpen
  dsimp only
  split
  · simp
  · split
    · simp
    · simp [eq_comm]

/-- What was reported has no part in the alarm. -/
theorem checkMarketOpen_report (stale : Finset String) :
    (w.report stale).checkMarketOpen cfg now =
      ((w.checkMarketOpen cfg now).1.report stale, (w.checkMarketOpen cfg now).2) := by
  unfold checkMarketOpen
  simp only [report_noTickAlarmOn, report_ticksSeenOn]
  by_cases hidle : ¬ cfg.window.contains now ∨ now.sessionDate ∈ w.noTickAlarmOn
  · simp only [if_pos hidle]
    exact if_pos hidle
  · simp only [if_neg hidle]
    by_cases hquiet : now < cfg.window.openAt now.sessionDate + minute ∨
        now.sessionDate ∈ w.ticksSeenOn
    · simp only [if_pos hquiet]
      exact (if_neg hidle).trans (if_pos hquiet)
    · simp only [if_neg hquiet]
      exact (if_neg hidle).trans (if_neg hquiet)

/-- Only the end of a check is about the open. -/
theorem noTicksAtOpen_mem_check : noTicksAtOpen ∈ (w.check cfg now).notices ↔
    noTicksAtOpen ∈ (w.checkMarketOpen cfg now).2 := by
  obtain ⟨stale, hloop⟩ := foldl_checkOne cfg now (sorted w.watched) ⟨w, [], []⟩
  unfold check
  dsimp only
  rw [List.mem_append, noTicksAtOpen_mem_foldl, hloop, checkMarketOpen_report]
  simp only [List.not_mem_nil, false_or]

theorem noTickAlarmOn_check :
    (w.check cfg now).watchdog.noTickAlarmOn = (w.checkMarketOpen cfg now).1.noTickAlarmOn := by
  obtain ⟨stale, hloop⟩ := foldl_checkOne cfg now (sorted w.watched) ⟨w, [], []⟩
  unfold check
  dsimp only
  rw [hloop, checkMarketOpen_report]
  rfl

/-- The days of the alarm are those it was raised on. -/
theorem mem_noTickAlarmOn_step {c : Call} {date : Int} :
    date ∈ (w.step cfg c).1.noTickAlarmOn ↔
      (noTicksAtOpen ∈ (w.step cfg c).2 ∧ c.now.sessionDate = date) ∨
        date ∈ w.noTickAlarmOn := by
  obtain ⟨now, event⟩ := c
  cases event with
  | watch ids => simp [step, watch]
  | unwatch ids => simp [step, unwatch_eq]
  | tick j t =>
      simp only [step, onTick]
      split
      · simp [recover, hear, noTicksAtOpen]
      · simp [hear]
  | connected => simp [step, onConnected]
  | disconnected => simp [step, onDisconnected]
  | check =>
      simp only [step]
      rw [noTickAlarmOn_check, noTicksAtOpen_mem_check]
      exact mem_noTickAlarmOn_checkMarketOpen

/-- The alarm was raised on the day. -/
def Alarmed (cfg : Settings) (date : Int) : List Call → Prop :=
  Once fun before c =>
    noTicksAtOpen ∈ ((after cfg before).step cfg c).2 ∧ c.now.sessionDate = date

theorem noTickAlarmOn_after (calls : List Call) (date : Int) :
    date ∈ (after cfg calls).noTickAlarmOn ↔ Alarmed cfg date calls :=
  Once.iff_foldl (fun w : StalenessWatchdog => date ∈ w.noTickAlarmOn) (by simp [initial])
    (fun _ _ => mem_noTickAlarmOn_step) calls

end Alarm

/-- **The alarm of a silent open is raised once, and when it is due.** After
any calls, a check raises it exactly when the session has been open for a
minute without a tick that day, and it was not raised on that day before. -/
theorem no_ticks_alarm (cfg : Settings) (calls : List Call) (now : Timestamp) :
    noTicksAtOpen ∈ ((after cfg calls).check cfg now).notices ↔
      cfg.window.contains now ∧ cfg.window.openAt now.sessionDate + minute ≤ now ∧
        ¬ TickOn now.sessionDate calls ∧ ¬ Alarmed cfg now.sessionDate calls := by
  rw [noTicksAtOpen_mem_check, noTicksAtOpen_mem_checkMarketOpen, ticksSeenOn_after,
    noTickAlarmOn_after]
  tauto

end StalenessWatchdog

end Staleness

end Emporos
