import Emporos.Common.Since
import Emporos.Marketdata.Session
import Mathlib.Data.Finset.Sort
import Mathlib.Data.String.Basic
/-!
# The staleness watchdog

An instrument that is watched is stale, inside the session, while the feed
is down or after more silence than its threshold allows. Staleness is read
off the clock whenever it is asked for; `check` only notices what changed
since it was last reported.

A call reads the clock once here. Who listens hears what the watchdog says
in the order it says it.
-/

namespace Emporos

namespace Staleness

open Timestamp

/-- Python's `max` of two moments or two durations. -/
def later (a b : Int) : Int := if a < b then b else a

theorem lt_later {a b c : Int} : c < later a b ↔ c < a ∨ c < b := by
  unfold later
  split <;> omega

theorem later_le {a b c : Int} : later a b ≤ c ↔ a ≤ c ∧ b ≤ c := by
  unfold later
  split <;> omega

/-- The order of texts. -/
def textOrder (a b : String) : Prop := a ≤ b

instance : DecidableRel textOrder := fun a b => inferInstanceAs (Decidable (a ≤ b))

instance : IsTrans String textOrder := ⟨fun _ _ _ => le_trans⟩

instance : Std.Antisymm textOrder := ⟨fun _ _ => le_antisymm⟩

instance : Std.Total textOrder := ⟨le_total⟩

/-- `sorted` of a set of instruments. -/
def sorted (instrumentIds : Finset String) : List String := instrumentIds.sort textOrder

@[simp] theorem mem_sorted {instrumentIds : Finset String} {i : String} :
    i ∈ sorted instrumentIds ↔ i ∈ instrumentIds := Finset.mem_sort textOrder

/-- What the watchdog says, to its listeners or as an alert. -/
inductive Notice
  | onStale (instrumentId : String) (silentFor : Duration)
  | onRecovered (instrumentId : String)
  | alert (name message : String)
  deriving DecidableEq

structure StalenessChange where
  instrumentId : String
  stale : Bool
  deriving DecidableEq

/-- A threshold for each instrument, and the session. -/
structure Settings where
  threshold : String → Duration
  window : SessionWindow

structure StalenessWatchdog where
  lastTick : String → Option Timestamp
  watched : Finset String
  reportedStale : Finset String
  feedDown : Bool
  feedDownSince : Option Timestamp
  ticksSeenOn : Finset Int
  noTickAlarmOn : Finset Int

/-- What `check` leaves and answers. -/
structure Checked where
  watchdog : StalenessWatchdog
  notices : List Notice
  changes : List StalenessChange

/-- `f"{quiet.total_seconds():.0f}"`: whole seconds, and of two as near the
even one. -/
def wholeSeconds (quiet : Duration) : String :=
  let whole := quiet / second
  let rest := 2 * (quiet % second)
  if rest < second ∨ (rest = second ∧ whole % 2 = 0) then toString whole else toString (whole + 1)

namespace StalenessWatchdog

def initial : StalenessWatchdog := ⟨fun _ => none, ∅, ∅, false, none, ∅, ∅⟩

variable (cfg : Settings) (w : StalenessWatchdog) (instrumentId : String) (now : Timestamp)

def watch (instrumentIds : List String) : StalenessWatchdog :=
  { w with watched := w.watched ∪ instrumentIds.toFinset }

/-- One turn of the loop of `unwatch`. -/
def forget : StalenessWatchdog :=
  { w with
    watched := w.watched.erase instrumentId
    reportedStale := w.reportedStale.erase instrumentId
    lastTick := Function.update w.lastTick instrumentId none }

def unwatch (instrumentIds : List String) : StalenessWatchdog := instrumentIds.foldl forget w

/-- How long the instrument has been quiet, from the open of the session at
the earliest. -/
def silentFor : Option Duration :=
  if cfg.window.contains now then
    let opened := cfg.window.openAt now.sessionDate
    let last := later ((w.lastTick instrumentId).getD opened) opened
    some (later (now - last) 0)
  else none

def isStale : Bool :=
  if instrumentId ∉ w.watched then false
  else if w.feedDown ∧ cfg.window.contains now then true
  else (w.silentFor cfg instrumentId now).any fun quiet => cfg.threshold instrumentId < quiet

/-- The method `feed_down_since`: from the open at the earliest. -/
def downSince : Option Timestamp :=
  if w.feedDown ∧ cfg.window.contains now then
    w.feedDownSince.map fun since => later since (cfg.window.openAt now.sessionDate)
  else none

def staleInstruments : Finset String := w.watched.filter fun i => w.isStale cfg i now

/-- `_go_stale` -/
def goStale : StalenessWatchdog × List Notice :=
  let quiet := (w.silentFor cfg instrumentId now).getD 0
  ({ w with reportedStale := insert instrumentId w.reportedStale },
    [.alert "market_data.stale" (instrumentId ++ " silent for " ++ wholeSeconds quiet ++ "s"),
      .onStale instrumentId quiet])

/-- `_recover` -/
def recover : StalenessWatchdog × List Notice :=
  ({ w with reportedStale := w.reportedStale.erase instrumentId }, [.onRecovered instrumentId])

/-- What a tick leaves before anyone is told. -/
def hear (receivedTs : Timestamp) : StalenessWatchdog :=
  { w with
    lastTick := Function.update w.lastTick instrumentId (some receivedTs)
    ticksSeenOn := insert receivedTs.sessionDate w.ticksSeenOn }

def onTick (receivedTs : Timestamp) : StalenessWatchdog × List Notice :=
  let w := w.hear instrumentId receivedTs
  if instrumentId ∈ w.reportedStale ∧ ¬ w.isStale cfg instrumentId now then w.recover instrumentId
  else (w, [])

def onConnected : StalenessWatchdog := { w with feedDown := false, feedDownSince := none }

def onDisconnected : StalenessWatchdog :=
  { w with
    feedDown := true
    feedDownSince := if w.feedDown then w.feedDownSince else some now }

/-- One turn of the loop of `check`. -/
def checkOne (c : Checked) (instrumentId : String) : Checked :=
  let stale := c.watchdog.isStale cfg instrumentId now
  if stale ∧ instrumentId ∉ c.watchdog.reportedStale then
    let told := c.watchdog.goStale cfg instrumentId now
    ⟨told.1, c.notices ++ told.2, c.changes ++ [⟨instrumentId, true⟩]⟩
  else if ¬ stale ∧ instrumentId ∈ c.watchdog.reportedStale then
    let told := c.watchdog.recover instrumentId
    ⟨told.1, c.notices ++ told.2, c.changes ++ [⟨instrumentId, false⟩]⟩
  else c

/-- No tick from anywhere a minute after the open. -/
def noTicksAtOpen : Notice :=
  .alert "market_data.no_ticks_at_open" "no ticks by 09:16 on an expected trading day"

/-- `_check_market_open` -/
def checkMarketOpen : StalenessWatchdog × List Notice :=
  let today := now.sessionDate
  if ¬ cfg.window.contains now ∨ today ∈ w.noTickAlarmOn then (w, [])
  else if now < cfg.window.openAt today + minute ∨ today ∈ w.ticksSeenOn then (w, [])
  else ({ w with noTickAlarmOn := insert today w.noTickAlarmOn }, [noTicksAtOpen])

def check : Checked :=
  let c := (sorted w.watched).foldl (checkOne cfg now) ⟨w, [], []⟩
  let told := c.watchdog.checkMarketOpen cfg now
  ⟨told.1, c.notices ++ told.2, c.changes⟩

end StalenessWatchdog

/-! ## Runs -/

inductive Event
  | watch (instrumentIds : List String)
  | unwatch (instrumentIds : List String)
  | tick (instrumentId : String) (receivedTs : Timestamp)
  | connected
  | disconnected
  | check

/-- A call of the watchdog, and what the clock says at it. -/
structure Call where
  now : Timestamp
  event : Event

namespace StalenessWatchdog

def step (cfg : Settings) (w : StalenessWatchdog) (c : Call) : StalenessWatchdog × List Notice :=
  match c.event with
  | .watch ids => (w.watch ids, [])
  | .unwatch ids => (w.unwatch ids, [])
  | .tick i receivedTs => w.onTick cfg i c.now receivedTs
  | .connected => (w.onConnected, [])
  | .disconnected => (w.onDisconnected c.now, [])
  | .check => ((w.check cfg c.now).watchdog, (w.check cfg c.now).notices)

/-- A new watchdog after some calls. -/
def after (cfg : Settings) (calls : List Call) : StalenessWatchdog :=
  calls.foldl (fun w c => (w.step cfg c).1) initial

end StalenessWatchdog

/-! ## What the calls so far say -/

namespace Call

def Watches (i : String) (c : Call) : Prop := ∃ ids, c.event = .watch ids ∧ i ∈ ids

def Drops (i : String) (c : Call) : Prop := ∃ ids, c.event = .unwatch ids ∧ i ∈ ids

def Hears (i : String) (c : Call) : Prop := ∃ receivedTs, c.event = .tick i receivedTs

end Call

/-- Asked for, and not dropped since. -/
def Watched (i : String) : List Call → Prop := Since (fun _ c => c.Watches i) (Call.Drops i)

/-- The last tick of the instrument came at `t`, and it was not dropped
since. -/
def LastTick (i : String) (t : Timestamp) : List Call → Prop :=
  Since (fun _ c => c.event = .tick i t) fun c => c.Drops i ∨ c.Hears i

def FeedDown : List Call → Prop :=
  Since (fun _ c => c.event = .disconnected) fun c => c.event = .connected

/-- The feed dropped at `t`, was up until then, and has been down since. -/
def DownSince (t : Timestamp) : List Call → Prop :=
  Since (fun before c => c.event = .disconnected ∧ ¬ FeedDown before ∧ c.now = t)
    fun c => c.event = .connected

/-- A tick of some instrument was received on the day. -/
def TickOn (date : Int) : List Call → Prop :=
  Once fun _ c => ∃ i t, c.event = .tick i t ∧ t.sessionDate = date

namespace StalenessWatchdog

/-- The same watchdog, having reported these. -/
def report (w : StalenessWatchdog) (stale : Finset String) : StalenessWatchdog :=
  { w with reportedStale := stale }

section Fields

variable (cfg : Settings) (w : StalenessWatchdog) (i j : String) (now : Timestamp)
  (stale : Finset String) (t : Timestamp) (ids : List String)

@[simp] theorem report_lastTick : (w.report stale).lastTick = w.lastTick := rfl

@[simp] theorem report_watched : (w.report stale).watched = w.watched := rfl

@[simp] theorem report_reportedStale : (w.report stale).reportedStale = stale := rfl

@[simp] theorem report_feedDown : (w.report stale).feedDown = w.feedDown := rfl

@[simp] theorem report_feedDownSince : (w.report stale).feedDownSince = w.feedDownSince := rfl

@[simp] theorem report_ticksSeenOn : (w.report stale).ticksSeenOn = w.ticksSeenOn := rfl

@[simp] theorem report_noTickAlarmOn : (w.report stale).noTickAlarmOn = w.noTickAlarmOn := rfl

@[simp] theorem report_report (stale' : Finset String) :
    (w.report stale).report stale' = w.report stale' := rfl

theorem report_self : w.report w.reportedStale = w := rfl

/-- What was reported has no part in staleness. -/
@[simp] theorem isStale_report : (w.report stale).isStale cfg i now = w.isStale cfg i now := rfl

theorem goStale_fst : (w.goStale cfg i now).1 = w.report (insert i w.reportedStale) := rfl

theorem recover_fst : (w.recover i).1 = w.report (w.reportedStale.erase i) := rfl

/-- A check and a tick report an instrument as it is. -/
def judged : Finset String :=
  if w.isStale cfg i now then insert i w.reportedStale else w.reportedStale.erase i

theorem checkOne_watchdog (c : Checked) :
    (checkOne cfg now c i).watchdog = c.watchdog.report (c.watchdog.judged cfg i now) := by
  unfold checkOne judged
  by_cases hstale : c.watchdog.isStale cfg i now <;>
    by_cases hin : i ∈ c.watchdog.reportedStale <;>
    simp [hstale, hin, goStale_fst, recover_fst, report_self]

theorem onTick_fst : ∃ stale, (w.onTick cfg i now t).1 = (w.hear i t).report stale := by
  unfold onTick
  dsimp only
  split
  · exact ⟨_, recover_fst _ _⟩
  · exact ⟨_, (report_self _).symm⟩

/-- The loop of `check` only reports. -/
theorem foldl_checkOne (c : Checked) : ∃ stale,
    (ids.foldl (checkOne cfg now) c).watchdog = c.watchdog.report stale := by
  induction ids generalizing c with
  | nil => exact ⟨_, (report_self _).symm⟩
  | cons i ids ih =>
      obtain ⟨stale, h⟩ := ih (checkOne cfg now c i)
      refine ⟨stale, ?_⟩
      rw [List.foldl_cons, h, checkOne_watchdog, report_report]

theorem checkMarketOpen_fst : ∃ alarms, (w.checkMarketOpen cfg now).1 =
    { w with noTickAlarmOn := alarms } := by
  unfold checkMarketOpen
  dsimp only
  split
  · exact ⟨_, rfl⟩
  · split
    · exact ⟨_, rfl⟩
    · exact ⟨_, rfl⟩

/-- A check changes what was reported and the days of the alarm. -/
theorem check_fst : ∃ stale alarms, (w.check cfg now).watchdog =
    { w with reportedStale := stale, noTickAlarmOn := alarms } := by
  obtain ⟨stale, hloop⟩ := foldl_checkOne cfg now (sorted w.watched) ⟨w, [], []⟩
  obtain ⟨alarms, halarm⟩ := checkMarketOpen_fst cfg
    ((sorted w.watched).foldl (checkOne cfg now) ⟨w, [], []⟩).watchdog now
  refine ⟨stale, alarms, ?_⟩
  unfold check
  dsimp only
  rw [halarm, hloop]
  rfl

/-- The loop of `unwatch`. -/
theorem unwatch_eq : w.unwatch ids =
    { w with
      watched := w.watched \ ids.toFinset
      reportedStale := w.reportedStale \ ids.toFinset
      lastTick := fun i => if i ∈ ids then none else w.lastTick i } := by
  induction ids generalizing w with
  | nil => simp [unwatch]
  | cons i ids ih =>
      have hcons : w.unwatch (i :: ids) = (w.forget i).unwatch ids := rfl
      rw [hcons, ih]
      have herase : ∀ s : Finset String, s.erase i \ ids.toFinset = s \ (i :: ids).toFinset := by
        intro s
        ext x
        simp only [Finset.mem_sdiff, Finset.mem_erase, List.mem_toFinset, List.mem_cons]
        tauto
      have htick : (fun x => if x ∈ ids then none else (w.forget i).lastTick x) =
          fun x => if x ∈ i :: ids then none else w.lastTick x := by
        funext x
        by_cases hx : x = i <;> simp [forget, hx]
      rw [htick]
      simp only [forget, herase]

end Fields

/-! Each call sets a part of the watchdog, ends it or leaves it alone: -/

section Steps

variable {cfg : Settings} {w : StalenessWatchdog} {c : Call} {i : String} {t : Timestamp}

theorem mem_watched_step : i ∈ (w.step cfg c).1.watched ↔
    c.Watches i ∨ (i ∈ w.watched ∧ ¬ c.Drops i) := by
  obtain ⟨now, event⟩ := c
  cases event with
  | watch ids => simp [step, watch, Call.Watches, Call.Drops, or_comm]
  | unwatch ids => simp [step, unwatch_eq, Call.Watches, Call.Drops]
  | tick j u =>
      obtain ⟨stale, h⟩ := onTick_fst cfg w j now u
      simp [step, h, hear, Call.Watches, Call.Drops]
  | connected => simp [step, onConnected, Call.Watches, Call.Drops]
  | disconnected => simp [step, onDisconnected, Call.Watches, Call.Drops]
  | check =>
      obtain ⟨stale, alarms, h⟩ := check_fst cfg w now
      simp [step, h, Call.Watches, Call.Drops]

theorem lastTick_step : (w.step cfg c).1.lastTick i = some t ↔
    c.event = .tick i t ∨ (w.lastTick i = some t ∧ ¬ (c.Drops i ∨ c.Hears i)) := by
  obtain ⟨now, event⟩ := c
  cases event with
  | watch ids => simp [step, watch, Call.Hears, Call.Drops]
  | unwatch ids =>
      by_cases hi : i ∈ ids <;> simp [step, unwatch_eq, Call.Hears, Call.Drops, hi]
  | tick j u =>
      obtain ⟨stale, h⟩ := onTick_fst cfg w j now u
      by_cases hi : i = j
      · simp [step, h, hear, Call.Hears, Call.Drops, hi]
      · simp [step, h, hear, Call.Hears, Call.Drops, hi, eq_comm]
  | connected => simp [step, onConnected, Call.Hears, Call.Drops]
  | disconnected => simp [step, onDisconnected, Call.Hears, Call.Drops]
  | check =>
      obtain ⟨stale, alarms, h⟩ := check_fst cfg w now
      simp [step, h, Call.Hears, Call.Drops]

theorem feedDown_step : (w.step cfg c).1.feedDown ↔
    c.event = .disconnected ∨ (w.feedDown ∧ ¬ c.event = .connected) := by
  obtain ⟨now, event⟩ := c
  cases event with
  | watch ids => simp [step, watch]
  | unwatch ids => simp [step, unwatch_eq]
  | tick j u =>
      obtain ⟨stale, h⟩ := onTick_fst cfg w j now u
      simp [step, h, hear]
  | connected => simp [step, onConnected]
  | disconnected => simp [step, onDisconnected]
  | check =>
      obtain ⟨stale, alarms, h⟩ := check_fst cfg w now
      simp [step, h]

theorem feedDownSince_step :
    ((w.step cfg c).1.feedDown ∧ (w.step cfg c).1.feedDownSince = some t) ↔
      (c.event = .disconnected ∧ ¬ w.feedDown ∧ c.now = t) ∨
        ((w.feedDown ∧ w.feedDownSince = some t) ∧ ¬ c.event = .connected) := by
  obtain ⟨now, event⟩ := c
  cases event with
  | watch ids => simp [step, watch]
  | unwatch ids => simp [step, unwatch_eq]
  | tick j u =>
      obtain ⟨stale, h⟩ := onTick_fst cfg w j now u
      simp [step, h, hear]
  | connected => simp [step, onConnected]
  | disconnected =>
      cases hdown : w.feedDown <;> simp [step, onDisconnected, hdown]
  | check =>
      obtain ⟨stale, alarms, h⟩ := check_fst cfg w now
      simp [step, h]

theorem mem_ticksSeenOn_step {date : Int} : date ∈ (w.step cfg c).1.ticksSeenOn ↔
    (∃ i t, c.event = .tick i t ∧ t.sessionDate = date) ∨ date ∈ w.ticksSeenOn := by
  obtain ⟨now, event⟩ := c
  cases event with
  | watch ids => simp [step, watch]
  | unwatch ids => simp [step, unwatch_eq]
  | tick j u =>
      obtain ⟨stale, h⟩ := onTick_fst cfg w j now u
      simp [step, h, hear, eq_comm]
  | connected => simp [step, onConnected]
  | disconnected => simp [step, onDisconnected]
  | check =>
      obtain ⟨stale, alarms, h⟩ := check_fst cfg w now
      simp [step, h]

end Steps

/-! So the past decides it: -/

section Past

variable (cfg : Settings) (calls : List Call) (i : String) (t : Timestamp)

theorem watched_after : i ∈ (after cfg calls).watched ↔ Watched i calls :=
  Since.iff_foldl (fun w : StalenessWatchdog => i ∈ w.watched) (by simp [initial])
    (fun _ _ => mem_watched_step) calls

theorem lastTick_after : (after cfg calls).lastTick i = some t ↔ LastTick i t calls :=
  Since.iff_foldl (fun w : StalenessWatchdog => w.lastTick i = some t) (by simp [initial])
    (fun _ _ => lastTick_step) calls

theorem feedDown_after : (after cfg calls).feedDown ↔ FeedDown calls :=
  Since.iff_foldl (fun w : StalenessWatchdog => w.feedDown) (by simp [initial])
    (fun _ _ => feedDown_step) calls

theorem feedDownSince_after :
    ((after cfg calls).feedDown ∧ (after cfg calls).feedDownSince = some t) ↔
      DownSince t calls := by
  refine Since.iff_foldl
    (fun w : StalenessWatchdog => w.feedDown ∧ w.feedDownSince = some t)
    (by simp [initial]) (fun before c => ?_) calls
  rw [← feedDown_after cfg before]
  exact feedDownSince_step

theorem ticksSeenOn_after (date : Int) :
    date ∈ (after cfg calls).ticksSeenOn ↔ TickOn date calls :=
  Once.iff_foldl (fun w : StalenessWatchdog => date ∈ w.ticksSeenOn) (by simp [initial])
    (fun _ _ => mem_ticksSeenOn_step) calls

end Past

/-! ## The view -/

/-- How long ago, and nothing of a moment to come. -/
def elapsed (now t : Timestamp) : Duration := later (now - t) 0

section View

variable {cfg : Settings} {w : StalenessWatchdog} {i : String} {now t : Timestamp}

theorem isStale_iff : w.isStale cfg i now ↔ i ∈ w.watched ∧ cfg.window.contains now ∧
    (w.feedDown ∨ (cfg.threshold i < elapsed now (cfg.window.openAt now.sessionDate) ∧
      ∀ t, w.lastTick i = some t → cfg.threshold i < elapsed now t)) := by
  unfold isStale silentFor
  by_cases hi : i ∈ w.watched <;> by_cases hin : cfg.window.contains now <;>
    cases hdown : w.feedDown <;> simp [hi, hin]
  cases htick : w.lastTick i with
  | none => simp only [elapsed, later]; grind
  | some u => simp only [elapsed, later]; grind

theorem downSince_eq_some : w.downSince cfg now = some t ↔ cfg.window.contains now ∧
    ∃ since, (w.feedDown ∧ w.feedDownSince = some since) ∧
      t = later since (cfg.window.openAt now.sessionDate) := by
  unfold downSince
  by_cases hin : cfg.window.contains now <;> cases hdown : w.feedDown <;>
    simp [hin, eq_comm]

end View

/-- **Staleness is what the past says.** After any calls, an instrument is
stale when it is asked for inside the session and the feed is down, or it
has been silent for longer than its threshold, since the open and since its
last tick; and an outage goes back to the call that began it, or to the
open. -/
theorem stale_iff (cfg : Settings) (calls : List Call) (i : String) (now : Timestamp) :
    ((after cfg calls).isStale cfg i now ↔ Watched i calls ∧ cfg.window.contains now ∧
      (FeedDown calls ∨
        (cfg.threshold i < elapsed now (cfg.window.openAt now.sessionDate) ∧
          ∀ t, LastTick i t calls → cfg.threshold i < elapsed now t))) ∧
    ∀ t, (after cfg calls).downSince cfg now = some t ↔ cfg.window.contains now ∧
      ∃ since, DownSince since calls ∧
        t = later since (cfg.window.openAt now.sessionDate) := by
  constructor
  · rw [isStale_iff, watched_after, feedDown_after]
    simp only [lastTick_after]
  · intro t
    rw [downSince_eq_some]
    simp only [feedDownSince_after]

end StalenessWatchdog

end Staleness

end Emporos
