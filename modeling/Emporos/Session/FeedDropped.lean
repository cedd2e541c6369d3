import Emporos.Marketdata.Staleness
import Emporos.Session.Tripwire
/-!
# The detector of a dropped feed

The tripwire's first detector asks the staleness watchdog since when the
feed has been down, and reports an outage longer than its allowance. An
outage is counted inside the session only, so a feed that was down overnight
has the allowance from the open.
-/

namespace Emporos

open Staleness
open Timestamp

/-- The allowance is positive, as its constructor checks. -/
structure FeedDroppedDetector where
  maxDown : Duration
  maxDown_pos : 0 < maxDown

namespace FeedDroppedDetector

def name : String := "feed_dropped"

/-- `timedelta.seconds`: what the days leave. -/
def secondsOf (d : Duration) : Int := d % day / second

/-- `read` is the watchdog's own reading of the clock. -/
def check (d : FeedDroppedDetector) (cfg : Staleness.Settings) (feed : StalenessWatchdog)
    (read now : Timestamp) : Option Anomaly :=
  match feed.downSince cfg read with
  | none => none
  | some since =>
      if d.maxDown < now - since then
        some ⟨name, "the market-data feed has been down for " ++ toString (secondsOf (now - since))
          ++ "s"⟩
      else none

variable {d : FeedDroppedDetector} {cfg : Staleness.Settings} {feed : StalenessWatchdog}
  {read now : Timestamp}

theorem check_isSome_iff : (d.check cfg feed read now).isSome ↔
    ∃ since, feed.downSince cfg read = some since ∧ d.maxDown < now - since := by
  unfold check
  cases feed.downSince cfg read with
  | none => simp
  | some since => by_cases h : d.maxDown < now - since <;> simp [h]

/-- Longer than the allowance, from the outage and from the open. -/
theorem lt_sub_later {a b : Timestamp} :
    d.maxDown < now - later a b ↔ d.maxDown < now - a ∧ d.maxDown < now - b := by
  unfold later
  split <;> simp only [Timestamp, Duration] at * <;> omega

/-- **An outage past its allowance halts trading.** After any calls of the
watchdog the detector reports exactly when its reading is inside the session
and the feed has been down for longer than the allowance, since the outage
began and since the open. A poll that asks it then, of a tripwire that is
not tripped, attempts a halt whatever the other detectors answer. -/
theorem dropped_feed_halts (d : FeedDroppedDetector) (cfg : Staleness.Settings)
    (calls : List Staleness.Call) (read now : Timestamp) :
    ((d.check cfg (StalenessWatchdog.after cfg calls) read now).isSome ↔
      cfg.window.contains read ∧ d.maxDown < now - cfg.window.openAt read.sessionDate ∧
        ∃ since, DownSince since calls ∧ d.maxDown < now - since) ∧
    ((d.check cfg (StalenessWatchdog.after cfg calls) read now).isSome →
      ∀ (repr : PyError → String) (others others' : List (String × Except PyError (Option Anomaly)))
        (t : AnomalyTripwire) (halted : Bool) (halt : Except PyError Unit), t.tripped = false →
        (t.runOnce repr (others ++
          (name, .ok (d.check cfg (StalenessWatchdog.after cfg calls) read now)) :: others')
            halted halt).halt.isSome) := by
  constructor
  · rw [check_isSome_iff]
    constructor
    · rintro ⟨moment, hdown, hlt⟩
      obtain ⟨hin, since, hsince, rfl⟩ := StalenessWatchdog.downSince_eq_some.mp hdown
      obtain ⟨hlt, hopen⟩ := lt_sub_later.mp hlt
      exact ⟨hin, hopen, since, (StalenessWatchdog.feedDownSince_after cfg calls since).mp hsince,
        hlt⟩
    · rintro ⟨hin, hopen, since, hsince, hlt⟩
      refine ⟨later since (cfg.window.openAt read.sessionDate), ?_, lt_sub_later.mpr ⟨hlt, hopen⟩⟩
      exact StalenessWatchdog.downSince_eq_some.mpr
        ⟨hin, since, (StalenessWatchdog.feedDownSince_after cfg calls since).mpr hsince, rfl⟩
  · intro hsome repr others others' t halted halt ht
    refine AnomalyTripwire.halt_isSome_iff.mpr ⟨ht, AnomalyTripwire.anomaly_isSome_iff.mpr ?_⟩
    refine ⟨_, List.mem_append_right _ List.mem_cons_self, fun hnone => ?_⟩
    rw [Except.ok.inj hnone] at hsome
    exact absurd hsome Bool.false_ne_true

end FeedDroppedDetector

end Emporos
