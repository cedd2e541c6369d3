import Emporos.Domain.Money
import Emporos.Marketdata.Session
/-!
# Ticks, and what the normalizer accepts

A raw tick names a token of an exchange. The normalizer drops a tick whose
token it does not know, that is stamped outside the session or that repeats
one of the last second, and flags one that is older than the newest it has
accepted.
-/

namespace Emporos

/-- What a feed reports of a token. `volume` is cumulative over the day. -/
structure RawTick where
  exchange : String
  token : String
  exchangeTs : Timestamp
  ltp : Money
  sequence : Int
  volume : Option ℕ
  ltp_pos : Money.zero < ltp

/-- A raw tick with the time it entered the queue. -/
structure QueuedTick where
  tick : RawTick
  receivedTs : Timestamp

structure Tick where
  instrumentId : String
  exchangeTs : Timestamp
  receivedTs : Timestamp
  ltp : Money
  sequence : Int
  volume : Option ℕ
  outOfOrder : Bool
  ltp_pos : Money.zero < ltp

/-- A tick seen within the dedupe window. -/
structure SeenTick where
  instrumentId : String
  exchangeTs : Timestamp
  ltp : Money
  receivedTs : Timestamp

structure NormalizerStats where
  accepted : ℕ
  unknownInstrument : ℕ
  outsideSession : ℕ
  duplicates : ℕ
  outOfOrder : ℕ

structure TickNormalizer where
  latest : String → Option Timestamp
  recent : List SeenTick
  stats : NormalizerStats

namespace TickNormalizer

def dedupeWindow : Duration := Timestamp.second

/-- A normalizer that has seen nothing. -/
def initial : TickNormalizer := ⟨fun _ => none, [], ⟨0, 0, 0, 0, 0⟩⟩

variable (resolver : String → String → Option String) (w : MinuteWindow)

/-- What the normalizer remembers of an instrument when a tick is received:
nothing older than the window. -/
def remembered (n : TickNormalizer) (instrumentId : String) (receivedTs : Timestamp) :
    List SeenTick :=
  n.recent.filter fun s => s.instrumentId ≠ instrumentId ∨ receivedTs - s.receivedTs ≤ dedupeWindow

/-- `normalize`: the next normalizer, and the tick if it is accepted. -/
def normalize (n : TickNormalizer) (queued : QueuedTick) : TickNormalizer × Option Tick :=
  let raw := queued.tick
  match resolver raw.exchange raw.token with
  | none => ({ n with stats.unknownInstrument := n.stats.unknownInstrument + 1 }, none)
  | some instrumentId =>
      if !w.contains raw.exchangeTs then
        ({ n with stats.outsideSession := n.stats.outsideSession + 1 }, none)
      else
        let recent := n.remembered instrumentId queued.receivedTs
        if recent.any fun s =>
            s.instrumentId = instrumentId ∧ s.exchangeTs = raw.exchangeTs ∧ s.ltp = raw.ltp then
          ({ n with recent := recent, stats.duplicates := n.stats.duplicates + 1 }, none)
        else
          let outOfOrder := (n.latest instrumentId).any fun latest => raw.exchangeTs < latest
          ({ latest := if outOfOrder then n.latest
              else Function.update n.latest instrumentId (some raw.exchangeTs)
             recent := recent ++ [⟨instrumentId, raw.exchangeTs, raw.ltp, queued.receivedTs⟩]
             stats := { n.stats with
               accepted := n.stats.accepted + 1
               outOfOrder := n.stats.outOfOrder + if outOfOrder then 1 else 0 } },
            some
              { instrumentId := instrumentId
                exchangeTs := raw.exchangeTs
                receivedTs := queued.receivedTs
                ltp := raw.ltp
                sequence := raw.sequence
                volume := raw.volume
                outOfOrder := outOfOrder
                ltp_pos := raw.ltp_pos })

variable {resolver w}

/-- **What the normalizer accepts lies in the session**, and is flagged
exactly when it is older than the newest tick of its instrument. -/
theorem of_normalize {n n' : TickNormalizer} {queued : QueuedTick} {tick : Tick}
    (h : n.normalize resolver w queued = (n', some tick)) :
    w.contains tick.exchangeTs ∧
      (tick.outOfOrder ↔ ∃ latest, n.latest tick.instrumentId = some latest ∧
        tick.exchangeTs < latest) := by
  unfold normalize at h
  cases hid : resolver queued.tick.exchange queued.tick.token with
  | none => simp [hid] at h
  | some instrumentId =>
      simp only [hid] at h
      split at h
      · simp at h
      · rename_i hin
        split at h
        · simp at h
        · simp only [Prod.mk.injEq, Option.some.injEq] at h
          obtain ⟨-, rfl⟩ := h
          exact ⟨by simpa using hin, by simp [Option.any_eq_true]⟩

end TickNormalizer

end Emporos
