import Emporos.Marketdata.Batches
/-!
# Recovery after a reconnect

The feed drops and returns; the minutes between are fetched from the broker
and written over the live ones, with the higher bars that the gap touched
and that were over by its end. A higher bar that was still open goes on in
the deriver, which never sees the fetched minutes.

A run is the live path, minute by minute and flush by flush, with the one
write of a recovery somewhere in it. The store is what was written last
under each key.
-/

namespace Emporos

open Timestamp

namespace ReconnectRecovery

/-- `_gap_window`: the session minutes the outage touched. -/
def gapWindow (w : SessionWindow) (gapStart reconnected : Timestamp) :
    Option (Timestamp × Timestamp) :=
  let opened := w.openAt (sessionDate reconnected)
  let closed := w.closeAt (sessionDate reconnected)
  let start := max (floorMinute gapStart) opened
  let stop := min (floorMinute reconnected + minute) closed
  if start < stop then some (start, stop) else none

/-- The whole hours that are fetched around it. -/
def fetchWindow (w : SessionWindow) (start stop : Timestamp) : Timestamp × Timestamp :=
  (BucketRule.start w .h1 start,
    BucketRule.stop w .h1 (BucketRule.start w .h1 (stop - minute)))

variable (w : SessionWindow) (start stop : Timestamp)

/-- A minute of the gap. -/
def InGap (c : Candle) : Prop := start ≤ c.ts ∧ c.ts < stop

instance (c : Candle) : Decidable (InGap start stop c) := inferInstanceAs (Decidable (_ ∧ _))

/-- A higher bar that is over, and that the gap touched. -/
def rebuilds (bar : Candle) : Bool :=
  DerivedTimeframe.all.any fun tf => tf.timeframe = bar.timeframe ∧
    BucketRule.stop w tf bar.ts ≤ stop ∧ bar.ts < stop ∧ start < BucketRule.stop w tf bar.ts

/-- The fetched minutes of the gap, flagged. -/
def gapBars (fetched : List Candle) : List Candle :=
  (fetched.filter (InGap start stop)).map fun c => { c with isPartial := true }

/-- The fetched minutes around it. -/
def contextBars (fetched : List Candle) : List Candle :=
  fetched.filter fun c => ¬ InGap start stop c

/-- `_backfill`: the bars it writes. -/
def backfill (fetched : List Candle) : Except PyError (List Candle) :=
  if gapBars start stop fetched = [] then .ok []
  else do
    let derived ← derive w DerivedTimeframe.all
      (gapBars start stop fetched ++ contextBars start stop fetched)
    return gapBars start stop fetched ++ derived.filter (rebuilds w start stop)

/-- `_recover`, for one instrument: `history` has its minutes from one time
to another. -/
def recover (gapStart reconnected : Timestamp)
    (history : Timestamp × Timestamp → List Candle) : Except PyError (List Candle) :=
  match gapWindow w gapStart reconnected with
  | none => .ok []
  | some (start, stop) => backfill w start stop (history (fetchWindow w start stop))

end ReconnectRecovery

/-! ## The live path and the repair -/

/-- The minutes closed so far, the deriver, the bars that wait to be
flushed, every bar written, and whether the gap is repaired. -/
structure Recording where
  live : List Candle
  deriver : TimeframeDeriver
  pending : List Candle
  written : List Candle
  repaired : Bool

namespace Recording

open ReconnectRecovery

def initial : Recording := ⟨[], .initial, [], [], false⟩

variable (w : SessionWindow)

inductive Act
  | closed (c : Candle)
  | flushed (n : ℕ)
  | repaired

/-- A minute is closed: it is pending, and with it the higher bars it
completes. -/
def close (s : Recording) (c : Candle) : Recording :=
  let deriver := s.deriver.onCandle w DerivedTimeframe.all c
  { s with
    live := s.live ++ [c]
    deriver
    pending := s.pending ++ c :: deriver.emitted.drop s.deriver.emitted.length }

/-- The first `n` pending bars are written. -/
def flush (s : Recording) (n : ℕ) : Recording :=
  { s with pending := s.pending.drop n, written := s.written ++ s.pending.take n }

/-- The minutes of an instrument come one after the other, each inside its
buckets; the gap is repaired once. -/
inductive Step (batch : List Candle) : Recording → Act → Recording → Prop
  | closed {s : Recording} {c : Candle} (m1 : c.timeframe = .m1)
      (later : ∀ x ∈ s.live, x.instrumentId = c.instrumentId → x.ts < c.ts)
      (inside : ∀ tf, c.ts + minute ≤ BucketRule.stop w tf (BucketRule.start w tf c.ts)) :
      Step batch s (.closed c) (s.close w c)
  | flushed {s : Recording} {n : ℕ} : Step batch s (.flushed n) (s.flush n)
  | repaired {s : Recording} (once : s.repaired = false) :
      Step batch s .repaired { s with written := s.written ++ batch, repaired := true }

variable (i : String) (start stop : Timestamp)

/-- A bar the repair writes, if it has it. -/
def Claimed (c : Candle) : Prop :=
  c.instrumentId = i ∧ ((c.timeframe = .m1 ∧ InGap start stop c) ∨ rebuilds w start stop c)

/-- **The repair writes last.** When it writes, no bar of its own waits to
be flushed, and every bucket of the instrument that is over by the end of
the gap was emitted; no minute of the gap closes after it. -/
def Good (s : Recording) : Act → Prop
  | .closed c => s.repaired → c.instrumentId = i → stop ≤ c.ts
  | .flushed _ => True
  | .repaired => (∀ c ∈ s.pending, ¬ Claimed w i start stop c) ∧
      ∀ c ∈ s.live, c.instrumentId = i → ∀ tf,
        BucketRule.stop w tf (BucketRule.start w tf c.ts) ≤ stop →
          Over w (inEach DerivedTimeframe.all s.live) (keyOf w c tf)

/-- The recordings that good steps reach. -/
def GoodRun (batch : List Candle) : Recording → Prop :=
  Relation.ReflTransGen (fun s s' => ∃ a, Step w batch s a s' ∧ Good w i start stop s a) initial

/-- The stored bar of a key. -/
def stored (s : Recording) (key : String × Timeframe × Timestamp) : Option Candle :=
  Table.lookup Candle.identity key (Table.dict Candle.identity s.written)

/-- The stored minutes. -/
def minutes (s : Recording) : List Candle :=
  (Table.dict Candle.identity s.written).filter fun c => c.timeframe = .m1

/-! ## The live bars -/

/-- The bars of the live path: the minutes, and the higher bars they
completed. -/
def handed (s : Recording) : List Candle := s.live ++ s.deriver.emitted

/-- The minutes are the deriver's. -/
structure Tracked (s : Recording) : Prop where
  m1 : ∀ c ∈ s.live, c.timeframe = .m1
  later : s.live.Pairwise fun a b => a.instrumentId = b.instrumentId → a.ts < b.ts
  inside : Inside w s.live
  deriver : s.deriver = TimeframeDeriver.run w DerivedTimeframe.all s.live

section Live

variable {w : SessionWindow} {s : Recording} {c e b b' : Candle} {k : BucketKey}

theorem Tracked.rising (h : s.Tracked w) : Rising s.live := fun _ =>
  List.pairwise_filter.mpr (h.later.imp fun hlater ha hb =>
    hlater ((of_decide_eq_true ha).trans (of_decide_eq_true hb).symm))

theorem Tracked.ordered (h : s.Tracked w) : Ordered w (inEach DerivedTimeframe.all s.live) :=
  ordered_inEach h.rising h.inside

theorem Tracked.emitted (h : s.Tracked w) : Emitted w (inEach DerivedTimeframe.all s.live)
    (Over w (inEach DerivedTimeframe.all s.live)) s.deriver.emitted := by
  rw [h.deriver, TimeframeDeriver.run_eq h.m1]
  exact (TimeframeDeriver.tracks_run h.ordered).emitted

/-- Each minute of a bucket has one live bar. -/
theorem Tracked.dict_minutesIn (h : s.Tracked w) :
    Table.dict Candle.ts (minutesIn w s.live k) = minutesIn w s.live k := by
  have hlater : (minutesIn w s.live k).Pairwise fun a b => a.ts < b.ts :=
    List.pairwise_filter.mpr (h.later.imp fun hlater ha hb =>
      hlater ((of_decide_eq_true ha).1.trans (of_decide_eq_true hb).1.symm))
  have hnodup : (([] ++ minutesIn w s.live k).map Candle.ts).Nodup :=
    List.pairwise_map.mpr (hlater.imp fun hlt => ne_of_lt hlt)
  exact Table.foldl_upsert_of_nodup hnodup

/-- **What is emitted**: the derived bar of each bucket that is over. -/
theorem Tracked.mem_emitted (h : s.Tracked w) : e ∈ s.deriver.emitted ↔
    ∃ k, Over w (inEach DerivedTimeframe.all s.live) k ∧ barAt w s.live k = some e := by
  rw [h.emitted.mem]
  constructor
  · rintro ⟨g, hbars, hover, rfl⟩
    refine ⟨g.key, hover, barAt_eq_some.mpr ⟨g, ?_, rfl, rfl⟩⟩
    rw [hbars, barsIn_inEach, h.dict_minutesIn]
  · rintro ⟨k, hover, hbar⟩
    obtain ⟨g, hbars, rfl, rfl⟩ := barAt_eq_some.mp hbar
    exact ⟨g, by rw [hbars, h.dict_minutesIn, barsIn_inEach], hover, rfl⟩

theorem timeframe_ne_m1 (tf : DerivedTimeframe) : tf.timeframe ≠ .m1 := by
  cases tf <;> nofun

theorem timeframe_of_barAt {minutes : List Candle} (h : barAt w minutes k = some b) :
    b.timeframe ≠ .m1 := by
  have hident := identity_of_barAt h
  simp only [Candle.identity, BucketKey.identity, Prod.mk.injEq] at hident
  rw [hident.2.1]
  exact timeframe_ne_m1 _

/-- No two live bars have one key. -/
theorem Tracked.nodup_handed (h : s.Tracked w) : (s.handed.map (·.identity)).Nodup := by
  rw [handed, List.map_append, List.nodup_append]
  refine ⟨List.pairwise_map.mpr (h.later.imp fun hlater hident => ?_), h.emitted.nodup, ?_⟩
  · simp only [Candle.identity, Prod.mk.injEq] at hident
    exact absurd hident.2.2 (hlater hident.1).ne
  · rintro x hx y hy rfl
    obtain ⟨c, hc, rfl⟩ := List.mem_map.mp hx
    obtain ⟨e, he, hident⟩ := List.mem_map.mp hy
    obtain ⟨k, -, hbar⟩ := h.mem_emitted.1 he
    simp only [Candle.identity, Prod.mk.injEq] at hident
    exact timeframe_of_barAt hbar (hident.2.1.trans (h.m1 c hc))

theorem Tracked.eq_of_identity (h : s.Tracked w) (hb : b ∈ s.handed) (hb' : b' ∈ s.handed)
    (hident : b.identity = b'.identity) : b = b' :=
  Table.eq_of_key h.nodup_handed hb hb' hident

/-- A bucket that is over, in terms of the minutes. -/
theorem over_iff {live : List Candle} : Over w (inEach DerivedTimeframe.all live) k ↔
    minutesIn w live k ≠ [] ∧ ∃ c ∈ live, c.instrumentId = k.1 ∧
      (k.2.2 < BucketRule.start w k.2.1 c.ts ∨
        (BucketRule.start w k.2.1 c.ts = k.2.2 ∧ c.ts + minute = BucketRule.stop w k.2.1 k.2.2)) := by
  rw [Over, barsIn_inEach, barsFor_inEach]
  simp only [List.mem_filter, decide_eq_true_eq, and_assoc]

theorem over_append {live more : List Candle} (h : Over w (inEach DerivedTimeframe.all live) k) :
    Over w (inEach DerivedTimeframe.all (live ++ more)) k := by
  rw [over_iff] at h ⊢
  obtain ⟨hne, c, hc, hover⟩ := h
  refine ⟨?_, c, List.mem_append_left _ hc, hover⟩
  rw [minutesIn, List.filter_append]
  exact List.append_ne_nil_of_left_ne_nil hne _

end Live

end Recording

/-! ## What the deriver has emitted it has emitted -/

namespace TimeframeDeriver

variable {w : SessionWindow} {d : TimeframeDeriver} {bar : Candle}

theorem emitted_emit {key : String × DerivedTimeframe} {bucket : Bucket} :
    d.emitted <+: (d.emit w key bucket).emitted := List.prefix_append _ _

theorem emitted_settle (key : String × DerivedTimeframe) (bucket : Bucket) :
    d.emitted <+: (d.settle w key bucket bar).emitted := by
  rw [settle]
  split
  · exact List.prefix_append _ _
  · exact List.prefix_rfl

theorem emitted_add (tf : DerivedTimeframe) : d.emitted <+: (d.add w bar tf).emitted := by
  unfold add
  simp only
  split
  · exact emitted_settle ..
  · split
    · exact List.prefix_rfl
    · split
      · exact emitted_emit.trans (emitted_settle ..)
      · exact emitted_settle ..

theorem emitted_onCandle (tfs : List DerivedTimeframe) :
    d.emitted <+: (d.onCandle w tfs bar).emitted := by
  unfold onCandle
  split
  · exact List.prefix_rfl
  · induction tfs generalizing d with
    | nil => exact List.prefix_rfl
    | cons tf tfs ih => exact (emitted_add tf).trans ih

end TimeframeDeriver

namespace Recording

open ReconnectRecovery

section Live

variable {w : SessionWindow} {s : Recording} {c e b b' : Candle} {k : BucketKey}

theorem Tracked.close (h : s.Tracked w) (hm1 : c.timeframe = .m1)
    (hlater : ∀ x ∈ s.live, x.instrumentId = c.instrumentId → x.ts < c.ts)
    (hinside : ∀ tf, c.ts + minute ≤ BucketRule.stop w tf (BucketRule.start w tf c.ts)) :
    (s.close w c).Tracked w where
  m1 x hx := by
    rcases List.mem_append.mp hx with hx | hx
    · exact h.m1 x hx
    · exact List.mem_singleton.mp hx ▸ hm1
  later := by
    refine List.pairwise_append.mpr ⟨h.later, List.pairwise_singleton _ _, fun a ha b hb => ?_⟩
    rw [List.mem_singleton.mp hb]
    exact hlater a ha
  inside x hx := by
    rcases List.mem_append.mp hx with hx | hx
    · exact h.inside x hx
    · exact List.mem_singleton.mp hx ▸ hinside
  deriver := by
    show s.deriver.onCandle w _ c = TimeframeDeriver.run w _ (s.live ++ [c])
    rw [TimeframeDeriver.run, List.foldl_append, h.deriver, TimeframeDeriver.run]
    rfl

/-- The higher bars a minute completed. -/
def completed (w : SessionWindow) (s : Recording) (c : Candle) : List Candle :=
  (s.deriver.onCandle w DerivedTimeframe.all c).emitted.drop s.deriver.emitted.length

theorem emitted_close : (s.close w c).deriver.emitted = s.deriver.emitted ++ completed w s c := by
  obtain ⟨more, hmore⟩ : s.deriver.emitted <+:
      (s.deriver.onCandle w DerivedTimeframe.all c).emitted := TimeframeDeriver.emitted_onCandle _
  show (s.deriver.onCandle w DerivedTimeframe.all c).emitted = _
  rw [completed, ← hmore, List.drop_left]

/-- A bar that is handed over now was not before. -/
theorem mem_handed_close : b ∈ (s.close w c).handed ↔
    b ∈ s.handed ∨ b ∈ c :: completed w s c := by
  rw [handed, emitted_close, handed]
  simp only [close, List.mem_append, List.mem_cons]
  tauto

theorem Tracked.not_mem_handed (h : (s.close w c).Tracked w) (hb : b ∈ c :: completed w s c) :
    b ∉ s.handed := by
  have hnodup := h.nodup_handed
  rw [handed, emitted_close] at hnodup
  have hperm : ((s.live ++ [c]) ++ (s.deriver.emitted ++ completed w s c)).Perm
      ((s.live ++ s.deriver.emitted) ++ (c :: completed w s c)) := by
    rw [List.append_assoc, List.append_assoc, List.singleton_append]
    exact List.perm_middle.symm.append_left _
  have := (hperm.map Candle.identity).nodup_iff.mp hnodup
  rw [List.map_append, List.nodup_append] at this
  exact fun hold => this.2.2 _ (List.mem_map_of_mem hold) _ (List.mem_map_of_mem hb) rfl

end Live

/-! ## What the repair writes -/

section Repair

variable {w : SessionWindow} {s : Recording} {c b : Candle} {k : BucketKey} {i : String}
  {start stop : Timestamp} {fetched batch : List Candle}

theorem rebuilds_iff : rebuilds w start stop c ↔ ∃ tf : DerivedTimeframe,
    tf.timeframe = c.timeframe ∧ BucketRule.stop w tf c.ts ≤ stop ∧ c.ts < stop ∧
      start < BucketRule.stop w tf c.ts := by
  simp only [rebuilds, List.any_eq_true, decide_eq_true_eq]
  exact ⟨fun ⟨tf, _, h⟩ => ⟨tf, h⟩, fun ⟨tf, h⟩ => ⟨tf, tf.mem_all, h⟩⟩

/-- What is claimed is claimed under its key. -/
theorem claimed_congr {c' : Candle} (h : c.identity = c'.identity) :
    Claimed w i start stop c ↔ Claimed w i start stop c' := by
  simp only [Candle.identity, Prod.mk.injEq] at h
  obtain ⟨hinst, htf, hts⟩ := h
  simp only [Claimed, InGap, rebuilds, hinst, htf, hts]

theorem mem_gapBars : b ∈ gapBars start stop fetched ↔
    ∃ c ∈ fetched, InGap start stop c ∧ b = { c with isPartial := true } := by
  simp only [gapBars, List.mem_map, List.mem_filter, decide_eq_true_eq, and_assoc]
  exact exists_congr fun c => and_congr_right fun _ => and_congr_right fun _ => eq_comm

/-- The minutes a repair derives from: the fetched ones. -/
def source (start stop : Timestamp) (fetched : List Candle) : List Candle :=
  gapBars start stop fetched ++ contextBars start stop fetched

theorem m1_of_source (hm1 : ∀ c ∈ fetched, c.timeframe = .m1) :
    ∀ c ∈ source start stop fetched, c.timeframe = .m1 := by
  intro c hc
  rcases List.mem_append.mp hc with hc | hc
  · obtain ⟨x, hx, -, rfl⟩ := mem_gapBars.1 hc
    exact hm1 x hx
  · exact hm1 c (List.mem_of_mem_filter hc)

/-- **What a repair writes**: the minutes of the gap, and the bars of the
buckets that the gap touched and that are over by its end. -/
theorem mem_batch (hbatch : backfill w start stop fetched = .ok batch)
    (hgap : gapBars start stop fetched ≠ []) : b ∈ batch ↔ b ∈ gapBars start stop fetched ∨
      (rebuilds w start stop b ∧ ∃ k, barAt w (source start stop fetched) k = some b) := by
  rw [backfill, if_neg hgap] at hbatch
  obtain ⟨derived, hderived, hbatch⟩ := exists_of_bind hbatch
  obtain rfl := Except.ok.inj hbatch
  rw [List.mem_append, List.mem_filter, (derive_eq_ok hderived).2]
  refine or_congr_right ?_
  rw [and_comm]
  refine and_congr_right fun _ => ?_
  constructor
  · rintro ⟨g, hbars, rfl⟩
    exact ⟨g.key, barAt_eq_some.mpr ⟨g, hbars, rfl, rfl⟩⟩
  · rintro ⟨k, hbar⟩
    exact (derived_iff_barAt.mpr hbar).1

theorem claimed_of_batch (hm1 : ∀ c ∈ fetched, c.timeframe = .m1)
    (hinst : ∀ c ∈ fetched, c.instrumentId = i)
    (hbatch : backfill w start stop fetched = .ok batch) (hb : b ∈ batch) :
    Claimed w i start stop b := by
  by_cases hgap : gapBars start stop fetched = []
  · rw [backfill, if_pos hgap] at hbatch
    cases hbatch
    cases hb
  · rcases (mem_batch hbatch hgap).mp hb with hb | ⟨hrebuilds, k, hbar⟩
    · obtain ⟨c, hc, hin, rfl⟩ := mem_gapBars.1 hb
      exact ⟨hinst c hc, .inl ⟨hm1 c hc, hin⟩⟩
    · refine ⟨?_, .inr hrebuilds⟩
      obtain ⟨c, hc, -, heq, -⟩ := (derived_iff_barAt.mpr hbar).1.exists_minute
      rw [heq]
      rcases List.mem_append.mp hc with hc | hc
      · obtain ⟨x, hx, -, rfl⟩ := mem_gapBars.1 hc
        exact hinst x hx
      · exact hinst c (List.mem_of_mem_filter hc)

end Repair

/-! ## The store behind the live path -/

/-- The store, in a good run: under a key of the repair is what that wrote,
and under every other the live bar, once it is flushed. -/
structure Kept (w : SessionWindow) (i : String) (start stop : Timestamp) (batch : List Candle)
    (s : Recording) : Prop where
  tracked : s.Tracked w
  pending : ∀ b ∈ s.pending, b ∈ s.handed
  nodup : (s.pending.map (·.identity)).Nodup
  plain : ∀ key, (s.repaired → ∀ b ∈ batch, b.identity ≠ key) → ∀ b,
    Table.latest Candle.identity key s.written = some b ↔
      b ∈ s.handed ∧ b.identity = key ∧ b ∉ s.pending
  fixed : s.repaired → ∀ b ∈ batch, Table.latest Candle.identity b.identity s.written =
    Table.latest Candle.identity b.identity batch
  free : s.repaired → ∀ b ∈ s.pending, ¬ Claimed w i start stop b
  ended : s.repaired → ∀ c ∈ s.live, c.instrumentId = i → ∀ tf,
    BucketRule.stop w tf (BucketRule.start w tf c.ts) ≤ stop →
      Over w (inEach DerivedTimeframe.all s.live) (keyOf w c tf)

section Keeping

variable {w : SessionWindow} {s s' : Recording} {c b : Candle} {k : BucketKey} {i : String}
  {start stop : Timestamp} {batch : List Candle} {n : ℕ}

theorem kept_initial : initial.Kept w i start stop batch where
  tracked := ⟨by simp [initial], List.Pairwise.nil, by simp [initial, Inside], rfl⟩
  pending := by simp [initial]
  nodup := List.nodup_nil
  plain := by simp [initial, handed, TimeframeDeriver.initial]
  fixed := nofun
  free := nofun
  ended := nofun

/-- **A minute that closes behind the repair** completes no bar of it. -/
theorem Kept.not_claimed (h : s.Kept w i start stop batch) (hclosed : (s.close w c).Tracked w)
    (hrepaired : s.repaired) (hlate : c.instrumentId = i → stop ≤ c.ts)
    (hinside : ∀ tf, c.ts + minute ≤ BucketRule.stop w tf (BucketRule.start w tf c.ts))
    (hm1 : c.timeframe = .m1) (hb : b ∈ c :: completed w s c) : ¬ Claimed w i start stop b := by
  rintro ⟨hinst, hclaimed⟩
  have hpos := minute_pos
  rcases List.mem_cons.mp hb with rfl | hnew
  · have hlate := hlate hinst
    rcases hclaimed with ⟨-, -, hlt⟩ | hrebuilds
    · exact absurd hlt hlate.not_gt
    · obtain ⟨tf, htf, -⟩ := rebuilds_iff.1 hrebuilds
      rw [hm1] at htf
      exact absurd htf (timeframe_ne_m1 tf)
  · -- the bucket was over before: its bar was emitted then
    have hemitted : b ∈ (s.close w c).deriver.emitted := by
      rw [emitted_close]
      exact List.mem_append_right _ hnew
    obtain ⟨k, hover, hbar⟩ := hclosed.mem_emitted.1 hemitted
    have hident := identity_of_barAt hbar
    simp only [Candle.identity, BucketKey.identity, Prod.mk.injEq] at hident
    obtain ⟨hki, hktf, hkts⟩ := hident
    rcases hclaimed with ⟨hbm1, -⟩ | hrebuilds
    · exact timeframe_of_barAt hbar hbm1
    obtain ⟨tf, htf, hstop, hts, hstart⟩ := rebuilds_iff.1 hrebuilds
    obtain rfl : tf = k.2.1 := DerivedTimeframe.timeframe_inj (htf.trans hktf)
    rw [hkts] at hstop
    obtain ⟨x, hx⟩ := List.exists_mem_of_ne_nil _ (over_iff.1 hover).1
    obtain ⟨hxlive, hxin⟩ := List.mem_filter.mp hx
    obtain ⟨hxinst, hxstart⟩ := of_decide_eq_true hxin
    have hwas : Over w (inEach DerivedTimeframe.all s.live) k := by
      rcases List.mem_append.mp hxlive with hold | hxnew
      · have hkey : keyOf w x k.2.1 = k := by rw [keyOf, hxinst, hxstart]
        exact hkey ▸ h.ended hrepaired x hold (hxinst.trans (hki.symm.trans hinst)) k.2.1
          (by rw [hxstart]; exact hstop)
      · obtain rfl := List.mem_singleton.mp hxnew
        have hin := hinside k.2.1
        rw [hxstart] at hin
        have hlate := hlate (hxinst.trans (hki.symm.trans hinst))
        exact absurd (hin.trans (hstop.trans hlate)) (lt_add_of_pos_right _ hpos).not_ge
    obtain ⟨y, hy⟩ := List.exists_mem_of_ne_nil _ (over_iff.1 hwas).1
    obtain ⟨old, hold⟩ := exists_barAt hy
    have hmem : old ∈ s.handed :=
      List.mem_append_right _ (h.tracked.mem_emitted.2 ⟨k, hwas, hold⟩)
    have hsame : old = b := hclosed.eq_of_identity (mem_handed_close.2 (.inl hmem))
      (mem_handed_close.2 (.inr (List.mem_cons_of_mem _ hnew)))
      ((identity_of_barAt hold).trans (identity_of_barAt hbar).symm)
    exact hclosed.not_mem_handed (List.mem_cons_of_mem _ hnew) (hsame ▸ hmem)

theorem Kept.close (h : s.Kept w i start stop batch) (hm1 : c.timeframe = .m1)
    (hlater : ∀ x ∈ s.live, x.instrumentId = c.instrumentId → x.ts < c.ts)
    (hinside : ∀ tf, c.ts + minute ≤ BucketRule.stop w tf (BucketRule.start w tf c.ts))
    (hlate : s.repaired → c.instrumentId = i → stop ≤ c.ts) :
    (s.close w c).Kept w i start stop batch := by
  have hclosed := h.tracked.close hm1 hlater hinside
  have hpending : (s.close w c).pending = s.pending ++ c :: completed w s c := rfl
  refine ⟨hclosed, fun b hb => ?_, ?_, fun key hkey b => ?_, h.fixed, fun hrepaired b hb => ?_,
    fun hrepaired x hx hxi tf hstop => ?_⟩
  · rw [mem_handed_close]
    exact (List.mem_append.mp hb).imp_left (h.pending b)
  · -- what is handed over now has keys of its own
    rw [hpending, List.map_append, List.nodup_append]
    have hnew : ((c :: completed w s c).map (·.identity)).Nodup := by
      have hnodup := hclosed.nodup_handed
      rw [handed, emitted_close] at hnodup
      refine hnodup.sublist (List.Sublist.map _ ?_)
      exact List.singleton_append ▸ (List.sublist_append_right s.live [c]).append
        (List.sublist_append_right s.deriver.emitted (completed w s c))
    refine ⟨h.nodup, hnew, ?_⟩
    rintro x hx y hy rfl
    obtain ⟨b, hb, rfl⟩ := List.mem_map.mp hx
    obtain ⟨b', hb', hident⟩ := List.mem_map.mp hy
    have hold := h.pending b hb
    have hsame : b' = b := hclosed.eq_of_identity (mem_handed_close.2 (.inr hb'))
      (mem_handed_close.2 (.inl hold)) hident
    exact hclosed.not_mem_handed hb' (hsame ▸ hold)
  · refine (h.plain key hkey b).trans ?_
    rw [mem_handed_close, hpending, List.mem_append]
    constructor
    · rintro ⟨hb, hident, hflushed⟩
      exact ⟨.inl hb, hident, not_or.mpr ⟨hflushed, fun hnew => hclosed.not_mem_handed hnew hb⟩⟩
    · rintro ⟨hb, hident, hflushed⟩
      obtain ⟨hflushed, hold⟩ := not_or.mp hflushed
      exact ⟨hb.resolve_right hold, hident, hflushed⟩
  · rcases List.mem_append.mp hb with hb | hb
    · exact h.free hrepaired b hb
    · exact h.not_claimed hclosed hrepaired (hlate hrepaired) hinside hm1 hb
  · rcases List.mem_append.mp hx with hx | hx
    · exact over_append (h.ended hrepaired x hx hxi tf hstop)
    · obtain rfl := List.mem_singleton.mp hx
      have hlate := hlate hrepaired hxi
      exact absurd ((hinside tf).trans (hstop.trans hlate)) (lt_add_of_pos_right _ minute_pos).not_ge

theorem Kept.flush (h : s.Kept w i start stop batch)
    (hclaimed : ∀ b ∈ batch, Claimed w i start stop b) : (s.flush n).Kept w i start stop batch := by
  have hsplit : s.pending.take n ++ s.pending.drop n = s.pending := List.take_append_drop ..
  have hnodup : ((s.pending.take n ++ s.pending.drop n).map (·.identity)).Nodup := by
    rw [hsplit]
    exact h.nodup
  refine ⟨⟨h.tracked.m1, h.tracked.later, h.tracked.inside, h.tracked.deriver⟩,
    fun b hb => h.pending b (List.mem_of_mem_drop hb), h.nodup.sublist ((List.drop_sublist _ _).map _),
    fun key hkey b => ?_, fun hrepaired b hb => ?_,
    fun hrepaired b hb => h.free hrepaired b (List.mem_of_mem_drop hb), h.ended⟩
  · show Table.latest Candle.identity key (s.written ++ s.pending.take n) = some b ↔
      b ∈ s.handed ∧ b.identity = key ∧ b ∉ s.pending.drop n
    rw [Table.latest_append]
    cases hlast : Table.latest Candle.identity key (s.pending.take n) with
    | some x =>
        -- the key is flushed now
        have hx := Table.mem_of_latest hlast
        have hxkey := Table.key_of_latest hlast
        have hxmem := h.pending x (List.mem_of_mem_take hx)
        rw [Option.some_or, Option.some.injEq]
        constructor
        · rintro rfl
          refine ⟨hxmem, hxkey, fun hdrop => ?_⟩
          rw [List.map_append, List.nodup_append] at hnodup
          exact hnodup.2.2 _ (List.mem_map_of_mem hx) _ (List.mem_map_of_mem hdrop) rfl
        · rintro ⟨hb, hident, -⟩
          exact h.tracked.eq_of_identity hxmem hb (hxkey.trans hident.symm)
    | none =>
        rw [Option.none_or, h.plain key hkey b]
        have hnone := Table.latest_eq_none.mp hlast
        have hmem : b ∈ s.pending ↔ b ∈ s.pending.take n ∨ b ∈ s.pending.drop n := by
          rw [← List.mem_append, hsplit]
        refine and_congr_right fun _ => and_congr_right fun hident => not_congr (hmem.trans ?_)
        exact ⟨fun hb => hb.resolve_left fun htake => hnone b htake hident, .inr⟩
  · show Table.latest Candle.identity b.identity (s.written ++ s.pending.take n) = _
    rw [Table.latest_append, Table.latest_eq_none.mpr fun x hx hident => ?_, Option.none_or]
    · exact h.fixed hrepaired b hb
    · exact h.free hrepaired x (List.mem_of_mem_take hx)
        ((claimed_congr hident).mpr (hclaimed b hb))

theorem Kept.repair (h : s.Kept w i start stop batch) (honce : s.repaired = false)
    (hgood : Good w i start stop s .repaired) :
    Kept w i start stop batch { s with written := s.written ++ batch, repaired := true } := by
  refine ⟨⟨h.tracked.m1, h.tracked.later, h.tracked.inside, h.tracked.deriver⟩, h.pending, h.nodup,
    fun key hkey b => ?_, fun _ b hb => ?_, fun _ => hgood.1, fun _ => hgood.2⟩
  · show Table.latest Candle.identity key (s.written ++ batch) = some b ↔ _
    rw [Table.latest_append, Table.latest_eq_none.mpr (hkey rfl), Option.none_or]
    exact h.plain key (fun hrepaired => by rw [honce] at hrepaired; cases hrepaired) b
  · show Table.latest Candle.identity b.identity (s.written ++ batch) = _
    rw [Table.latest_append]
    cases hlast : Table.latest Candle.identity b.identity batch with
    | none => exact absurd rfl (Table.latest_eq_none.mp hlast b hb)
    | some x => rfl

/-- **The store of a good run.** -/
theorem GoodRun.kept (hclaimed : ∀ b ∈ batch, Claimed w i start stop b)
    (hr : GoodRun w i start stop batch s) : s.Kept w i start stop batch := by
  induction hr with
  | refl => exact kept_initial
  | tail _ hs ih =>
      obtain ⟨a, hs, hgood⟩ := hs
      cases hs with
      | closed m1 later inside => exact ih.close m1 later inside hgood
      | flushed => exact ih.flush hclaimed
      | repaired once => exact ih.repair once hgood

end Keeping

/-! ## The repaired bars -/

/-- The figures that a bar is compared by. -/
def figures (c : Candle) : Money × Money × Money × Money × ℕ :=
  (c.openPrice, c.high, c.low, c.close, c.volume)

/-- The bucket is over, and nothing of it waits to be flushed. -/
def Settled (w : SessionWindow) (s : Recording) (k : BucketKey) : Prop :=
  (minutesIn w s.live k ≠ [] → Over w (inEach DerivedTimeframe.all s.live) k) ∧
    minutesIn w (s.pending.filter fun c => c.timeframe = .m1) k = [] ∧
    ∀ b ∈ s.pending, b.identity ≠ k.identity

/-- The stored bar of the bucket has the figures that the stored minutes
give it. -/
def Consistent (w : SessionWindow) (s : Recording) (k : BucketKey) : Prop :=
  ∀ e, s.stored k.identity = some e → ∃ bars, derive w DerivedTimeframe.all s.minutes = .ok bars ∧
    ∃ d ∈ bars, d.identity = k.identity ∧ figures d = figures e

/-- The bar that ends up stored: of the fetched minutes, where the bucket is
over by the end of the gap, and else of the live ones. -/
def lastWritten (w : SessionWindow) (stop : Timestamp) (live fetched : List Candle) (k : BucketKey) :
    Option Candle :=
  if BucketRule.stop w k.2.1 k.2.2 ≤ stop then (barAt w fetched k).or (barAt w live k)
  else barAt w live k

/-- **The two series agree on the bucket**: the minutes it is derived from
give it the figures of the live minutes with the gap's repaired. -/
def Agree (w : SessionWindow) (start stop : Timestamp) (live fetched : List Candle)
    (k : BucketKey) : Prop :=
  ∀ e, lastWritten w stop live (source start stop fetched) k = some e →
    ∃ d, barAt w (live ++ gapBars start stop fetched) k = some d ∧ figures d = figures e

section Repaired

variable {w : SessionWindow} {s : Recording} {c b : Candle} {k : BucketKey} {i : String}
  {start stop gapStart reconnected : Timestamp} {fetched batch : List Candle}

/-- The bars of a repair that are not of the gap are higher bars. -/
theorem exists_higher (hbatch : backfill w start stop fetched = .ok batch) :
    ∃ higher, batch = gapBars start stop fetched ++ higher ∧ ∀ b ∈ higher, b.timeframe ≠ .m1 := by
  by_cases hgap : gapBars start stop fetched = []
  · rw [backfill, if_pos hgap] at hbatch
    cases hbatch
    exact ⟨[], by rw [hgap, List.append_nil], fun _ hb => absurd hb List.not_mem_nil⟩
  · rw [backfill, if_neg hgap] at hbatch
    obtain ⟨derived, hderived, hbatch⟩ := exists_of_bind hbatch
    refine ⟨_, (Except.ok.inj hbatch).symm, fun b hb => ?_⟩
    obtain ⟨g, hbars, rfl⟩ := ((derive_eq_ok hderived).2 b).mp (List.mem_of_mem_filter hb)
    exact timeframe_of_barAt (barAt_eq_some.mpr ⟨g, hbars, rfl, rfl⟩)

/-- The last minute that a repair writes is the last it fetched. -/
theorem latest_batch (hbatch : backfill w start stop fetched = .ok batch) {t : Timestamp} :
    Table.latest Candle.identity (i, .m1, t) batch =
      Table.latest Candle.identity (i, .m1, t) (gapBars start stop fetched) := by
  obtain ⟨higher, rfl, hhigher⟩ := exists_higher hbatch
  rw [Table.latest_append, Table.latest_eq_none.mpr fun b hb hident => ?_, Option.none_or]
  simp only [Candle.identity, Prod.mk.injEq] at hident
  exact hhigher b hb hident.2.1

/-- **What is stored last** under a key, in a good run: the repair's bar, or
the live bar. -/
theorem Kept.latest_written (h : s.Kept w i start stop batch) (hrepaired : s.repaired)
    {key : String × Timeframe × Timestamp} (hflushed : ∀ b ∈ s.pending, b.identity ≠ key) :
    Table.latest Candle.identity key s.written =
      (Table.latest Candle.identity key batch).or (Table.latest Candle.identity key s.handed) := by
  by_cases hin : ∃ b ∈ batch, b.identity = key
  · obtain ⟨b, hb, rfl⟩ := hin
    rw [h.fixed hrepaired b hb]
    cases hlast : Table.latest Candle.identity b.identity batch with
    | none => exact absurd rfl (Table.latest_eq_none.mp hlast b hb)
    | some x => rfl
  · have hout : ∀ b ∈ batch, b.identity ≠ key := fun b hb hident => hin ⟨b, hb, hident⟩
    rw [Table.latest_eq_none.mpr hout, Option.none_or]
    refine Option.ext fun b => (h.plain key (fun _ => hout) b).trans ?_
    constructor
    · rintro ⟨hb, rfl, -⟩
      exact Table.latest_of_mem h.tracked.nodup_handed hb
    · intro hb
      exact ⟨Table.mem_of_latest hb, Table.key_of_latest hb,
        fun hpending => hflushed b hpending (Table.key_of_latest hb)⟩

/-- The live bar of a minute is the minute itself. -/
theorem Tracked.latest_minute (h : s.Tracked w) {t : Timestamp} :
    Table.latest Candle.identity (i, .m1, t) s.handed =
      Table.latest Candle.identity (i, .m1, t) s.live := by
  rw [handed, Table.latest_append, Table.latest_eq_none.mpr fun b hb hident => ?_, Option.none_or]
  obtain ⟨k, -, hbar⟩ := h.mem_emitted.1 hb
  simp only [Candle.identity, Prod.mk.injEq] at hident
  exact timeframe_of_barAt hbar hident.2.1

/-- The live bar of a bucket that is over is its derived bar. -/
theorem Tracked.latest_higher (h : s.Tracked w)
    (hover : minutesIn w s.live k ≠ [] → Over w (inEach DerivedTimeframe.all s.live) k) :
    Table.latest Candle.identity k.identity s.handed = barAt w s.live k := by
  refine Option.ext fun b => ?_
  constructor
  · intro hb
    have hident := Table.key_of_latest hb
    rcases List.mem_append.mp (Table.mem_of_latest hb) with hlive | hemitted
    · simp only [Candle.identity, BucketKey.identity, Prod.mk.injEq] at hident
      have hm1 := h.m1 b hlive
      rw [hident.2.1] at hm1
      exact absurd hm1 (timeframe_ne_m1 _)
    · obtain ⟨k', -, hbar⟩ := h.mem_emitted.1 hemitted
      exact derived_iff_barAt.mp ⟨(derived_iff_barAt.mpr hbar).1, hident⟩
  · intro hbar
    obtain ⟨c, hc⟩ := exists_minutesIn hbar
    have hmem : b ∈ s.handed := List.mem_append_right _
      (h.mem_emitted.2 ⟨k, hover (List.ne_nil_of_mem hc), hbar⟩)
    rw [← identity_of_barAt hbar]
    exact Table.latest_of_mem h.nodup_handed hmem

/-- The stored minutes of a flushed bucket are the live ones, and over them
the fetched ones of the gap. -/
theorem Kept.barAt_minutes (h : s.Kept w k.1 start stop batch) (hrepaired : s.repaired)
    (hm1 : ∀ c ∈ fetched, c.timeframe = .m1)
    (hbatch : backfill w start stop fetched = .ok batch) (hsettled : s.Settled w k) :
    barAt w s.minutes k = barAt w (s.live ++ gapBars start stop fetched) k := by
  refine barAt_congr fun t => ?_
  rw [latest_minutesIn fun c hc => by simpa using (List.mem_filter.mp hc).2, latest_minutesIn ?_]
  · by_cases hin : BucketRule.start w k.2.1 t = k.2.2
    swap
    · rw [if_neg hin, if_neg hin]
    rw [if_pos hin, if_pos hin, minutes, Table.latest_filter Table.nodup_dict,
      Table.latest_eq_lookup Table.nodup_dict, Table.lookup_dict, Table.latest_append,
      ← h.tracked.latest_minute, ← latest_batch hbatch, ← h.latest_written hrepaired ?_]
    · cases hlast : Table.latest Candle.identity (k.1, Timeframe.m1, t) s.written with
      | none => rfl
      | some c =>
          have hident := Table.key_of_latest hlast
          simp only [Candle.identity, Prod.mk.injEq] at hident
          exact Option.filter_some_pos (decide_eq_true hident.2.1)
    · -- a minute of the bucket that waits would be one of its pending minutes
      intro b hb hident
      simp only [Candle.identity, Prod.mk.injEq] at hident
      obtain ⟨hinst, htf, rfl⟩ := hident
      have hwaits : b ∈ minutesIn w (s.pending.filter fun c => c.timeframe = .m1) k :=
        List.mem_filter.mpr ⟨List.mem_filter.mpr ⟨hb, decide_eq_true htf⟩,
          decide_eq_true ⟨hinst, hin⟩⟩
      rw [hsettled.2.1] at hwaits
      cases hwaits
  · intro c hc
    rcases List.mem_append.mp hc with hc | hc
    · exact h.tracked.m1 c hc
    · obtain ⟨x, hx, -, rfl⟩ := mem_gapBars.1 hc
      exact hm1 x hx

/-- Which bars are rebuilt, bucket by bucket. -/
theorem rebuilds_bar (h : b.identity = k.identity) : rebuilds w start stop b ↔
    BucketRule.stop w k.2.1 k.2.2 ≤ stop ∧ k.2.2 < stop ∧ start < BucketRule.stop w k.2.1 k.2.2 := by
  simp only [Candle.identity, BucketKey.identity, Prod.mk.injEq] at h
  obtain ⟨-, htf, hts⟩ := h
  rw [rebuilds_iff, htf, hts]
  constructor
  · rintro ⟨tf, htf, h⟩
    rwa [DerivedTimeframe.timeframe_inj htf] at h
  · exact fun h => ⟨k.2.1, rfl, h⟩

/-- The stored bar of a bucket that the gap touched. -/
theorem Kept.stored_touched (h : s.Kept w k.1 start stop batch) (hrepaired : s.repaired)
    (hm1 : ∀ c ∈ fetched, c.timeframe = .m1) (hbatch : backfill w start stop fetched = .ok batch)
    (hgap : gapBars start stop fetched ≠ [])
    (htouched : k.2.2 < stop ∧ start < BucketRule.stop w k.2.1 k.2.2) (hsettled : s.Settled w k) :
    s.stored k.identity = lastWritten w stop s.live (source start stop fetched) k := by
  rw [stored, Table.lookup_dict, h.latest_written hrepaired hsettled.2.2,
    h.tracked.latest_higher hsettled.1]
  -- what the repair has of the bucket
  have hrepair : Table.latest Candle.identity k.identity batch =
      if BucketRule.stop w k.2.1 k.2.2 ≤ stop then barAt w (source start stop fetched) k else none := by
    -- a bar of the bucket that the repair writes is the derived one
    have hderived : ∀ b ∈ batch, b.identity = k.identity →
        rebuilds w start stop b ∧ barAt w (source start stop fetched) k = some b := by
      intro b hb hident
      rcases (mem_batch hbatch hgap).mp hb with hminute | ⟨hrebuilds, k', hbar⟩
      · obtain ⟨c, hc, -, rfl⟩ := mem_gapBars.1 hminute
        simp only [Candle.identity, BucketKey.identity, Prod.mk.injEq] at hident
        exact absurd (hident.2.1.symm.trans (hm1 c hc)) (timeframe_ne_m1 _)
      · exact ⟨hrebuilds, derived_iff_barAt.mp ⟨(derived_iff_barAt.mpr hbar).1, hident⟩⟩
    cases hlast : Table.latest Candle.identity k.identity batch with
    | some b =>
        have hident := Table.key_of_latest hlast
        obtain ⟨hrebuilds, hbar⟩ := hderived b (Table.mem_of_latest hlast) hident
        rw [if_pos ((rebuilds_bar hident).mp hrebuilds).1, hbar]
    | none =>
        split
        · rename_i hclosed
          cases hbar : barAt w (source start stop fetched) k with
          | none => rfl
          | some b =>
              have hident := identity_of_barAt hbar
              have hmem : b ∈ batch := (mem_batch hbatch hgap).mpr
                (.inr ⟨(rebuilds_bar hident).mpr ⟨hclosed, htouched⟩, k, hbar⟩)
              exact absurd hident (Table.latest_eq_none.mp hlast b hmem)
        · rfl
  rw [hrepair, lastWritten]
  split
  · rfl
  · exact Option.none_or

/-- The stored minutes are minutes, and can be derived from. -/
theorem consistent_iff : s.Consistent w k ↔ ∀ e, s.stored k.identity = some e →
    ∃ d, barAt w s.minutes k = some d ∧ figures d = figures e := by
  obtain ⟨bars, hbars⟩ : ∃ bars, derive w DerivedTimeframe.all s.minutes = .ok bars :=
    exists_derive fun c hc => by simpa using (List.mem_filter.mp hc).2
  refine forall_congr' fun e => forall_congr' fun _ => ?_
  constructor
  · rintro ⟨bars', hbars', d, hd, hident, hfigures⟩
    exact ⟨d, derived_iff_barAt.mp ⟨((derive_eq_ok hbars').2 d).mp hd, hident⟩, hfigures⟩
  · rintro ⟨d, hbar, hfigures⟩
    obtain ⟨hderived, hident⟩ := derived_iff_barAt.mpr hbar
    exact ⟨bars, hbars, d, ((derive_eq_ok hbars).2 d).mpr hderived, hident, hfigures⟩

/-- **When a recovered gap reaches the higher bars.** In a recording whose
repair wrote last, the stored bar of a bucket that the outage touched has the
figures its stored minutes give it exactly where the minutes it was derived
from agree with them: the fetched ones, for a bucket over by the end of the
gap, and the live ones for a bucket that was still open. -/
theorem consistent_iff_agree {history : Timestamp × Timestamp → List Candle}
    (hwindow : gapWindow w gapStart reconnected = some (start, stop))
    (hm1 : ∀ c ∈ history (fetchWindow w start stop), c.timeframe = .m1)
    (hinst : ∀ c ∈ history (fetchWindow w start stop), c.instrumentId = k.1)
    (hall : ∃ c ∈ history (fetchWindow w start stop), InGap start stop c)
    (hbatch : recover w gapStart reconnected history = .ok batch)
    (hr : GoodRun w k.1 start stop batch s) (hrepaired : s.repaired)
    (htouched : k.2.2 < stop ∧ start < BucketRule.stop w k.2.1 k.2.2) (hsettled : s.Settled w k) :
    s.Consistent w k ↔ Agree w start stop s.live (history (fetchWindow w start stop)) k := by
  have hbackfill : backfill w start stop (history (fetchWindow w start stop)) = .ok batch := by
    rwa [recover, hwindow] at hbatch
  have hgap : gapBars start stop (history (fetchWindow w start stop)) ≠ [] := by
    obtain ⟨c, hc, hin⟩ := hall
    exact List.ne_nil_of_mem (mem_gapBars.2 ⟨c, hc, hin, rfl⟩)
  have hkept : s.Kept w k.1 start stop batch :=
    hr.kept fun b hb => claimed_of_batch hm1 hinst hbackfill hb
  rw [consistent_iff, hkept.stored_touched hrepaired hm1 hbackfill hgap htouched hsettled,
    hkept.barAt_minutes hrepaired hm1 hbackfill hsettled]
  rfl

end Repaired

end Recording

/-! ## A morning outage -/

namespace Sample

open Recording ReconnectRecovery

/-- A minute of the first Friday, counted from the open. -/
def morning (n : ℤ) : Timestamp := afternoon (n - 345)

/-- The live minutes, all at one price. -/
def liveBar (n : ℤ) : Candle := minuteBar (morning n) 100

theorem le_spike : (⟨100⟩ : Money) ≤ ⟨105⟩ := by decide

/-- What the broker has for 9:16: a high that the feed missed. -/
def spike : Candle :=
  ⟨"I", .m1, morning 1, ⟨100⟩, ⟨105⟩, ⟨100⟩, ⟨100⟩, 1, false, le_rfl, le_spike, le_rfl, le_spike⟩

def brokerHistory (span : Timestamp × Timestamp) : List Candle :=
  [liveBar 0, spike, liveBar 2].filter fun c => span.1 ≤ c.ts ∧ c.ts < span.2

/-- The repair of an outage from 9:16:30 to 9:17:10. -/
def repairBatch : List Candle := gapBars (morning 1) (morning 3) [liveBar 0, spike, liveBar 2]

def opening : Recording :=
  ((initial.close window (liveBar 0)).close window (liveBar 1)).close window (liveBar 2)

def mended : Recording :=
  { opening.flush 3 with written := (opening.flush 3).written ++ repairBatch, repaired := true }

/-- 9:18 and 9:19 close behind the repair, and with them 9:15 of five minutes. -/
def settled : Recording := ((mended.close window (liveBar 3)).close window (liveBar 4)).flush 3

theorem inside_morning {n : ℤ} (h : (MinuteWindow.regular SessionWindow.weekdays).contains (morning n))
    (hwhole : WholeMinute (morning n)) (tf : DerivedTimeframe) :
    (liveBar n).ts + minute ≤ BucketRule.stop window tf (BucketRule.start window tf (liveBar n).ts) :=
  BucketRule.inside_of_contains (w := .regular SessionWindow.weekdays) (by decide) h hwhole

theorem goodRun_close {s : Recording} {n : ℤ}
    (hr : GoodRun window "I" (morning 1) (morning 3) repairBatch s)
    (hlater : ∀ x ∈ s.live, x.instrumentId = (liveBar n).instrumentId → x.ts < (liveBar n).ts)
    (h : (MinuteWindow.regular SessionWindow.weekdays).contains (morning n))
    (hwhole : WholeMinute (morning n)) (hlate : s.repaired → morning 3 ≤ morning n) :
    GoodRun window "I" (morning 1) (morning 3) repairBatch (s.close window (liveBar n)) :=
  hr.tail ⟨.closed (liveBar n), .closed rfl hlater (inside_morning h hwhole), fun hs _ => hlate hs⟩

theorem goodRun_flush {s : Recording} {n : ℕ}
    (hr : GoodRun window "I" (morning 1) (morning 3) repairBatch s) :
    GoodRun window "I" (morning 1) (morning 3) repairBatch (s.flush n) :=
  hr.tail ⟨.flushed n, .flushed, trivial⟩

theorem goodRun_opening :
    GoodRun window "I" (morning 1) (morning 3) repairBatch (opening.flush 3) := by
  refine goodRun_flush (goodRun_close (goodRun_close (goodRun_close .refl ?_ ?_ ?_ nofun)
    ?_ ?_ ?_ nofun) ?_ ?_ ?_ nofun)
  all_goals decide

/-- No bucket of the morning is over when the repair writes. -/
theorem open_opening : ∀ c ∈ (opening.flush 3).live, ∀ tf ∈ DerivedTimeframe.all,
    ¬ BucketRule.stop window tf (BucketRule.start window tf c.ts) ≤ morning 3 := by decide

theorem goodRun_settled : GoodRun window "I" (morning 1) (morning 3) repairBatch settled := by
  have hmended : GoodRun window "I" (morning 1) (morning 3) repairBatch mended := by
    have hpending : (opening.flush 3).pending = [] := by decide
    refine goodRun_opening.tail ⟨.repaired, .repaired rfl, fun c hc => ?_, fun c hc _ tf hstop => ?_⟩
    · rw [hpending] at hc
      cases hc
    · exact absurd hstop (open_opening c hc tf tf.mem_all)
  refine goodRun_flush (goodRun_close (goodRun_close hmended ?_ ?_ ?_ fun _ => ?_) ?_ ?_ ?_ fun _ => ?_)
  all_goals decide

/-- 9:15 of five minutes, of `I`. -/
def bucket : BucketKey := ("I", .m5, morning 0)

theorem settled_bucket : settled.Settled window bucket := by
  have hpending : settled.pending = [] := by decide
  refine ⟨fun _ => over_iff.2 ⟨by decide, liveBar 4, by decide, rfl, .inr ?_⟩, ?_, ?_⟩
  · decide
  · rw [hpending]
    rfl
  · rw [hpending]
    exact fun _ hb => absurd hb List.not_mem_nil

end Sample

namespace Recording

open ReconnectRecovery Sample

theorem consistent_iff_agree_sample :
    settled.Consistent window bucket ↔
      Agree window (morning 1) (morning 3) settled.live
        (brokerHistory (fetchWindow window (morning 1) (morning 3))) bucket := by
  have hwindow : gapWindow window (morning 1 + 30 * second) (morning 2 + 10 * second) =
      some (morning 1, morning 3) := by decide
  have hbatch : recover window (morning 1 + 30 * second) (morning 2 + 10 * second) brokerHistory =
      .ok repairBatch := by decide
  exact consistent_iff_agree hwindow (by decide) (by decide) (by decide)
    hbatch goodRun_settled rfl (by decide) settled_bucket

/-- **A bucket that was open at the reconnect.** The repair stores 9:16 with
the broker's high; at 9:20 the live path stores five minutes without it. -/
theorem open_bucket_stale :
    recover window (morning 1 + 30 * second) (morning 2 + 10 * second) brokerHistory = .ok repairBatch ∧
      GoodRun window "I" (morning 1) (morning 3) repairBatch settled ∧ settled.repaired ∧
      settled.Settled window bucket ∧ ¬ settled.Consistent window bucket := by
  refine ⟨by decide, goodRun_settled, rfl, settled_bucket, ?_⟩
  rw [consistent_iff]
  intro hconsistent
  have hstored : (settled.stored bucket.identity).map figures =
      some (⟨100⟩, ⟨100⟩, ⟨100⟩, ⟨100⟩, 5) := by decide
  have hminutes : (barAt window settled.minutes bucket).map figures =
      some (⟨100⟩, ⟨105⟩, ⟨100⟩, ⟨100⟩, 5) := by decide
  obtain ⟨e, he, hefigures⟩ := Option.map_eq_some_iff.mp hstored
  obtain ⟨d, hd, hdfigures⟩ := hconsistent e he
  rw [hd, Option.map_some, hdfigures, hefigures] at hminutes
  exact absurd hminutes (by decide)

end Recording

end Emporos
