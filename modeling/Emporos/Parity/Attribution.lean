import Emporos.Execution.Runs
import Emporos.Parity.Outcomes
/-!
# Whose execution it is

An order chain starts at a root, which a signal was placed as, and goes on
through replacements, each of which names its parent. An execution belongs
to the signal of the root of its order's chain. The report goes by the
signal id on the order instead.

The two agree where every order that was filled carries the signal id of
its root. A replacement does not: the execution layer writes it under the
key of the replacement (`Run.written`). So the report accounts for the
executions of a run as written exactly where none is of a replacement, and
`reprice_lost` is a run where one is.
-/

namespace Emporos

open PaperOutcomes

namespace PaperRunData

section Chains

variable (data : PaperRunData)

/-- The chain of an order, up to its root. -/
inductive RootOf : OrderRecord → OrderRecord → Prop
  | root {o : OrderRecord} (mem : o ∈ data.orders) (first : o.parentOrderId = none) : RootOf o o
  | replacement {o p r : OrderRecord} (mem : o ∈ data.orders)
      (parent : o.parentOrderId = some p.id) (rest : RootOf p r) : RootOf o r

/-- The execution is of an order whose chain starts at the signal's root order. -/
def Belongs (x : ExecutionRecord) (s : SignalRecord) : Prop :=
  ∃ o r, o.id = x.orderId ∧ data.RootOf o r ∧ r.signalId = some s.id

/-- The records have ids of their own, and every execution belongs to a
signal of the run. -/
structure Linked : Prop where
  signals : (data.signals.map (·.id)).Nodup
  orders : (data.orders.map (·.id)).Nodup
  belongs : ∀ x ∈ data.executions, ∃ s ∈ data.signals, data.Belongs x s

/-- Every order that was filled carries the signal id of its root. -/
def Carries : Prop :=
  ∀ x ∈ data.executions, ∀ o r, o.id = x.orderId → data.RootOf o r → o.signalId = r.signalId

/-- No replacement was filled. -/
def RootsFilled : Prop :=
  ∀ x ∈ data.executions, ∀ o ∈ data.orders, o.id = x.orderId → o.parentOrderId = none

/-- A signal that was filled and said what it wanted was decided against a
positive price. -/
def Measurable [DecimalContext] : Prop :=
  ∀ s ∈ data.signals, (∃ x ∈ data.executions, data.Belongs x s ∧ 0 < x.quantity) → Referenced s

/-- The orders are as execution writes them: a replacement goes under the
key of what it replaces, and no signal has such a key for an id. -/
structure Written : Prop where
  keyed : ∀ o ∈ data.orders, ∀ p ∈ data.orders, o.parentOrderId = some p.id →
    o.signalId = some p.replacementKey
  apart : ∀ s ∈ data.signals, ∀ p ∈ data.orders, s.id ≠ p.replacementKey

/-- **The report accounts for the executions**: there is one, each is
counted for the signal it belongs to, and all of them are counted once. -/
structure Accounted [DecimalContext] : Prop where
  report : ∃ report, bySignal data = .ok report ∧
    List.Forall₂ (fun s r => r.1 = s.id ∧ CountsFills r.2 (attributed data s.id)) data.signals report ∧
    (report.map (·.2.filledQuantity)).sum = filled data.executions
  ours : ∀ s ∈ data.signals, ∀ x,
    x ∈ attributed data s.id ↔ x ∈ data.executions ∧ data.Belongs x s
  once : (data.signals.flatMap fun s => attributed data s.id).Perm data.executions

end Chains

variable {data : PaperRunData} {o p r : OrderRecord} {x : ExecutionRecord} {s : SignalRecord}

/-! ## Chains -/

namespace RootOf

theorem mem (h : data.RootOf o r) : o ∈ data.orders := by
  cases h with
  | root mem _ => exact mem
  | replacement mem _ _ => exact mem

/-- What has no parent is its own root. -/
theorem eq_of_first (h : data.RootOf o r) (hfirst : o.parentOrderId = none) : r = o := by
  cases h with
  | root _ _ => rfl
  | replacement _ parent _ => rw [hfirst] at parent; cases parent

/-- **A chain has one root.** -/
theorem unique {r' : OrderRecord} (hnd : (data.orders.map (·.id)).Nodup) (h : data.RootOf o r)
    (h' : data.RootOf o r') : r = r' := by
  induction h with
  | root _ first => exact (h'.eq_of_first first).symm
  | replacement _ parent rest ih =>
      cases h' with
      | root _ first => rw [first] at parent; cases parent
      | replacement _ parent' rest' =>
          have hid := Option.some.inj (parent.symm.trans parent')
          have hsame := Table.eq_of_key hnd rest.mem rest'.mem hid
          exact ih (hsame ▸ rest')

end RootOf

theorem mem_attributed {signalId : String} : x ∈ attributed data signalId ↔
    x ∈ data.executions ∧ ∃ o ∈ data.orders, o.signalId = some signalId ∧ o.id = x.orderId := by
  simp only [attributed, ordersOf, fillsOf, List.mem_flatMap, List.mem_filter, decide_eq_true_eq]
  constructor
  · rintro ⟨o, ⟨ho, hs⟩, hx, hid⟩
    exact ⟨hx, o, ho, hs, hid.symm⟩
  · rintro ⟨hx, o, ho, hs, hid⟩
    exact ⟨o, ⟨ho, hs⟩, hx, hid.symm⟩

/-! ## Who carries what -/

/-- Where every filled order carries its root's signal id, what is counted
for a signal is what belongs to it. -/
theorem Linked.mem_attributed_iff (h : data.Linked) (hc : data.Carries) :
    x ∈ attributed data s.id ↔ x ∈ data.executions ∧ data.Belongs x s := by
  rw [mem_attributed]
  refine and_congr_right fun hx => ?_
  constructor
  · rintro ⟨o, ho, hs, hid⟩
    obtain ⟨s', -, o', r, hid', hroot, -⟩ := h.belongs x hx
    have hsame := Table.eq_of_key h.orders ho hroot.mem (hid.trans hid'.symm)
    subst hsame
    exact ⟨o, r, hid, hroot, (hc x hx o r hid hroot).symm.trans hs⟩
  · rintro ⟨o, r, hid, hroot, hs⟩
    exact ⟨o, hroot.mem, (hc x hx o r hid hroot).trans hs, hid⟩

/-- Conversely, if what belongs to a signal is counted for it, then each
filled order carries its root's signal id. -/
theorem Linked.carries (h : data.Linked)
    (ours : ∀ s ∈ data.signals, ∀ x,
      x ∈ attributed data s.id ↔ x ∈ data.executions ∧ data.Belongs x s) : data.Carries := by
  intro x hx o r hid hroot
  obtain ⟨s, hs, o', r', hid', hroot', hsignal⟩ := h.belongs x hx
  have hsame := Table.eq_of_key h.orders hroot.mem hroot'.mem (hid.trans hid'.symm)
  subst hsame
  have hr := hroot.unique h.orders hroot'
  subst hr
  obtain ⟨-, o', ho', hcarried, hid'⟩ :=
    mem_attributed.1 ((ours s hs x).mpr ⟨hx, o, r, hid, hroot, hsignal⟩)
  have hsame := Table.eq_of_key h.orders hroot.mem ho' (hid.trans hid'.symm)
  rw [hsame, hcarried, hsignal]

/-- **Of a run as written**, filled orders carry their roots' signal ids
exactly where no replacement was filled. -/
theorem Linked.carries_iff (h : data.Linked) (hw : data.Written) :
    data.Carries ↔ data.RootsFilled := by
  constructor
  · intro hc x hx o ho hid
    obtain ⟨s, hs, o', r, hid', hroot, hsignal⟩ := h.belongs x hx
    have hsame := Table.eq_of_key h.orders ho hroot.mem (hid.trans hid'.symm)
    subst hsame
    have hcarried := (hc x hx o r hid hroot).trans hsignal
    cases hroot with
    | root _ first => exact first
    | @replacement _ p _ _ parent rest =>
        have hkeyed := hw.keyed o ho p rest.mem parent
        exact absurd (Option.some.inj (hcarried.symm.trans hkeyed)) (hw.apart s hs p rest.mem)
  · intro hf x hx o r hid hroot
    rw [hroot.eq_of_first (hf x hx o hroot.mem hid)]

/-- **All executions are counted once** where every filled order carries
its root's signal id. -/
theorem Linked.attributed_perm (h : data.Linked) (hc : data.Carries) :
    (data.signals.flatMap fun s => attributed data s.id).Perm data.executions := by
  have hids : (data.signals.map fun s => some s.id).Nodup := by
    have := h.signals.map (Option.some_injective String)
    rwa [List.map_map] at this
  -- the orders some signal of the run counts
  let counted := data.orders.filter fun o => o.signalId ∈ data.signals.map fun s => some s.id
  have horders : (data.signals.flatMap fun s => ordersOf data s.id).Perm counted := by
    have hperm := @Table.flatMap_filter_perm _ _ _ OrderRecord.signalId counted _ hids
      fun o ho => by simpa using (List.mem_filter.mp ho).2
    rw [List.flatMap_map] at hperm
    refine (List.Perm.of_eq (List.flatMap_congr fun s hs => ?_)).trans hperm
    rw [ordersOf, List.filter_filter]
    refine List.filter_congr fun o _ => ?_
    by_cases ho : o.signalId = some s.id
    · have hmem : some s.id ∈ data.signals.map fun s => some s.id :=
        List.mem_map.mpr ⟨s, hs, rfl⟩
      simp [ho, hmem]
    · simp [ho]
  have hfills : (counted.flatMap fun o => fillsOf data o.id).Perm data.executions := by
    have hnd : (counted.map (·.id)).Nodup := h.orders.sublist (List.filter_sublist.map _)
    have hperm := @Table.flatMap_filter_perm _ _ _ ExecutionRecord.orderId data.executions _
      hnd fun x hx => by
        obtain ⟨s, hs, o, r, hid, hroot, hsignal⟩ := h.belongs x hx
        have hcarried := (hc x hx o r hid hroot).trans hsignal
        refine List.mem_map.mpr ⟨o, List.mem_filter.mpr ⟨hroot.mem, ?_⟩, hid⟩
        rw [hcarried]
        exact decide_eq_true (List.mem_map.mpr ⟨s, hs, rfl⟩)
    rwa [List.flatMap_map] at hperm
  have hsplit : (data.signals.flatMap fun s => attributed data s.id) =
      (data.signals.flatMap fun s => ordersOf data s.id).flatMap fun o => fillsOf data o.id := by
    rw [List.flatMap_assoc]
    rfl
  rw [hsplit]
  exact (horders.flatMap_right _).trans hfills

/-! ## The report -/

section Report

variable [DecimalContext]

/-- A signal has an outcome in each of the run's reports where filled
orders carry their roots' signal ids. -/
theorem Linked.exists_bySignal_iff (h : data.Linked) (hc : data.Carries) :
    (∃ report, bySignal data = .ok report) ↔ data.Measurable := by
  rw [exists_bySignal]
  refine forall₂_congr fun s _ => ?_
  simp only [exists_outcome, h.mem_attributed_iff hc, and_assoc]

theorem Linked.accounted_iff_carries (h : data.Linked) :
    data.Accounted ↔ data.Carries ∧ data.Measurable := by
  constructor
  · rintro ⟨⟨report, hreport, -⟩, ours, -⟩
    have hc := h.carries ours
    exact ⟨hc, (h.exists_bySignal_iff hc).mp ⟨report, hreport⟩⟩
  · rintro ⟨hc, hm⟩
    obtain ⟨report, hreport⟩ := (h.exists_bySignal_iff hc).mpr hm
    have hrows := rows_of_bySignal h.signals hreport
    have hperm := h.attributed_perm hc
    refine ⟨⟨report, hreport, hrows, ?_⟩, fun s _ x => h.mem_attributed_iff hc, hperm⟩
    have hquantities : data.signals.map (fun s => filled (attributed data s.id)) =
        report.map (·.2.filledQuantity) := by
      rw [← List.forall₂_eq_eq_eq, List.forall₂_map_left_iff, List.forall₂_map_right_iff]
      exact hrows.imp fun s r hr => hr.2.quantity.symm
    rw [← hquantities, filled, ← (hperm.map _).sum_eq, List.map_flatMap, List.flatMap_def,
      List.sum_flatten, List.map_map]
    rfl

/-- **The report accounts for a run's executions exactly where every filled
order carries the signal id of its root** and no slippage lacks its
reference; of a run as the execution layer writes it, exactly where no
replacement was filled. -/
theorem accounted_iff (h : data.Linked) :
    (data.Accounted ↔ data.Carries ∧ data.Measurable) ∧
      (data.Written → (data.Accounted ↔ data.RootsFilled ∧ data.Measurable)) := by
  refine ⟨h.accounted_iff_carries, fun hw => ?_⟩
  rw [h.accounted_iff_carries, h.carries_iff hw]

end Report

/-! ## A signal repriced once -/

/-- A buy of ten of `I` at 100, of signal `S`. -/
def sampleSignal : SignalRecord where
  id := "S"
  ts := 0
  price := some ⟨100⟩
  side := some .buy
  quoteLtp := none
  quoteBid := none
  quoteAsk := none
  quoteTs := none
  quoteSource := none

/-- An order of `quantity` of it, under a key. -/
def sampleOrder (id key : String) (parent : Option String) (count quantity : ℕ) : OrderRecord where
  id := id
  strategyRunId := some "run"
  signalId := some key
  signalKind := some "ENTRY"
  parentOrderId := parent
  repriceCount := count
  absenceChecks := 0
  originalLimitPrice := some ⟨100⟩
  idempotencyKey := "A:" ++ key
  ordertag := id
  instrumentId := "I"
  side := .buy
  orderType := .limit
  quantity := quantity
  limitPrice := ⟨100⟩
  triggerPrice := none
  state := .cancelled
  sessionDate := 0
  brokerOrderId := some id
  filledQuantity := 0
  createdAt := 0
  updatedAt := 0
  accountId := some "A"
  averagePrice := none
  statusMessage := ""

/-- A fill of an order at 100. -/
def sampleFill (id orderId : String) (quantity : ℕ) : ExecutionRecord where
  id := id
  brokerTradeId := id
  orderId := orderId
  instrumentId := "I"
  side := .buy
  quantity := quantity
  price := ⟨100⟩
  ts := 0
  accountId := some "A"
  sessionDate := some 0
  fees := none
  sessionTradeNo := none

/-- The root order `O` and its replacement `R`, with some fills. -/
def sampleRun (fills : List ExecutionRecord) : PaperRunData where
  signals := [sampleSignal]
  orders := [sampleOrder "O" "S" none 0 10, sampleOrder "R" "O:reprice:1" (some "O") 1 6]
  orderEvents := []
  executions := fills
  riskEvents := []

theorem sampleRun_rootOf {fills : List ExecutionRecord} :
    (sampleRun fills).RootOf (sampleOrder "O" "S" none 0 10) (sampleOrder "O" "S" none 0 10) ∧
      (sampleRun fills).RootOf (sampleOrder "R" "O:reprice:1" (some "O") 1 6)
        (sampleOrder "O" "S" none 0 10) := by
  have hroot : (sampleRun fills).RootOf (sampleOrder "O" "S" none 0 10)
      (sampleOrder "O" "S" none 0 10) := .root (List.mem_cons_self ..) rfl
  exact ⟨hroot, .replacement (List.mem_cons_of_mem _ (List.mem_cons_self ..)) rfl hroot⟩

theorem sampleRun_linked {fills : List ExecutionRecord}
    (h : ∀ x ∈ fills, x.orderId = "O" ∨ x.orderId = "R") : (sampleRun fills).Linked where
  signals := List.nodup_singleton _
  orders := show ((sampleRun []).orders.map (·.id)).Nodup by decide
  belongs x hx := by
    refine ⟨sampleSignal, List.mem_singleton_self _, ?_⟩
    rcases h x hx with hid | hid
    · exact ⟨_, _, hid.symm, sampleRun_rootOf.1, rfl⟩
    · exact ⟨_, _, hid.symm, sampleRun_rootOf.2, rfl⟩

theorem sampleRun_written {fills : List ExecutionRecord} : (sampleRun fills).Written where
  keyed :=
    show ∀ o ∈ (sampleRun []).orders, ∀ p ∈ (sampleRun []).orders,
      o.parentOrderId = some p.id → o.signalId = some p.replacementKey by decide
  apart :=
    show ∀ s ∈ (sampleRun []).signals, ∀ p ∈ (sampleRun []).orders, s.id ≠ p.replacementKey by
      decide

/-- **Fills of a replacement are lost.** Ten were ordered, four were filled
before the reprice and six after it: the run is written as execution writes
it, and the report counts four. -/
theorem reprice_lost :
    (sampleRun [sampleFill "e" "O" 4, sampleFill "f" "R" 6]).Linked ∧
      (sampleRun [sampleFill "e" "O" 4, sampleFill "f" "R" 6]).Written ∧
      (attributed (sampleRun [sampleFill "e" "O" 4, sampleFill "f" "R" 6]) "S").map (·.quantity) =
        [4] ∧
      ¬ @Accounted (sampleRun [sampleFill "e" "O" 4, sampleFill "f" "R" 6]) Decimal.standard := by
  refine ⟨sampleRun_linked (by decide), sampleRun_written, by decide, fun h => ?_⟩
  have hlength := (@Accounted.once _ Decimal.standard h).length_eq
  exact absurd hlength (by decide)

/-- A run accounted for: the replacement was not filled. -/
theorem accounted_sample :
    @Accounted (sampleRun [sampleFill "e" "O" 4, sampleFill "f" "O" 6]) Decimal.standard := by
  have hlinked : (sampleRun [sampleFill "e" "O" 4, sampleFill "f" "O" 6]).Linked :=
    sampleRun_linked (by decide)
  refine ((@accounted_iff _ Decimal.standard hlinked).2 sampleRun_written).mpr ⟨?_, ?_⟩
  · rw [RootsFilled]
    decide
  · intro s hs _ _ price hprice
    obtain rfl := List.mem_singleton.mp hs
    cases hprice
    decide

end PaperRunData

/-! ## What execution writes -/

section Runs

open Async

variable [DecimalContext] {cfg : Settings} {scope : Scope}
  {admits : (c : Call) → c.Answer → Prop} {s : Pool calls PyError Unit World}

/-- Each intent with a parent goes under the key of that parent's replacement. -/
def Store.ChildrenKeyed (s : Store) : Prop :=
  ∀ o ∈ s.intents, ∀ parentId, o.parentOrderId = some parentId →
    ∃ p ∈ s.intents, p.id = parentId ∧ o.signalId = some p.replacementKey

theorem Run.childrenKeyed (hbook : scope.Bounds (cfg.engine.environment admits))
    (hparents : ∀ p, scope.parents p → p = none) (hr : Run cfg scope admits s) :
    s.world.store.ChildrenKeyed := by
  refine hr.invariant (J := fun w => w.store.ChildrenKeyed) hbook
    (fun o ho => by simp [Store.intents, World.start, Store.empty] at ho)
    (fun _ hJ hw hg hs => ?_) fun hJ => hJ
  rcases intents_of_step hw hg hs with h | ⟨o, rfl, -, -, h⟩
  · rw [Store.ChildrenKeyed, h]
    exact hJ
  · obtain ⟨-, approval, parent, parentOrderId, m, id, limit, trigger, now, hnew⟩ := hg
    intro x hx parentId hparent
    rw [h, List.mem_append, List.mem_singleton] at hx
    rcases hx with hx | rfl
    · obtain ⟨p, hp, hid, hkey⟩ := hJ x hx parentId hparent
      exact ⟨p, by rw [h]; exact List.mem_append_left _ hp, hid, hkey⟩
    · rw [hnew.eq] at hparent ⊢
      -- the placement names its parent as its replacement does
      have hplacement := hnew.placement
      change parentOrderId = some parentId at hparent
      subst hparent
      cases hplacement with
      | direct hdirect => cases hparents _ hdirect
      | @replacement order known _ _ keyed =>
          refine ⟨order.intent, ?_, rfl, ?_⟩
          · rw [h]
            exact List.mem_append_left _ (Store.knows_iff.mp known)
          · change some approval.signalId = some order.replacementKey
            rw [keyed]

/-- **In every run of the execution layer** in which nobody but the reprice
coordinator names a parent, an order with a parent goes under the key of
that parent's replacement. -/
theorem Run.written (hbook : scope.Bounds (cfg.engine.environment admits))
    (hparents : ∀ p, scope.parents p → p = none) (hr : Run cfg scope admits s) :
    ∀ o ∈ s.world.store.orders, ∀ p ∈ s.world.store.orders, o.parentOrderId = some p.id →
      o.signalId = some p.replacementKey := by
  intro o ho p hp hparent
  obtain ⟨q, hq, hid, hkey⟩ := hr.childrenKeyed hbook hparents o.intent (List.mem_map_of_mem ho)
    p.id hparent
  obtain ⟨y, hy, rfl⟩ := List.mem_map.mp hq
  rwa [Table.eq_of_key (hr.sane hbook).ids hy hp hid] at hkey

end Runs

end Emporos
