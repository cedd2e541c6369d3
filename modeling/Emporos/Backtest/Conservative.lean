import Emporos.Backtest.Effects
/-!
# Matching is conservative

Over every run of calls, whatever the policies and the clock, a bar fills
only orders accepted before it opened, a stop only after the bar that armed
it, no more than the bar's capacity in all, no order beyond its quantity,
and no price worse than a limit. Orders are served as they were placed, and
an order that is over stays as it is.
-/

namespace Emporos

namespace BrokerStep

variable (step : BrokerStep)

def fills : List SimFill := SimEvent.fills step.outcome.events

def after : SimulatedBroker := step.outcome.broker

/-- The step arms an order: the bar reaches its trigger, and from the bar's
close on it may fill. -/
def ArmedBy (model : BarFillModel) (bar : Candle) (orderId : String) : Prop :=
  step.call = .matchBar bar ∧ ∃ o o', step.before.find orderId = some o ∧ o.armedAt = none ∧
    step.after.find orderId = some o' ∧ o'.armedAt = some bar.closesAt ∧ step.call.Arms model o bar.closesAt

end BrokerStep

/-- The fills of steps. -/
def fillsOf (steps : List BrokerStep) : List SimFill := steps.flatMap (·.fills)

/-- **What every run keeps.** A bar is one call of `match`. -/
structure Conservative [DecimalContext] (model : BarFillModel) (steps : List BrokerStep) : Prop where
  /-- A bar fills an order that was accepted by the time it opened, at a
  price no worse than its limit; a stop was armed by an earlier bar, which
  closed by then. -/
  eligible : ∀ earlier step later bar, steps = earlier ++ step :: later → step.call = .matchBar bar →
    ∀ fill ∈ step.fills, ∃ o, step.before.find fill.orderId = some o ∧ o.acceptedAt ≤ bar.ts ∧
      o.request.side.Within o.request.limitPrice fill.price ∧
      (o.request.orderType = .stoplossLimit → ∃ armed ∈ earlier, ∃ first,
        armed.ArmedBy model first fill.orderId ∧ first.closesAt ≤ bar.ts)
  /-- An order is armed once. -/
  armed_once : ∀ earlier step later bar orderId, steps = earlier ++ step :: later →
    step.ArmedBy model bar orderId → ∀ s ∈ later, ∀ bar', ¬ s.ArmedBy model bar' orderId
  capacity : ∀ step ∈ steps, ∀ bar, step.call = .matchBar bar →
    (SimFill.total step.fills : ℤ) ≤ model.capacity bar
  /-- A bar known to be incomplete fills nothing. -/
  incomplete : ∀ step ∈ steps, ∀ bar, step.call = .matchBar bar → bar.isPartial = true → step.fills = []
  quantity : ∀ earlier step later, steps = earlier ++ step :: later → ∀ o ∈ step.after.orders,
    o.filled = SimFill.total (SimFill.ofOrders [o.orderId] (fillsOf (earlier ++ [step]))) ∧
      o.filled ≤ o.request.quantity
  /-- An eligible order that the bar crosses is given what it wants of what
  the orders placed before it leave of the capacity. -/
  priority : ∀ step ∈ steps, ∀ bar, step.call = .matchBar bar → step.outcome.error = none →
    ∀ ahead o behind price, step.before.orders = ahead ++ o :: behind → o.isOpen = true →
      o.request.instrumentId = bar.instrumentId → o.Eligible bar →
      model.priceIfFilled o.request.side o.request.limitPrice bar = .ok (some price) →
      (SimFill.total (SimFill.ofOrders [o.orderId] step.fills) : ℤ) = min o.remaining
        (model.capacity bar - SimFill.total (SimFill.ofOrders (ahead.map (·.orderId)) step.fills))
  /-- An order that is over stays as it is, and is not filled again. -/
  terminal : ∀ earlier step later, steps = earlier ++ step :: later → ∀ o ∈ step.after.orders,
    o.isOpen = false → ∀ s ∈ later, s.after.find o.orderId = some o ∧
      SimFill.ofOrders [o.orderId] s.fills = []
  /-- At the end of a session every order is over. -/
  expired : ∀ step ∈ steps, step.call = .expireOpenOrders → ∀ o ∈ step.after.orders, o.isOpen = false

namespace SimulatedBroker

variable [DecimalContext] {model : BarFillModel} {b : SimulatedBroker}
  {calls : List (BrokerCall × (ℕ → Timestamp))} {earlier later : List BrokerStep} {step : BrokerStep}
  {bar : Candle} {o : SimOrder}

/-! ## One bar -/

theorem capacity_nonneg [Decimal.Nonnegative] : 0 ≤ model.capacity bar := by
  unfold BarFillModel.capacity
  split
  · exact le_rfl
  · exact Int.floor_nonneg.mpr (Decimal.nonneg_mul (Nat.cast_nonneg _) model.liquidity.fraction_pos.le)

/-- A fill of a bar is of an eligible order that the bar crosses. -/
theorem fill_spec_of_turns {orders orders' : List SimOrder} {capacity : ℤ} {fills : List SimFill}
    {error : Option PyError} (h : SimOrder.Turns model bar capacity orders orders' fills error) :
    ∀ fill ∈ fills, ∃ o ∈ orders, fill.orderId = o.orderId ∧ o.Eligible bar ∧
      model.priceIfFilled o.request.side o.request.limitPrice bar = .ok (some fill.price) := by
  induction h with
  | nil => simp
  | cons hturn _ ih =>
      intro fill hfill
      rcases List.mem_append.mp hfill with hfill | hfill
      · cases hturn with
        | idle => cases hfill
        | armed => cases hfill
        | filled x heligible hprice _ hid =>
            obtain rfl := List.mem_singleton.mp hfill
            exact ⟨_, List.mem_cons_self .., hid, heligible, hprice⟩
      · obtain ⟨o, ho, hspec⟩ := ih fill hfill
        exact ⟨o, List.mem_cons_of_mem _ ho, hspec⟩
  | stop => simp

omit [DecimalContext] in
/-- The orders ahead of one among those a bar goes through are those ahead
of it on the book. -/
theorem ofOrders_ahead (h : b.Sound) {ahead behind ahead' behind' : List SimOrder} {i : String}
    {fills : List SimFill} (hsplit : b.orders = ahead ++ o :: behind)
    (hsplit' : b.working i = ahead' ++ o :: behind')
    (howned : ∀ fill ∈ fills, fill.orderId ∈ (b.working i).map (·.orderId)) :
    SimFill.ofOrders (ahead'.map (·.orderId)) fills = SimFill.ofOrders (ahead.map (·.orderId)) fills := by
  have hworking : o ∈ b.working i := hsplit' ▸ List.mem_append_right _ (List.mem_cons_self ..)
  obtain ⟨ho, hopen, hinstrument⟩ := mem_working.mp hworking
  have hdistinct : ∀ {l l' : List SimOrder}, ((l ++ o :: l').map (·.orderId)).Nodup → o ∉ l' := by
    intro l l' hnd hmem
    rw [List.map_append, List.map_cons, List.nodup_append] at hnd
    exact (List.nodup_cons.mp hnd.2.1).1 (List.mem_map_of_mem hmem)
  have hahead : ahead' = ahead.filter fun o => o.isOpen && decide (o.request.instrumentId = i) := by
    have hfilter := hsplit'
    rw [working, hsplit, List.filter_append, List.filter_cons_of_pos (by simp [hopen, hinstrument])]
      at hfilter
    refine (Text.append_cons_inj ?_ ?_ hfilter).1.symm
    · exact fun hmem => hdistinct (hsplit ▸ h.nodup) (List.mem_of_mem_filter hmem)
    · exact hdistinct (hsplit' ▸ h.nodup_working i)
  refine List.filter_congr fun fill hfill => ?_
  rw [hahead, decide_eq_decide]
  constructor
  · intro hmem
    obtain ⟨x, hx, hid⟩ := List.mem_map.mp hmem
    exact List.mem_map.mpr ⟨x, List.mem_of_mem_filter hx, hid⟩
  · intro hmem
    obtain ⟨x, hx, hid⟩ := List.mem_map.mp hmem
    obtain ⟨y, hy, hyid⟩ := List.mem_map.mp (howned fill hfill)
    have hxmem : x ∈ b.orders := hsplit ▸ List.mem_append_left _ hx
    obtain ⟨hymem, hyopen, hyin⟩ := mem_working.mp hy
    obtain rfl : x = y := Table.eq_of_key h.nodup hxmem hymem (hid.trans hyid.symm)
    exact List.mem_map.mpr ⟨x, List.mem_filter.mpr ⟨hx, by simp [hyopen, hyin]⟩, hid⟩

/-- **Served as they were placed.** -/
theorem matchBar_priority [Decimal.Nonnegative] (h : b.Sound) {now : ℕ → Timestamp}
    (hok : (b.matchBar model bar now).error = none) {ahead behind : List SimOrder} {price : Money}
    (hsplit : b.orders = ahead ++ o :: behind) (hopen : o.isOpen = true)
    (hinstrument : o.request.instrumentId = bar.instrumentId) (heligible : o.Eligible bar)
    (hprice : model.priceIfFilled o.request.side o.request.limitPrice bar = .ok (some price)) :
    (SimFill.total (SimFill.ofOrders [o.orderId] (SimEvent.fills (b.matchBar model bar now).events)) : ℤ) =
      min o.remaining (model.capacity bar - SimFill.total (SimFill.ofOrders (ahead.map (·.orderId))
        (SimEvent.fills (b.matchBar model bar now).events))) := by
  obtain ⟨orders', fills, hturns, -, -, hfills⟩ := @matchBar_spec b _ now model bar h
  rw [hok] at hturns
  have ho : o ∈ b.orders := hsplit ▸ List.mem_append_right _ (List.mem_cons_self ..)
  have hworking : o ∈ b.working bar.instrumentId := mem_working.mpr ⟨ho, hopen, hinstrument⟩
  obtain ⟨o', ho', hid⟩ : ∃ o' ∈ orders', o'.orderId = o.orderId :=
    List.mem_map.mp (hturns.map_id ▸ List.mem_map_of_mem hworking)
  obtain ⟨ahead', x, behind', hsplit', hxid, hcase⟩ := hturns.turned_of_mem (h.nodup_working _) ho'
  have hx : x ∈ b.working bar.instrumentId := hsplit' ▸ List.mem_append_right _ (List.mem_cons_self ..)
  obtain rfl : x = o :=
    Table.eq_of_key h.nodup (mem_working.mp hx).1 ho (hxid.symm.trans hid)
  rw [hfills, ← ofOrders_ahead h hsplit hsplit' hturns.owned]
  rcases hcase with ⟨-, -, hfailed⟩ | hturned
  · exact absurd rfl hfailed
  · have hleft : 0 ≤ model.capacity bar -
        SimFill.total (SimFill.ofOrders (ahead'.map (·.orderId)) fills) := by
      have hall := hturns.total_le (fun y hy => (h.orders y (mem_working.mp hy).1).remaining_nonneg)
        capacity_nonneg
      have hpart := @SimFill.total_ofOrders_le fills (ahead'.map (·.orderId))
      omega
    exact hturned.total_eq (h.orders x ho).remaining_nonneg hleft heligible hprice

/-! ## A run -/

/-- The book and the steps that led to it. -/
structure Recorded (model : BarFillModel) (steps : List BrokerStep) (b : SimulatedBroker) : Prop where
  sound : b.Sound
  filled : ∀ o ∈ b.orders, o.filled = SimFill.total (SimFill.ofOrders [o.orderId] (fillsOf steps))
  armed : ∀ o ∈ b.orders, ∀ t, o.armedAt = some t → ∃ armed ∈ steps, ∃ first,
    armed.ArmedBy model first o.orderId ∧ t = first.closesAt
  known : ∀ fill ∈ fillsOf steps, fill.orderId ∈ b.orders.map (·.orderId)

omit [DecimalContext] in
theorem recorded_empty : Recorded model [] empty where
  sound := sound_empty
  filled := fun _ ho => by cases ho
  armed := fun _ ho => by cases ho
  known := fun _ hfill => by cases hfill

omit [DecimalContext] in
theorem fillsOf_append {steps : List BrokerStep} :
    fillsOf (steps ++ [step]) = fillsOf steps ++ step.fills := by simp [fillsOf]

/-- **A step is recorded.** -/
theorem Recorded.call {steps : List BrokerStep} (h : Recorded model steps b) (c : BrokerCall)
    (now : ℕ → Timestamp) :
    Recorded model (steps ++ [⟨b, c, b.call model c now⟩]) (b.call model c now).broker := by
  have heffect := @call_effect b _ now model c h.sound
  refine ⟨heffect.sound, fun o' ho' => ?_, fun o' ho' t ht => ?_, fun fill hfill => ?_⟩
  · rw [fillsOf_append, SimFill.ofOrders_append, SimFill.total_append]
    by_cases hold : o'.orderId ∈ b.orders.map (·.orderId)
    · obtain ⟨o, ho, hevolves, -⟩ := heffect.old o' ho' hold
      rw [hevolves.filled, h.filled o ho, hevolves.orderId]
      rfl
    · have hnone : SimFill.ofOrders [o'.orderId] (fillsOf steps) = [] := by
        refine SimFill.ofOrders_eq_nil fun fill hfill hmem => hold ?_
        exact List.mem_singleton.mp hmem ▸ h.known fill hfill
      rw [hnone, SimFill.total_nil, Nat.zero_add]
      exact (heffect.new o' ho' hold).1
  · by_cases hold : o'.orderId ∈ b.orders.map (·.orderId)
    · obtain ⟨o, ho, hevolves, harmed⟩ := heffect.old o' ho' hold
      rcases harmed t ht with ht' | ⟨hnone, harms⟩
      · obtain ⟨armed, hmem, first, hby, rfl⟩ := h.armed o ho t ht'
        exact ⟨armed, List.mem_append_left _ hmem, first, hevolves.orderId.symm ▸ hby, rfl⟩
      · -- this very step has armed it
        obtain ⟨bar, trigger, rfl, hinstrument, htype, haccepted, htrigger, hfires, rfl⟩ := harms
        refine ⟨_, List.mem_append_right _ (List.mem_singleton_self _), bar, ⟨rfl, o, o', ?_, hnone, ?_, ht,
          bar, trigger, rfl, hinstrument, htype, haccepted, htrigger, hfires, rfl⟩, rfl⟩
        · exact hevolves.orderId.symm ▸ h.sound.find_of_mem ho
        · exact heffect.sound.find_of_mem ho'
    · rw [(heffect.new o' ho' hold).2] at ht
      cases ht
  · rw [fillsOf_append] at hfill
    rcases List.mem_append.mp hfill with hfill | hfill
    · exact heffect.ids.subset (h.known fill hfill)
    · exact heffect.known fill hfill

/-- An order that is over, in every later step. -/
theorem closed_of_trace (h : b.Sound) (ho : o ∈ b.orders) (hclosed : o.isOpen = false) :
    ∀ s ∈ trace model b calls, s.after.find o.orderId = some o ∧
      SimFill.ofOrders [o.orderId] s.fills = [] := by
  refine Recording.forall_steps (P := fun b => b.Sound ∧ o ∈ b.orders) ⟨h, ho⟩ fun b c ⟨h, ho⟩ => ?_
  have heffect := @call_effect b _ c.2 model c.1 h
  obtain ⟨o', ho', hevolves⟩ := heffect.find ho
  obtain ⟨rfl, hnone⟩ := hevolves.closed hclosed
  exact ⟨⟨heffect.sound.find_of_mem ho', SimFill.eq_nil_of_total hnone⟩, heffect.sound, ho'⟩

/-- An order that is armed is not armed again. -/
theorem armed_of_trace {orderId : String} {t : Timestamp} (h : b.Sound) (ho : o ∈ b.orders)
    (hid : o.orderId = orderId) (harmed : o.armedAt = some t) :
    ∀ s ∈ trace model b calls, ∀ bar, ¬ s.ArmedBy model bar orderId := by
  refine Recording.forall_steps
    (P := fun b => b.Sound ∧ ∃ o ∈ b.orders, o.orderId = orderId ∧ o.armedAt = some t)
    ⟨h, o, ho, hid, harmed⟩ fun b c ⟨h, o, ho, hid, harmed⟩ => ?_
  have heffect := @call_effect b _ c.2 model c.1 h
  obtain ⟨o', ho', hevolves⟩ := heffect.find ho
  refine ⟨?_, heffect.sound, o', ho', hevolves.orderId.trans hid, hevolves.armed t harmed⟩
  rintro bar ⟨-, x, x', hfind, hnone, -⟩
  have hfound := h.find_of_mem ho
  rw [hid] at hfound
  obtain rfl := Option.some.inj (hfind.symm.trans hfound)
  rw [hnone] at harmed
  cases harmed

/-! ## Every run -/

/-- A step of a run, with what led to it and what follows. -/
theorem recorded_of_split (hsplit : trace model empty calls = earlier ++ step :: later) :
    Recorded model earlier step.before ∧ Recorded model (earlier ++ [step]) step.after ∧
      (∃ now, step.outcome = step.before.call model step.call now) ∧
        ∃ rest, later = trace model step.after rest := by
  obtain ⟨b, c, rest, hrecorded, rfl, hlater⟩ := Recording.steps_split (P := Recorded model)
    recorded_empty (fun hist b c h => h.call c.1 c.2) hsplit
  exact ⟨hrecorded, hrecorded.call c.1 c.2, ⟨c.2, rfl⟩, rest, hlater⟩

/-- A step that is a bar. -/
theorem turns_of_step (h : step.before.Sound) {now : ℕ → Timestamp}
    (houtcome : step.outcome = step.before.call model step.call now) (hcall : step.call = .matchBar bar) :
    ∃ orders' error, SimOrder.Turns model bar (model.capacity bar)
      (step.before.working bar.instrumentId) orders' step.fills error := by
  obtain ⟨orders', fills, hturns, -, -, hfills⟩ := @matchBar_spec step.before _ now model bar h
  refine ⟨orders', (step.before.matchBar model bar now).error, ?_⟩
  have hstep : step.fills = fills := by
    rw [BrokerStep.fills, houtcome, hcall]
    exact hfills
  rw [hstep]
  exact hturns

/-- **Matching is conservative.** -/
theorem conservative_trace [Decimal.Nonnegative] (model : BarFillModel)
    (calls : List (BrokerCall × (ℕ → Timestamp))) : Conservative model (trace model empty calls) where
  eligible := by
    intro earlier step later bar hsplit hcall fill hfill
    obtain ⟨hrecorded, -, ⟨now, houtcome⟩, -⟩ := recorded_of_split hsplit
    obtain ⟨orders', error, hturns⟩ := turns_of_step hrecorded.sound houtcome hcall
    obtain ⟨o, ho, hid, heligible, hprice⟩ := fill_spec_of_turns hturns fill hfill
    have hmem := (mem_working.mp ho).1
    refine ⟨o, hid ▸ hrecorded.sound.find_of_mem hmem, heligible.accepted,
      BarFillModel.within_of_priceIfFilled hprice, fun htype => ?_⟩
    obtain ⟨t, harmed, hle⟩ := heligible.armed htype
    obtain ⟨armed, hin, first, hby, rfl⟩ := hrecorded.armed o hmem t harmed
    exact ⟨armed, hin, first, hid ▸ hby, hle⟩
  armed_once := by
    rintro earlier step later bar orderId hsplit ⟨-, o, o', hfind, -, hfind', harmed, -⟩ s hs
    obtain ⟨-, hafter, -, rest, rfl⟩ := recorded_of_split hsplit
    obtain ⟨ho', hid⟩ := mem_of_find hfind'
    exact armed_of_trace hafter.sound ho' hid harmed s hs
  capacity := by
    intro step hstep bar hcall
    obtain ⟨earlier, later, hsplit⟩ := List.append_of_mem hstep
    obtain ⟨hrecorded, -, ⟨now, houtcome⟩, -⟩ := recorded_of_split hsplit
    obtain ⟨orders', error, hturns⟩ := turns_of_step hrecorded.sound houtcome hcall
    exact hturns.total_le (fun o ho => (hrecorded.sound.orders o (mem_working.mp ho).1).remaining_nonneg)
      capacity_nonneg
  incomplete := by
    intro step hstep bar hcall hpartial
    obtain ⟨earlier, later, hsplit⟩ := List.append_of_mem hstep
    obtain ⟨hrecorded, -, ⟨now, houtcome⟩, -⟩ := recorded_of_split hsplit
    obtain ⟨orders', error, hturns⟩ := turns_of_step hrecorded.sound houtcome hcall
    refine List.eq_nil_iff_forall_not_mem.mpr fun fill hfill => ?_
    obtain ⟨o, -, -, -, hprice⟩ := fill_spec_of_turns hturns fill hfill
    rw [BarFillModel.priceIfFilled_of_partial hpartial] at hprice
    cases hprice
  quantity := by
    intro earlier step later hsplit o ho
    obtain ⟨-, hafter, -, -⟩ := recorded_of_split hsplit
    exact ⟨hafter.filled o ho, (hafter.sound.orders o ho).filled_le⟩
  priority := by
    intro step hstep bar hcall hok ahead o behind price horders hopen hinstrument heligible hprice
    obtain ⟨earlier, later, hsplit⟩ := List.append_of_mem hstep
    obtain ⟨hrecorded, -, ⟨now, houtcome⟩, -⟩ := recorded_of_split hsplit
    rw [hcall] at houtcome
    rw [BrokerStep.fills, houtcome]
    rw [houtcome] at hok
    exact matchBar_priority hrecorded.sound hok horders hopen hinstrument heligible hprice
  terminal := by
    intro earlier step later hsplit o ho hclosed
    obtain ⟨-, hafter, -, rest, rfl⟩ := recorded_of_split hsplit
    exact closed_of_trace hafter.sound ho hclosed
  expired := by
    intro step hstep hcall o ho
    obtain ⟨earlier, later, hsplit⟩ := List.append_of_mem hstep
    obtain ⟨hrecorded, -, ⟨now, houtcome⟩, -⟩ := recorded_of_split hsplit
    rw [BrokerStep.after, houtcome, hcall] at ho
    exact closed_of_expireOpenOrders hrecorded.sound ho

end SimulatedBroker

/-! ## Two orders on one bar -/

namespace SimulatedBroker

theorem sampleShare_pos : (0 : Decimal) < 1 / 10 := by norm_num

theorem sampleShare_le : (1 / 10 : Decimal) ≤ 1 := by norm_num

/-- The defaults: strictly through the limit, at the limit, a tenth. -/
def defaultModel : BarFillModel := ⟨.through, .atLimit, ⟨1 / 10, sampleShare_pos, sampleShare_le⟩, .touch⟩

theorem sampleNamed : "I" ≠ "" ∧ "A" ≠ "" := by decide

theorem sampleNamed' : "I" ≠ "" ∧ "B" ≠ "" := by decide

theorem sampleRun_id : "R" ≠ "" := by decide

theorem forty_pos : 0 < 40 := by decide

theorem sampleLimit_pos : Money.zero < ⟨100⟩ := by simp [Money.lt_iff, Money.zero]

theorem sampleUntriggered : limitFits .buy ⟨100⟩ none := fun _ h => by cases h

theorem sampleFlat : Money.mk 99 ≤ ⟨99⟩ := le_rfl

/-- A bar of 500 shares below 100. -/
def sampleBar : Candle :=
  ⟨"I", .m1, 60, ⟨99⟩, ⟨99⟩, ⟨99⟩, ⟨99⟩, 500, false, sampleFlat, sampleFlat, sampleFlat, sampleFlat⟩

/-- Two purchases of forty, then the bar. -/
def sampleCalls : List (BrokerCall × (ℕ → Timestamp)) :=
  [(.submit ⟨"I", .buy, .limit, 40, ⟨100⟩, "A", "R", none, sampleNamed, sampleRun_id, forty_pos,
      sampleLimit_pos, trivial, sampleUntriggered⟩ none, fun _ => 0),
    (.submit ⟨"I", .buy, .limit, 40, ⟨100⟩, "B", "R", none, sampleNamed', sampleRun_id, forty_pos,
      sampleLimit_pos, trivial, sampleUntriggered⟩ none, fun _ => 0),
    (.matchBar sampleBar, fun _ => 60)]

/-- The first is filled, and the second has what is left of fifty. -/
theorem conservative_trace_sample :
    ((@trace Decimal.standard defaultModel empty sampleCalls).flatMap (·.fills)).map
        (fun fill => (fill.orderId, fill.quantity)) = [("SIM-000001", 40), ("SIM-000002", 10)] ∧
      @Conservative Decimal.standard defaultModel
        (@trace Decimal.standard defaultModel empty sampleCalls) :=
  ⟨by decide +kernel, @conservative_trace Decimal.standard Decimal.nonnegative_standard defaultModel
    sampleCalls⟩

end SimulatedBroker

end Emporos
