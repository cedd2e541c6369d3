import Emporos.Execution.Scripts
import Emporos.Execution.Stamps
import Emporos.Session.Tripwire
/-!
# Orders that stay unknown

The detector takes an order's age from the stamp of its row, which every
write of the row renews: also those of the engine that leave the order
unknown. An order that has been unknown for longer than the allowance is
reported if no transition of it falls in that time
(`stuck_unknown_reported`).
-/

namespace Emporos

open Async

/-- `str` of a span of time. -/
def Duration.str (d : Duration) : String :=
  let pad (width n : ℕ) : String :=
    String.ofList (List.replicate (width - (toString n).length) '0') ++ toString n
  let days := d / (86400 * Timestamp.second)
  let micros := (d % (86400 * Timestamp.second)).toNat
  let seconds := micros / 1000000
  (if days = 0 then "" else
    toString days ++ (if days.natAbs = 1 then " day, " else " days, ")) ++
  toString (seconds / 3600) ++ ":" ++ pad 2 (seconds / 60 % 60) ++ ":" ++ pad 2 (seconds % 60) ++
  (if micros % 1000000 = 0 then "" else "." ++ pad 6 (micros % 1000000))

/-- `UnresolvedUnknownOrderDetector`. -/
structure UnresolvedUnknownOrderDetector where
  maxAge : Duration
  age_pos : 0 < maxAge

namespace UnresolvedUnknownOrderDetector

def name : String := "unresolved_unknown_order"

variable (d : UnresolvedUnknownOrderDetector)

/-- The orders that are stuck, of those the journal calls active. -/
def stuck (now : Timestamp) (active : List OrderRecord) : List OrderRecord :=
  active.filter fun o => o.state = .unknown ∧ d.maxAge < now - o.updatedAt

def check (now : Timestamp) (active : List OrderRecord) : Option Anomaly :=
  if d.stuck now active = [] then none
  else some ⟨name, "order(s) UNKNOWN for over " ++ d.maxAge.str ++ ": " ++
    ", ".intercalate (((d.stuck now active).map (·.id)).mergeSort)⟩

/-- The check reports the order. -/
def Reports (now : Timestamp) (active : List OrderRecord) (id : String) : Prop :=
  (d.check now active).isSome ∧ id ∈ (d.stuck now active).map (·.id)

instance (now : Timestamp) (active : List OrderRecord) (id : String) :
    Decidable (d.Reports now active id) := inferInstanceAs (Decidable (_ ∧ _))

variable {d} {now : Timestamp} {active : List OrderRecord}

theorem reports_of_stuck {o : OrderRecord} (h : o ∈ active) (hs : o.state = .unknown)
    (hage : d.maxAge < now - o.updatedAt) : d.Reports now active o.id := by
  have hstuck : o ∈ d.stuck now active := List.mem_filter.mpr ⟨h, by simp [hs, hage]⟩
  refine ⟨?_, List.mem_map_of_mem hstuck⟩
  rw [check, if_neg (List.ne_nil_of_mem hstuck)]
  rfl

end UnresolvedUnknownOrderDetector

/-! ## Runs -/

/-- The order is stored as unknown. -/
def Store.Unknown (id : String) (s : Store) : Prop := ∃ o ∈ s.orders, o.id = id ∧ o.state = .unknown

instance (id : String) (s : Store) : Decidable (s.Unknown id) :=
  inferInstanceAs (Decidable (∃ o ∈ s.orders, _))

/-- The clock does not go back. -/
def Steady : List Event → Prop := Chronicle fun e older => ∀ n ∈ older, n.time ≤ e.time

instance (trace : List Event) : Decidable (Steady trace) :=
  inferInstanceAs (Decidable (Chronicle _ _))

/-- A transition of the order. -/
def Event.rewrites (id : String) (e : Event) : Bool :=
  match e.call with
  | .transition p _ => p.id = id
  | _ => false

/-- The unknown orders of `s` carry stamps no later than a call of `trace`. -/
def Dated (s : Store) (trace : List Event) : Prop :=
  ∀ o ∈ s.orders, o.state = .unknown → ∃ e ∈ trace, o.updatedAt ≤ e.time

variable [DecimalContext] {cfg : Settings} {scope : Scope} {admits : (c : Call) → c.Answer → Prop}
  {s : Pool calls PyError Unit World} {t : ℕ} {w w' : World} {c : Call} {a : c.Answer}
  {env : Environment}

omit [DecimalContext] in
theorem Dated.mono {s : Store} {l l' : List Event} (h : Dated s l) (hl : ∀ e ∈ l, e ∈ l') :
    Dated s l' := by
  intro o ho hs
  obtain ⟨e, he, hle⟩ := h o ho hs
  exact ⟨e, hl e he, hle⟩

omit [DecimalContext] in
/-- A fill ends a doubt. -/
theorem targetState_ne_unknown (o : OrderRecord) (filled : ℕ) :
    FillProcessor.targetState o filled ≠ .unknown := by
  unfold FillProcessor.targetState
  split_ifs with h₁ h₂ h₃
  · intro h
    rw [h] at h₁
    cases h₁
  · simp
  · simp [h₃]
  · simp

/-- **An unknown order was unknown before, or a transition made it so.** -/
theorem unknown_of_step (hw : Sane w) (hg : Permit cfg scope t w c)
    (hs : (platform env).step t w c a w') {o : OrderRecord} (ho : o ∈ w'.store.orders)
    (hunknown : o.state = .unknown) :
    o ∈ w.store.orders ∨ ∃ p u, c = .transition p u ∧ o = u.stored ∧ p.id = o.id := by
  rcases effect_of_step hw hg hs with h | h
  · exact Or.inl (by rw [← h]; exact ho)
  · generalize hst : w'.store = s' at h
    rw [hst] at ho
    cases h with
    | @created o' s' held new owner fresh eq =>
        rw [eq, List.mem_append, List.mem_singleton] at ho
        rcases ho with ho | rfl
        · exact Or.inl ho
        · obtain ⟨_, _, _, _, _, _, _, _, hnew⟩ := new
          rw [hnew.eq] at hunknown
          cases hunknown
    | @changed p cur target reason b checks now seq s' held cur_of grounds follows fits last eq =>
        rw [eq] at ho
        rcases (Store.mem_orders_of_replace (u := p.changed target reason b checks now) cur_of rfl).mp
          ho with rfl | ho
        · exact Or.inr ⟨_, _, rfl, rfl, rfl⟩
        · exact Or.inl ho.1
    | @filled p cur u e q trade id now fees soFar held flatAt filledAt seq s' write cur_of fits fresh
        owner last eq =>
        have hintent : u.intent = p.intent := by rw [write.updated]; rfl
        rw [eq] at ho
        rcases (Store.mem_orders_of_replace cur_of hintent).mp ho with rfl | ho
        · rw [write.updated] at hunknown
          exact absurd hunknown (targetState_ne_unknown _ _)
        · exact Or.inl ho.1

omit [DecimalContext] in
theorem Timestamp.millis_le (time : Timestamp) : time.millis ≤ time := by
  simp only [Timestamp.millis, Timestamp]
  omega

/-- **Stamps are not ahead of the clock**: at every call, the unknown orders
carry stamps no later than a call before it. -/
theorem Run.dated (hbook : scope.Bounds (cfg.engine.environment admits))
    (hr : Run cfg scope admits s) :
    Chronicle (fun e older => Dated e.store older) s.world.trace ∧
      Dated s.world.store s.world.trace := by
  induction hr with
  | refl => exact ⟨.nil, fun o ho => by simp [Pool.idle, World.start, Store.empty] at ho⟩
  | @tail v _ hr' hs ih =>
      obtain ⟨hchronicle, hdated⟩ := ih
      cases hs with
      | start q hq => exact ⟨hchronicle, hdated⟩
      | @run t c k a w ht hw =>
          obtain ⟨time, -, htrace⟩ := platform_step hw
          have hlater : Dated v.world.store w.trace :=
            hdated.mono fun e he => by rw [htrace]; exact List.mem_cons_of_mem _ he
          rw [Pool.put_world]
          refine ⟨by rw [htrace]; exact .cons hdated hchronicle, fun o ho hunknown => ?_⟩
          rcases unknown_of_step (Run.sane hbook hr') (Run.permit hbook hr' ht) hw ho hunknown with
            hmem | ⟨p, u, rfl, rfl, -⟩
          · exact hlater o hmem hunknown
          · obtain ⟨e, he, htime⟩ := Run.stamp hbook hr' ht
            exact ⟨e, by rw [htrace]; exact List.mem_cons_of_mem _ he,
              (Timestamp.millis_le _).trans_eq htime.symm⟩
      | crash => exact ⟨hchronicle, hdated⟩

/-- **An order that stays unknown keeps its row** while no transition of it
is made. -/
theorem Run.kept (hbook : scope.Bounds (cfg.engine.environment admits))
    (hr : Run cfg scope admits s) {newer older : List Event} {x : Event}
    (hsplit : s.world.trace = newer ++ x :: older) {o : OrderRecord}
    (ho : o ∈ s.world.store.orders) (hs : o.state = .unknown)
    (hkept : ∀ e ∈ newer ++ [x], e.rewrites o.id = false) : o ∈ x.store.orders := by
  refine hr.invariant (J := fun w => ∀ (newer : List Event) (x : Event) (older : List Event),
    w.trace = newer ++ x :: older → ∀ o ∈ w.store.orders, o.state = .unknown →
      (∀ e ∈ newer ++ [x], e.rewrites o.id = false) → o ∈ x.store.orders) hbook ?_ ?_ ?_
    newer x older hsplit o ho hs hkept
  · intro newer x older h
    simp [World.start] at h
  · intro u t c a w' hu hJ hw hg hs newer x older hsplit o ho hunknown hkept
    obtain ⟨time, -, htrace⟩ := platform_step hs
    rw [htrace] at hsplit
    have hnow : o ∈ u.world.store.orders := by
      rcases unknown_of_step hw hg hs ho hunknown with h | ⟨p, y, rfl, -, hid⟩
      · exact h
      · have hhead : (⟨t, .transition p y, a, time, u.world.store⟩ : Event) ∈ newer ++ [x] := by
          cases newer with
          | nil => simp [(List.cons.inj hsplit).1]
          | cons e newer => simp [(List.cons.inj hsplit).1]
        have := hkept _ hhead
        simp [Event.rewrites, hid] at this
    cases newer with
    | nil =>
        obtain ⟨rfl, -⟩ := List.cons.inj hsplit
        exact hnow
    | cons e newer =>
        obtain ⟨rfl, hrest⟩ := List.cons.inj hsplit
        exact hJ newer x older hrest o hnow hunknown fun y hy =>
          hkept y (List.mem_cons_of_mem _ hy)
  · exact fun hJ => hJ

/-! ## Main results -/

/-- The order was unknown at each of the last calls, `n` and one more, and
still is, and the first of them is longer than `age` ago. -/
def Overdue (id : String) (age : Duration) (now : Timestamp) (w : World) (n : ℕ) : Prop :=
  w.store.Unknown id ∧ (∀ e ∈ w.trace.take (n + 1), e.store.Unknown id) ∧
    ∃ x ∈ w.trace[n]?, age < now - x.time

instance (id : String) (age : Duration) (now : Timestamp) (w : World) (n : ℕ) :
    Decidable (Overdue id age now w n) := inferInstanceAs (Decidable (_ ∧ _ ∧ _))

/-- **An order stuck in doubt is reported**, in every run under a clock that
does not go back, if no transition of it is made while it is in doubt for
longer than the allowance. -/
theorem stuck_unknown_reported (cfg : Settings) (admits : (c : Call) → c.Answer → Prop)
    (d : UnresolvedUnknownOrderDetector) (now : Timestamp) (id : String) (n : ℕ)
    (hr : Run cfg Scope.all admits s) (hclock : Steady s.world.trace)
    (hoverdue : Overdue id d.maxAge now s.world n)
    (hkept : ∀ e ∈ s.world.trace.take (n + 1), e.rewrites id = false) :
    d.Reports now (s.world.store.active cfg.engine.accountId) id := by
  have hbook : Scope.all.Bounds (cfg.engine.environment admits) := fun _ _ _ _ => trivial
  obtain ⟨⟨o, ho, rfl, hunknown⟩, -, x, hx, hage⟩ := hoverdue
  obtain ⟨hn, hget⟩ := List.getElem?_eq_some_iff.mp hx
  have htake : s.world.trace.take (n + 1) = s.world.trace.take n ++ [x] := by
    rw [List.take_add_one, hx]
    rfl
  have hsplit : s.world.trace = s.world.trace.take n ++ x :: s.world.trace.drop (n + 1) := by
    rw [← hget, ← List.drop_eq_getElem_cons hn, List.take_append_drop]
  rw [htake] at hkept
  -- the row is the one of the first call, and its stamp is no later
  have hthen : o ∈ x.store.orders := hr.kept hbook hsplit ho hunknown hkept
  have hchronicle := (hr.dated hbook).1
  rw [hsplit] at hchronicle hclock
  obtain ⟨e, he, hstamp⟩ := hchronicle.split o hthen hunknown
  have hle : o.updatedAt ≤ x.time := hstamp.trans (hclock.split e he)
  have howner : o.accountId = some cfg.engine.accountId :=
    ((hr.registered hbook).keyed _ (List.mem_map_of_mem (f := OrderRecord.intent) ho)).owner
  refine UnresolvedUnknownOrderDetector.reports_of_stuck (Store.mem_active.mpr ⟨ho, howner, ?_⟩)
    hunknown (hage.trans_le (sub_le_sub_left hle now))
  rw [hunknown]
  rfl

/-- A minute and a half. -/
def ninety : UnresolvedUnknownOrderDetector := ⟨90 * Timestamp.second, by decide⟩

/-- An order placed with no answer, and what the engine does then. -/
def doubted (ops : List Op) : Pool calls PyError Unit World :=
  Sample.play (Sample.script
    (fun _ => .error (.broker "BrokerTimeoutError" .ambiguous "timeout")) (fun _ _ => []) fun _ => [])
    (Sample.inTurn (.place (Sample.approval "S" .buy 10 Sample.ten_pos) none false :: ops))

omit [DecimalContext] in
/-- Nothing is asked of the broker, and the order is reported. -/
theorem stuck_unknown_reported_of_idle :
    ninety.Reports (250 * Timestamp.second)
      ((doubted (List.replicate 4 (.refresh "N6"))).world.store.active
        Sample.settings.engine.accountId) "N5" :=
  @stuck_unknown_reported Decimal.standard (doubted (List.replicate 4 (.refresh "N6")))
    Sample.settings _ ninety (250 * Timestamp.second) "N5" 12 (Sample.run _ _) (by decide +kernel)
    (by decide +kernel) (by decide +kernel)

omit [DecimalContext] in
/-- The broker lists no such order, twice, and each time the row is written
again: in doubt for 150 seconds, the order is not reported. -/
theorem stuck_unknown_missed :
    ∃ s, @Run Decimal.standard Sample.settings Scope.all (fun _ _ => True) s ∧
      Steady s.world.trace ∧ Overdue "N5" ninety.maxAge (270 * Timestamp.second) s.world 14 ∧
      ¬ ninety.Reports (270 * Timestamp.second)
        (s.world.store.active Sample.settings.engine.accountId) "N5" :=
  ⟨doubted [.resolveUnresolved, .resolveUnresolved], Sample.run _ _, by decide +kernel,
    by decide +kernel, by decide +kernel⟩

end Emporos
