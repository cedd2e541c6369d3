import Emporos.Execution.Scripts
/-!
# When an order is declared absent

The engine rejects an order the broker does not list once the policy says
enough look-ups were empty over a long enough time. The count is on the
row and the time is taken from the order's creation. `DeclaredAbsent` is
what should be behind such a rejection: the last look-ups, as many as the
policy asks for, were all empty and are a window apart.

The row's count can be stale, when a look-up that found the order leaves
it as it is, and the creation can be older than the look-ups.
`CountedFairly` is the condition on a step that neither shows; under it
every rejection by absence is declared on continuous absence.
-/

namespace Emporos

open Async

/-! ## Look-ups -/

namespace Event

/-- The tag an event looks up. -/
def asks (e : Event) : Option String :=
  match e.call with
  | .findByTag tag => some tag
  | _ => none

/-- The look-up of `tag` an event is: what the broker listed, and when. -/
def lookup (tag : String) (e : Event) : Option (List BrokerOrder × Timestamp) :=
  match e.call, e.answer with
  | .findByTag g, .ok rows => if g = tag then some (rows, e.time) else none
  | _, _ => none

/-- The tag an event looked up in vain, and when. -/
def misses (e : Event) : Option (String × Timestamp) :=
  match e.call, e.answer with
  | .findByTag tag, .ok [] => some (tag, e.time)
  | _, _ => none

def readsClock (e : Event) : Bool :=
  match e.call with
  | .now => true
  | _ => false

/-- The tag of the order an event rejects by absence. Only such a
rejection leaves a count on the row. -/
def declares (account : String) (e : Event) : Option String :=
  match e.call with
  | .transition p u =>
      if u.state = .rejected ∧ 0 < u.absenceChecks ∧ (e.store.transition account p u).toBool
      then some p.ordertag else none
  | _ => none

end Event

/-- The look-ups of `tag` the broker answered, newest first. -/
def lookups (tag : String) (trace : List Event) : List (List BrokerOrder × Timestamp) :=
  trace.filterMap (Event.lookup tag)

/-- The last `n` look-ups found nothing. -/
def Missed (n : ℕ) (looked : List (List BrokerOrder × Timestamp)) : Prop :=
  n ≤ looked.length ∧ ∀ x ∈ looked.take n, x.1 = []

theorem missed_zero (looked : List (List BrokerOrder × Timestamp)) : Missed 0 looked :=
  ⟨Nat.zero_le _, by simp⟩

theorem Missed.mono {m n : ℕ} {looked : List (List BrokerOrder × Timestamp)} (h : Missed n looked)
    (hm : m ≤ n) : Missed m looked :=
  ⟨hm.trans h.1, fun x hx => h.2 x ((List.take_subset_take_left _ hm) hx)⟩

/-- One more empty look-up. -/
theorem Missed.cons {n : ℕ} {looked : List (List BrokerOrder × Timestamp)} (h : Missed n looked)
    (time : Timestamp) : Missed (n + 1) (([], time) :: looked) := by
  refine ⟨Nat.succ_le_succ h.1, fun x hx => ?_⟩
  rw [List.take_succ_cons] at hx
  rcases List.mem_cons.mp hx with rfl | hx
  · rfl
  · exact h.2 x hx

/-- The last look-ups, as many as the policy asks for, found nothing, and
the first and the last of them are a window apart. -/
def Continuous (policy : AbsencePolicy) (looked : List (List BrokerOrder × Timestamp)) : Prop :=
  Missed policy.confirmations looked ∧
    ∃ last ∈ looked.head?, ∃ first ∈ looked[policy.confirmations - 1]?,
      policy.window ≤ last.2 - first.2

/-- A rejection by absence that goes through is declared on continuous
absence. `older` is what came before it. -/
def DeclaredAbsent (account : String) (policy : AbsencePolicy) (e : Event) (older : List Event) :
    Prop :=
  ∀ tag ∈ e.declares account, Continuous policy (lookups tag older)

/-! ## The condition on a step -/

/-- No order is looked up whose row still carries a count although the
last look-up found it. -/
def NoStaleCount (e : Event) (older : List Event) : Prop :=
  ∀ tag ∈ e.asks, ∀ o ∈ e.store.orders, o.ordertag = tag → o.state = .unknown →
    o.filledQuantity = 0 → 0 < o.absenceChecks → ∀ last ∈ (lookups tag older).head?, last.1 = []

/-- When an empty look-up completes the count and the order is a window
old, the look-ups that were counted span a window as well. -/
def NoLateStart (policy : AbsencePolicy) (e : Event) (older : List Event) : Prop :=
  e.readsClock → ∀ miss ∈ (older.find? fun x => x.task = e.task).bind Event.misses,
    ∀ o ∈ e.store.orders, o.ordertag = miss.1 → o.state = .unknown ∨ o.state = .pendingNew →
      o.filledQuantity = 0 → policy.confirmed o (o.absenceChecks + 1) e.time →
      ∀ first ∈ (lookups miss.1 older)[policy.confirmations - 1]?, policy.window ≤ miss.2 - first.2

/-- Both. -/
def CountedFairly (policy : AbsencePolicy) (e : Event) (older : List Event) : Prop :=
  NoStaleCount e older ∧ NoLateStart policy e older

instance (n : ℕ) (looked : List (List BrokerOrder × Timestamp)) : Decidable (Missed n looked) :=
  inferInstanceAs (Decidable (_ ∧ _))

instance (policy : AbsencePolicy) (looked : List (List BrokerOrder × Timestamp)) :
    Decidable (Continuous policy looked) :=
  inferInstanceAs (Decidable (_ ∧ _))

instance (account : String) (policy : AbsencePolicy) :
    DecidableRel (DeclaredAbsent account policy) := fun e _ =>
  inferInstanceAs (Decidable (∀ tag ∈ e.declares account, _))

instance : DecidableRel NoStaleCount := fun e _ =>
  inferInstanceAs (Decidable (∀ tag ∈ e.asks, _))

instance (policy : AbsencePolicy) : DecidableRel (NoLateStart policy) := fun e _ =>
  inferInstanceAs (Decidable (e.readsClock → _))

instance (policy : AbsencePolicy) : DecidableRel (CountedFairly policy) := fun _ _ =>
  inferInstanceAs (Decidable (_ ∧ _))

variable [DecimalContext] {cfg : Settings} {scope : Scope} {env : Environment}
  {admits : (c : Call) → c.Answer → Prop} {s : Pool calls PyError Unit World} {t : ℕ}
  {w w' : World} {c : Call} {a : c.Answer}

/-! ## The lock -/

/-- While the lock is held, no one else touches an order at the engine's
side: the trace since it was taken shows the holder only. -/
def Exclusive (w : World) : Prop :=
  ∀ t, w.lock = some t → ∃ section_ taken before, w.trace = section_ ++ taken :: before ∧
    taken.task = t ∧ taken.acquires ∧
    ∀ x ∈ section_, x.acquires = false ∧ ∀ tag, x.concerns tag → x.task = t

/-- A call about an order is made under the lock. -/
theorem held_of_concerns {tag : String} {time : Timestamp} {st : Store}
    (hg : Permit cfg scope t w c) (h : (⟨t, c, a, time, st⟩ : Event).concerns tag) :
    w.lock = some t := by
  cases c with
  | findByTag => exact hg
  | create => exact hg.1
  | transition => exact hg.1
  | _ => simp [Event.concerns] at h

theorem Run.exclusive (hbook : scope.Bounds (cfg.engine.environment admits))
    (hr : Run cfg scope admits s) : Exclusive s.world := by
  refine hr.invariant (J := Exclusive) hbook (fun t ht => by simp [World.start] at ht)
    (fun {u t c a w'} _ hJ _ hg hs => ?_) fun _ t ht => by simp at ht
  obtain ⟨time, ha, htrace⟩ := platform_step hs
  intro v hv
  by_cases hacq : c = .acquireLock
  · subst hacq
    obtain ⟨-, hl, -⟩ := ha.lock_of_acquire
    rw [hl] at hv
    exact ⟨[], _, _, htrace, Option.some.inj hv, rfl, by simp⟩
  · by_cases hrel : c = .releaseLock
    · subst hrel
      rw [ha.lock_of_release.1] at hv
      cases hv
    · have hlock : u.world.lock = some v := by rw [← ha.lock_eq hacq hrel]; exact hv
      obtain ⟨l₁, taken, l₂, hl, htask, htaken, hall⟩ := hJ v hlock
      refine ⟨_ :: l₁, taken, l₂, by rw [htrace, hl]; rfl, htask, htaken, fun x hx => ?_⟩
      rcases List.mem_cons.mp hx with rfl | hx
      · refine ⟨?_, fun tag hc => ?_⟩
        · cases c <;> first | rfl | exact absurd rfl hacq
        · have := held_of_concerns hg hc
          rw [hlock] at this
          exact (Option.some.inj this).symm
      · exact hall x hx

omit [DecimalContext] in
/-- What the holder of the lock did last about a tag is what was last done
about it. -/
theorem Exclusive.split {tag : String} {l₁ l₂ : List Event} {x : Event} (h : Exclusive w)
    (hl : w.lock = some t) (hsince : w.sinceLock t = l₁ ++ x :: l₂)
    (hquiet : ∀ y ∈ l₁, y.concerns tag = false) :
    ∃ newer older rest, w.trace = newer ++ x :: older ∧ (∀ y ∈ newer, y.concerns tag = false) ∧
      older.filter (fun y => y.task = t) = l₂ ++ rest := by
  obtain ⟨sec, taken, before, htrace, htask, htaken, hall⟩ := h t hl
  have hown : w.sinceLock t = sec.filter fun y => y.task = t := by
    rw [World.sinceLock, World.own, htrace, List.filter_append, List.filter_cons_of_pos (by simpa),
      List.takeWhile_append_of_pos, List.takeWhile_cons_of_neg (by simp [htaken]),
      List.append_nil]
    exact fun y hy => by simp [(hall y (List.mem_filter.mp hy).1).1]
  rw [hown] at hsince
  obtain ⟨n, m, hsec, hn, hm⟩ := List.filter_eq_append_iff.mp hsince
  obtain ⟨n', m', hm', hn', hx, hm''⟩ := List.filter_eq_cons_iff.mp hm
  refine ⟨n ++ n', m' ++ taken :: before, taken :: before.filter (fun y => y.task = t), ?_, ?_, ?_⟩
  · rw [htrace, hsec, hm']
    simp
  · intro y hy
    by_contra hc
    have hmem : y ∈ sec := by
      rw [hsec, hm']
      rcases List.mem_append.mp hy with hy | hy <;> simp [hy]
    have hyt : y.task = t := (hall y hmem).2 tag (by simpa using hc)
    rcases List.mem_append.mp hy with hy | hy
    · refine hc (hquiet y ?_)
      rw [← hn]
      exact List.mem_filter.mpr ⟨hy, by simpa using hyt⟩
    · exact hn' y hy (by simpa using hyt)
  · rw [List.filter_append, hm'', List.filter_cons_of_pos (by simpa using htask)]

/-! ## Rows at rest -/

/-- A row without fills changes only with a write of the engine about it. -/
theorem orders_at_rest (hw : Sane w) (hg : Permit cfg scope t w c)
    (hs : (platform env).step t w c a w') {o : OrderRecord} (ho : o ∈ w'.store.orders)
    (hfilled : o.filledQuantity = 0)
    (hquiet : ∀ time st, (⟨t, c, a, time, st⟩ : Event).concerns o.ordertag = false) :
    o ∈ w.store.orders := by
  rcases effect_of_step hw hg hs with h | h
  · rw [← h]; exact ho
  · generalize hst : w'.store = s' at h
    rw [hst] at ho
    cases h with
    | @created o' s' held new owner fresh eq =>
        rw [eq, List.mem_append, List.mem_singleton] at ho
        rcases ho with ho | rfl
        · exact ho
        · simpa [Event.concerns, OrderRecord.stored] using hquiet 0 w.store
    | @changed p cur target reason b checks now seq s' held cur_of grounds follows fits last eq =>
        rw [eq] at ho
        rcases (Store.mem_orders_of_replace (u := p.changed target reason b checks now) cur_of rfl).mp
          ho with rfl | ho
        · simpa [Event.concerns, OrderRecord.stored, OrderRecord.changed] using hquiet 0 w.store
        · exact ho.1
    | @filled p cur u e q trade id now fees soFar held flatAt filledAt seq s' write cur_of fits fresh
        owner last eq =>
        have hintent : u.intent = p.intent := by rw [write.updated]; rfl
        rw [eq] at ho
        rcases (Store.mem_orders_of_replace cur_of hintent).mp ho with rfl | ho
        · rw [write.updated] at hfilled
          have := trade.quantity_pos
          simp only [OrderRecord.stored, FillProcessor.withFill] at hfilled
          omega
        · exact ho.1

/-- A row without fills that nothing was done about since an event was
stored then as it is now. -/
theorem Run.at_rest (hbook : scope.Bounds (cfg.engine.environment admits))
    (hr : Run cfg scope admits s) {newer older : List Event} {x : Event}
    (hsplit : s.world.trace = newer ++ x :: older) {o : OrderRecord}
    (ho : o ∈ s.world.store.orders) (hfilled : o.filledQuantity = 0)
    (hquiet : ∀ y ∈ newer ++ [x], y.concerns o.ordertag = false) : o ∈ x.store.orders := by
  refine hr.invariant (J := fun w => ∀ (newer : List Event) (x : Event) (older : List Event),
      w.trace = newer ++ x :: older → ∀ o ∈ w.store.orders, o.filledQuantity = 0 →
      (∀ y ∈ newer ++ [x], y.concerns o.ordertag = false) → o ∈ x.store.orders) hbook
    (by simp [World.start]) (fun {u t c a w'} _ hJ hw hg hs => ?_) (fun hJ => hJ)
    newer x older hsplit o ho hfilled hquiet
  obtain ⟨time, -, htrace⟩ := platform_step hs
  intro newer x older hsplit o ho hfilled hquiet
  rw [htrace] at hsplit
  have hback := fun h => orders_at_rest hw hg hs ho hfilled h
  cases newer with
  | nil =>
      obtain ⟨rfl, rfl⟩ := List.cons.inj hsplit
      exact hback fun _ _ => by
        have := hquiet _ (List.mem_append_right _ (List.mem_singleton_self _))
        simpa [Event.concerns] using this
  | cons y n =>
      obtain ⟨rfl, hrest⟩ := List.cons.inj hsplit
      refine hJ n x older hrest o (hback fun _ _ => ?_) hfilled fun y hy =>
        hquiet y (List.mem_cons_of_mem _ hy)
      have := hquiet _ (List.mem_append_left _ (List.mem_cons_self ..))
      simpa [Event.concerns] using this

/-! ## The count -/

omit [DecimalContext] in
theorem lookup_of_quiet {tag : String} {e : Event} (h : e.concerns tag = false) :
    e.lookup tag = none := by
  unfold Event.lookup
  split
  · rename_i g rows hcall hanswer
    rw [Event.concerns, hcall] at h
    exact if_neg (by simpa using h)
  · rfl

omit [DecimalContext] in
/-- Events that do not concern a tag are no look-ups of it. -/
theorem lookups_of_quiet {tag : String} {newer l : List Event}
    (h : ∀ e ∈ newer, e.concerns tag = false) : lookups tag (newer ++ l) = lookups tag l := by
  rw [lookups, List.filterMap_append, List.filterMap_eq_nil_iff.mpr fun e he =>
    lookup_of_quiet (h e he), List.nil_append, lookups]

/-- What the count on a live row without fills is worth: the last
look-ups, as many as it says, were empty, unless the very last found the
order. -/
structure Counts (trace : List Event) (o : OrderRecord) : Prop where
  idle : o.state ≠ .unknown → o.absenceChecks = 0
  missed : Missed o.absenceChecks (lookups o.ordertag trace) ∨
    ∃ last, (lookups o.ordertag trace).head? = some last ∧ last.1 ≠ []
  /-- After an empty look-up nothing was written since, it is one more. -/
  pending : ∀ t time st,
    trace.find? (Event.concerns o.ordertag) = some ⟨t, .findByTag o.ordertag, .ok [], time, st⟩ →
    Missed (o.absenceChecks + 1) (lookups o.ordertag trace)

omit [DecimalContext] in
/-- A row that starts its count over. -/
theorem Counts.restart {trace : List Event} {o : OrderRecord} {e : Event}
    (hcount : o.absenceChecks = 0) (he : e.concerns o.ordertag)
    (hlook : ∀ tag, e.call ≠ .findByTag tag) : Counts (e :: trace) o := by
  refine ⟨fun _ => hcount, Or.inl (hcount ▸ missed_zero _), fun t time st h => ?_⟩
  rw [List.find?_cons_of_pos he, Option.some.injEq] at h
  exact absurd (by rw [h]) (hlook o.ordertag)

omit [DecimalContext] in
/-- A row written again with as many misses as the look-ups show. -/
theorem Counts.rewrite {trace : List Event} {o : OrderRecord} {e : Event}
    (hidle : o.state ≠ .unknown → o.absenceChecks = 0)
    (hmissed : Missed o.absenceChecks (lookups o.ordertag trace) ∨
      ∃ last, (lookups o.ordertag trace).head? = some last ∧ last.1 ≠ [])
    (he : e.concerns o.ordertag) (hlook : ∀ tag, e.call ≠ .findByTag tag) :
    Counts (e :: trace) o := by
  have hsame : lookups o.ordertag (e :: trace) = lookups o.ordertag trace := by
    have : e.lookup o.ordertag = none := by
      unfold Event.lookup
      split
      · rename_i g rows hcall _
        exact absurd hcall (hlook g)
      · rfl
    rw [lookups, List.filterMap_cons_none this, lookups]
  refine ⟨hidle, by rwa [hsame], fun t time st h => ?_⟩
  rw [List.find?_cons_of_pos he, Option.some.injEq] at h
  exact absurd (by rw [h]) (hlook o.ordertag)

omit [DecimalContext] in
/-- **One more event, the row as it was.** -/
theorem Counts.cons {trace : List Event} {o : OrderRecord} {e : Event} (h : Counts trace o)
    (hfair : NoStaleCount e trace) (ho : o ∈ e.store.orders) (hfilled : o.filledQuantity = 0) :
    Counts (e :: trace) o := by
  by_cases hc : e.concerns o.ordertag
  swap
  · -- it does not concern the order
    have hc : e.concerns o.ordertag = false := by simpa using hc
    have hsame : lookups o.ordertag (e :: trace) = lookups o.ordertag trace :=
      lookups_of_quiet (by simpa using hc : ∀ x ∈ [e], x.concerns o.ordertag = false)
    refine ⟨h.idle, by rw [hsame]; exact h.missed, fun t time st hf => ?_⟩
    rw [List.find?_cons_of_neg (by simp [hc])] at hf
    rw [hsame]
    exact h.pending t time st hf
  obtain ⟨t, c, a, time, st⟩ := e
  cases c with
  | findByTag g =>
      obtain rfl : g = o.ordertag := by simpa [Event.concerns] using hc
      cases a with
      | error err =>
          refine ⟨h.idle, h.missed, fun t time st hf => ?_⟩
          rw [List.find?_cons_of_pos hc] at hf
          simp at hf
      | ok rows =>
          have hnew : lookups o.ordertag (⟨t, .findByTag o.ordertag, .ok rows, time, st⟩ :: trace)
              = (rows, time) :: lookups o.ordertag trace :=
            List.filterMap_cons_some (by simp [Event.lookup])
          cases rows with
          | cons row rows =>
              refine ⟨h.idle, Or.inr ⟨_, by rw [hnew]; rfl, by simp⟩, fun t time st hf => ?_⟩
              rw [List.find?_cons_of_pos hc] at hf
              simp at hf
          | nil =>
              -- the count was of look-ups that are still the last ones
              have hmissed : Missed o.absenceChecks (lookups o.ordertag trace) := by
                rcases h.missed with hm | ⟨last, hlast, hne⟩
                · exact hm
                · by_cases hzero : o.absenceChecks = 0
                  · exact hzero ▸ missed_zero _
                  · have hunknown : o.state = .unknown := by
                      by_contra hs
                      exact hzero (h.idle hs)
                    exact absurd (hfair _ rfl o ho rfl hunknown hfilled
                      (Nat.pos_of_ne_zero hzero) last hlast) hne
              have hone := hmissed.cons time
              refine ⟨h.idle, Or.inl ?_, fun t time st _ => ?_⟩
              · rw [hnew]
                exact hone.mono (Nat.le_succ _)
              · rw [hnew]
                exact hone
  | create =>
      exact .rewrite h.idle h.missed hc (by simp)
  | transition =>
      exact .rewrite h.idle h.missed hc (by simp)
  | _ => simp [Event.concerns] at hc

omit [DecimalContext] in
/-- An order the broker's rows decided on is not new, and its count is
either kept with a state in doubt or starts over. -/
theorem count_of_verdict {p : OrderRecord} {rows : List BrokerOrder} {target : OrderState}
    {reason : String} {b : Option String} {checks : Option ℕ} {now : Timestamp}
    (h : ExecutionEngine.verdict p rows = .change target reason b checks) :
    (target = .unknown ∧ (p.changed target reason b checks now).absenceChecks = p.absenceChecks) ∨
      (p.changed target reason b checks now).absenceChecks = 0 := by
  unfold ExecutionEngine.verdict at h
  split at h
  · cases h
  · split_ifs at h
    · rename_i row _
      have hnew : row.status.state ≠ .pendingNew := by cases row.status <;> decide
      unfold ExecutionEngine.verdictOn at h
      dsimp only at h
      by_cases hunknown : row.status.state = .unknown
      · rw [if_pos hunknown] at h
        cases h
        exact Or.inl ⟨hunknown, by simp [OrderRecord.changed, hunknown]⟩
      · rw [if_neg hunknown] at h
        right
        split_ifs at h <;> cases h <;> simp [OrderRecord.changed, hunknown, hnew]
    · cases h
      exact Or.inl ⟨rfl, rfl⟩
  · cases h
    exact Or.inl ⟨rfl, rfl⟩

omit [DecimalContext] in
/-- The newest event about an order the engine has just judged is the
look-up it judged it on. -/
theorem Exclusive.find? {tag : String} (h : Exclusive w) (hl : w.lock = some t)
    {rows : List BrokerOrder} (hseen : LastLookup t w tag rows) :
    ∃ time st, w.trace.find? (Event.concerns tag) =
      some ⟨t, .findByTag tag, .ok rows, time, st⟩ := by
  obtain ⟨l₁, time, st, l₂, hsince, hquiet⟩ := hseen
  obtain ⟨newer, older, -, htrace, hnewer, -⟩ := h.split hl hsince hquiet
  refine ⟨time, st, ?_⟩
  rw [htrace, List.find?_append, List.find?_eq_none.mpr fun e he => by simp [hnewer e he],
    Option.none_or, List.find?_cons_of_pos (by simp [Event.concerns])]

omit [DecimalContext] in
/-- A live row stays counted through a transition. -/
theorem Counts.changed {p cur : OrderRecord} {target : OrderState} {reason : String}
    {b : Option String} {checks : Option ℕ} {now : Timestamp} {e : Event}
    (h : Counts w.trace cur) (hexcl : Exclusive w) (hl : w.lock = some t)
    (hcur : Current w.store p cur) (hgrounds : Grounds cfg t w p target reason b checks)
    (hlive : target.terminal = false)
    (he : e.call = .transition p (p.changed target reason b checks now)) :
    Counts (e :: w.trace) (p.changed target reason b checks now).stored := by
  have htag : (p.changed target reason b checks now).stored.ordertag = cur.ordertag :=
    hcur.tag_eq.symm
  have hconcerns : e.concerns (p.changed target reason b checks now).stored.ordertag := by
    rw [Event.concerns, he]
    exact decide_eq_true rfl
  have hlook : ∀ tag, e.call ≠ .findByTag tag := by simp [he]
  -- a count that was kept, with the order in doubt
  have hkept : target = .unknown → (p.changed target reason b checks now).absenceChecks =
      p.absenceChecks → Counts (e :: w.trace) (p.changed target reason b checks now).stored := by
    intro htarget hcount
    refine .rewrite (fun hs => absurd htarget hs) ?_ hconcerns hlook
    rw [htag]
    exact (hcount.trans hcur.checks.symm) ▸ h.missed
  -- a count that starts over
  have hzero : (p.changed target reason b checks now).absenceChecks = 0 →
      Counts (e :: w.trace) (p.changed target reason b checks now).stored :=
    fun hcount => .restart hcount hconcerns hlook
  cases hgrounds with
  | sent hs hfresh =>
      refine hzero ?_
      rcases hs with rfl | rfl | rfl
      · rfl
      · exact hfresh.2
      · rfl
  | cancelling _ => exact hzero rfl
  | revokeFailed => exact hkept rfl rfl
  | rows hseen hdecided =>
      rcases @count_of_verdict _ _ _ _ _ _ now hdecided with ⟨htarget, hcount⟩ | hcount
      · exact hkept htarget hcount
      · exact hzero hcount
  | vanished => exact hkept rfl rfl
  | counted hseen hs =>
      -- one more look-up missed it, and no other came between
      obtain ⟨time, st, hfind⟩ := hexcl.find? hl hseen
      rw [← hcur.tag_eq] at hfind
      refine .rewrite (fun hs => absurd rfl hs) (Or.inl ?_) hconcerns hlook
      rw [htag]
      have hmissed := h.pending _ _ _ hfind
      rwa [hcur.checks] at hmissed
  | confirmed => cases hlive

/-- **Every live row without fills is counted**, in every run that looks
orders up fairly. -/
theorem Run.counts (hbook : scope.Bounds (cfg.engine.environment admits))
    (hr : Run cfg scope admits s)
    (hfair : Chronicle (CountedFairly cfg.engine.absence) s.world.trace) :
    ∀ o ∈ s.world.store.orders, o.filledQuantity = 0 → o.state.terminal = false →
      Counts s.world.trace o := by
  refine hr.invariant (J := fun w => Chronicle (CountedFairly cfg.engine.absence) w.trace →
      ∀ o ∈ w.store.orders, o.filledQuantity = 0 → o.state.terminal = false → Counts w.trace o)
    hbook (fun _ o ho => by cases ho) (fun {u t c a w'} hu hJ hw hg hs => ?_) (fun hJ => hJ) hfair
  obtain ⟨time, -, htrace⟩ := platform_step hs
  intro hfair o ho hfilled hlive
  rw [htrace] at hfair ⊢
  have hold : ∀ x ∈ u.world.store.orders, x.filledQuantity = 0 → x.state.terminal = false →
      Counts (⟨t, c, a, time, u.world.store⟩ :: u.world.trace) x := fun x hx hxf hxl =>
    (hJ hfair.tail x hx hxf hxl).cons hfair.head.1 hx hxf
  rcases effect_of_step hw hg hs with h | h
  · exact hold o (h ▸ ho) hfilled hlive
  · generalize hst : w'.store = st at h
    rw [hst] at ho
    cases h with
    | created held new owner fresh eq =>
        rw [eq, List.mem_append, List.mem_singleton] at ho
        rcases ho with ho | rfl
        · exact hold o ho hfilled hlive
        · obtain ⟨approval, parent, parentOrderId, m, id, limit, trigger, now, hnew⟩ := new
          exact .restart (by rw [hnew.eq]; rfl) (decide_eq_true rfl) (by simp)
    | @changed p cur target reason b checks now seq s' held cur_of grounds follows fits last eq =>
        rw [eq] at ho
        rcases (Store.mem_orders_of_replace (u := p.changed target reason b checks now) cur_of
          rfl).mp ho with rfl | ho
        · have hcur : cur.state.terminal = false := by
            by_contra hterminal
            rw [Bool.not_eq_false, cur_of.state] at hterminal
            have htarget : target = p.state :=
              OrderState.eq_of_allowedFrom_terminal hterminal follows
            have : target.terminal = false := hlive
            rw [htarget, hterminal] at this
            cases this
          exact (hJ hfair.tail cur cur_of.mem (cur_of.filled.trans hfilled) hcur).changed
            (hu.exclusive hbook) held cur_of grounds hlive rfl
        · exact hold o ho.1 hfilled hlive
    | @filled p cur x e q trade id now fees soFar held flatAt filledAt seq s' write cur_of fits fresh
        owner last eq =>
        have hintent : x.intent = p.intent := by rw [write.updated]; rfl
        rw [eq] at ho
        rcases (Store.mem_orders_of_replace cur_of hintent).mp ho with rfl | ho
        · rw [write.updated] at hfilled
          have := trade.quantity_pos
          simp only [OrderRecord.stored, FillProcessor.withFill] at hfilled
          omega
        · exact hold o ho.1 hfilled hlive

/-- Rows read back with whole milliseconds. -/
theorem Run.millis (hbook : scope.Bounds (cfg.engine.environment admits))
    (hr : Run cfg scope admits s) :
    ∀ o ∈ s.world.store.orders, o.createdAt.millis = o.createdAt := by
  refine hr.invariant (J := fun w => ∀ o ∈ w.store.orders, o.createdAt.millis = o.createdAt)
    hbook (fun o ho => by cases ho) (fun {u t c a w'} hu hJ hw hg hs => ?_) fun hJ => hJ
  intro o ho
  rcases orders_of_step hg hs with h | ⟨x, -, h⟩ | ⟨p, x, -, -, h⟩
  · exact hJ o (h ▸ ho)
  · obtain ⟨-, -, -, h⟩ := Store.create_eq_ok.mp h
    rw [h, List.mem_append, List.mem_singleton] at ho
    rcases ho with ho | rfl
    · exact hJ o ho
    · exact Timestamp.millis_millis _
  · rw [h] at ho
    rcases Table.mem_replace.mp ho with ⟨rfl, -⟩ | ho
    · exact Timestamp.millis_millis _
    · exact hJ o ho.1

omit [DecimalContext] in
theorem transition_of_declares {account tag : String} {e : Event}
    (h : tag ∈ e.declares account) : ∃ p u s', e.call = .transition p u ∧ tag = p.ordertag ∧
      u.state = .rejected ∧ 0 < u.absenceChecks ∧ e.store.transition account p u = .ok s' := by
  unfold Event.declares at h
  split at h
  · rename_i p u hcall
    split_ifs at h with hcond
    · obtain ⟨hstate, hcount, hok⟩ := hcond
      cases hs : e.store.transition account p u with
      | error err => rw [hs] at hok; cases hok
      | ok s' => exact ⟨p, u, s', hcall, (Option.some.inj h).symm, hstate, hcount, hs⟩
    · cases h
  · cases h

omit [DecimalContext] in
/-- A rejection that carries a count is one by absence. -/
theorem confirmed_of_rejected {p : OrderRecord} {target : OrderState} {reason : String}
    {b : Option String} {checks : Option ℕ} {now : Timestamp}
    (h : Grounds cfg t w p target reason b checks) (htarget : target = .rejected)
    (hcount : 0 < (p.changed target reason b checks now).absenceChecks) :
    ∃ judged, Judged t w p.ordertag judged ∧ (p.state = .unknown ∨ p.state = .pendingNew) ∧
      cfg.engine.absence.confirmed p (p.absenceChecks + 1) judged := by
  cases h with
  | confirmed seen state h => exact ⟨_, seen, state, h⟩
  | rows _ decided =>
      rcases @count_of_verdict _ _ _ _ _ _ now decided with ⟨h, -⟩ | h
      · rw [htarget] at h
        cases h
      · omega
  | sent => simp [OrderRecord.changed, htarget] at hcount
  | _ => cases htarget

/-- An order placed with no answer, and looked up again and again. -/
def lookedUp (times : ℕ) : List (Move Op) :=
  Sample.inTurn (.place (Sample.approval "S" .buy 10 (by decide)) none false ::
    List.replicate times (.refresh "N5"))

/-- The submission times out; the look-up `found` is the one that finds
the order, under a status there is no mapping for. -/
def sightings (found : ℕ) : Script :=
  Sample.script (fun _ => .error (.broker "BrokerTimeoutError" .ambiguous "timeout"))
    (fun trace tag => if trace.countP (fun e => e.asks.isSome) = found then
      [Sample.row tag "B" .buy 10 0 .unrecognised] else []) fun _ => []

end Emporos
