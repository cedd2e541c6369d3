import Emporos.Options.NoLookahead
import Mathlib.Algebra.Order.BigOperators.Group.List
/-!
# The ladder keeps to its declaration

In every run that comes through, a spread is opened on the first session of
a week at most, on a monthly expiry three to seven weeks out, where the
filters of the arm allow it, as one put spread whose wings lose no more than
the cap; and no more spreads are open at once than the arm has slots for.
The third slot comes with the arm, not with the declared depth: an arm of
two slots whose wing is beyond the cap has it too.
-/

namespace Emporos

namespace Options

/-! ## What a plan is made of -/

section Plans

variable {s : ChainSnapshot} {expiry : Day} {plan : SpreadPlan}

theorem of_spreadEntry {filters : List EntryFilter} {chooser : ExpiryChooser}
    {template : SpreadTemplate} (h : spreadEntry filters chooser template s = .ok (some plan)) :
    ∃ expiry, chooser s = some expiry ∧ (∀ allows ∈ filters, allows s expiry = true) ∧
      template s expiry = .ok (some plan) := by
  unfold spreadEntry at h
  cases hchosen : chooser s with
  | none =>
      rw [hchosen] at h
      cases h
  | some expiry =>
      rw [hchosen] at h
      dsimp only at h
      split_ifs at h with hallowed
      · exact ⟨expiry, rfl, List.all_eq_true.mp hallowed, h⟩
      · cases h

theorem of_monthlyExpiries {futures : Day → List Day} {minimum maximum : ℤ}
    (h : monthlyExpiries futures minimum maximum s = some expiry) :
    expiry ∈ futures s.day ∧ minimum ≤ expiry - s.day ∧ expiry - s.day ≤ maximum := by
  have hmem := List.min?_mem h
  exact of_decide_eq_true (List.mem_filter.mp hmem).2

/-- A built spread is one put, and its widest loss is within the cap. -/
theorem of_build {sqrt : Decimal → Decimal} {k : RiskCappedPutSpread}
    (h : k.build sqrt s expiry = .ok (some plan)) : plan.expiry = expiry ∧
      0 < s.lotFor expiry ∧ plan.maxWidth * s.lotFor expiry ≤ k.maxLossRupees ∧
      ∃ v, plan.verticals = [v] ∧ v.right = .put := by
  unfold RiskCappedPutSpread.build at h
  split at h
  · dsimp only at h
    split at h
    · cases h
    · rename_i short _
      split_ifs at h with hzero
      split at h
      · cases h
      · rename_i long hlong
        have hwing := of_decide_eq_true (List.mem_filter.mp (List.mem_of_mem_head? hlong)).2
        obtain ⟨hlt, hwidest⟩ := hwing
        have hlot : (0 : Decimal) < s.lotFor expiry := by
          have hquotient : 0 < k.maxLossRupees / s.lotFor expiry :=
            (sub_pos.mpr hlt).trans_le hwidest
          exact (div_pos_iff_of_pos_left k.maxLossRupees_pos).mp hquotient
        have hput : Vertical.make .put short long = .ok ⟨.put, short, long, hlt⟩ := by
          unfold Vertical.make
          exact dif_pos hlt
        rw [hput] at h
        change some <$> SpreadPlan.make expiry [⟨.put, short, long, hlt⟩] = _ at h
        unfold SpreadPlan.make at h
        split_ifs at h with hlength hrights hcondor
        · obtain rfl := Option.some.inj (Except.ok.inj h)
          refine ⟨rfl, by exact_mod_cast hlot, ?_, _, rfl, rfl⟩
          have hwidth : SpreadPlan.maxWidth ⟨expiry, [⟨.put, short, long, hlt⟩], hlength.1,
              hlength.2, hrights, hcondor⟩ = short - long := by
            change max 0 |short - long| = _
            rw [abs_of_pos (sub_pos.mpr hlt), max_eq_right (sub_pos.mpr hlt).le]
          rw [hwidth]
          exact (le_div_iff₀ hlot).mp hwidest
        · cases h
        · cases h
        · cases h
  · cases h

end Plans

/-! ## What every spread has -/

namespace SpreadBacktester

variable {b : SpreadBacktester} {s : ChainSnapshot} {books books' : Books}
variable {P : Day → SpreadPlan → ℤ → Prop}

/-- What opening a spread makes sure of. -/
def Opens (b : SpreadBacktester) (P : Day → SpreadPlan → ℤ → Prop) : Prop :=
  ∀ s books p books', Entered b s books p books' → P p.entryDay p.plan p.units

/-- Every spread of the books has it, closed or open. -/
structure Every (P : Day → SpreadPlan → ℤ → Prop) (books : Books) : Prop where
  trades : ∀ t ∈ books.trades, P t.entryDay t.plan t.units
  held : ∀ p ∈ books.held, P p.entryDay p.plan p.units

theorem every_of_manageAll {l : List OpenSpread} (hrun : b.manageAll s l books = .ok books')
    (h : Every P { books with held := books.held ++ l }) : Every P books' := by
  have hall := manageAll_rule
    (I := fun now rest => Every P { now with held := now.held ++ rest }) ?_ ?_ h hrun
  · simpa only [List.append_nil] using hall
  · intro now held q rest skipped cash hsame hnow
    refine ⟨hnow.trades, fun p hp => ?_⟩
    rw [List.append_assoc, List.singleton_append] at hp
    rcases List.mem_append.mp hp with hp | hp
    · exact hnow.held p (List.mem_append_left _ hp)
    · rcases List.mem_cons.mp hp with rfl | hp
      · have hheld := hnow.held held (by simp)
        rw [hsame]
        exact hheld
      · exact hnow.held p (by simp [hp])
  · intro now held rest t skipped cash hcloses _ hnow
    refine ⟨fun u hu => ?_, fun p hp => hnow.held p (mem_of_left_out hp)⟩
    rcases List.mem_append.mp hu with hu | hu
    · exact hnow.trades u hu
    · have hheld := hnow.held held (by simp)
      rw [List.mem_singleton.mp hu, hcloses.entryDay, hcloses.plan, hcloses.units]
      exact hheld

theorem Every.step (h : Every P books) (hopens : Opens b P) {day : Day}
    (hrun : b.step books day = .ok books') : Every P books' := by
  rcases step_cases hrun with ⟨-, rfl⟩ | ⟨s, mid, traded, -, rfl, -, hmanage, henter, rfl⟩
  · exact ⟨h.trades, h.held⟩
  · have hmid : Every P mid := every_of_manageAll hmanage ⟨h.trades, h.held⟩
    obtain ⟨hsame, hcase⟩ := of_enterIfRoom henter
    have hheld : ∀ p ∈ traded.held, P p.entryDay p.plan p.units := by
      intro p hp
      rcases hcase with ⟨hheld, -⟩ | ⟨q, hentered⟩
      · exact hmid.held p (hheld ▸ hp)
      · rw [hentered.held] at hp
        rcases List.mem_append.mp hp with hp | hp
        · exact hmid.held p hp
        · rw [List.mem_singleton.mp hp]
          exact hopens _ _ _ _ hentered
    refine ⟨fun t ht => hmid.trades t (hsame.trades ▸ ht), fun p hp => ?_⟩
    obtain ⟨q, hq, rfl⟩ := List.mem_map.mp hp
    rw [marked_same s q]
    exact hheld q hq

/-- The days of entry of what is open, before and after the management. -/
theorem entryDays_of_manageAll {l : List OpenSpread} (hrun : b.manageAll s l books = .ok books') :
    (books'.held.map (·.entryDay)).Sublist ((books.held ++ l).map (·.entryDay)) := by
  have hall := manageAll_rule (I := fun now rest =>
    ((now.held ++ rest).map (·.entryDay)).Sublist ((books.held ++ l).map (·.entryDay)))
    ?_ ?_ (List.Sublist.refl _) hrun
  · simpa only [List.append_nil] using hall
  · intro now held q rest skipped cash hsame hnow
    simpa only [List.map_append, List.map_cons, List.map_nil, List.append_assoc,
      List.singleton_append, hsame.entryDay] using hnow
  · intro now held rest t skipped cash _ _ hnow
    refine List.Sublist.trans ?_ hnow
    exact ((List.sublist_cons_self held rest).append_left now.held).map _

theorem entryDays_marked (l : List OpenSpread) :
    (l.map (marked s)).map (·.entryDay) = l.map (·.entryDay) := by
  rw [List.map_map]
  exact List.map_congr_left fun p _ => (marked_same s p).entryDay

/-- What the days of entry of the open spreads keep: fewer of them are no
harm, and one more is entered only where there is room. -/
theorem entryDays_step {R : List Day → Prop} (hsub : ∀ l l', R l → l'.Sublist l → R l')
    (hroom : ∀ s l, (l.length : ℤ) < b.depth s → R l → R (l ++ [s.day])) {day : Day}
    (h : R (books.held.map (·.entryDay))) (hrun : b.step books day = .ok books') :
    R (books'.held.map (·.entryDay)) := by
  rcases step_cases hrun with ⟨-, rfl⟩ | ⟨s, mid, traded, -, rfl, -, hmanage, henter, rfl⟩
  · exact h
  · have hmid : R (mid.held.map (·.entryDay)) :=
      hsub _ _ h (by simpa using entryDays_of_manageAll hmanage)
    change R ((traded.held.map (marked s)).map (·.entryDay))
    rw [entryDays_marked]
    obtain ⟨-, ⟨hheld, -⟩ | ⟨p, hentered⟩⟩ := of_enterIfRoom henter
    · rw [hheld]
      exact hmid
    · rw [hentered.held, List.map_append, List.map_singleton, hentered.entryDay]
      refine hroom s _ ?_ hmid
      rw [List.length_map]
      exact hentered.room

/-- **The run rule**: what the first books have and a day keeps, the books
after any days have. -/
theorem foldlM_step {I : Books → Prop} {days : List Day}
    (hstep : ∀ books day books', I books → b.step books day = .ok books' → I books')
    (h : I books) (hrun : days.foldlM b.step books = .ok books') : I books' := by
  induction days generalizing books with
  | nil =>
      obtain rfl := Except.ok.inj hrun
      exact h
  | cons day days ih =>
      rw [List.foldlM_cons] at hrun
      cases hday : b.step books day with
      | error e =>
          rw [hday] at hrun
          cases hrun
      | ok mid =>
          rw [hday] at hrun
          exact ih (hstep _ _ _ h hday) hrun

end SpreadBacktester

/-! ## The declaration -/

namespace B1

open SpreadBacktester

variable {sqrt : Decimal → Decimal} {i : B1Inputs} {arm : B1Parameters}
variable {scenario : SlippageScenario} {s : ChainSnapshot}

/-- What the cell declares of a spread that is opened. -/
structure Declared (i : B1Inputs) (arm : B1Parameters) (entryDay : Day) (plan : SpreadPlan)
    (units : ℤ) : Prop where
  session : entryDay ∈ i.chains.days
  first : ∀ day ∈ i.chains.days, isoWeek day = isoWeek entryDay → entryDay ≤ day
  monthly : plan.expiry ∈ i.monthlyExpiries entryDay
  dte : minDte ≤ plan.expiry - entryDay ∧ plan.expiry - entryDay ≤ maxDte
  put : ∃ v, plan.verticals = [v] ∧ v.right = .put
  units_pos : 0 < units
  capped : plan.maxWidth * units ≤ arm.wingCap
  filtered : arm.regimeFilter = true → regime i entryDay = true ∧
    ∀ e ∈ i.blackoutDays, entryDay ≤ e → plan.expiry < e

/-- The spreads an arm has slots for. -/
def slots (arm : B1Parameters) : ℕ := if arm.aggressive then 3 else 2

/-- What the days of entry of the open spreads look like: a third one is
there only with a day of conviction. -/
def Room (i : B1Inputs) (arm : B1Parameters) (entryDays : List Day) : Prop :=
  entryDays.length ≤ 2 ∨
    entryDays.length = 3 ∧ arm.aggressive = true ∧ ∃ day ∈ entryDays, conviction i day = true

theorem declared_of_entered : Opens (build sqrt i arm scenario) (Declared i arm) := by
  intro s books p books' h
  obtain ⟨expiry, hchosen, hallowed, hbuilt⟩ := of_spreadEntry h.planned
  obtain ⟨hmonthly, hdte⟩ := of_monthlyExpiries hchosen
  obtain ⟨rfl, hlot, hcapped, hput⟩ := of_build hbuilt
  have hunits : p.units = s.lotFor p.plan.expiry := by
    rw [h.units]
    exact one_mul _
  have hfirst : firstSessionOfWeek i.chains.days s p.plan.expiry = true :=
    hallowed _ (List.mem_cons_self ..)
  obtain ⟨hsession, hweek⟩ := of_decide_eq_true hfirst
  rw [h.entryDay]
  refine ⟨hsession, hweek, hmonthly, hdte, hput, hunits ▸ hlot, hunits ▸ hcapped,
    fun hfilter => ?_⟩
  have hregime : conditionFilter (regime i) s p.plan.expiry = true :=
    hallowed _ (by simp [filters, hfilter])
  have hevents : noEventThroughExpiry i.blackoutDays s p.plan.expiry = true :=
    hallowed _ (by simp [filters, hfilter])
  refine ⟨hregime, fun e he hle => not_le.mp fun hexpiry => ?_⟩
  have hnone : i.blackoutDays.any (fun e => s.day ≤ e ∧ e ≤ p.plan.expiry) = false := by
    simpa [noEventThroughExpiry] using hevents
  exact List.any_eq_false.mp hnone e he (by simp [hle, hexpiry])

theorem Room.sublist {l l' : List Day} (h : Room i arm l) (hsub : l'.Sublist l) :
    Room i arm l' := by
  rcases h with hle | ⟨hthree, haggressive, hday⟩
  · exact .inl (hsub.length_le.trans hle)
  · rcases Nat.lt_or_ge l'.length 3 with hlt | hge
    · exact .inl (Nat.le_of_lt_succ hlt)
    · have heq : l' = l := hsub.eq_of_length (le_antisymm hsub.length_le (hthree ▸ hge))
      rw [heq]
      exact .inr ⟨hthree, haggressive, hday⟩

/-- The depth of the day is the room of the day. -/
theorem Room.enter {l : List Day} (hroom : (l.length : ℤ) < depth i arm s) :
    Room i arm (l ++ [s.day]) := by
  unfold Room
  rw [List.length_append, List.length_singleton]
  unfold depth at hroom
  split_ifs at hroom with haggressive
  · unfold convictionDepth at hroom
    dsimp only at hroom
    split_ifs at hroom with hconviction
    · rcases Nat.lt_or_ge l.length 2 with hlt | hge
      · exact .inl hlt
      · exact .inr ⟨by omega, haggressive, s.day, by simp, hconviction⟩
    · exact .inl (by omega)
  · change (l.length : ℤ) < 2 at hroom
    exact .inl (by omega)

theorem Room.length_le {l : List Day} (h : Room i arm l) : l.length ≤ slots arm := by
  unfold slots
  rcases h with hle | ⟨hthree, haggressive, -⟩
  · split_ifs <;> omega
  · rw [if_pos haggressive, hthree]

/-- What is at risk in an open spread is less than its wings. -/
theorem Declared.worstCase_le {p : OpenSpread} (h : Declared i arm p.entryDay p.plan p.units)
    (hsold : p.Sold) : p.worstCase ≤ arm.wingCap := by
  have hunits : (0 : Decimal) < p.units := by exact_mod_cast h.units_pos
  have hcredit := mul_pos hsold.credit_pos hunits
  have hcapped := h.capped
  rw [hsold.worstCase, maxLoss]
  linarith

/-- Two declared entries of a week are one. -/
theorem Declared.eq_of_isoWeek {day day' : Day} {plan plan' : SpreadPlan} {units units' : ℤ}
    (h : Declared i arm day plan units) (h' : Declared i arm day' plan' units')
    (hweek : isoWeek day = isoWeek day') : day = day' :=
  le_antisymm (h.first day' h'.session hweek.symm) (h'.first day h.session hweek)

/-- **The declared limits.** For every arm, scenario and inputs, in every
run that comes through: each spread, closed or still open, was entered on
the first session of its week, on a monthly expiry 21 to 49 days out, as one
put spread whose whole width costs no more than the wing cap, and with the
filter on, on a day the regime allows and with no blackout day up to its
expiry; no two were entered in one week, and none that is settled at expiry
loses as much as the cap; and after any part of the run the open spreads
have a slot each, a third one only with a day of conviction, and can lose no
more at expiry than the slots' caps together. -/
theorem limits_hold {first last : Day} {result : BacktestResult}
    (h : (build sqrt i arm scenario).run first last = .ok result) :
    ∃ books, (build sqrt i arm scenario).loop first last = .ok books ∧
      result = ⟨books.trades, books.days, books.skipped⟩ ∧
      (∀ t ∈ result.trades, Declared i arm t.entryDay t.plan t.units ∧
        (t.exitDay = t.plan.expiry → -arm.wingCap < t.grossPnl)) ∧
      (∀ p ∈ books.held, Declared i arm p.entryDay p.plan p.units) ∧
      ((result.trades.map (·.entryDay) ++ books.held.map (·.entryDay)).map isoWeek).Nodup ∧
      ∀ pre post, (build sqrt i arm scenario).window first last = pre ++ post →
        ∃ mid, pre.foldlM (build sqrt i arm scenario).step (build sqrt i arm scenario).start =
            .ok mid ∧
          Room i arm (mid.held.map (·.entryDay)) ∧
          (mid.held.map (·.worstCase)).sum ≤ slots arm * arm.wingCap := by
  obtain ⟨books, hloop, rfl⟩ := exists_of_run h
  have hnothing : Every (Declared i arm) (build sqrt i arm scenario).start := by
    refine ⟨fun t ht => ?_, fun p hp => ?_⟩
    · cases ht
    · cases hp
  have hevery : ∀ {days : List Day} {now : Books},
      days.foldlM (build sqrt i arm scenario).step (build sqrt i arm scenario).start = .ok now →
        Every (Declared i arm) now :=
    fun hrun => foldlM_step (fun _ _ _ hnow hday => hnow.step declared_of_entered hday) hnothing hrun
  have hdeclared := hevery hloop
  have hsound : Sound _ _ books := (sound_start.days sorted_window hloop).1
  refine ⟨books, hloop, rfl, fun t ht => ⟨hdeclared.trades t ht, fun hexpiry => ?_⟩,
    hdeclared.held, ?_, fun pre post hwindow => ?_⟩
  · have hfair := hsound.ledger.fair t ht
    have hunits := (hdeclared.trades t ht).units_pos
    have hcapped := (hdeclared.trades t ht).capped
    have hpos := mul_pos hfair.credit_pos (by exact_mod_cast hunits : (0 : Decimal) < t.units)
    have hloss := (hfair.settled_bounds hexpiry hunits.le).1
    rw [hfair.maxLoss, maxLoss] at hloss
    linarith
  · refine hsound.ledger.once.map_on fun day hday day' hday' hweek => ?_
    have hfind : ∀ d ∈ books.trades.map (·.entryDay) ++ books.held.map (·.entryDay),
        ∃ plan units, Declared i arm d plan units := by
      intro d hd
      rcases List.mem_append.mp hd with hd | hd
      · obtain ⟨t, ht, rfl⟩ := List.mem_map.mp hd
        exact ⟨_, _, hdeclared.trades t ht⟩
      · obtain ⟨p, hp, rfl⟩ := List.mem_map.mp hd
        exact ⟨_, _, hdeclared.held p hp⟩
    obtain ⟨_, _, hd⟩ := hfind day hday
    obtain ⟨_, _, hd'⟩ := hfind day' hday'
    exact hd.eq_of_isoWeek hd' hweek
  · obtain ⟨mid, hpre, -⟩ := exists_of_prefix hloop hwindow
    have hsorted : (pre ++ post).Pairwise (· < ·) := hwindow ▸ sorted_window
    have hmid : Sound _ pre mid := (sound_start.days (List.pairwise_append.mp hsorted).1 hpre).1
    have hempty : Room i arm ((build sqrt i arm scenario).start.held.map (·.entryDay)) :=
      .inl (Nat.zero_le 2)
    have hroom : Room i arm (mid.held.map (·.entryDay)) :=
      foldlM_step (I := fun now => Room i arm (now.held.map (·.entryDay)))
        (fun _ _ _ hnow hday => entryDays_step (R := Room i arm) (fun _ _ hl hsub => hl.sublist hsub)
          (fun _ _ hlt _ => Room.enter hlt) hnow hday) hempty hpre
    refine ⟨mid, hpre, hroom, ?_⟩
    have hcap : ∀ x ∈ mid.held.map (·.worstCase), x ≤ arm.wingCap := by
      intro x hx
      obtain ⟨p, hp, rfl⟩ := List.mem_map.mp hx
      exact ((hevery hpre).held p hp).worstCase_le (hmid.ledger.sold p hp)
    have hsum := List.sum_le_card_nsmul _ _ hcap
    have hlength := hroom.length_le
    rw [List.length_map] at hsum hlength
    rw [nsmul_eq_mul] at hsum
    have hslots : (mid.held.length : Decimal) ≤ slots arm := by exact_mod_cast hlength
    exact hsum.trans (mul_le_mul_of_nonneg_right hslots arm.wingCap_pos.le)

/-! ## The run of the sample -/

namespace TwoFutures

/-- The result, of a run that comes through. -/
def resultOf (short : {x : Decimal // 0 ≤ x}) : BacktestResult :=
  match outcome short with
  | .ok result => result
  | .error _ => ⟨[], [], []⟩

theorem outcome_eq : outcome falling = .ok (resultOf falling) := by
  have hok : (outcome falling).isOk = true := by decide +kernel
  unfold resultOf
  cases h : outcome falling with
  | error e =>
      rw [h] at hok
      cases hok
  | ok r => rfl

end TwoFutures

open TwoFutures in
theorem limits_hold_sample :
    (resultOf falling).trades.map (fun t => (t.entryDay, t.exitDay)) = [(1, 8)] ∧
      ∃ books, (build root (inputs falling) plainArm benchmark).loop 1 9 = .ok books ∧
        ∀ p ∈ books.held, Declared (inputs falling) plainArm p.entryDay p.plan p.units := by
  obtain ⟨books, hloop, -, -, hheld, -⟩ := limits_hold outcome_eq
  exact ⟨by decide +kernel, books, hloop, hheld⟩

end B1

end Options

end Emporos
