import Emporos.Async.Schedule
import Emporos.EventTrader.Llm
import Mathlib.Tactic.Linarith
import Mathlib.Tactic.Positivity
/-!
# The ceiling and the daily cap hold

With any number of questions in flight, what is spent and what is set
aside never pass the ceiling, what the journal says was spent never does
over any number of processes, and no day's tokens pass the cap: a call in
flight over midnight is charged to the new day, out of what it had set
aside. It rests on what the model does: it answers for itself, and no
answer is larger than its worst case.
-/

namespace Emporos

namespace Llm

open Async Reserves

variable {cfg : Settings} {admits : LlmRequest → LlmReply → Prop} {t u : ℕ} {w w' : World}

/-- The model answers for itself, a character is at least a token, and
the answer is within its allowance. -/
structure Honest (request : LlmRequest) (reply : LlmReply) : Prop where
  model : reply.model = request.model
  tokensIn : reply.tokensIn ≤ request.promptChars
  tokensOut : reply.tokensOut ≤ request.maxOutputTokens

theorem ModelPrice.costUsd_nonneg (p : ModelPrice) (m n : ℕ) : 0 ≤ p.costUsd m n := by
  have hin := mul_nonneg (Nat.cast_nonneg (α := ℚ) m) p.input_nonneg
  have hout := mul_nonneg (Nat.cast_nonneg (α := ℚ) n) p.output_nonneg
  exact div_nonneg (add_nonneg hin hout) (by norm_num)

theorem ModelPrice.costUsd_mono (p : ModelPrice) {m n m' n' : ℕ} (hm : m ≤ m') (hn : n ≤ n') :
    p.costUsd m n ≤ p.costUsd m' n' := by
  have hin := mul_le_mul_of_nonneg_right (Nat.cast_le (α := ℚ).mpr hm) p.input_nonneg
  have hout := mul_le_mul_of_nonneg_right (Nat.cast_le (α := ℚ).mpr hn) p.output_nonneg
  exact div_le_div_of_nonneg_right (add_le_add hin hout) (by norm_num)

theorem PriceTable.exists_of_costUsd {prices : PriceTable} {model : String} {m n : ℕ}
    {cost : Decimal} (h : prices.costUsd model m n = .ok cost) :
    ∃ p, prices model = some p ∧ p.costUsd m n = cost := by
  unfold PriceTable.costUsd at h
  split at h
  · cases h
  · rename_i p hp
    exact ⟨p, hp, Except.ok.inj h⟩

/-! ## What is recorded -/

/-- What a recording's answer cost. -/
def Recording.cost (cfg : Settings) (r : Recording) : Decimal :=
  ((cfg.prices r.answeredBy).map fun p => p.costUsd r.tokensIn r.tokensOut).getD 0

/-- The question was about a day its model may be asked about. -/
def Recording.Dated (cfg : Settings) (r : Recording) : Prop :=
  ∃ earliest, cfg.earliestAllowed r.model = some earliest ∧ earliest ≤ utcDay r.asOf

theorem Recording.cost_nonneg (r : Recording) : 0 ≤ r.cost cfg := by
  unfold Recording.cost
  cases cfg.prices r.answeredBy with
  | none => exact le_rfl
  | some p => exact p.costUsd_nonneg _ _

/-- One more recording adds at most its cost. -/
theorem journalSpendUsd_append {journal : List Recording} {r : Recording}
    (h : r.answeredBy = r.model) :
    journalSpendUsd cfg (journal ++ [r]) ≤ journalSpendUsd cfg journal + r.cost cfg := by
  unfold journalSpendUsd
  rw [List.filter_append, List.map_append, List.sum_append]
  refine add_le_add le_rfl ?_
  by_cases hm : r.model = cfg.counted
  · rw [List.filter_cons_of_pos (by simp [hm]), List.filter_nil, List.map_singleton,
      List.sum_singleton]
    unfold Recording.cost
    rw [h]
    cases cfg.prices r.model <;> exact le_rfl
  · rw [List.filter_cons_of_neg (by simp [hm]), List.filter_nil]
    exact r.cost_nonneg

/-! ## The invariant -/

/-- The journal a process started from kept to the cap, and had nothing
from days to come. -/
structure Fair (cfg : Settings) (opened : List Recording) (started : Timestamp) : Prop where
  cap : ∀ day, usageByDay cfg opened day ≤ cfg.dailyCap
  future : ∀ day, utcDay started < day → usageByDay cfg opened day = 0

/-- The books of the dollars. -/
structure Solvent (cfg : Settings) (w : World) : Prop where
  reserved : w.budget.reservedUsd = total w.heldUsd
  held_nonneg : ∀ x ∈ w.heldUsd, 0 ≤ x.2
  ceiling : w.budget.spentUsd + w.budget.reservedUsd ≤ cfg.ceilingUsd
  unwritten_nonneg : ∀ x ∈ w.unwritten, 0 ≤ x.2
  spent : journalSpendUsd cfg w.journal + total w.unwritten ≤ w.budget.spentUsd

/-- The books of the tokens. -/
structure Capped (cfg : Settings) (w : World) : Prop where
  reserved : w.tokens.reserved = total w.heldTokens
  held_nonneg : ∀ x ∈ w.heldTokens, 0 ≤ x.2
  started : w.started ≤ w.clock
  used_nonneg : ∀ day, 0 ≤ w.tokens.used day
  used : Fair cfg w.opened w.started → ∀ day, w.tokens.used day ≤ cfg.dailyCap
  open_ : Fair cfg w.opened w.started → ∀ day, w.today ≤ day → w.tokens.used day + w.tokens.reserved ≤ cfg.dailyCap
  future : Fair cfg w.opened w.started → ∀ day, w.today < day → w.tokens.used day = 0

/-- **The invariant.** -/
structure Kept (cfg : Settings) (w : World) : Prop where
  solvent : Solvent cfg w
  capped : Capped cfg w
  journal : ∃ recorded, w.journal = w.opened ++ recorded ∧ ∀ r ∈ recorded, r.Dated cfg

theorem utcDay_mono {a b : Timestamp} (h : a ≤ b) : utcDay a ≤ utcDay b :=
  Int.ediv_le_ediv (by decide) h

theorem usageByDay_nonneg (journal : List Recording) (day : ℤ) : 0 ≤ usageByDay cfg journal day := by
  refine List.sum_nonneg fun n hn => ?_
  obtain ⟨r, -, rfl⟩ := List.mem_map.mp hn
  exact Int.natCast_nonneg _

/-- A new process over a journal within the ceiling. -/
theorem kept_start {time : Timestamp} {journal : List Recording}
    (h : journalSpendUsd cfg journal ≤ cfg.ceilingUsd) : Kept cfg (World.start cfg time journal) where
  solvent :=
    { reserved := rfl
      held_nonneg := fun _ hx => nomatch hx
      ceiling := by
        change journalSpendUsd cfg journal + 0 ≤ _
        rw [add_zero]
        exact h
      unwritten_nonneg := fun _ hx => nomatch hx
      spent := (add_zero _).le }
  capped :=
    { reserved := rfl
      held_nonneg := fun _ hx => nomatch hx
      started := le_rfl
      used_nonneg := usageByDay_nonneg journal
      used := fun hfair => hfair.cap
      open_ := fun hfair day _ => (add_zero _).le.trans (hfair.cap day)
      future := fun hfair => hfair.future }
  journal := ⟨[], (List.append_nil _).symm, fun _ hx => nomatch hx⟩

/-- Time passes. -/
theorem Kept.at (h : Kept cfg w) {time : Timestamp} (hle : w.clock ≤ time) :
    Kept cfg { w with clock := time } where
  solvent := { h.solvent with }
  capped :=
    { reserved := h.capped.reserved
      held_nonneg := h.capped.held_nonneg
      started := h.capped.started.trans hle
      used_nonneg := h.capped.used_nonneg
      used := h.capped.used
      open_ := fun hfair day hday =>
        h.capped.open_ hfair day ((utcDay_mono hle).trans hday)
      future := fun hfair day hday =>
        h.capped.future hfair day ((utcDay_mono hle).trans_lt hday) }
  journal := h.journal

/-! ## The contract -/

/-- What a task must be sure of before a call. -/
def Due (cfg : Settings) (t : ℕ) (w : World) : Call → Prop
  | .reserveUsd worst => 0 ≤ worst
  | .releaseUsd worst => (t, worst) ∈ w.heldUsd
  | .recordUsd cost worst => (t, worst) ∈ w.heldUsd ∧ 0 ≤ cost ∧ cost ≤ worst
  | .releaseTokens worst => (t, (worst : ℤ)) ∈ w.heldTokens
  | .recordTokens tokens worst => (t, (worst : ℤ)) ∈ w.heldTokens ∧ tokens ≤ worst
  | .append r => r.Dated cfg ∧ r.answeredBy = r.model ∧ (t, r.cost cfg) ∈ w.unwritten
  | _ => True

/-- What task `t` has set aside is still there. -/
structure Own (t : ℕ) (w w' : World) : Prop where
  usd : ∀ a, (t, a) ∈ w.heldUsd → (t, a) ∈ w'.heldUsd
  tokens : ∀ a, (t, a) ∈ w.heldTokens → (t, a) ∈ w'.heldTokens
  unwritten : ∀ a, (t, a) ∈ w.unwritten → (t, a) ∈ w'.unwritten

theorem Own.refl (t : ℕ) (w : World) : Own t w w := ⟨fun _ h => h, fun _ h => h, fun _ h => h⟩

theorem Own.trans {w₁ w₂ w₃ : World} (h : Own t w₁ w₂) (h' : Own t w₂ w₃) : Own t w₁ w₃ where
  usd a ha := h'.usd a (h.usd a ha)
  tokens a ha := h'.tokens a (h.tokens a ha)
  unwritten a ha := h'.unwritten a (h.unwritten a ha)

/-- A call of one task takes nothing of another. -/
theorem Own.of_answers {c : Call} {a : Except LlmError c.Value}
    (hs : World.Answers cfg admits t w c a w') (hu : u ≠ t) : Own u w w' := by
  cases hs with
  | reservedUsd _ =>
      exact ⟨fun _ h => List.mem_cons_of_mem _ h, fun _ h => h, fun _ h => h⟩
  | releasedUsd => exact ⟨fun _ h => mem_erase hu h, fun _ h => h, fun _ h => h⟩
  | recordedUsd =>
      exact ⟨fun _ h => mem_erase hu h, fun _ h => h, fun _ h => List.mem_cons_of_mem _ h⟩
  | reservedTokens _ =>
      exact ⟨fun _ h => h, fun _ h => List.mem_cons_of_mem _ h, fun _ h => h⟩
  | releasedTokens => exact ⟨fun _ h => h, fun _ h => mem_erase hu h, fun _ h => h⟩
  | recordedTokens => exact ⟨fun _ h => h, fun _ h => mem_erase hu h, fun _ h => h⟩
  | appended => exact ⟨fun _ h => h, fun _ h => h, fun _ h => mem_erase hu h⟩
  | _ => exact .refl _ _

/-! ### One call keeps the books -/

theorem Solvent.reserveUsd (h : Solvent cfg w) {worst : Decimal} (h0 : 0 ≤ worst)
    (hfits : w.budget.spentUsd + w.budget.reservedUsd + worst ≤ cfg.ceilingUsd) :
    Solvent cfg (w.reserveUsd t worst) where
  reserved := by
    change w.budget.reservedUsd + worst = total ((t, worst) :: w.heldUsd)
    rw [total_cons, h.reserved, add_comm]
  held_nonneg := List.forall_mem_cons.mpr ⟨h0, h.held_nonneg⟩
  ceiling := by
    change w.budget.spentUsd + (w.budget.reservedUsd + worst) ≤ _
    linarith
  unwritten_nonneg := h.unwritten_nonneg
  spent := h.spent

theorem Solvent.releaseUsd (h : Solvent cfg w) {worst : Decimal} (hmem : (t, worst) ∈ w.heldUsd) :
    Solvent cfg (w.releaseUsd t worst) where
  reserved := by
    change w.budget.reservedUsd - worst = total (w.heldUsd.erase (t, worst))
    rw [total_erase hmem, h.reserved]
  held_nonneg x hx := h.held_nonneg x (List.mem_of_mem_erase hx)
  ceiling := by
    change w.budget.spentUsd + (w.budget.reservedUsd - worst) ≤ _
    have h0 : 0 ≤ worst := h.held_nonneg _ hmem
    have := h.ceiling
    linarith
  unwritten_nonneg := h.unwritten_nonneg
  spent := h.spent

theorem Solvent.recordUsd (h : Solvent cfg w) {cost worst : Decimal}
    (hmem : (t, worst) ∈ w.heldUsd) (h0 : 0 ≤ cost) (hle : cost ≤ worst) :
    Solvent cfg (w.recordUsd t cost worst) where
  reserved := by
    change w.budget.reservedUsd - worst = total (w.heldUsd.erase (t, worst))
    rw [total_erase hmem, h.reserved]
  held_nonneg x hx := h.held_nonneg x (List.mem_of_mem_erase hx)
  ceiling := by
    change w.budget.spentUsd + cost + (w.budget.reservedUsd - worst) ≤ _
    have := h.ceiling
    linarith
  unwritten_nonneg := List.forall_mem_cons.mpr ⟨h0, h.unwritten_nonneg⟩
  spent := by
    change journalSpendUsd cfg w.journal + total ((t, cost) :: w.unwritten) ≤
      w.budget.spentUsd + cost
    rw [total_cons]
    have := h.spent
    linarith

theorem Solvent.append (h : Solvent cfg w) {r : Recording} (hmodel : r.answeredBy = r.model)
    (hmem : (t, r.cost cfg) ∈ w.unwritten) : Solvent cfg (w.append t (r.cost cfg) r) where
  reserved := h.reserved
  held_nonneg := h.held_nonneg
  ceiling := h.ceiling
  unwritten_nonneg x hx := h.unwritten_nonneg x (List.mem_of_mem_erase hx)
  spent := by
    change journalSpendUsd cfg (if (w.get r.requestHash).isSome then w.journal
      else w.journal ++ [r]) + total (w.unwritten.erase (t, r.cost cfg)) ≤ w.budget.spentUsd
    rw [total_erase hmem]
    have hspent := h.spent
    split
    · have hcost : 0 ≤ r.cost cfg := r.cost_nonneg
      linarith
    · have happend : journalSpendUsd cfg (w.journal ++ [r]) ≤
          journalSpendUsd cfg w.journal + r.cost cfg := journalSpendUsd_append hmodel
      linarith

theorem Capped.reserveTokens (h : Capped cfg w) {worst : ℕ}
    (hfits : w.tokens.used w.today + w.tokens.reserved + worst ≤ cfg.dailyCap) :
    Capped cfg (w.reserveTokens t worst) where
  reserved := by
    change w.tokens.reserved + worst = total ((t, (worst : ℤ)) :: w.heldTokens)
    rw [total_cons, h.reserved, add_comm]
  held_nonneg := List.forall_mem_cons.mpr ⟨Int.natCast_nonneg _, h.held_nonneg⟩
  started := h.started
  used_nonneg := h.used_nonneg
  used := h.used
  open_ hfair day hday := by
    change w.tokens.used day + (w.tokens.reserved + worst) ≤ cfg.dailyCap
    rcases hday.eq_or_lt with rfl | hlt
    · rw [← add_assoc]
      exact hfits
    · -- nothing is used yet of a day to come
      have hfuture := h.future hfair day hlt
      have hzero : (0 : ℤ) ≤ w.tokens.used w.today := h.used_nonneg w.today
      omega
  future := h.future

theorem Capped.releaseTokens (h : Capped cfg w) {worst : ℕ}
    (hmem : (t, (worst : ℤ)) ∈ w.heldTokens) : Capped cfg (w.releaseTokens t worst) where
  reserved := by
    change w.tokens.reserved - worst = total (w.heldTokens.erase (t, (worst : ℤ)))
    rw [total_erase hmem, h.reserved]
  held_nonneg x hx := h.held_nonneg x (List.mem_of_mem_erase hx)
  started := h.started
  used_nonneg := h.used_nonneg
  used := h.used
  open_ hfair day hday := by
    change w.tokens.used day + (w.tokens.reserved - worst) ≤ cfg.dailyCap
    have := h.open_ hfair day hday
    omega
  future := h.future

/-- An answer is charged to today, out of what was set aside. -/
theorem Capped.recordTokens (h : Capped cfg w) {tokens worst : ℕ}
    (hmem : (t, (worst : ℤ)) ∈ w.heldTokens) (hle : tokens ≤ worst) :
    Capped cfg (w.recordTokens t tokens worst) := by
  have hused : ∀ day, day ≠ w.today →
      (w.recordTokens t tokens worst).tokens.used day = w.tokens.used day :=
    fun day hday => Function.update_of_ne hday ..
  have htoday : (w.recordTokens t tokens worst).tokens.used w.today =
      w.tokens.used w.today + tokens := Function.update_self ..
  have hreserved : (w.recordTokens t tokens worst).tokens.reserved =
      w.tokens.reserved - worst := rfl
  have hrest : 0 ≤ w.tokens.reserved - worst := by
    rw [h.reserved, ← total_erase hmem]
    exact total_nonneg fun x hx => h.held_nonneg x (List.mem_of_mem_erase hx)
  have hopen : Fair cfg w.opened w.started → ∀ day, w.today ≤ day →
      (w.recordTokens t tokens worst).tokens.used day +
        (w.recordTokens t tokens worst).tokens.reserved ≤ cfg.dailyCap := by
    intro hfair day hday
    have hbefore := h.open_ hfair day hday
    rw [hreserved]
    by_cases he : day = w.today
    · rw [he] at hbefore ⊢
      rw [htoday]
      omega
    · rw [hused day he]
      omega
  refine
    { reserved := ?_
      held_nonneg := fun x hx => h.held_nonneg x (List.mem_of_mem_erase hx)
      started := h.started
      used_nonneg := fun day => ?_
      used := fun hfair day => ?_
      open_ := hopen
      future := fun hfair day hday => ?_ }
  · change w.tokens.reserved - worst = total (w.heldTokens.erase (t, (worst : ℤ)))
    rw [total_erase hmem, h.reserved]
  · by_cases he : day = w.today
    · rw [he, htoday]
      have := h.used_nonneg w.today
      omega
    · rw [hused day he]
      exact h.used_nonneg day
  · by_cases he : day = w.today
    · have := hopen hfair day he.ge
      rw [hreserved] at this
      omega
    · rw [hused day he]
      exact h.used hfair day
  · rw [hused day (ne_of_gt hday)]
    exact h.future hfair day hday

/-- **One call keeps the books.** -/
theorem Kept.answers {c : Call} {a : Except LlmError c.Value} (h : Kept cfg w)
    (hdue : Due cfg t w c) (hs : World.Answers cfg admits t w c a w') : Kept cfg w' := by
  obtain ⟨recorded, hjournal, hdated⟩ := h.journal
  cases hs with
  | reservedUsd hfits => exact ⟨h.solvent.reserveUsd hdue hfits, { h.capped with }, h.journal⟩
  | releasedUsd => exact ⟨h.solvent.releaseUsd hdue, { h.capped with }, h.journal⟩
  | recordedUsd =>
      obtain ⟨hmem, h0, hle⟩ := hdue
      exact ⟨h.solvent.recordUsd hmem h0 hle, { h.capped with }, h.journal⟩
  | reservedTokens hfits => exact ⟨{ h.solvent with }, h.capped.reserveTokens hfits, h.journal⟩
  | releasedTokens => exact ⟨{ h.solvent with }, h.capped.releaseTokens hdue, h.journal⟩
  | recordedTokens =>
      obtain ⟨hmem, hle⟩ := hdue
      exact ⟨{ h.solvent with }, h.capped.recordTokens hmem hle, h.journal⟩
  | @appended r =>
      obtain ⟨hr, hmodel, hmem⟩ := hdue
      refine ⟨h.solvent.append hmodel hmem, { h.capped with }, ?_⟩
      change ∃ recorded, (if (w.get r.requestHash).isSome then w.journal else w.journal ++ [r]) =
        w.opened ++ recorded ∧ ∀ r ∈ recorded, r.Dated cfg
      split
      · exact ⟨recorded, hjournal, hdated⟩
      · refine ⟨recorded ++ [r], by rw [hjournal, List.append_assoc], fun x hx => ?_⟩
        rcases List.mem_append.mp hx with hx | hx
        · exact hdated x hx
        · obtain rfl := List.mem_singleton.mp hx
          exact hr
  | _ => exact h

theorem Due.at {c : Call} {time : Timestamp} (h : Due cfg t w c) :
    Due cfg t { w with clock := time } c := by
  cases c <;> exact h

/-- **The contract of the purse.** -/
def purseContract (cfg : Settings) (admits : LlmRequest → LlmReply → Prop) :
    Contract (platform cfg admits) where
  inv := Kept cfg
  rely := Own
  guar := Due cfg
  rely_refl := Own.refl
  rely_trans := Own.trans
  step_inv := by
    rintro t w c a w' h hdue ⟨time, hle, hs⟩
    exact (h.at hle).answers hdue.at hs
  step_rely := by
    rintro t u w c a w' - - ⟨time, hle, hs⟩ hu
    have hown := Own.of_answers hs hu
    exact ⟨hown.usd, hown.tokens, hown.unwritten⟩
  restart_inv := by
    intro w h
    refine kept_start ?_
    have hspent := h.solvent.spent
    have hunwritten := total_nonneg h.solvent.unwritten_nonneg
    have hreserved := total_nonneg h.solvent.held_nonneg
    have hceiling := h.solvent.ceiling
    rw [h.solvent.reserved] at hceiling
    linarith

/-! ## The clients keep to it -/

/-- What an answer cost. -/
def LlmReply.cost (cfg : Settings) (r : LlmReply) : Decimal :=
  ((cfg.prices r.model).map fun p => p.costUsd r.tokensIn r.tokensOut).getD 0

/-- The answer is paid for, and waits to be recorded. -/
def Paid (cfg : Settings) (t : ℕ) (request : LlmRequest) (res : Except LlmError LlmReply)
    (w : World) : Prop :=
  ∀ reply, res = .ok reply → Honest request reply ∧ (t, reply.cost cfg) ∈ w.unwritten

theorem Paid.of_own {request : LlmRequest} {res : Except LlmError LlmReply}
    (h : Paid cfg t request res w) (hown : Own t w w') : Paid cfg t request res w' :=
  fun reply hr => ⟨(h reply hr).1, hown.unwritten _ (h reply hr).2⟩

/-- **The rule of a call.** -/
theorem safe_call {c : Call} {Q : Except LlmError c.Value → World → Prop}
    (hdue : ∀ w', Own t w w' → Due cfg t w' c)
    (h : ∀ a w₁ w₂, Own t w w₁ → World.Answers cfg admits t w₁ c a w₂ → Q a w₂) :
    (purseContract cfg admits).Safe t (await c) Q w := by
  rintro w₁ - hown
  refine ⟨hdue w₁ hown, fun a w₂ hs _ => ?_⟩
  obtain ⟨time, -, hs⟩ := hs
  exact h a { w₁ with clock := time } w₂
    (Own.trans hown ⟨fun _ h => h, fun _ h => h, fun _ h => h⟩) hs

/-- A program that raises once it has given back what it set aside. -/
theorem safe_release {α : Type} {c : Call} {e : LlmError} {Q : Except LlmError α → World → Prop}
    (hdue : ∀ w', Own t w w' → Due cfg t w' c) (hQ : ∀ e w, Q (.error e) w) :
    (purseContract cfg admits).Safe t (do
      let _ ← await c
      Async.Task.raise e) Q w := by
  refine (Contract.safe_bind _ _).mpr (safe_call hdue fun a w₁ w₂ _ _ => ?_)
  cases a with
  | ok _ => exact hQ e w₂
  | error e' => exact hQ e' w₂

theorem safe_budgeted (hadmits : ∀ request reply, admits request reply → Honest request reply)
    (request : LlmRequest) : (purseContract cfg admits).Safe t
      (BudgetedClient.complete cfg request) (Paid cfg t request) w := by
  have hraise : ∀ (e : LlmError) (w : World), Paid cfg t request (.error e) w :=
    fun _ _ _ hr => nomatch hr
  unfold BudgetedClient.complete
  cases hworst : cfg.prices.costUsd request.model request.promptChars request.maxOutputTokens with
  | error e => exact hraise e w
  | ok worst =>
      obtain ⟨p, hp, rfl⟩ := PriceTable.exists_of_costUsd hworst
      refine (Contract.safe_bind _ _).mpr (safe_call (fun _ _ => p.costUsd_nonneg _ _)
        fun a w₁ w₂ _ hs => ?_)
      cases hs with
      | refusedUsd _ => exact hraise _ _
      | reservedUsd _ =>
          have hheld : (t, p.costUsd request.promptChars request.maxOutputTokens) ∈
              (w₁.reserveUsd t (p.costUsd request.promptChars request.maxOutputTokens)).heldUsd :=
            List.mem_cons_self
          refine (Contract.safe_bind (Task.attempt (await (.ask request))) _).mpr
            ((Contract.safe_attempt _).mpr
              (safe_call (c := .ask request) (fun _ _ => trivial) fun a w₃ w₄ hown hs => ?_))
          have hheld' := hown.usd _ hheld
          cases hs with
          | failed e => exact safe_release (fun _ hown => hown.usd _ hheld') hraise
          | @replied _ reply hr =>
              have hhonest := hadmits _ _ hr
              have hprice : cfg.prices reply.model = some p := hhonest.model ▸ hp
              have hcost : cfg.prices.costUsd reply.model reply.tokensIn reply.tokensOut =
                  .ok (p.costUsd reply.tokensIn reply.tokensOut) := by
                unfold PriceTable.costUsd
                rw [hprice]
              simp only [hcost]
              refine (Contract.safe_bind _ _).mpr (safe_call (fun _ hown => ⟨hown.usd _ hheld',
                p.costUsd_nonneg _ _, p.costUsd_mono hhonest.tokensIn hhonest.tokensOut⟩)
                fun a w₅ w₆ _ hs => ?_)
              cases hs with
              | recordedUsd =>
                  intro reply' hr'
                  obtain rfl : reply = reply' := Except.ok.inj hr'
                  refine ⟨hhonest, ?_⟩
                  have hpaid : reply.cost cfg = p.costUsd reply.tokensIn reply.tokensOut := by
                    rw [LlmReply.cost, hprice]
                    rfl
                  rw [hpaid]
                  exact List.mem_cons_self

/-- A call that leaves the tokens that are set aside. -/
def Untoken : Call → Prop
  | .releaseTokens _ | .recordTokens .. => False
  | _ => True

theorem only_budgeted (request : LlmRequest) :
    (BudgetedClient.complete cfg request).Only Untoken := by
  refine Task.Only.bind (Task.only_done _) fun worst => Task.Only.bind (Task.only_ask trivial)
    fun _ => Task.Only.bind (Task.Only.attempt (Task.only_ask trivial)) fun res => ?_
  cases res with
  | error e => exact Task.Only.bind (Task.only_ask trivial) fun _ => Task.only_done _
  | ok reply =>
      exact Task.Only.bind (Task.only_done _) fun cost => Task.Only.bind (Task.only_ask trivial)
        fun _ => Task.only_done _

theorem safe_tokenCapped (hadmits : ∀ request reply, admits request reply → Honest request reply)
    (request : LlmRequest) : (purseContract cfg admits).Safe t
      (TokenCappedClient.complete cfg request) (Paid cfg t request) w := by
  have hraise : ∀ (e : LlmError) (w : World), Paid cfg t request (.error e) w :=
    fun _ _ _ hr => nomatch hr
  unfold TokenCappedClient.complete DailyTokenCap.reserve
  refine (Contract.safe_bind _ _).mpr ?_
  split
  · exact hraise _ _
  refine safe_call (fun _ _ => trivial) fun a w₁ w₂ _ hs => ?_
  cases hs with
  | gaveUp => exact hraise _ _
  | reservedTokens _ =>
      generalize hworst : request.promptChars + request.maxOutputTokens = worst
      have hheld : (t, (worst : ℤ)) ∈ (w₁.reserveTokens t worst).heldTokens := List.mem_cons_self
      refine (Contract.safe_bind _ _).mpr ((Contract.safe_attempt _).mpr
        ((Contract.Safe.frame (F := fun w => (t, (worst : ℤ)) ∈ w.heldTokens)
          (safe_budgeted hadmits request) hheld (only_budgeted request)
          (fun hown h => hown.tokens _ h) ?_).mono fun res w₃ hpost => ?_))
      · rintro w c a w' - - ⟨time, -, hs⟩ hc h
        cases hs with
        | releasedTokens => exact hc.elim
        | recordedTokens => exact hc.elim
        | reservedTokens _ => exact List.mem_cons_of_mem _ h
        | _ => exact h
      · obtain ⟨hpaid, hheld'⟩ := hpost
        cases res with
        | error e => exact safe_release (fun _ hown => hown.tokens _ hheld') hraise
        | ok reply =>
            have hhonest := (hpaid reply rfl).1
            have hfits : reply.tokensIn + reply.tokensOut ≤ worst :=
              hworst ▸ Nat.add_le_add hhonest.tokensIn hhonest.tokensOut
            refine (Contract.safe_bind _ _).mpr (safe_call
              (fun _ hown => ⟨hown.tokens _ hheld', hfits⟩) fun a w₄ w₅ hown hs => ?_)
            cases hs with
            | recordedTokens =>
                intro reply' hr'
                obtain rfl : reply = reply' := Except.ok.inj hr'
                exact (hpaid.of_own hown) reply rfl

theorem safe_journaled (hadmits : ∀ request reply, admits request reply → Honest request reply)
    {request : LlmRequest} {earliest : ℤ} (hmodel : cfg.earliestAllowed request.model = some earliest)
    (hdate : earliest ≤ utcDay request.asOf) : (purseContract cfg admits).Safe t
      (JournaledClient.complete cfg request) (fun _ _ => True) w := by
  refine (Contract.safe_bind _ _).mpr (safe_call (fun _ _ => trivial) fun a w₁ w₂ _ hs => ?_)
  cases hs with
  | found =>
      cases w₁.get (request.requestHash cfg) with
      | some recorded => trivial
      | none =>
          change (purseContract cfg admits).Safe t (if cfg.record then _ else _) _ _
          split
          · refine (Contract.safe_bind _ _).mpr ((safe_tokenCapped hadmits request).mono
              fun res w₃ hpaid => ?_)
            cases res with
            | error e => trivial
            | ok reply =>
                refine (Contract.safe_bind _ _).mpr (safe_call (c := .now) (fun _ _ => trivial)
                  fun a w₄ w₅ hown hs => ?_)
                cases hs with
                | time =>
                    obtain ⟨hhonest, hmem⟩ := (hpaid.of_own hown) reply rfl
                    refine (Contract.safe_bind _ _).mpr (safe_call
                      (fun _ hown => ⟨⟨earliest, hmodel, hdate⟩, hhonest.model,
                        hown.unwritten _ hmem⟩) fun a w₆ w₇ _ _ => ?_)
                    cases a <;> trivial
          · trivial

/-- What the guard lets through. -/
theorem exists_of_check {request : LlmRequest}
    (h : CutoffGuardedClient.check cfg request = .ok ()) :
    ∃ earliest, cfg.earliestAllowed request.model = some earliest ∧
      earliest ≤ utcDay request.asOf := by
  unfold CutoffGuardedClient.check at h
  split at h
  · cases h
  · rename_i earliest hmodel
    split at h
    · cases h
    · rename_i hdate
      exact ⟨earliest, hmodel, not_lt.mp hdate⟩

/-- **Every task keeps to the contract.** -/
theorem safe_serve (hadmits : ∀ request reply, admits request reply → Honest request reply)
    (t : ℕ) (w : World) :
    (purseContract cfg admits).Safe t (serve cfg) (fun _ _ => True) w := by
  refine (Contract.safe_bind _ _).mpr (safe_call (fun _ _ => trivial) fun a w₁ w₂ _ hs => ?_)
  cases hs with
  | @take request =>
      change (purseContract cfg admits).Safe t (CutoffGuardedClient.complete cfg request) _ _
      unfold CutoffGuardedClient.complete
      cases hcheck : CutoffGuardedClient.check cfg request with
      | error e => trivial
      | ok _ =>
          obtain ⟨earliest, hmodel, hdate⟩ := exists_of_check hcheck
          exact safe_journaled hadmits hmodel hdate

/-- **The ceilings hold.** With any number of questions in flight, however
they interleave, fail or are cancelled, and over any number of processes
that each start from the journal: what is spent and set aside stays within
the ceiling, and so does what the journal says was spent; where the journal
a process started from kept to the cap, no day of that process passes it;
and nothing about a day a model may not be asked about is recorded. -/
theorem ceilings_hold {time : Timestamp} {journal : List Recording} {n : ℕ}
    {s : Pool calls LlmError LlmReply World}
    (hadmits : ∀ request reply, admits request reply → Honest request reply)
    (hjournal : journalSpendUsd cfg journal ≤ cfg.ceilingUsd)
    (hr : Pool.Reachable (platform cfg admits) (fun p => p = serve cfg)
      (Pool.idle (World.start cfg time journal) n) s) :
    (0 ≤ s.world.budget.reservedUsd ∧
        s.world.budget.spentUsd + s.world.budget.reservedUsd ≤ cfg.ceilingUsd ∧
        journalSpendUsd cfg s.world.journal ≤ s.world.budget.spentUsd) ∧
      (Fair cfg s.world.opened s.world.started →
        ∀ day, s.world.tokens.used day ≤ cfg.dailyCap) ∧
      ∃ recorded, s.world.journal = s.world.opened ++ recorded ∧ ∀ r ∈ recorded, r.Dated cfg := by
  have hsound : s.Sound (purseContract cfg admits) Pool.nothing :=
    Pool.Reachable.sound (fun _ _ => trivial)
      (fun p hp t w _ => by subst hp; exact safe_serve hadmits t w)
      (Pool.Sound.idle (kept_start hjournal)) hr
  obtain ⟨hsolvent, hcapped, hrecorded⟩ := hsound.inv
  refine ⟨⟨?_, hsolvent.ceiling, ?_⟩, hcapped.used, hrecorded⟩
  · rw [hsolvent.reserved]
    exact total_nonneg hsolvent.held_nonneg
  · have hunwritten := total_nonneg hsolvent.unwritten_nonneg
    have hspent := hsolvent.spent
    linarith

/-! ## Two callers with the same question -/

namespace TwoAsk

def mini : String := "gpt-4o-mini-2024-07-18"

def settings : Settings where
  prices model := if model = mini then some ⟨15 / 100, 60 / 100, by norm_num, by norm_num⟩ else none
  digest body :=
    if '[' ∈ body.toList then "09f63a504ac139bc897b4cc81b7a06e287c52705178f51c97e01b3fc7ad07f84"
    else "e1521c02e73f53ab053b923ad0353ce167fb69890034a0201cfd655761c645e5"
  earliestAllowed model := if model = mini then some 19722 else none
  record := true
  counted := mini
  ceilingUsd := 4
  dailyCap := 9000000
  ceilingUsd_pos := by decide
  dailyCap_pos := by decide

def question : LlmRequest where
  stage := "triage"
  model := mini
  promptVersion := "v1"
  promptHash := "p"
  system := "Reply in JSON."
  user := "\x7b\x7d"
  maxOutputTokens := 10
  asOf := 19723 * (86400 * Timestamp.second)
  one_le_maxOutputTokens := by decide

def answer : LlmReply := ⟨"\x7b\x7d", 9, 2, mini⟩

/-- The answer the model gives to questions of this size. -/
def Gives (request : LlmRequest) (reply : LlmReply) : Prop :=
  (request.model = mini ∧ request.promptChars = 16 ∧ request.maxOutputTokens = 10) ∧
    reply = answer

theorem honest_of_gives (request : LlmRequest) (reply : LlmReply) (h : Gives request reply) :
    Honest request reply := by
  obtain ⟨⟨hmodel, hchars, hmax⟩, rfl⟩ := h
  exact ⟨hmodel.symm, by rw [hchars]; decide, by rw [hmax]; decide⟩

def respond : Responder calls LlmError World := fun t w c => match c with
  | .take => some (.ok question, w)
  | .ask request =>
      if request.model = mini ∧ request.promptChars = 16 ∧ request.maxOutputTokens = 10 then
        some (.ok answer, w)
      else none
  | .now => some (.ok w.clock, w)
  | .get requestHash => some (.ok (w.get requestHash), w)
  | .append r => some (.ok !(w.get r.requestHash).isSome, w.append t (r.cost settings) r)
  | .reserveUsd worst =>
      if w.budget.spentUsd + w.budget.reservedUsd + worst ≤ settings.ceilingUsd then
        some (.ok (), w.reserveUsd t worst)
      else none
  | .releaseUsd worst => some (.ok (), w.releaseUsd t worst)
  | .recordUsd cost worst => some (.ok (), w.recordUsd t cost worst)
  | .reserveTokens worst =>
      if w.tokens.used w.today + w.tokens.reserved + worst ≤ settings.dailyCap then
        some (.ok (), w.reserveTokens t worst)
      else none
  | .releaseTokens worst => some (.ok (), w.releaseTokens t worst)
  | .recordTokens tokens worst => some (.ok (), w.recordTokens t tokens worst)

theorem respond_within : respond.Within (platform settings Gives) := by
  intro t w c a w' h
  refine ⟨w.clock, le_rfl, ?_⟩
  cases c with
  | take => cases h; exact .take
  | ask request =>
      simp only [respond] at h
      split at h
      · rename_i hasks
        cases h
        exact .replied ⟨hasks, rfl⟩
      · cases h
  | now => cases h; exact .time
  | get _ => cases h; exact .found
  | append r => cases h; exact .appended
  | reserveUsd worst =>
      simp only [respond] at h
      split at h
      · rename_i hfits
        cases h
        exact .reservedUsd hfits
      · cases h
  | releaseUsd _ => cases h; exact .releasedUsd
  | recordUsd _ _ => cases h; exact .recordedUsd
  | reserveTokens worst =>
      simp only [respond] at h
      split at h
      · rename_i hfits
        cases h
        exact .reservedTokens hfits
      · cases h
  | releaseTokens _ => cases h; exact .releasedTokens
  | recordTokens _ _ => cases h; exact .recordedTokens

/-- Both look in the journal before either is answered. -/
def moves : List (Move Unit) := [.start (), .start (), .run 0 4, .run 1 4, .run 0 20, .run 1 20]

def asked : Pool calls LlmError LlmReply World :=
  (Pool.idle (World.start settings 0 []) 0).play respond (platform settings Gives).restart
    (fun _ => serve settings) moves

theorem asked_reachable : Pool.Reachable (platform settings Gives) (fun p => p = serve settings)
    (Pool.idle (World.start settings 0 []) 0) asked := by
  refine Pool.Reachable.play respond_within (fun _ => ?_) .refl moves
  rfl

end TwoAsk

open TwoAsk in
theorem ceilings_hold_sample :
    asked.world.budget.calls = 2 ∧ asked.world.journal.length = 1 ∧
      0 < asked.world.budget.spentUsd ∧ asked.world.budget.reservedUsd = 0 ∧
      asked.world.budget.spentUsd + asked.world.budget.reservedUsd ≤ settings.ceilingUsd :=
  ⟨by decide +kernel, by decide +kernel, by decide +kernel, by decide +kernel,
    (ceilings_hold honest_of_gives (by decide +kernel) asked_reachable).1.2.1⟩

end Llm

end Emporos
