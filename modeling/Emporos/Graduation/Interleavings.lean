import Emporos.Graduation.Ledger
/-!
# Callers with stale readings

The contract of the service: before an append a task has read the newest
event of the strategy at some earlier moment, and for a promotion it has had
every requirement of the target stage assessed for that configuration, none
refused. The ledger keeps the law of `Lawful` against such appends, however
the tasks interleave, and every promotion in it is accounted for.
-/

namespace Emporos

namespace Graduation

open Async World

variable {R : Type} (cfg : Settings R) (t : ℕ)

/-- Among these entries of task `t` are assessments, for this configuration
and stage, of every requirement of the stage, none refused; and the
evidence is what some of them cited, and not nothing. -/
structure Assessed (trace : List (Entry R)) (strategy behaviourHash : String)
    (target : GraduationStage) (evidence : List EvidenceRef) : Prop where
  met : ∀ r ∈ cfg.policy.requirementsFor target, ∃ (request : PromotionRequest) (a : Assessment),
    request.strategy = strategy ∧ request.behaviourHash = behaviourHash ∧
      request.target = target ∧ (⟨t, .assess r request, .ok a⟩ : Entry R) ∈ trace ∧
      a.refusal = none
  some : evidence ≠ []
  cited : ∀ x ∈ evidence, ∃ r ∈ cfg.policy.requirementsFor target,
    ∃ (request : PromotionRequest) (a : Assessment), request.strategy = strategy ∧
      request.behaviourHash = behaviourHash ∧ request.target = target ∧
      (⟨t, .assess r request, .ok a⟩ : Entry R) ∈ trace ∧ a.evidence = Option.some x

/-- The task has read the newest event of a strategy from the ledger as it
was then. -/
def Seen (w : World R) (strategy : String) (last : Option GraduationEvent) : Prop :=
  ∃ seen, seen <:+ w.ledger ∧ last = latestOf seen strategy

/-- What a task must have done before it appends an event. -/
structure Grounded (w : World R) (event : GraduationEvent) (last : Option GraduationEvent) :
    Prop where
  seen : Seen w event.strategy last
  seq : event.seq = GraduationService.nextSeq last
  origin : event.fromStage = effectiveStage last event.behaviourHash
  assessed : event.kind = .promote →
    Assessed cfg t w.trace event.strategy event.behaviourHash event.toStage event.evidence

/-- The ledger only grows, and no entry of the task is lost. -/
structure Later (w w' : World R) : Prop where
  ledger : w.ledger <:+ w'.ledger
  own : ∀ x ∈ w.trace, x.task = t → x ∈ w'.trace

/-- **The invariant**: the events of each strategy are lawful, and each
promotion was assessed before it was appended. -/
structure Sound (w : World R) : Prop where
  lawful : ∀ strategy, Lawful (history w.ledger strategy)
  assessed : ∀ e ∈ w.ledger, e.kind = .promote → ∃ t l₁ answer l₂,
    w.trace = l₁ ++ (⟨t, .append e, answer⟩ : Entry R) :: l₂ ∧
      Assessed cfg t l₂ e.strategy e.behaviourHash e.toStage e.evidence

/-- What a task must have done before a call. -/
def Permit (w : World R) : Call R → Prop
  | .append event => ∃ last, Grounded cfg t w event last
  | _ => True

variable {cfg t} {w w' w'' : World R} {strategy behaviourHash : String}
  {last : Option GraduationEvent}

namespace Later

theorem refl (w : World R) : Later t w w := ⟨List.suffix_refl _, fun _ hx _ => hx⟩

theorem trans (h : Later t w w') (h' : Later t w' w'') : Later t w w'' where
  ledger := h.ledger.trans h'.ledger
  own x hx ht := h'.own x (h.own x hx ht) ht

theorem seen (h : Later t w w') (hs : Seen w strategy last) : Seen w' strategy last := by
  obtain ⟨seen, hsuffix, hlast⟩ := hs
  exact ⟨seen, hsuffix.trans h.ledger, hlast⟩

/-- Any call leaves every task what it had. -/
theorem of_step {u : ℕ} {c : Call R} {a : c.Answer} (hs : (platform R).step u w c a w') :
    Later t w w' where
  ledger := by
    obtain ⟨hserves, -⟩ := hs
    generalize w'.ledger = ledger at hserves ⊢
    cases hserves with
    | appended _ => exact List.suffix_cons _ _
    | _ => exact List.suffix_refl _
  own x hx _ := by
    rw [hs.2]
    exact List.mem_cons_of_mem _ hx

end Later

theorem Assessed.mono {trace trace' : List (Entry R)} {target : GraduationStage}
    {evidence : List EvidenceRef} (h : Assessed cfg t trace strategy behaviourHash target evidence)
    (hsub : ∀ x ∈ trace, x.task = t → x ∈ trace') :
    Assessed cfg t trace' strategy behaviourHash target evidence where
  met r hr := by
    obtain ⟨request, a, hstrategy, hhash, htarget, hmem, hmet⟩ := h.met r hr
    exact ⟨request, a, hstrategy, hhash, htarget, hsub _ hmem rfl, hmet⟩
  some := h.some
  cited x hx := by
    obtain ⟨r, hr, request, a, hstrategy, hhash, htarget, hmem, hcited⟩ := h.cited x hx
    exact ⟨r, hr, request, a, hstrategy, hhash, htarget, hsub _ hmem rfl, hcited⟩

/-! ## What an append that goes through follows -/

theorem history_suffix {seen ledger : List GraduationEvent} (h : seen <:+ ledger) :
    history seen strategy <:+ history ledger strategy := by
  obtain ⟨l, rfl⟩ := h
  rw [history, history, List.filter_append]
  exact List.suffix_append _ _

/-- **A reading behind an append that goes through was not stale**: the
number after it is free, so nothing was appended since. -/
theorem Grounded.head {event : GraduationEvent} (h : Grounded cfg t w event last)
    (hlawful : ∀ strategy, Lawful (history w.ledger strategy)) (hfree : ¬ Taken w.ledger event) :
    last = (history w.ledger event.strategy).head? ∧
      event.seq = (history w.ledger event.strategy).length + 1 := by
  obtain ⟨seen, hseen, hlast⟩ := h.seen
  obtain ⟨since, hsince⟩ := history_suffix hseen
  have hall : Lawful (since ++ history seen event.strategy) := by
    rw [hsince]
    exact hlawful event.strategy
  have hread : last = (history seen event.strategy).head? := by
    rw [hlast, latestOf, hall.suffix.argmax_eq]
  have hseq : event.seq = (history seen event.strategy).length + 1 := by
    rw [h.seq, hread]
    have hlaw := hall.suffix
    rcases hcases : history seen event.strategy with _ | ⟨e, l⟩
    · rfl
    · rw [hcases] at hlaw
      cases hlaw with
      | cons _ seq _ => exact congrArg (· + 1) seq
  have hnone : since = [] := by
    by_contra hne
    have hlength : 0 < since.length := List.length_pos_iff.mpr hne
    obtain ⟨e, he, hes⟩ := hall.mem_seqs (n := event.seq) (by omega)
      (by rw [List.length_append]; omega)
    rw [hsince] at he
    obtain ⟨hmem, hstrategy⟩ := List.mem_filter.mp he
    exact hfree ⟨e, hmem, by simpa using hstrategy, hes⟩
  rw [hnone, List.nil_append] at hsince
  rw [← hsince]
  exact ⟨hread, hseq⟩

/-- **A permitted call keeps the ledger sound.** -/
theorem Sound.step {c : Call R} {a : c.Answer} (h : Sound cfg w) (hg : Permit cfg t w c)
    (hs : (platform R).step t w c a w') : Sound cfg w' := by
  obtain ⟨hserves, htrace⟩ := hs
  have hkeep : ∀ e ∈ w.ledger, e.kind = .promote → ∃ t l₁ answer l₂,
      w'.trace = l₁ ++ (⟨t, .append e, answer⟩ : Entry R) :: l₂ ∧
        Assessed cfg t l₂ e.strategy e.behaviourHash e.toStage e.evidence := by
    intro e he hkind
    obtain ⟨u, l₁, answer, l₂, hsplit, hassessed⟩ := h.assessed e he hkind
    exact ⟨u, _ :: l₁, answer, l₂, by rw [htrace, hsplit]; rfl, hassessed⟩
  have hsame : w'.ledger = w.ledger → Sound cfg w' := fun hledger =>
    ⟨by rw [hledger]; exact h.lawful, by rw [hledger]; exact hkeep⟩
  generalize hledger : w'.ledger = ledger at hserves
  cases hserves with
  | latest => exact hsame hledger
  | assess => exact hsame hledger
  | now => exact hsame hledger
  | conflict taken => exact hsame hledger
  | failed => exact hsame hledger
  | @appended event answer free =>
      obtain ⟨last, hgrounded⟩ := hg
      obtain ⟨hhead, hseq⟩ := hgrounded.head h.lawful free
      refine ⟨fun strategy => ?_, fun e he hkind => ?_⟩
      · rw [hledger, history]
        by_cases hown : event.strategy = strategy
        · rw [List.filter_cons_of_pos (by simpa using hown), ← history]
          subst hown
          exact .cons (h.lawful _) hseq (hhead ▸ hgrounded.origin)
        · rw [List.filter_cons_of_neg (by simpa using hown)]
          exact h.lawful strategy
      · rw [hledger] at he
        rcases List.mem_cons.mp he with rfl | he
        · exact ⟨t, [], answer, w.trace, htrace, hgrounded.assessed hkind⟩
        · exact hkeep e he hkind

variable (cfg) in
/-- **The contract of the service.** -/
def graduationContract : Contract (platform R) where
  inv := Sound cfg
  rely := Later
  guar t w c := Permit cfg t w c
  rely_refl _ := Later.refl
  rely_trans := Later.trans
  step_inv := Sound.step
  step_rely _ _ hs _ := .of_step hs
  restart_inv h := h

/-! ## The programs keep to the contract -/

open Task

/-- The rule of a call that is free to make. -/
theorem safe_call {β : Type} {c : Call R} {f : c.Value → Program R β}
    {Q : Except GraduationError β → World R → Prop} (hfree : ∀ w', Permit cfg t w' c)
    (hok : ∀ v w' w'', Later t w w' → (platform R).step t w' c (.ok v) w'' → Later t w w'' →
      (graduationContract cfg).Safe t (f v) Q w'')
    (herror : ∀ e w'', Q (.error e) w'') :
    (graduationContract cfg).Safe t (ask (I := calls R) c >>= f) Q w := by
  refine (Contract.safe_bind _ _).mpr (Contract.safe_ask.mpr fun w' _ hlater => ?_)
  refine ⟨hfree w', fun a w'' hs _ => ?_⟩
  rcases a with e | v
  · exact herror e w''
  · exact hok v w' w'' hlater hs (hlater.trans (.of_step hs))

/-- What the reports of an assessment say of the requirements, one for
another: that a requirement was not refused, it answered. -/
def Reported (t : ℕ) (w : World R) (request : PromotionRequest) :
    List R → List RequirementReport → Prop :=
  List.Forall₂ fun r report => report.assessment.refusal = none →
    (⟨t, .assess r request, .ok report.assessment⟩ : Entry R) ∈ w.trace

theorem safe_assess {request : PromotionRequest} {rules : List R} :
    (graduationContract cfg).Safe t (GraduationService.assess cfg request rules)
      (fun r w' => Later t w w' ∧ ∀ reports, r = .ok reports → Reported t w' request rules reports)
      w := by
  induction rules generalizing w with
  | nil => exact ⟨.refl w, fun reports h => (by cases h; exact .nil)⟩
  | cons rule rules ih =>
      refine (Contract.safe_bind _ _).mpr ((Contract.safe_attempt _).mpr
        (Contract.safe_ask.mpr fun w' _ hlater => ⟨trivial, fun answer w'' hs _ => ?_⟩))
      have hlater' : Later t w w'' := hlater.trans (.of_step hs)
      refine (Contract.safe_bind _ _).mpr (ih.mono ?_)
      rintro (e | reports) w₂ ⟨hlater₂, hreported⟩
      · exact ⟨hlater'.trans hlater₂, fun reports h => (by cases h)⟩
      · refine ⟨hlater'.trans hlater₂, fun all h => ?_⟩
        cases h
        refine .cons (fun hmet => ?_) (hreported reports rfl)
        -- what was not refused was answered, and the answer is in the trace
        rcases answer with e | assessment
        · cases hmet
        · refine hlater₂.own _ ?_ rfl
          rw [hs.2]
          exact List.mem_cons_self ..

/-- The rule of the append at the end of every operation. -/
theorem safe_append {origin target : GraduationStage} {kind : TransitionKind}
    {evidence : List EvidenceRef} {actor reason : String} (hseen : Seen w strategy last)
    (horigin : origin = effectiveStage last behaviourHash)
    (hassessed : kind = .promote → Assessed cfg t w.trace strategy behaviourHash target evidence) :
    (graduationContract cfg).Safe t
      (GraduationService.append last strategy behaviourHash origin target kind evidence actor reason)
      (fun _ _ => True) w := by
  refine safe_call (fun _ => trivial) (fun moment w₁ w₂ _ _ hlater => ?_) fun _ _ => trivial
  rcases hmake : GraduationEvent.make strategy behaviourHash (GraduationService.nextSeq last) origin
    target kind evidence actor reason moment with e | event
  · exact trivial
  · change (graduationContract cfg).Safe t (ask (I := calls R) (.append event) >>= _) _ w₂
    refine (Contract.safe_bind _ _).mpr (Contract.safe_ask.mpr fun w₃ _ hlater₃ => ?_)
    refine ⟨⟨last, ?_⟩, fun a w₄ _ _ => ?_⟩
    · have hlate := hlater.trans hlater₃
      obtain ⟨rfl, rfl, hseq, rfl, rfl, rfl, rfl⟩ := GraduationEvent.fields_of_make hmake
      exact ⟨hlate.seen hseen, hseq, horigin, fun h => (hassessed h).mono hlate.own⟩
    · rcases a with e | u <;> trivial

theorem serves_latest {ledger ledger' : List GraduationEvent}
    {a : (Call.latest (R := R) strategy).Answer}
    (h : Serves ledger (.latest strategy) a ledger') : ledger' = ledger ∧
      (a = .ok (latestOf ledger strategy) ∨ ∃ name, a = .error (.other name)) := by
  cases h with
  | latest => exact ⟨rfl, Or.inl rfl⟩
  | failed => exact ⟨rfl, Or.inr ⟨_, rfl⟩⟩

/-- The rule of the reading at the start of every operation. -/
theorem safe_latest {β : Type} {f : Option GraduationEvent → Program R β}
    {Q : Except GraduationError β → World R → Prop}
    (hok : ∀ last w'', Seen w'' strategy last → (graduationContract cfg).Safe t (f last) Q w'')
    (herror : ∀ e w'', Q (.error e) w'') :
    (graduationContract cfg).Safe t (ask (I := calls R) (.latest strategy) >>= f) Q w := by
  refine safe_call (fun _ => trivial) (fun last w' w'' _ hs _ => hok last w'' ?_) herror
  obtain ⟨hledger, hread⟩ := serves_latest hs.1
  rcases hread with hread | ⟨name, hread⟩
  · exact ⟨w'.ledger, hledger ▸ List.suffix_refl _, Except.ok.inj hread⟩
  · cases hread

theorem exists_of_mem_left {α β : Type} {rel : α → β → Prop} {l : List α} {out : List β}
    (h : List.Forall₂ rel l out) {x : α} (hx : x ∈ l) : ∃ y ∈ out, rel x y := by
  induction h with
  | nil => cases hx
  | cons hhead _ ih =>
      rcases List.mem_cons.mp hx with rfl | hx
      · exact ⟨_, List.mem_cons_self .., hhead⟩
      · obtain ⟨y, hy, hrel⟩ := ih hx
        exact ⟨y, List.mem_cons_of_mem _ hy, hrel⟩

theorem exists_of_mem_right {α β : Type} {rel : α → β → Prop} {l : List α} {out : List β}
    (h : List.Forall₂ rel l out) {y : β} (hy : y ∈ out) : ∃ x ∈ l, rel x y :=
  exists_of_mem_left h.flip hy

/-- Reports without a refusal, and with evidence, are an assessment that the
promotion can be made on. -/
theorem Reported.assessed {request : PromotionRequest} {reports : List RequirementReport}
    (h : Reported t w request (cfg.policy.requirementsFor request.target) reports)
    (hrefused : (reports.filterMap fun r => r.assessment.refusal).eraseDups = [])
    (hevidence : (reports.filterMap fun r => r.assessment.evidence) ≠ []) :
    Assessed cfg t w.trace request.strategy request.behaviourHash request.target
      (reports.filterMap fun r => r.assessment.evidence) := by
  have hnone : ∀ report ∈ reports, report.assessment.refusal = none := by
    intro report hreport
    rcases hrefusal : report.assessment.refusal with _ | reason
    · rfl
    · have hmem : reason ∈ (reports.filterMap fun r => r.assessment.refusal).eraseDups :=
        List.mem_eraseDups.mpr (List.mem_filterMap.mpr ⟨report, hreport, hrefusal⟩)
      rw [hrefused] at hmem
      exact absurd hmem List.not_mem_nil
  refine ⟨fun r hr => ?_, hevidence, fun x hx => ?_⟩
  · obtain ⟨report, hreport, hanswer⟩ := exists_of_mem_left h hr
    exact ⟨request, report.assessment, rfl, rfl, rfl, hanswer (hnone _ hreport), hnone _ hreport⟩
  · obtain ⟨report, hreport, hcited⟩ := List.mem_filterMap.mp hx
    obtain ⟨r, hr, hanswer⟩ := exists_of_mem_right h hreport
    exact ⟨r, hr, request, report.assessment, rfl, rfl, rfl, hanswer (hnone _ hreport), hcited⟩

theorem safe_promote {target : GraduationStage} {actor : String} {experimentId : Option String}
    {jevEnabled : Bool} :
    (graduationContract cfg).Safe t
      (GraduationService.promote cfg strategy behaviourHash target actor experimentId jevEnabled)
      (fun _ _ => True) w := by
  refine safe_latest (fun last w₁ hseen => ?_) fun _ _ => trivial
  dsimp only
  rcases GraduationService.requireNextStage (effectiveStage last behaviourHash) target with e | u
  · trivial
  · change (graduationContract cfg).Safe t (ite _ _ _) _ _
    split
    · trivial
    · refine (Contract.safe_bind _ _).mpr (safe_assess.mono ?_)
      rintro (e | reports) w₂ ⟨hlater, hreported⟩
      · trivial
      · dsimp only
        split
        · trivial
        · split
          · trivial
          · rename_i hrefused hevidence
            exact safe_append (hlater.seen hseen) rfl fun _ =>
              (hreported reports rfl).assessed (not_not.mp hrefused) hevidence

theorem safe_demote {target : GraduationStage} {actor reason : String} :
    (graduationContract cfg).Safe t
      (GraduationService.demote strategy behaviourHash target actor reason)
      (fun _ _ => True) w := by
  refine safe_latest (fun last w₁ hseen => ?_) fun _ _ => trivial
  dsimp only
  split
  · trivial
  · split
    · trivial
    · exact safe_append hseen rfl fun h => (by cases h)

theorem safe_retire {actor reason : String} :
    (graduationContract cfg).Safe t (GraduationService.retire strategy behaviourHash actor reason)
      (fun _ _ => True) w := by
  refine safe_latest (fun last w₁ hseen => ?_) fun _ _ => trivial
  dsimp only
  split
  · trivial
  · exact safe_append hseen rfl fun h => (by cases h)

/-- **The service keeps to its contract.** -/
theorem safe_op (op : Op) : (graduationContract cfg).Safe t (op.program cfg) (fun _ _ => True) w := by
  cases op with
  | promote => exact safe_promote
  | demote => exact safe_demote
  | retire => exact safe_retire

end Graduation

end Emporos
