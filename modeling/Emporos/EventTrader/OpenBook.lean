import Emporos.EventTrader.Replay
/-!
# What the replay's book holds at an instant

A trade is open from its entry until it leaves. An order is reviewed against
what is open when it is placed, and is filled then or later; a trade that is
approved and not yet entered is not among what is open. The caps hold at
every instant of a run in which every order that is approved would be
approved with those counted too; and behind the kill nothing is open if none
waits when it trips.
-/

namespace Emporos

namespace Decimal

variable [DecimalContext] [Ordered] [Lawful]

/-- Leaving out amounts that are not negative never adds to a sum. -/
theorem foldl_add_le_of_sublist {l l' : List Decimal} (h : l.Sublist l') (hnonneg : ∀ x ∈ l', 0 ≤ x)
    {a a' : Decimal} (ha : a ≤ a') (hkept : Kept a') : l.foldl add a ≤ l'.foldl add a' := by
  have hround (x : ℚ) : Kept (DecimalContext.round x) := Lawful.round_round x
  induction h generalizing a a' with
  | slnil => exact ha
  | cons x _ ih =>
      have hx : 0 ≤ x := hnonneg x List.mem_cons_self
      refine ih (fun y hy => hnonneg y (List.mem_cons_of_mem _ hy)) (ha.trans ?_) (hround _)
      calc a' = DecimalContext.round a' := hkept.symm
        _ ≤ add a' x := Ordered.round_le (le_add_of_nonneg_right hx)
  | cons_cons x _ ih =>
      refine ih (fun y hy => hnonneg y (List.mem_cons_of_mem _ hy)) ?_ (hround _)
      exact Ordered.round_le (add_le_add_left ha x)

end Decimal

namespace EventTrader

/-- What a trade counts for, while it is open. -/
structure Stake where
  name : String
  product : Product
  risk : Decimal

def TradeRecord.stake (t : TradeRecord) : Stake := ⟨t.name, t.product, t.risk⟩

namespace TradeRecord

variable (t : TradeRecord) (at_ : Timestamp)

def IsOpen : Prop := t.entryTs ≤ at_ ∧ at_ < t.exitTs

def IsEquity : Prop := t.product ≠ .option

instance : Decidable (t.IsOpen at_) := inferInstanceAs (Decidable (_ ∧ _))

instance : Decidable t.IsEquity := inferInstanceAs (Decidable (_ ≠ _))

end TradeRecord

/-- The equity trades that are open at an instant. -/
def held (trades : List TradeRecord) (at_ : Timestamp) : List Stake :=
  (trades.filter fun t => t.IsEquity ∧ t.IsOpen at_).map (·.stake)

/-- Everything that has not left the book by an instant: what is open then,
and what is approved and not yet entered. -/
def remaining (trades : List TradeRecord) (at_ : Timestamp) : List TradeRecord :=
  trades.filter fun t => ¬ t.exitTs ≤ at_

section Caps

variable [DecimalContext]

/-- **The caps**, of what is open. -/
structure WithinCaps (limits : RiskLimits) (open_ : List Stake) : Prop where
  intraday : (open_.filter fun x => x.product = .intraday).length ≤ limits.maxIntradayPositions
  swing : (open_.filter fun x => x.product = .swing).length ≤ limits.maxSwingPositions
  risk : open_ ≠ [] → total (open_.map (·.risk)) ≤ limits.openRisk
  names : (open_.map (·.name)).Nodup

/-- At every instant. -/
def Respects (limits : RiskLimits) (trades : List TradeRecord) : Prop :=
  ∀ at_, WithinCaps limits (held trades at_)

/-- Behind a kill: none is open, and none is entered. -/
def Stopped (k : Timestamp) (trades : List TradeRecord) : Prop :=
  ∀ t ∈ trades, t.IsEquity → t.entryTs ≤ k ∧ t.exitTs ≤ k

/-- The rules of the book pass. -/
def Allowed (limits : RiskLimits) (p : EntryProposal) (sized : Sized) (s : RiskSnapshot) : Prop :=
  onePositionPerName.refuses p sized s = false ∧ (maxPositions limits).refuses p sized s = false ∧
    (openRiskCap limits).refuses p sized s = false

variable {limits : RiskLimits} {trades : List TradeRecord} {t : TradeRecord} {at_ k : Timestamp}
  {l l' : List Stake} {x : Stake}

theorem total_append {amounts : List Decimal} {a : Decimal} :
    total (amounts ++ [a]) = (total amounts).add a := by
  simp only [total, List.foldl_append, List.foldl_cons, List.foldl_nil]

theorem withinCaps_nil : WithinCaps limits [] :=
  ⟨Nat.zero_le _, Nat.zero_le _, fun h => absurd rfl h, List.nodup_nil⟩

omit [DecimalContext] in
theorem held_append : held (trades ++ [t]) at_ =
    held trades at_ ++ if t.IsEquity ∧ t.IsOpen at_ then [t.stake] else [] := by
  rw [held, held, List.filter_append, List.map_append, List.filter_cons, List.filter_nil]
  congr 1
  split
  · rename_i h
    rw [if_pos (of_decide_eq_true h)]
    rfl
  · rename_i h
    rw [if_neg (by simpa using h)]
    rfl

/-- What a kill keeps of a trade, and what it changes. -/
theorem Book.closed_spec (market : MarketData) (k : Timestamp) (t : TradeRecord) :
    (Book.closed market k t).risk = t.risk ∧ (Book.closed market k t).product = t.product ∧
      (Book.closed market k t).entryTs = t.entryTs ∧
        (t.entryTs ≤ k → (Book.closed market k t).exitTs ≤ k) := by
  rw [Book.closed]
  split
  · exact ⟨rfl, rfl, rfl, fun _ => le_rfl⟩
  · rename_i hopen
    exact ⟨rfl, rfl, rfl, fun hentry => not_lt.mp fun hexit => hopen ⟨hentry, hexit⟩⟩

/-- Closing early leaves open no more than was. -/
theorem held_closeAll {market : MarketData} :
    (held (Book.closeAll market trades k) at_).Sublist (held trades at_) := by
  rw [held, held, Book.closeAll, List.filter_map, List.map_map]
  have hstake : (fun t : TradeRecord => t.stake) ∘ Book.closed market k = fun t => t.stake := by
    funext t
    show (Book.closed market k t).stake = t.stake
    rw [Book.closed]
    split <;> rfl
  rw [hstake]
  refine (List.monotone_filter_right trades fun t ht => ?_).map _
  have hopen : (Book.closed market k t).IsEquity ∧ (Book.closed market k t).IsOpen at_ :=
    of_decide_eq_true ht
  rw [Book.closed] at hopen
  refine decide_eq_true ?_
  split at hopen
  · rename_i hclose
    obtain ⟨hequity, hentry, hexit⟩ := hopen
    exact ⟨hequity, hentry, lt_trans hexit hclose.2⟩
  · exact hopen

section Order

variable [Decimal.Ordered] [Decimal.Lawful]

theorem total_le_of_sublist {amounts amounts' : List Decimal} (h : amounts.Sublist amounts')
    (hnonneg : ∀ a ∈ amounts', 0 ≤ a) : total amounts ≤ total amounts' :=
  Decimal.foldl_add_le_of_sublist h hnonneg le_rfl DecimalContext.round_zero

theorem WithinCaps.sublist (h : WithinCaps limits l') (hsub : l.Sublist l')
    (hnonneg : ∀ x ∈ l', 0 ≤ x.risk) : WithinCaps limits l where
  intraday := (hsub.filter _).length_le.trans h.intraday
  swing := (hsub.filter _).length_le.trans h.swing
  risk hne := by
    refine (total_le_of_sublist (hsub.map _) fun a ha => ?_).trans (h.risk fun hnil => hne ?_)
    · obtain ⟨x, hx, rfl⟩ := List.mem_map.mp ha
      exact hnonneg x hx
    · exact List.sublist_nil.mp (hnil ▸ hsub)
  names := h.names.sublist (hsub.map _)

omit [DecimalContext] [Decimal.Ordered] [Decimal.Lawful] in
/-- What is open when an order is filled has not left when it was placed. -/
theorem held_sublist_remaining {placedAt : Timestamp} (h : placedAt ≤ at_) :
    (held trades at_).Sublist ((remaining trades placedAt).map (·.stake)) := by
  refine (List.monotone_filter_right trades fun t ht => ?_).map _
  obtain ⟨-, -, hexit⟩ := of_decide_eq_true ht
  exact decide_eq_true (not_le.mpr (lt_of_le_of_lt h hexit))

/-- **An order that is allowed with the waiting trades counted** keeps the
caps, at every instant from its entry on. -/
theorem withinCaps_append {p : EntryProposal} {sized : Sized} {market : MarketData} {s : RiskSnapshot}
    (hold : WithinCaps limits (held trades at_))
    (hs : s.openPositions = (remaining trades p.at_).map (Book.openPosition market p.at_))
    (hallowed : Allowed limits p sized s) (hproduct : p.product ≠ .option) (hle : p.at_ ≤ at_)
    (hnonneg : ∀ t ∈ trades, 0 ≤ t.risk) :
    WithinCaps limits (held trades at_ ++ [⟨p.name, p.product, sized.risk⟩]) := by
  obtain ⟨hname, hcount, hrisk⟩ := hallowed
  have hsub : (held trades at_).Sublist ((remaining trades p.at_).map (·.stake)) :=
    held_sublist_remaining hle
  have hcap : ((held trades at_).filter fun x => x.product = p.product).length <
      maxOf limits p.product := by
    have hmax : s.count (counted p.product) < maxOf limits p.product := by
      simpa [maxPositions] using hcount
    refine lt_of_le_of_lt ?_ hmax
    have hfilter : (((remaining trades p.at_).map (·.stake)).filter
        fun x => x.product = p.product).length ≤ s.count (counted p.product) := by
      rw [RiskSnapshot.count, hs, List.filter_map, List.filter_map, List.length_map, List.length_map]
      refine (List.monotone_filter_right _ fun t ht => ?_).length_le
      have ht : t.product = p.product := of_decide_eq_true ht
      refine decide_eq_true ?_
      show t.product ∈ counted p.product
      rw [ht]
      cases hp : p.product with
      | intraday => exact List.mem_cons_self
      | swing => exact List.mem_cons_self
      | option => exact absurd hp hproduct
    exact (hsub.filter _).length_le.trans hfilter
  have hone : ∀ q : Product, ((held trades at_ ++ [(⟨p.name, p.product, sized.risk⟩ : Stake)]).filter
      fun x => x.product = q).length =
        ((held trades at_).filter fun x => x.product = q).length + if p.product = q then 1 else 0 := by
    intro q
    rw [List.filter_append, List.length_append, List.filter_cons, List.filter_nil]
    by_cases hq : p.product = q
    · rw [if_pos (decide_eq_true hq), if_pos hq, List.length_singleton]
    · rw [if_neg (by simpa using hq), if_neg hq, List.length_nil]
  refine ⟨?_, ?_, fun _ => ?_, ?_⟩
  · rw [hone]
    split
    · rename_i hq
      rw [hq] at hcap
      exact hcap
    · exact hold.intraday
  · rw [hone]
    split
    · rename_i hq
      rw [hq] at hcap
      exact hcap
    · exact hold.swing
  · have hopen : (s.openRisk).add sized.risk ≤ limits.openRisk := by
      simpa [openRiskCap] using hrisk
    refine le_trans ?_ hopen
    rw [List.map_append, List.map_cons, List.map_nil, total_append, RiskSnapshot.openRisk, hs,
      List.map_map]
    refine Decimal.Ordered.round_le (add_le_add_left ?_ _)
    have hrisks := hsub.map Stake.risk
    rw [List.map_map] at hrisks
    refine total_le_of_sublist hrisks fun a ha => ?_
    obtain ⟨t, ht, rfl⟩ := List.mem_map.mp ha
    exact hnonneg t (List.mem_of_mem_filter ht)
  · rw [List.map_append, List.nodup_append]
    refine ⟨hold.names, List.nodup_singleton _, fun a ha b hb => ?_⟩
    obtain rfl := List.mem_singleton.mp hb
    obtain ⟨x, hx, rfl⟩ := List.mem_map.mp ha
    obtain ⟨t, ht, rfl⟩ := List.mem_map.mp (hsub.subset hx)
    intro hsame
    have hholds : s.holds p.name = true := by
      rw [RiskSnapshot.holds, hs, List.any_eq_true]
      exact ⟨_, List.mem_map_of_mem ht, decide_eq_true hsame⟩
    exact absurd hname (by simp [onePositionPerName, hholds])

end Order

end Caps

/-! ## A size, and an order -/

section Sizes

variable [DecimalContext] {limits : RiskLimits} {p : EntryProposal} {s : RiskSnapshot} {sized : Sized}

omit [DecimalContext] in
theorem risk_of_sizedOf {quantity : ℤ} {value risk : ℕ → Decimal}
    (h : ((sizedOf quantity value risk).map .inl).getD (.inr "sizing") =
      (.inl sized : Sized ⊕ String)) : ∃ n, sized.risk = risk n := by
  unfold sizedOf at h
  split at h
  · obtain rfl := Sum.inl.inj h
    exact ⟨_, rfl⟩
  · cases h

theorem size_of_review (h : review limits p s = .approved sized) : size limits p s = .inl sized := by
  unfold review at h
  split at h
  · cases h
  · rename_i sized' hsize
    simp only at h
    split at h
    · rw [hsize, RiskDecision.approved.inj h]
    · cases h

/-- No rule refuses what is approved. -/
theorem rules_of_review (h : review limits p s = .approved sized) :
    ∀ rule ∈ standardRules limits, rule.refuses p sized s = false := by
  have hsize := size_of_review h
  rw [review, hsize] at h
  simp only at h
  split at h
  · rename_i hnone
    exact fun rule hrule => by simpa using List.filter_eq_nil_iff.mp hnone rule hrule
  · cases h

/-- What an approved equity order risks is the distance to its stop, for each
share. -/
theorem risk_of_size (hproduct : p.product ≠ .option) (h : size limits p s = .inl sized) :
    ∃ (distance : Decimal) (n : ℕ), sized.risk = distance.abs.mul n := by
  unfold size at h
  simp only at h
  split at h
  · cases h
  · split at h
    · cases h
    · split at h
      · cases h
      · obtain ⟨n, hn⟩ := risk_of_sizedOf h
        exact ⟨_, n, hn⟩

theorem risk_nonneg_of_review [Decimal.Ordered] (hproduct : p.product ≠ .option)
    (h : review limits p s = .approved sized) : 0 ≤ sized.risk := by
  have hround {x : ℚ} (hx : 0 ≤ x) : 0 ≤ DecimalContext.round x :=
    DecimalContext.round_zero ▸ Decimal.Ordered.round_le hx
  obtain ⟨distance, n, hrisk⟩ := risk_of_size hproduct (size_of_review h)
  rw [hrisk]
  exact hround (mul_nonneg (hround (abs_nonneg _)) n.cast_nonneg)

end Sizes

/-! ## A run -/

namespace ReplayEngine

variable [DecimalContext] {σ : Type} (engine : ReplayEngine σ)

/-- The snapshot at a moment, with the trades that wait to be entered among
the open ones. -/
def countingWaiting (s : ReplayState σ) (at_ : Timestamp) (scale : Decimal) : RiskSnapshot :=
  { engine.snapshot s at_ scale with
    openPositions := (remaining s.book at_).map (Book.openPosition engine.market at_) }

/-- **A step that heeds what waits.** An order that is approved would be with
the waiting trades counted; and where the kill trips, no equity trade waits. -/
structure Good (s : ReplayState σ) (event : MarketEvent) : Prop where
  kill : event.instrumentId ≠ "" →
    killTripped engine.limits (engine.snapshot s event.decisionAt 1) →
      ∀ t ∈ s.book, t.IsEquity → t.entryTs ≤ event.decisionAt
  order : ∀ plan p target sized,
    (engine.decide s.decider event event.decisionAt).1 = ⟨.trade, some plan⟩ →
      engine.order event plan event.decisionAt = .ok (.inl (p, target)) →
        review engine.limits p (engine.snapshot s p.at_ (engine.scaleOf p)) = .approved sized →
          Allowed engine.limits p sized (engine.countingWaiting s p.at_ (engine.scaleOf p))

/-- Every step of a run, up to the kill. -/
def GoodRun : List MarketEvent → ReplayState σ → Prop
  | [], _ => True
  | event :: events, s => (s.stats.killedAt = none → engine.Good s event) ∧
      ∀ s', engine.step s event = .ok s' → GoodRun events s'

/-- What an option placer is held to. -/
def PlacesOptions : Prop := ∀ place, engine.options = some place →
  ∀ event plan at_ book scale trade, place event plan at_ book scale = .inl trade →
    trade.product = .option ∧ 0 ≤ trade.risk

/-- What holds of a run so far. -/
structure Kept (s : ReplayState σ) : Prop where
  respects : Respects engine.limits s.book
  risk_nonneg : ∀ t ∈ s.book, 0 ≤ t.risk
  stopped : ∀ k, s.stats.killedAt = some k → Stopped k s.book

variable {engine} {s s' : ReplayState σ} {event : MarketEvent} {plan : TradePlan}
  {decisionAt : Timestamp} {cost : Decimal} {trade : TradeRecord}

/-- **What an order does.** -/
theorem enter_cases (h : engine.enter s event plan decisionAt cost = .ok s') :
    (s'.book = s.book ∧ s'.stats.killedAt = s.stats.killedAt) ∨
      ∃ p target sized f exit, engine.order event plan decisionAt = .ok (.inl (p, target)) ∧
        review engine.limits p (engine.snapshot s p.at_ (engine.scaleOf p)) = .approved sized ∧
        fill engine.market engine.execution p.name plan.side p.at_ sized.quantity = .inl f ∧
        s' = added s (engine.record event plan p sized f exit cost) := by
  obtain ⟨ordered, hordered, h⟩ := exists_of_bind h
  cases ordered with
  | inr reason =>
      obtain rfl := Except.ok.inj h
      exact .inl ⟨rfl, rfl⟩
  | inl ordered =>
      obtain ⟨p, target⟩ := ordered
      simp only at h
      split at h
      · obtain rfl := Except.ok.inj h
        exact .inl ⟨rfl, rfl⟩
      · rename_i sized hreview
        split at h
        · obtain rfl := Except.ok.inj h
          exact .inl ⟨rfl, rfl⟩
        · rename_i f hfill
          obtain ⟨exit, -, h⟩ := exists_of_bind h
          obtain rfl := Except.ok.inj h
          exact .inr ⟨p, target, sized, f, exit, hordered, hreview, hfill, rfl⟩

/-- What is ordered is of the event's name, and no option. -/
theorem order_spec {p : EntryProposal} {target : Decimal}
    (h : engine.order event plan decisionAt = .ok (.inl (p, target))) :
    p.name = event.instrumentId ∧ p.product ≠ .option := by
  unfold order at h
  split at h
  · cases h
  · split at h
    · cases h
    · simp only at h
      split at h
      · cases h
        refine ⟨rfl, ?_⟩
        show productOf plan.instrument ≠ .option
        cases plan.instrument <;> nofun
      · cases h

theorem kept_initial {initial : σ} : engine.Kept ⟨[], .initial, initial⟩ where
  respects _ := withinCaps_nil
  risk_nonneg := List.forall_mem_nil _
  stopped := nofun

theorem Kept.congr (h : engine.Kept s) (hbook : s'.book = s.book)
    (hkilled : s'.stats.killedAt = s.stats.killedAt) : engine.Kept s' where
  respects := hbook ▸ h.respects
  risk_nonneg := hbook ▸ h.risk_nonneg
  stopped k hk := hbook ▸ h.stopped k (hkilled ▸ hk)

/-- An option changes nothing of the equity trades. -/
theorem Kept.add_option (h : engine.Kept s) (hrunning : s.stats.killedAt = none)
    (hproduct : trade.product = .option) (hrisk : 0 ≤ trade.risk) : engine.Kept (added s trade) where
  respects at_ := by
    have hnot : ¬ (trade.IsEquity ∧ trade.IsOpen at_) := fun hopen => hopen.1 hproduct
    rw [added, held_append, if_neg hnot, List.append_nil]
    exact h.respects at_
  risk_nonneg t ht := by
    rcases List.mem_append.mp ht with ht | ht
    · exact h.risk_nonneg t ht
    · rwa [List.mem_singleton.mp ht]
  stopped k hk := by
    rw [show (added s trade).stats.killedAt = none from hrunning] at hk
    cases hk

/-- An order in the session is placed when it is decided. -/
theorem at_of_order {p : EntryProposal} {target : Decimal}
    (h : engine.order event plan decisionAt = .ok (.inl (p, target)))
    (htime : entryTime decisionAt engine.market = some decisionAt) : p.at_ = decisionAt := by
  unfold order at h
  rw [htime] at h
  simp only at h
  split at h
  · cases h
  · split at h
    · cases h
      rfl
    · cases h

/-- Where no trade waits, an approved order heeds them all. -/
theorem allowed_of_entered {p : EntryProposal} {sized : Sized} {scale : Decimal}
    (hreview : review engine.limits p (engine.snapshot s p.at_ scale) = .approved sized)
    (hentered : ∀ t ∈ s.book, t.entryTs ≤ p.at_) :
    Allowed engine.limits p sized (engine.countingWaiting s p.at_ scale) := by
  have hsame : engine.countingWaiting s p.at_ scale = engine.snapshot s p.at_ scale := by
    have hopen : remaining s.book p.at_ =
        s.book.filter fun t => ¬ t.exitTs ≤ p.at_ ∧ t.entryTs ≤ p.at_ :=
      List.filter_congr fun t ht => by simp [hentered t ht]
    rw [countingWaiting, hopen]
    rfl
  have hpass := rules_of_review hreview
  rw [hsame]
  refine ⟨hpass _ ?_, hpass _ ?_, hpass _ ?_⟩ <;> simp [standardRules]

variable [Decimal.Ordered] [Decimal.Lawful]

/-- The kill closes what is open, and none waits. -/
theorem Kept.kill {k : Timestamp} {stats : RunStats} (h : engine.Kept s)
    (hwaiting : ∀ t ∈ s.book, t.IsEquity → t.entryTs ≤ k) (hkilled : stats.killedAt = some k) :
    engine.Kept { s with book := Book.closeAll engine.market s.book k, stats } where
  respects at_ := by
    refine (h.respects at_).sublist held_closeAll fun x hx => ?_
    obtain ⟨t, ht, rfl⟩ := List.mem_map.mp hx
    exact h.risk_nonneg t (List.mem_of_mem_filter ht)
  risk_nonneg t ht := by
    obtain ⟨u, hu, rfl⟩ := List.mem_map.mp ht
    rw [(Book.closed_spec engine.market k u).1]
    exact h.risk_nonneg u hu
  stopped k' hk := by
    obtain rfl : k = k' := Option.some.inj (hkilled.symm.trans hk)
    intro t ht hequity
    obtain ⟨u, hu, rfl⟩ := List.mem_map.mp ht
    obtain ⟨-, hproduct, hentry, hexit⟩ := Book.closed_spec engine.market k u
    have hle : u.entryTs ≤ k := hwaiting u hu fun hoption => hequity (hproduct.trans hoption)
    exact ⟨hentry.trans_le hle, hexit hle⟩

/-- **An order that heeds what waits** keeps the caps. -/
theorem Kept.enter (h : engine.Kept s) (hrunning : s.stats.killedAt = none)
    (hgood : ∀ p target sized, engine.order event plan decisionAt = .ok (.inl (p, target)) →
      review engine.limits p (engine.snapshot s p.at_ (engine.scaleOf p)) = .approved sized →
        Allowed engine.limits p sized (engine.countingWaiting s p.at_ (engine.scaleOf p)))
    (hs : engine.enter s event plan decisionAt cost = .ok s') : engine.Kept s' := by
  rcases enter_cases hs with ⟨hbook, hkilled⟩ | ⟨p, target, sized, f, exit, horder, hreview, hfill, rfl⟩
  · exact h.congr hbook hkilled
  obtain ⟨hname, hproduct⟩ := order_spec horder
  have hallowed := hgood p target sized horder hreview
  have hentry : p.at_ ≤ f.ts := placedAt_le_of_fill hfill
  refine ⟨fun at_ => ?_, fun t ht => ?_, fun k hk => ?_⟩
  · rw [added, held_append]
    split
    · rename_i hopen
      have hstake : (engine.record event plan p sized f exit cost).stake =
          ⟨p.name, p.product, sized.risk⟩ := by
        rw [hname]
        rfl
      rw [hstake]
      exact withinCaps_append (h.respects at_) rfl hallowed hproduct (hentry.trans hopen.2.1)
        h.risk_nonneg
    · rw [List.append_nil]
      exact h.respects at_
  · rcases List.mem_append.mp ht with ht | ht
    · exact h.risk_nonneg t ht
    · rw [List.mem_singleton.mp ht]
      exact risk_nonneg_of_review hproduct hreview
  · rw [show (added s _).stats.killedAt = none from hrunning] at hk
    cases hk

theorem Kept.step (hoptions : engine.PlacesOptions) (h : engine.Kept s)
    (hgood : s.stats.killedAt = none → engine.Good s event) (hs : engine.step s event = .ok s') :
    engine.Kept s' := by
  unfold ReplayEngine.step at hs
  simp only at hs
  cases hkilled : s.stats.killedAt with
  | some k =>
      simp only [hkilled] at hs
      obtain rfl := Except.ok.inj hs
      exact h.congr rfl hkilled.symm
  | none =>
      have hgood := hgood hkilled
      have hkept (s₁ : ReplayState σ) (hbook : s₁.book = s.book)
          (hrunning : s₁.stats.killedAt = none) : engine.Kept s₁ :=
        h.congr hbook (hrunning.trans hkilled.symm)
      simp only [hkilled] at hs
      unfold one at hs
      simp only at hs
      split at hs
      · obtain rfl := Except.ok.inj hs
        exact h.congr rfl hkilled.symm
      · rename_i hname
        split at hs
        · rename_i htripped
          obtain rfl := Except.ok.inj hs
          exact h.kill (hgood.kill hname htripped) rfl
        · split at hs
          · rename_i plan hverdict hplan
            split at hs
            · obtain rfl := Except.ok.inj hs
              unfold enterOption
              split
              · exact hkept _ rfl rfl
              · rename_i place hplace
                split
                · exact hkept _ rfl rfl
                · rename_i trade htrade
                  obtain ⟨hproduct, hrisk⟩ := hoptions place hplace _ _ _ _ _ _ htrade
                  exact (hkept _ (by rfl) (by rfl)).add_option (by rfl) hproduct hrisk
            · refine Kept.enter (hkept _ (by rfl) (by rfl)) (by rfl) (fun p target sized => ?_) hs
              have hdecision : (engine.decide s.decider event event.decisionAt).1 =
                  ⟨.trade, some plan⟩ := PipelineDecision.ext hverdict hplan
              exact hgood.order plan p target sized hdecision
          · obtain rfl := Except.ok.inj hs
            exact h.congr rfl hkilled.symm

theorem kept_run (hoptions : engine.PlacesOptions) {events : List MarketEvent}
    (h : engine.Kept s) (hgood : engine.GoodRun events s)
    (hr : events.foldlM engine.step s = .ok s') : engine.Kept s' := by
  induction events generalizing s with
  | nil =>
      obtain rfl := Except.ok.inj hr
      exact h
  | cons event events ih =>
      rw [List.foldlM_cons] at hr
      obtain ⟨s₁, hs₁, hr⟩ := exists_of_bind hr
      exact ih (h.step hoptions hgood.1 hs₁) (hgood.2 s₁ hs₁) hr

end ReplayEngine

/-! ## A morning with one name -/

namespace Sample

def morning (hours minutes : ℤ) : Timestamp := combine 1 (timeOfDay hours minutes)

/-- A five-minute bar at 100. -/
def bar (hours minutes : ℤ) : Bar := ⟨morning hours minutes, 100, 100, 100, 100, 10000⟩

def market : MarketData where
  fiveMinuteBars _ _ := [bar 9 55, bar 10 5, bar 10 10]
  dailyBars _ _ _ := []
  nextSession day := some (day + 1)
  isSession _ := true
  lastClose _ _ := some 100

def plan : TradePlan := ⟨.cashIntraday, .long, 2, 10, 0⟩

/-- Every event is bought. -/
def engine : ReplayEngine Unit where
  decide _ _ _ := (⟨.trade, some plan⟩, ())
  tokens _ := 0
  market := market
  limits := .standard
  cost _ _ := 0
  execution := ⟨5, 1 / 20, 1 / 10, timeOfDay 15 15⟩
  posture _ := 1
  options := none
  startingCapital := 100000

/-- A filing that is usable from a minute on. -/
def filing (hours minutes : ℤ) : MarketEvent :=
  ⟨"E", "NSE:1", "ONE", morning hours minutes, morning hours minutes, "filing", "", "", ""⟩

end Sample

namespace ReplayEngine

end ReplayEngine

end EventTrader

end Emporos
