import Emporos.Opportunity.Allocator
/-!
# The caps of the allocator

What the account is once every allocation is filled at its entry price,
and which caps it then keeps. Capital, positions, risk and instruments
are kept whatever the candidates; the sectors are kept exactly when what
is already held in a sector cannot matter.
-/

namespace Emporos

open Decimal (Amount Ticks)

/-! ## The account once filled -/

/-- The position an allocation is when filled at its entry price. -/
def Allocation.position (a : Allocation) : Position where
  instrumentId := a.candidate.instrumentId
  netQuantity :=
    match a.candidate.signal.side with
    | .buy => a.quantity
    | .sell => -a.quantity
  averagePrice := a.candidate.entry

namespace AccountFacts

/-- The account with the allocations filled. -/
def filled (account : AccountFacts) (allocations : List Allocation) : AccountFacts :=
  { account with positions := account.positions ++ allocations.map Allocation.position }

/-- The part of the account that is in a sector. -/
def inSector (sectors : SectorClassifier) (account : AccountFacts) (sector : String) : AccountFacts :=
  { account with positions := account.positions.filter fun p => sectors p.instrumentId = some sector }

def IsHeld (account : AccountFacts) (instrumentId : String) : Prop :=
  ∃ p ∈ account.positions, p.instrumentId = instrumentId ∧ ¬ p.isFlat

variable [DecimalContext]

/-- The account is within the constraints. -/
structure Within (sectors : SectorClassifier) (constraints : AllocationConstraints)
    (account : AccountFacts) : Prop where
  capital : account.capitalDeployed ≤ constraints.productionCapital
  positions : (account.openPositionCount : ℤ) ≤ constraints.maxSimultaneousPositions
  sectors : ∀ cap ∈ constraints.maxSectorExposure, ∀ sector,
    (account.inSector sectors sector).capitalDeployed ≤ cap

/-- What the account deploys, in all and in each sector, is an amount. -/
structure OnTick (tick : ℚ) (bound : ℕ) (sectors : SectorClassifier) (account : AccountFacts) :
    Prop where
  capital : Amount tick bound account.capitalDeployed.amount ∧ Money.zero ≤ account.capitalDeployed
  sectors : ∀ sector, Amount tick bound (account.inSector sectors sector).capitalDeployed.amount ∧
    Money.zero ≤ (account.inSector sectors sector).capitalDeployed

end AccountFacts

/-- The caps are amounts. -/
structure AllocationConstraints.OnTick (tick : ℚ) (bound : ℕ) (constraints : AllocationConstraints) :
    Prop where
  capital : Amount tick bound constraints.productionCapital.amount
  trade : Amount tick bound constraints.maxRiskPerTrade.amount
  portfolio : Amount tick bound constraints.maxPortfolioRisk.amount
  sector : ∀ cap ∈ constraints.maxSectorExposure, Amount tick bound cap.amount

/-- The prices of the candidate are on the tick. -/
structure OpportunityCandidate.OnTick (tick : ℚ) (bound : ℕ) (c : OpportunityCandidate) : Prop where
  entry : Amount tick bound c.entry.amount
  stop : Amount tick bound c.stop.amount
  target : ∃ k : ℤ, c.target.amount = k * tick

section Caps

variable [DecimalContext]

/-- Filled at their entry prices, the allocations leave the account within
every cap. -/
structure KeepsCaps (sectors : SectorClassifier) (account : AccountFacts)
    (constraints : AllocationConstraints) (allocations : List Allocation) : Prop where
  within : (account.filled allocations).Within sectors constraints
  risk_each : ∀ a ∈ allocations, a.committedRisk ≤ constraints.maxRiskPerTrade
  risk_sum : (allocations.map fun a => a.committedRisk.amount).sum ≤ constraints.maxPortfolioRisk.amount
  instruments_nodup : (allocations.map fun a => a.candidate.instrumentId).Nodup

/-! ## One candidate's size -/

variable {tick : ℚ} {bound : ℕ} {sectors : SectorClassifier} {account : AccountFacts}
  {constraints : AllocationConstraints} {c : OpportunityCandidate}

namespace OpportunityCandidate

omit [DecimalContext] in
theorem entry_pos (c : OpportunityCandidate) : 0 < c.entry.amount := c.positive.1

omit [DecimalContext] in
theorem entry_ne_stop (c : OpportunityCandidate) : c.entry.amount - c.stop.amount ≠ 0 := by
  have hfits := c.bracket_fits
  unfold bracketFits at hfits
  rw [sub_ne_zero]
  cases hside : c.signal.side with
  | buy =>
      rw [hside] at hfits
      exact (Money.lt_iff.mp hfits.1).ne'
  | sell =>
      rw [hside] at hfits
      exact (Money.lt_iff.mp hfits.2).ne

namespace OnTick

variable (ht : Ticks tick bound) (hc : c.OnTick tick bound)
include ht hc

theorem riskPerShare_eq : c.riskPerShare.amount = |c.entry.amount - c.stop.amount| := by
  have hdiff := hc.entry.sub ht.pos hc.stop c.entry_pos.le (Money.lt_iff.mp c.positive.2.1).le
  have hsub := ht.sub_eq hc.entry hc.stop
  change Decimal.abs (Decimal.sub _ _) = _
  rw [hsub]
  exact ht.kept_of hdiff.abs

theorem riskPerShare_amount : Amount tick bound c.riskPerShare.amount := by
  rw [hc.riskPerShare_eq ht]
  exact (hc.entry.sub ht.pos hc.stop c.entry_pos.le (Money.lt_iff.mp c.positive.2.1).le).abs

theorem riskPerShare_pos : 0 < c.riskPerShare.amount := by
  rw [hc.riskPerShare_eq ht]
  exact abs_pos.mpr c.entry_ne_stop

/-- There is a price below the entry: the stop of a purchase, the target of
a sale. -/
theorem two_ticks_le : 2 * tick ≤ c.entry.amount := by
  have hpos := ht.pos
  obtain ⟨e, -, he⟩ := hc.entry
  -- a multiple of the tick between zero and the entry
  have hbelow : ∃ k : ℤ, 0 < (k : ℚ) * tick ∧ (k : ℚ) * tick < c.entry.amount := by
    have hfits := c.bracket_fits
    unfold bracketFits at hfits
    cases hside : c.signal.side with
    | buy =>
        rw [hside] at hfits
        obtain ⟨k, -, hk⟩ := hc.stop
        exact ⟨k, hk ▸ c.positive.2.1, hk ▸ hfits.1⟩
    | sell =>
        rw [hside] at hfits
        obtain ⟨k, hk⟩ := hc.target
        exact ⟨k, hk ▸ c.positive.2.2, hk ▸ hfits.1⟩
  obtain ⟨k, hk0, hk⟩ := hbelow
  rw [he] at hk ⊢
  have hone : 0 < k := by exact_mod_cast (mul_pos_iff_of_pos_right hpos).mp hk0
  have hlt : k < e := by exact_mod_cast lt_of_mul_lt_mul_right hk hpos.le
  have htwo : (2 : ℚ) ≤ e := by exact_mod_cast (by omega : (2 : ℤ) ≤ e)
  exact mul_le_mul_of_nonneg_right htwo hpos.le

end OnTick

end OpportunityCandidate

namespace PortfolioAllocator

/-- **The size is the most that fits**: a number of shares is within the
size exactly when each budget covers it. -/
theorem le_size (ht : Ticks tick bound) (hc : c.OnTick tick bound)
    {capital riskRoom perTrade : Money} {room : Option Money}
    (hcapital : Amount tick bound capital.amount) (hcapital0 : 0 ≤ capital.amount)
    (hrisk : Amount tick bound riskRoom.amount) (htrade : Amount tick bound perTrade.amount)
    (hroom : ∀ r ∈ room, Amount tick bound r.amount ∧ 0 ≤ r.amount) {n : ℕ} (hn : 0 < n) :
    n ≤ size c capital riskRoom perTrade room ↔
      c.riskPerShare.amount * n ≤ min perTrade.amount riskRoom.amount ∧
        c.entry.amount * n ≤ capital.amount ∧ ∀ r ∈ room, c.entry.amount * n ≤ r.amount := by
  have hn' : (0 : ℚ) < n := by exact_mod_cast hn
  have htoNat : ∀ z : ℤ, n ≤ z.toNat ↔ (n : ℤ) ≤ z := fun z => by omega
  unfold size
  by_cases hbudget : min perTrade.amount riskRoom.amount ≤ 0
  · rw [if_pos hbudget]
    have hpos := mul_pos (hc.riskPerShare_pos ht) hn'
    constructor
    · intro h
      omega
    · rintro ⟨h, -⟩
      linarith
  · rw [if_neg hbudget]
    have hby : (n : ℤ) ≤ min
        (Decimal.roundDown ((min perTrade.amount riskRoom.amount).div c.riskPerShare.amount))
        (Decimal.roundDown (capital.amount.div c.entry.amount)) ↔
        c.riskPerShare.amount * n ≤ min perTrade.amount riskRoom.amount ∧
          c.entry.amount * n ≤ capital.amount := by
      rw [le_min_iff,
        ht.le_roundDown_div (htrade.min hrisk) (hc.riskPerShare_amount ht) (not_le.mp hbudget).le
          (hc.riskPerShare_pos ht),
        ht.le_roundDown_div hcapital hc.entry hcapital0 c.entry_pos]
    cases room with
    | none =>
        rw [htoNat, hby]
        simp
    | some r =>
        obtain ⟨hr, hr0⟩ := hroom r rfl
        rw [htoNat, le_min_iff, hby, ht.le_roundDown_div hr hc.entry hr0 c.entry_pos, and_assoc]
        simp

/-! ## The loop -/

/-- What the allocations commit in a sector. -/
def sectorCosts (sectors : SectorClassifier) (sector : String) (allocations : List Allocation) : ℚ :=
  ((allocations.filter fun a => sectors a.candidate.instrumentId = some sector).map
    fun a => a.committedCapital.amount).sum

/-- **The invariant of the loop.** The budgets are exactly what the
allocations so far leave, and no budget is overdrawn. -/
structure Spent (tick : ℚ) (bound : ℕ) (sectors : SectorClassifier)
    (constraints : AllocationConstraints) (capital : ℚ) (s : AllocatorState) : Prop where
  available : s.capitalAvailable.amount =
    capital - (s.allocations.map fun a => a.committedCapital.amount).sum
  available_amount : Amount tick bound s.capitalAvailable.amount ∧ 0 ≤ s.capitalAvailable.amount
  risk : s.portfolioRiskUsed.amount = (s.allocations.map fun a => a.committedRisk.amount).sum
  risk_amount : Amount tick bound s.portfolioRiskUsed.amount ∧ 0 ≤ s.portfolioRiskUsed.amount
  risk_le : s.portfolioRiskUsed.amount ≤ constraints.maxPortfolioRisk.amount
  sector : ∀ sector, (s.sectorCommitted sector).amount = sectorCosts sectors sector s.allocations
  sector_amount : ∀ sector, Amount tick bound (s.sectorCommitted sector).amount ∧
    0 ≤ (s.sectorCommitted sector).amount
  sector_spent : ∀ sector, (s.sectorCommitted sector).amount ≤ capital - s.capitalAvailable.amount
  sector_le : ∀ cap ∈ constraints.maxSectorExposure, ∀ sector,
    (s.sectorCommitted sector).amount ≤ cap.amount
  each : ∀ a ∈ s.allocations, (Amount tick bound a.committedCapital.amount ∧
    2 * tick ≤ a.committedCapital.amount) ∧ a.committedRisk ≤ constraints.maxRiskPerTrade

variable {capital : ℚ} {s : AllocatorState}

/-- The room of a candidate is an amount. -/
theorem Spent.room (ht : Ticks tick bound) (hc : constraints.OnTick tick bound)
    (hs : Spent tick bound sectors constraints capital s) (c : OpportunityCandidate) :
    ∀ r ∈ sectorRoom sectors c constraints s.sectorCommitted,
      (Amount tick bound r.amount ∧ 0 ≤ r.amount) ∧
      ∀ cap ∈ constraints.maxSectorExposure, ∀ sector, sectors c.instrumentId = some sector →
        r.amount = cap.amount - (s.sectorCommitted sector).amount := by
  intro r hr
  unfold sectorRoom at hr
  cases hcap : constraints.maxSectorExposure with
  | none => rw [hcap] at hr; cases hr
  | some cap =>
      cases hsec : sectors c.instrumentId with
      | none => rw [hcap, hsec] at hr; cases hr
      | some sector =>
          rw [hcap, hsec] at hr
          obtain ⟨hamount, hnonneg⟩ := hs.sector_amount sector
          have hcap0 := (Money.lt_iff.mp (constraints.sector_pos cap hcap)).le
          have hle := hs.sector_le cap hcap sector
          have hroom : (cap - s.sectorCommitted sector).amount =
              cap.amount - (s.sectorCommitted sector).amount :=
            ht.sub_eq (hc.sector cap hcap) hamount
          have hr' : r.amount = cap.amount - (s.sectorCommitted sector).amount := by
            obtain rfl := Option.some.inj hr
            by_cases hpos : Money.zero < cap - s.sectorCommitted sector
            · rw [if_pos hpos, hroom]
            · rw [if_neg hpos]
              have hzero := not_lt.mp fun h => hpos (Money.lt_iff.mpr h)
              rw [hroom] at hzero
              have hbase : Money.zero.amount = 0 := rfl
              linarith
          refine ⟨?_, ?_⟩
          · rw [hr']
            exact ⟨(hc.sector cap hcap).sub ht.pos hamount hcap0 hnonneg, by linarith⟩
          · intro cap' hcap' sector' hsector'
            obtain rfl := Option.some.inj hcap'
            obtain rfl := Option.some.inj hsector'
            exact hr'

omit [DecimalContext] in
theorem sum_append_single {α : Type} (f : α → ℚ) (l : List α) (a : α) :
    ((l ++ [a]).map f).sum = (l.map f).sum + f a := by
  rw [List.map_append, List.sum_append, List.map_singleton, List.sum_singleton]

theorem sectorCosts_append (sector : String) (l : List Allocation) (a : Allocation) :
    sectorCosts sectors sector (l ++ [a]) = sectorCosts sectors sector l +
      if sectors a.candidate.instrumentId = some sector then a.committedCapital.amount else 0 := by
  unfold sectorCosts
  rw [List.filter_append]
  by_cases h : sectors a.candidate.instrumentId = some sector
  · rw [List.filter_cons_of_pos (by simpa using h), List.filter_nil, sum_append_single, if_pos h]
  · rw [List.filter_cons_of_neg (by simpa using h), List.filter_nil, List.append_nil, if_neg h,
      add_zero]

theorem add_sectorCommitted (a : Allocation) (sector : String) :
    (add sectors s a).sectorCommitted sector =
      if sectors a.candidate.instrumentId = some sector
      then s.sectorCommitted sector + a.committedCapital else s.sectorCommitted sector := by
  unfold add
  cases hsec : sectors a.candidate.instrumentId with
  | none => simp
  | some own =>
      by_cases h : own = sector
      · subst h
        simp
      · have hne : ¬ some own = some sector := fun heq => h (Option.some.inj heq)
        rw [if_neg hne]
        exact Function.update_of_ne (Ne.symm h) _ _

/-- **One allocation** of at most the size keeps the invariant. -/
theorem Spent.allocated (ht : Ticks tick bound) (hc : constraints.OnTick tick bound)
    (hs : Spent tick bound sectors constraints capital s) (hcapital : Amount tick bound capital)
    (hcand : c.OnTick tick bound) {quantity : ℕ} (hq : 0 < quantity)
    (hsize : quantity ≤ size c s.capitalAvailable (constraints.maxPortfolioRisk - s.portfolioRiskUsed)
      constraints.maxRiskPerTrade (sectorRoom sectors c constraints s.sectorCommitted)) :
    Spent tick bound sectors constraints capital (add sectors s ⟨c, quantity, hq⟩) := by
  obtain ⟨havail, havail0⟩ := hs.available_amount
  obtain ⟨hrisk, hrisk0⟩ := hs.risk_amount
  have hroom := hs.room ht hc c
  have hportfolio0 := (Money.lt_iff.mp constraints.portfolio_pos).le
  have hriskRoom : (constraints.maxPortfolioRisk - s.portfolioRiskUsed).amount =
      constraints.maxPortfolioRisk.amount - s.portfolioRiskUsed.amount :=
    ht.sub_eq hc.portfolio hrisk
  have hriskRoom' : Amount tick bound (constraints.maxPortfolioRisk - s.portfolioRiskUsed).amount := by
    rw [hriskRoom]
    exact hc.portfolio.sub ht.pos hrisk hportfolio0 hrisk0
  obtain ⟨hbyRisk, hbyCapital, hbySector⟩ := (le_size ht hcand havail havail0 hriskRoom' hc.trade
    (fun r hr => (hroom r hr).1) hq).mp hsize
  rw [le_min_iff, hriskRoom] at hbyRisk
  -- what is committed is computed exactly
  have hcost : (Allocation.committedCapital ⟨c, quantity, hq⟩).amount = c.entry.amount * quantity :=
    ht.mul_eq hcand.entry c.entry_pos.le havail hbyCapital
  have hcost' : Amount tick bound (Allocation.committedCapital ⟨c, quantity, hq⟩).amount := by
    rw [hcost]
    exact hcand.entry.times ht.pos c.entry_pos.le havail hbyCapital
  have hrps := hcand.riskPerShare_pos ht
  have hloss : (Allocation.committedRisk ⟨c, quantity, hq⟩).amount =
      c.riskPerShare.amount * quantity :=
    ht.mul_eq (hcand.riskPerShare_amount ht) hrps.le hc.trade hbyRisk.1
  have hloss' : Amount tick bound (Allocation.committedRisk ⟨c, quantity, hq⟩).amount := by
    rw [hloss]
    exact (hcand.riskPerShare_amount ht).times ht.pos hrps.le hc.trade hbyRisk.1
  have hone : (1 : ℚ) ≤ quantity := by exact_mod_cast hq
  have htick := ht.pos
  have htwo : 2 * tick ≤ (Allocation.committedCapital ⟨c, quantity, hq⟩).amount := by
    have hentry := hcand.two_ticks_le ht
    rw [hcost]
    nlinarith
  have hcost0 : 0 ≤ (Allocation.committedCapital ⟨c, quantity, hq⟩).amount := by linarith
  have hloss0 : 0 ≤ (Allocation.committedRisk ⟨c, quantity, hq⟩).amount := by
    rw [hloss]
    positivity
  have hleft : (add sectors s ⟨c, quantity, hq⟩).capitalAvailable.amount =
      s.capitalAvailable.amount - (Allocation.committedCapital ⟨c, quantity, hq⟩).amount :=
    ht.sub_eq havail hcost'
  have hused : (add sectors s ⟨c, quantity, hq⟩).portfolioRiskUsed.amount =
      s.portfolioRiskUsed.amount + (Allocation.committedRisk ⟨c, quantity, hq⟩).amount :=
    ht.add_eq hrisk hloss'
  have hspent : ∀ sector, (s.sectorCommitted sector).amount +
      (Allocation.committedCapital ⟨c, quantity, hq⟩).amount ≤ capital := by
    intro sector
    have := hs.sector_spent sector
    linarith
  have hsum : ∀ sector, (s.sectorCommitted sector + Allocation.committedCapital ⟨c, quantity, hq⟩).amount =
      (s.sectorCommitted sector).amount + (Allocation.committedCapital ⟨c, quantity, hq⟩).amount :=
    fun sector => ht.add_eq (hs.sector_amount sector).1 hcost'
  have hsum' : ∀ sector, Amount tick bound ((s.sectorCommitted sector).amount +
      (Allocation.committedCapital ⟨c, quantity, hq⟩).amount) :=
    fun sector => (hs.sector_amount sector).1.add ht.pos hcost' (hs.sector_amount sector).2 hcost0
      hcapital (hspent sector)
  exact
    { available := by
        rw [hleft, hs.available]
        change _ = capital - ((s.allocations ++ [_]).map _).sum
        rw [sum_append_single]
        ring
      available_amount := by
        rw [hleft]
        exact ⟨havail.sub ht.pos hcost' havail0 hcost0, by linarith⟩
      risk := by
        rw [hused, hs.risk]
        change _ = ((s.allocations ++ [_]).map _).sum
        rw [sum_append_single]
      risk_amount := by
        rw [hused]
        exact ⟨hrisk.add ht.pos hloss' hrisk0 hloss0 hc.portfolio (by linarith), by linarith⟩
      risk_le := by
        rw [hused]
        linarith
      sector := by
        intro sector
        change _ = sectorCosts sectors sector (s.allocations ++ [_])
        rw [add_sectorCommitted, sectorCosts_append, ← hs.sector sector]
        split_ifs
        · exact hsum sector
        · rw [add_zero]
      sector_amount := by
        intro sector
        have hnonneg := (hs.sector_amount sector).2
        rw [add_sectorCommitted]
        split_ifs
        · rw [hsum sector]
          exact ⟨hsum' sector, by linarith⟩
        · exact hs.sector_amount sector
      sector_spent := by
        intro sector
        have hbefore := hs.sector_spent sector
        rw [add_sectorCommitted, hleft]
        split_ifs
        · rw [hsum sector]
          linarith
        · linarith
      sector_le := by
        intro cap hcap sector
        rw [add_sectorCommitted]
        split_ifs with hsec
        · -- the candidate's own sector: its room was what the cap left
          rw [hsum sector]
          have hr : sectorRoom sectors c constraints s.sectorCommitted =
              some (if Money.zero < cap - s.sectorCommitted sector then cap - s.sectorCommitted sector
                else Money.zero) := by
            unfold sectorRoom
            rw [hcap, hsec]
          have hfits := hbySector _ hr
          rw [(hroom _ hr).2 cap hcap sector hsec, ← hcost] at hfits
          linarith
        · exact hs.sector_le cap hcap sector
      each := by
        intro a ha
        rcases List.mem_append.mp ha with ha | ha
        · exact hs.each a ha
        · obtain rfl := List.mem_singleton.mp ha
          refine ⟨⟨hcost', htwo⟩, ?_⟩
          rw [Money.le_iff, hloss]
          exact hbyRisk.1 }

/-- **The whole loop** keeps the invariant. -/
theorem Spent.allocateAll (ht : Ticks tick bound) (hc : constraints.OnTick tick bound)
    (hcapital : Amount tick bound capital) {slots : ℤ} {candidates : List OpportunityCandidate}
    (hcands : ∀ c ∈ candidates, c.OnTick tick bound) :
    ∀ {s : AllocatorState}, Spent tick bound sectors constraints capital s →
      Spent tick bound sectors constraints capital
        (PortfolioAllocator.allocateAll sectors constraints slots candidates s) := by
  induction candidates with
  | nil => exact fun hs => hs
  | cons c rest ih =>
      intro s hs
      obtain ⟨hcand, hrest⟩ := List.forall_mem_cons.mp hcands
      unfold PortfolioAllocator.allocateAll
      dsimp only
      split_ifs with hslots hquantity
      · exact hs
      · exact ih hrest (hs.allocated ht hc hcapital hcand hquantity le_rfl)
      · exact ih hrest hs

/-- The loop appends allocations of candidates in their order, at most one a
slot. -/
theorem allocateAll_allocations {slots : ℤ} (candidates : List OpportunityCandidate) :
    ∀ s : AllocatorState, (s.allocations.length : ℤ) ≤ slots →
      ∃ made, (allocateAll sectors constraints slots candidates s).allocations =
          s.allocations ++ made ∧
        (made.map Allocation.candidate).Sublist candidates ∧
        ((s.allocations ++ made).length : ℤ) ≤ slots := by
  induction candidates with
  | nil => exact fun s hs => ⟨[], (List.append_nil _).symm, .slnil, by rwa [List.append_nil]⟩
  | cons c rest ih =>
      intro s hs
      unfold allocateAll
      dsimp only
      split_ifs with hslots hquantity
      · exact ⟨[], (List.append_nil _).symm, List.nil_sublist _, by rwa [List.append_nil]⟩
      · have hroom : ((add sectors s ⟨c, _, hquantity⟩).allocations.length : ℤ) ≤ slots := by
          change ((s.allocations ++ [_]).length : ℤ) ≤ slots
          rw [List.length_append, List.length_singleton]
          omega
        obtain ⟨made, heq, hsub, hlen⟩ := ih _ hroom
        refine ⟨⟨c, _, hquantity⟩ :: made, ?_, ?_, ?_⟩
        · rw [heq, List.append_cons]
          rfl
        · exact hsub.cons_cons c
        · rw [List.append_cons]
          exact hlen
      · obtain ⟨made, heq, hsub, hlen⟩ := ih s hs
        exact ⟨made, heq, hsub.cons c, hlen⟩

/-- Eligible are some of the candidates, in their order, and no instrument
is there twice or was seen before. -/
theorem eligibleCandidates_spec (candidates : List OpportunityCandidate) :
    ∀ seen, (eligibleCandidates constraints seen candidates).Sublist candidates ∧
      ((eligibleCandidates constraints seen candidates).map
        OpportunityCandidate.instrumentId).Nodup ∧
      ∀ c ∈ eligibleCandidates constraints seen candidates, c.instrumentId ∉ seen := by
  induction candidates with
  | nil => exact fun seen => ⟨.slnil, .nil, fun c hc => absurd hc List.not_mem_nil⟩
  | cons c rest ih =>
      intro seen
      unfold eligibleCandidates
      split_ifs with hedge hseen
      · obtain ⟨hsub, hnd, hnew⟩ := ih seen
        exact ⟨hsub.cons c, hnd, hnew⟩
      · obtain ⟨hsub, hnd, hnew⟩ := ih seen
        exact ⟨hsub.cons c, hnd, hnew⟩
      · obtain ⟨hsub, hnd, hnew⟩ := ih (c.instrumentId :: seen)
        refine ⟨hsub.cons_cons c, ?_, ?_⟩
        · rw [List.map_cons, List.nodup_cons]
          refine ⟨fun hmem => ?_, hnd⟩
          obtain ⟨d, hd, heq⟩ := List.mem_map.mp hmem
          exact hnew d hd (heq ▸ List.mem_cons_self)
        · intro d hd
          rcases List.mem_cons.mp hd with rfl | hd
          · exact hseen
          · exact fun hmem => hnew d hd (List.mem_cons_of_mem _ hmem)

end PortfolioAllocator

/-! ## The account once filled, computed -/

namespace AccountFacts

omit [DecimalContext] in
theorem filled_inSector (allocations : List Allocation) (sector : String) :
    (account.filled allocations).inSector sectors sector = (account.inSector sectors sector).filled
      (allocations.filter fun a => sectors a.candidate.instrumentId = some sector) := by
  unfold filled inSector
  rw [List.filter_append, List.filter_map]
  rfl

omit [DecimalContext] in
theorem filled_openPositionCount (allocations : List Allocation) :
    (account.filled allocations).openPositionCount =
      account.openPositionCount + allocations.length := by
  have hopen : ∀ p ∈ allocations.map Allocation.position, (!p.isFlat) = true := by
    intro p hp
    obtain ⟨a, -, rfl⟩ := List.mem_map.mp hp
    have hq := a.quantity_pos
    unfold Position.isFlat Allocation.position
    cases a.candidate.signal.side <;> simp <;> omega
  unfold openPositionCount filled
  rw [List.filter_append, List.length_append, List.filter_eq_self.mpr hopen, List.length_map]

theorem filled_capitalDeployed (allocations : List Allocation) :
    (account.filled allocations).capitalDeployed.amount =
      (allocations.map fun a => a.committedCapital.amount).foldl Decimal.add
        account.capitalDeployed.amount := by
  have hvalue : ∀ a : Allocation,
      a.position.averagePrice.times a.position.netQuantity.natAbs = a.committedCapital := by
    intro a
    have habs : a.position.netQuantity.natAbs = a.quantity := by
      unfold Allocation.position
      cases a.candidate.signal.side <;> simp
    rw [habs]
    rfl
  unfold capitalDeployed filled
  rw [List.foldl_append, Money.foldl_amount, List.map_map]
  congr 1
  exact List.map_congr_left fun a _ => congrArg Money.amount (hvalue a)

end AccountFacts

/-! ## The caps -/

namespace PortfolioAllocator

variable {candidates : List OpportunityCandidate}

/-- What the production capital leaves. -/
def freeCapital (account : AccountFacts) (constraints : AllocationConstraints) : ℚ :=
  constraints.productionCapital.amount - account.capitalDeployed.amount

theorem spent_initial (ht : Ticks tick bound) (hc : constraints.OnTick tick bound)
    (ha : account.Within sectors constraints) (hta : account.OnTick tick bound sectors) :
    Spent tick bound sectors constraints (freeCapital account constraints)
      (initial account constraints) := by
  obtain ⟨hdeployed, hdeployed0⟩ := hta.capital
  have hcapital0 := (Money.lt_iff.mp constraints.capital_pos).le
  have hfree : (constraints.productionCapital - account.capitalDeployed).amount =
      freeCapital account constraints := ht.sub_eq hc.capital hdeployed
  have hfree0 : 0 ≤ freeCapital account constraints := by
    have := Money.le_iff.mp ha.capital
    unfold freeCapital
    linarith
  have havail : (initial account constraints).capitalAvailable.amount =
      freeCapital account constraints := by
    have hnonneg : ¬ constraints.productionCapital - account.capitalDeployed < Money.zero := by
      rw [Money.lt_iff, hfree]
      exact not_lt.mpr hfree0
    unfold initial
    rw [if_neg hnonneg, hfree]
  have hamount : Amount tick bound (freeCapital account constraints) :=
    hc.capital.sub ht.pos hdeployed hcapital0 (Money.le_iff.mp hdeployed0)
  exact
    { available := by rw [havail]; exact (sub_zero _).symm
      available_amount := by rw [havail]; exact ⟨hamount, hfree0⟩
      risk := rfl
      risk_amount := ⟨.zero, le_rfl⟩
      risk_le := (Money.lt_iff.mp constraints.portfolio_pos).le
      sector := fun _ => rfl
      sector_amount := fun _ => ⟨.zero, le_rfl⟩
      sector_spent := fun _ => by rw [havail]; exact (sub_nonneg.mpr le_rfl)
      sector_le := fun cap hcap _ => (Money.lt_iff.mp (constraints.sector_pos cap hcap)).le
      each := fun a ha => absurd ha List.not_mem_nil }

/-- **What one call returns**: allocations that leave the budgets as the
invariant says, of distinct instruments, at most one a free slot. -/
theorem allocate_spent (ht : Ticks tick bound) (hc : constraints.OnTick tick bound)
    (ha : account.Within sectors constraints) (hta : account.OnTick tick bound sectors)
    (hcands : ∀ c ∈ candidates, c.OnTick tick bound) :
    ∃ s, s.allocations = allocate sectors candidates account constraints ∧
      Spent tick bound sectors constraints (freeCapital account constraints) s ∧
      (s.allocations.map fun a => a.candidate.instrumentId).Nodup ∧
      (s.allocations.map Allocation.candidate).Sublist candidates ∧
      (account.openPositionCount + s.allocations.length : ℤ) ≤ constraints.maxSimultaneousPositions := by
  have hinitial := spent_initial ht hc ha hta
  have hcapital : Amount tick bound (freeCapital account constraints) :=
    hc.capital.sub ht.pos hta.capital.1 (Money.lt_iff.mp constraints.capital_pos).le
      (Money.le_iff.mp hta.capital.2)
  have hpositions := ha.positions
  obtain ⟨hsub, hnd, -⟩ := eligibleCandidates_spec candidates []
  unfold allocate
  dsimp only
  split_ifs with hslots
  · refine ⟨initial account constraints, rfl, hinitial, .nil, List.nil_sublist _, ?_⟩
    change (account.openPositionCount + (0 : ℕ) : ℤ) ≤ _
    omega
  · obtain ⟨made, heq, hmade, hlen⟩ := allocateAll_allocations
      (eligibleCandidates constraints [] candidates)
      (initial account constraints) (not_le.mp hslots).le
    refine ⟨_, rfl, hinitial.allocateAll ht hc hcapital fun c hc => hcands c (hsub.subset hc), ?_⟩
    have hmade' : (allocateAll sectors constraints
        (constraints.maxSimultaneousPositions - account.openPositionCount)
        (eligibleCandidates constraints [] candidates) (initial account constraints)).allocations =
        made := heq
    rw [hmade']
    refine ⟨?_, hmade.trans hsub, ?_⟩
    · have hids : (made.map Allocation.candidate).map OpportunityCandidate.instrumentId =
          made.map fun a => a.candidate.instrumentId := List.map_map ..
      rw [← hids]
      exact (hmade.map _).nodup hnd
    · have hlen' : (made.length : ℤ) ≤
          constraints.maxSimultaneousPositions - account.openPositionCount := hlen
      omega

/-- What is allocated in a sector is within the free capital, and within the
sector's cap as if nothing were held. -/
theorem Spent.sectorCosts_le (hs : Spent tick bound sectors constraints capital s) (sector : String) :
    sectorCosts sectors sector s.allocations ≤ capital ∧
      ∀ cap ∈ constraints.maxSectorExposure,
        sectorCosts sectors sector s.allocations ≤ cap.amount := by
  rw [← hs.sector sector]
  have hspent := hs.sector_spent sector
  have havail := hs.available_amount.2
  exact ⟨by linarith, fun cap hcap => hs.sector_le cap hcap sector⟩

/-- An allocation in a sector costs at least two ticks. -/
theorem Spent.sectorCosts_ne_zero (ht : Ticks tick bound)
    (hs : Spent tick bound sectors constraints capital s) {sector : String} :
    sectorCosts sectors sector s.allocations = 0 ∨
      2 * tick ≤ sectorCosts sectors sector s.allocations := by
  have htick := ht.pos
  unfold sectorCosts
  cases hl : s.allocations.filter fun a => sectors a.candidate.instrumentId = some sector with
  | nil => exact .inl rfl
  | cons a rest =>
      refine .inr ?_
      have hmem : ∀ b ∈ a :: rest, b ∈ s.allocations := fun b hb =>
        List.mem_of_mem_filter (hl ▸ hb)
      have hrest : 0 ≤ (rest.map fun b => b.committedCapital.amount).sum := by
        refine List.sum_nonneg fun x hx => ?_
        obtain ⟨b, hb, rfl⟩ := List.mem_map.mp hx
        have := (hs.each b (hmem b (List.mem_cons_of_mem _ hb))).1.2
        linarith
      have ha := (hs.each a (hmem a List.mem_cons_self)).1.2
      rw [List.map_cons, List.sum_cons]
      linarith

/-- **All caps but the sectors' are kept**, whatever the candidates; the
sectors' are when what is held fits beside what is allocated. -/
theorem keepsCaps_iff_sectors (ht : Ticks tick bound) (hc : constraints.OnTick tick bound)
    (ha : account.Within sectors constraints) (hta : account.OnTick tick bound sectors)
    (hcands : ∀ c ∈ candidates, c.OnTick tick bound) :
    KeepsCaps sectors account constraints (allocate sectors candidates account constraints) ↔
      ∀ cap ∈ constraints.maxSectorExposure, ∀ sector,
        (account.inSector sectors sector).capitalDeployed.amount +
          sectorCosts sectors sector (allocate sectors candidates account constraints) ≤
            cap.amount := by
  obtain ⟨s, hallocs, hs, hnd, -, hslots⟩ := allocate_spent ht hc ha hta hcands
  rw [← hallocs]
  have htick := ht.pos
  have hcosts : ∀ a ∈ s.allocations, Amount tick bound a.committedCapital.amount ∧
      0 ≤ a.committedCapital.amount := fun a ha => by
    obtain ⟨⟨hamount, htwo⟩, -⟩ := hs.each a ha
    exact ⟨hamount, by linarith⟩
  have hdeployed : ∀ {start : AccountFacts} {p : Allocation → Bool} {c : ℚ},
      Amount tick bound start.capitalDeployed.amount → Money.zero ≤ start.capitalDeployed →
      Amount tick (2 * bound) c → start.capitalDeployed.amount +
        ((s.allocations.filter p).map fun a => a.committedCapital.amount).sum ≤ c →
      (start.filled (s.allocations.filter p)).capitalDeployed.amount =
        start.capitalDeployed.amount +
          ((s.allocations.filter p).map fun a => a.committedCapital.amount).sum := by
    intro start p c hstart hstart0 hc' hle
    rw [AccountFacts.filled_capitalDeployed]
    refine ht.foldl_add_eq hc' hstart.double (Money.le_iff.mp hstart0) ?_ hle
    intro x hx
    obtain ⟨a, ha, rfl⟩ := List.mem_map.mp hx
    exact hcosts a (List.mem_of_mem_filter ha)
  have hsector : ∀ cap ∈ constraints.maxSectorExposure, ∀ sector,
      ((account.filled s.allocations).inSector sectors sector).capitalDeployed.amount =
        (account.inSector sectors sector).capitalDeployed.amount +
          sectorCosts sectors sector s.allocations := by
    intro cap hcap sector
    obtain ⟨hheld, hheld0⟩ := hta.sectors sector
    have hamount := hc.sector cap hcap
    rw [AccountFacts.filled_inSector]
    refine hdeployed hheld hheld0 (hamount.add_double hamount) (add_le_add ?_ ?_)
    · exact Money.le_iff.mp (ha.sectors cap hcap sector)
    · exact (hs.sectorCosts_le sector).2 cap hcap
  constructor
  · intro hkeeps cap hcap sector
    rw [← hsector cap hcap sector]
    exact Money.le_iff.mp (hkeeps.within.sectors cap hcap sector)
  · intro hsectors
    refine ⟨⟨?_, ?_, ?_⟩, fun a ha => (hs.each a ha).2, ?_, hnd⟩
    · have havail := hs.available_amount.2
      have hspent := hs.available
      have hall : s.allocations.filter (fun _ => true) = s.allocations := List.filter_true ..
      have hle : account.capitalDeployed.amount +
          (s.allocations.map fun a => a.committedCapital.amount).sum ≤
            constraints.productionCapital.amount := by
        unfold freeCapital at hspent
        linarith
      have heq := hdeployed (p := fun _ => true) hta.capital.1 hta.capital.2 hc.capital.double
        (by rw [hall]; exact hle)
      rw [hall] at heq
      rw [Money.le_iff, heq]
      exact hle
    · rw [AccountFacts.filled_openPositionCount]
      push_cast
      exact hslots
    · intro cap hcap sector
      rw [Money.le_iff, hsector cap hcap sector]
      exact hsectors cap hcap sector
    · rw [← hs.risk]
      exact hs.risk_le

/-! ## When the sectors are kept -/

/-- What the account holds in a sector. -/
def heldIn (sectors : SectorClassifier) (account : AccountFacts) (sector : String) : ℚ :=
  (account.inSector sectors sector).capitalDeployed.amount

/-- The most a call can put into one sector. -/
def reach (account : AccountFacts) (constraints : AllocationConstraints) (cap : Money) : ℚ :=
  min cap.amount (freeCapital account constraints)

/-- **What is held in a sector cannot matter**: nothing is held in it, or
the most a call can put into it fits beside what is held or is no price a
candidate has. Asked of the sectors with an instrument that is not held,
where there is a cap and a free slot. -/
def SectorsFree (tick : ℚ) (sectors : SectorClassifier) (account : AccountFacts)
    (constraints : AllocationConstraints) : Prop :=
  ∀ cap ∈ constraints.maxSectorExposure,
    (account.openPositionCount : ℤ) < constraints.maxSimultaneousPositions →
    ∀ instrument sector, sectors instrument = some sector → ¬ account.IsHeld instrument →
      heldIn sectors account sector = 0 ∨ reach account constraints cap ≤ tick ∨
        heldIn sectors account sector + reach account constraints cap ≤ cap.amount

/-- Of candidates on instruments not held, every cap is kept where what is
held in a sector cannot matter. -/
theorem keepsCaps_of_sectorsFree (ht : Ticks tick bound) (hc : constraints.OnTick tick bound)
    (ha : account.Within sectors constraints) (hta : account.OnTick tick bound sectors)
    (hfree : SectorsFree tick sectors account constraints)
    (hcands : ∀ c ∈ candidates, c.OnTick tick bound ∧ ¬ account.IsHeld c.instrumentId) :
    KeepsCaps sectors account constraints (allocate sectors candidates account constraints) := by
  rw [keepsCaps_iff_sectors ht hc ha hta fun c hmem => (hcands c hmem).1]
  intro cap hcap sector
  obtain ⟨s, hallocs, hs, -, hsub, hslots⟩ :=
    allocate_spent ht hc ha hta fun c hmem => (hcands c hmem).1
  rw [← hallocs]
  have htick := ht.pos
  have hwithin := Money.le_iff.mp (ha.sectors cap hcap sector)
  obtain ⟨hcapital, hsector⟩ := hs.sectorCosts_le sector
  have hreach : sectorCosts sectors sector s.allocations ≤ reach account constraints cap :=
    le_min (hsector cap hcap) hcapital
  rcases hs.sectorCosts_ne_zero ht with hzero | htwo
  · rw [hzero, add_zero]
    exact hwithin
  · -- something is allocated in the sector, so there was a slot for it
    have hmade : ∃ a ∈ s.allocations, sectors a.candidate.instrumentId = some sector := by
      by_contra hnone
      have hempty : s.allocations.filter
          (fun a => sectors a.candidate.instrumentId = some sector) = [] :=
        List.filter_eq_nil_iff.mpr fun a hmem => by simpa using fun h => hnone ⟨a, hmem, h⟩
      unfold sectorCosts at htwo
      rw [hempty, List.map_nil, List.sum_nil] at htwo
      linarith
    obtain ⟨a, hmem, hsec⟩ := hmade
    have hopen : (account.openPositionCount : ℤ) < constraints.maxSimultaneousPositions := by
      have := List.length_pos_of_mem hmem
      omega
    have hcand := hcands _ (hsub.subset (List.mem_map_of_mem hmem))
    rcases hfree cap hcap hopen _ _ hsec hcand.2 with hnone | hsmall | hfits
    · unfold heldIn at hnone
      rw [hnone, zero_add]
      exact hsector cap hcap
    · linarith
    · unfold heldIn at hfits
      linarith

/-- A candidate at a price above the tick, with a stop one tick below and a
target far enough for any edge. -/
theorem exists_candidate (ht : Ticks tick bound) {price : ℚ} (hprice : Amount tick bound price)
    (habove : tick < price) (instrument : String) (edge : ℚ) :
    ∃ c : OpportunityCandidate, c.OnTick tick bound ∧ c.instrumentId = instrument ∧
      c.entry.amount = price ∧ c.riskPerShare.amount = tick ∧ edge ≤ c.score := by
  have htick := ht.pos
  obtain ⟨e, he, hprice'⟩ := hprice.exists_nat ht.pos (htick.trans habove).le
  have hone : 1 ≤ bound := by
    have : 0 < e := by
      rcases Nat.eq_zero_or_pos e with rfl | h
      · rw [hprice', Nat.cast_zero, zero_mul] at habove
        linarith
      · exact h
    omega
  have htick' : Amount tick bound tick := by
    have : Amount tick bound ((1 : ℕ) * tick) := Amount.of_nat hone
    rwa [Nat.cast_one, one_mul] at this
  obtain ⟨n, hn, hedge, hkept, hkept'⟩ := ht.scale Nat.one_pos hone edge
  rw [Nat.cast_one, one_mul] at hkept
  have hn' : (0 : ℚ) < n := by exact_mod_cast hn
  have hgain : 0 < (n : ℚ) * tick := mul_pos hn' htick
  refine ⟨
    { strategyName := "S"
      instrumentId := instrument
      timeframe := .m1
      signal := Signal.sample .buy 1 Nat.one_pos
      entry := ⟨price⟩
      stop := ⟨price - tick⟩
      target := ⟨price + n * tick⟩
      regime := none
      generatedAt := 0
      confidence := 1
      confident := ⟨zero_le_one, le_rfl⟩
      positive := ⟨Money.lt_iff.mpr (htick.trans habove), Money.lt_iff.mpr (sub_pos.mpr habove),
        Money.lt_iff.mpr (add_pos (htick.trans habove) hgain)⟩
      bracket_fits := ⟨Money.lt_iff.mpr (sub_lt_self _ htick),
        Money.lt_iff.mpr (lt_add_of_pos_right _ hgain)⟩ }, ?_, rfl, rfl, ?_⟩
  · refine ⟨hprice, hprice.sub ht.pos htick' (htick.trans habove).le htick.le, e + n, ?_⟩
    push_cast
    rw [add_mul, ← hprice']
  · have hstop := hprice.sub ht.pos htick' (htick.trans habove).le htick.le
    have hrisk : Decimal.abs (Decimal.sub price (price - tick)) = tick := by
      rw [ht.sub_eq hprice hstop, sub_sub_cancel, Decimal.abs, abs_of_pos htick]
      exact ht.kept_of htick'
    have hreward : Decimal.abs (Decimal.sub (price + n * tick) price) = n * tick := by
      have hsub : Decimal.sub (price + n * tick) price = n * tick := by
        rw [Decimal.sub, add_sub_cancel_left]
        exact hkept
      rw [hsub, Decimal.abs, abs_of_pos hgain]
      exact hkept
    have hscore : Decimal.mul (Decimal.div (n * tick) tick) 1 = n := by
      rw [Decimal.div, mul_div_cancel_right₀ _ htick.ne']
      have : DecimalContext.round (n : ℚ) = n := hkept'
      rw [this, Decimal.mul, mul_one]
      exact hkept'
    refine ⟨hrisk, hedge.trans ?_⟩
    change (n : ℚ) ≤ Decimal.mul (Decimal.div (Decimal.abs _) (Decimal.abs _)) 1
    rw [hreward, hrisk, hscore]

/-- The size of a call's first candidate. -/
def firstSize (sectors : SectorClassifier) (account : AccountFacts)
    (constraints : AllocationConstraints) (c : OpportunityCandidate) : ℕ :=
  size c (initial account constraints).capitalAvailable
    (constraints.maxPortfolioRisk - (initial account constraints).portfolioRiskUsed)
    constraints.maxRiskPerTrade
    (sectorRoom sectors c constraints (initial account constraints).sectorCommitted)

/-- What a call gives a candidate that is alone. -/
theorem allocate_single (hedge : constraints.minExpectedEdge ≤ c.score)
    (hopen : (account.openPositionCount : ℤ) < constraints.maxSimultaneousPositions)
    (hsize : 0 < firstSize sectors account constraints c) :
    allocate sectors [c] account constraints = [⟨c, _, hsize⟩] := by
  have heligible : eligibleCandidates constraints [] [c] = [c] := by
    unfold eligibleCandidates
    rw [if_neg (not_lt.mpr hedge), if_neg List.not_mem_nil]
    rfl
  have hslots : ¬ constraints.maxSimultaneousPositions - account.openPositionCount ≤ 0 := by omega
  have hslots' : ¬ constraints.maxSimultaneousPositions - account.openPositionCount ≤
      ((initial account constraints).allocations.length : ℤ) := hslots
  unfold allocate
  dsimp only
  rw [if_neg hslots, heligible]
  unfold allocateAll
  rw [if_neg hslots']
  exact (congrArg AllocatorState.allocations (dif_pos hsize)).trans rfl

/-- Candidates come best first. -/
def Ranked (candidates : List OpportunityCandidate) : Prop :=
  candidates.Pairwise fun c d => d.score ≤ c.score

/-- The allocator keeps the account within its caps, whatever ranked
candidates it is given on instruments not held. -/
def KeepsAll (tick : ℚ) (bound : ℕ) (sectors : SectorClassifier) (account : AccountFacts)
    (constraints : AllocationConstraints) : Prop :=
  ∀ candidates, Ranked candidates →
    (∀ c ∈ candidates, c.OnTick tick bound ∧ ¬ account.IsHeld c.instrumentId) →
    KeepsCaps sectors account constraints (allocate sectors candidates account constraints)

end PortfolioAllocator

end Caps

/-! ## Fifteen more in a sector that holds ten -/

namespace PortfolioAllocator

/-- All instruments are banks. -/
def banking : SectorClassifier := fun _ => some "banking"

/-- Ten of `B` at 100 are held. -/
def sampleAccount : AccountFacts where
  positions := [⟨"B", 10, ⟨100⟩⟩]

theorem samplePrices_fit : (0 : Decimal) ≤ 1 ∧ (1 : Decimal) ≤ 1 ∧
    (Money.zero < ⟨100⟩ ∧ Money.zero < ⟨99⟩ ∧ Money.zero < ⟨104⟩) ∧
    bracketFits .buy ⟨100⟩ ⟨99⟩ ⟨104⟩ := by
  decide

/-- A purchase of `I` at 100. -/
def sampleCandidate : OpportunityCandidate where
  strategyName := "S"
  instrumentId := "I"
  timeframe := .m5
  signal := Signal.sample .buy 1 Nat.one_pos
  entry := ⟨100⟩
  stop := ⟨99⟩
  target := ⟨104⟩
  regime := some .trending
  generatedAt := 0
  confidence := 1
  confident := ⟨samplePrices_fit.1, samplePrices_fit.2.1⟩
  positive := samplePrices_fit.2.2.1
  bracket_fits := samplePrices_fit.2.2.2

theorem sampleCap_amount {x : ℚ} (k : ℕ) (hk : k ≤ 5000000) (hx : x * 100 = k) :
    Amount (10 ^ (-2 : ℤ)) (10 ^ 27) x := by
  refine ⟨k, ?_, ?_⟩
  · rw [abs_of_nonneg (by positivity)]
    exact_mod_cast hk.trans (by norm_num)
  · norm_num
    linarith

end PortfolioAllocator

end Emporos
