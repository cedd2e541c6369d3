import Emporos.Common.Amounts
import Emporos.Opportunity.Models
import Emporos.Risk.Snapshot
/-!
# Capital allocation

The allocator goes through ranked candidates and gives each what the
budgets left allow: risk per trade, risk of the portfolio, capital, and
capital per sector. Capital and slots start from what the account uses,
the sectors start from zero.
-/

namespace Emporos

/-- The sector of an instrument, if it has one. -/
abbrev SectorClassifier := String → Option String

/-- Every field is a hard cap. -/
structure AllocationConstraints where
  productionCapital : Money
  maxSimultaneousPositions : ℤ
  maxRiskPerTrade : Money
  maxPortfolioRisk : Money
  minExpectedEdge : Decimal := 0
  /-- None disables the sector check. -/
  maxSectorExposure : Option Money := none
  capital_pos : Money.zero < productionCapital
  positions_pos : 0 < maxSimultaneousPositions
  trade_pos : Money.zero < maxRiskPerTrade
  portfolio_pos : Money.zero < maxPortfolioRisk
  sector_pos : ∀ cap ∈ maxSectorExposure, Money.zero < cap

/-- The constructor: it refuses a cap that is not positive. -/
def AllocationConstraints.make (productionCapital : Money) (maxSimultaneousPositions : ℤ)
    (maxRiskPerTrade maxPortfolioRisk : Money) (minExpectedEdge : Decimal)
    (maxSectorExposure : Option Money) : Except PyError AllocationConstraints :=
  if capital_pos : Money.zero < productionCapital then
    if positions_pos : 0 < maxSimultaneousPositions then
      if trade_pos : Money.zero < maxRiskPerTrade then
        if portfolio_pos : Money.zero < maxPortfolioRisk then
          if sector_pos : ∀ cap ∈ maxSectorExposure, Money.zero < cap then
            .ok { productionCapital, maxSimultaneousPositions, maxRiskPerTrade, maxPortfolioRisk,
                  minExpectedEdge, maxSectorExposure, capital_pos, positions_pos, trade_pos,
                  portfolio_pos, sector_pos }
          else .error (.valueError "max_sector_exposure must be positive when set")
        else .error (.valueError "max_portfolio_risk must be positive")
      else .error (.valueError "max_risk_per_trade must be positive")
    else .error (.valueError "max_simultaneous_positions must be positive")
  else .error (.valueError "production capital must be positive")

structure Allocation where
  candidate : OpportunityCandidate
  quantity : ℕ
  quantity_pos : 0 < quantity

namespace Allocation

/-- The candidate's signal in the quantity that capital and risk allow. -/
def signal (a : Allocation) : Signal :=
  { a.candidate.signal with quantity := a.quantity, quantity_pos := a.quantity_pos }

variable [DecimalContext]

def committedCapital (a : Allocation) : Money := a.candidate.entry.times a.quantity

def committedRisk (a : Allocation) : Money := a.candidate.riskPerShare.times a.quantity

end Allocation

/-- What the loop over the candidates carries. -/
structure AllocatorState where
  capitalAvailable : Money
  portfolioRiskUsed : Money
  sectorCommitted : String → Money
  allocations : List Allocation

namespace PortfolioAllocator

variable [DecimalContext]

/-- The candidates good enough, the first of each instrument. -/
def eligibleCandidates (constraints : AllocationConstraints) :
    List String → List OpportunityCandidate → List OpportunityCandidate
  | _, [] => []
  | seenInstruments, c :: rest =>
      if c.score < constraints.minExpectedEdge then
        eligibleCandidates constraints seenInstruments rest
      else if c.instrumentId ∈ seenInstruments then
        eligibleCandidates constraints seenInstruments rest
      else c :: eligibleCandidates constraints (c.instrumentId :: seenInstruments) rest

omit [DecimalContext] in
/-- No stop is known of an open position. -/
def existingPortfolioRisk (_account : AccountFacts) : Money := Money.zero

/-- What the sector cap leaves a candidate, if it has a cap. -/
def sectorRoom (sectors : SectorClassifier) (candidate : OpportunityCandidate)
    (constraints : AllocationConstraints) (committed : String → Money) : Option Money :=
  match constraints.maxSectorExposure with
  | none => none
  | some cap =>
      match sectors candidate.instrumentId with
      | none => none
      | some sector =>
          let room := cap - committed sector
          some (if Money.zero < room then room else Money.zero)

/-- How many shares the budgets allow. -/
def size (candidate : OpportunityCandidate) (capitalAvailable riskRoom maxRiskPerTrade : Money)
    (sectorRoom : Option Money) : ℕ :=
  let riskPerShare := candidate.riskPerShare.amount
  let riskBudget := min maxRiskPerTrade.amount riskRoom.amount
  if riskBudget ≤ 0 then 0
  else
    let byRisk := Decimal.roundDown (riskBudget.div riskPerShare)
    let byCapital := Decimal.roundDown (capitalAvailable.amount.div candidate.entry.amount)
    let quantity := min byRisk byCapital
    match sectorRoom with
    | none => quantity.toNat
    | some room =>
        (min quantity (Decimal.roundDown (room.amount.div candidate.entry.amount))).toNat

/-- The state once an allocation is made. -/
def add (sectors : SectorClassifier) (s : AllocatorState) (a : Allocation) : AllocatorState where
  capitalAvailable := s.capitalAvailable - a.committedCapital
  portfolioRiskUsed := s.portfolioRiskUsed + a.committedRisk
  sectorCommitted :=
    match sectors a.candidate.instrumentId with
    | none => s.sectorCommitted
    | some sector =>
        Function.update s.sectorCommitted sector (s.sectorCommitted sector + a.committedCapital)
  allocations := s.allocations ++ [a]

/-- The loop over the eligible candidates. -/
def allocateAll (sectors : SectorClassifier) (constraints : AllocationConstraints) (slots : ℤ) :
    List OpportunityCandidate → AllocatorState → AllocatorState
  | [], s => s
  | c :: rest, s =>
      if slots ≤ s.allocations.length then s
      else
        let quantity := size c s.capitalAvailable (constraints.maxPortfolioRisk - s.portfolioRiskUsed)
          constraints.maxRiskPerTrade (sectorRoom sectors c constraints s.sectorCommitted)
        if h : 0 < quantity then
          allocateAll sectors constraints slots rest (add sectors s ⟨c, quantity, h⟩)
        else allocateAll sectors constraints slots rest s

/-- The budgets before the first candidate. -/
def initial (account : AccountFacts) (constraints : AllocationConstraints) : AllocatorState where
  capitalAvailable :=
    let capital := constraints.productionCapital - account.capitalDeployed
    if capital < Money.zero then Money.zero else capital
  portfolioRiskUsed := existingPortfolioRisk account
  sectorCommitted := fun _ => Money.zero
  allocations := []

def allocate (sectors : SectorClassifier) (candidates : List OpportunityCandidate)
    (account : AccountFacts) (constraints : AllocationConstraints) : List Allocation :=
  let eligible := eligibleCandidates constraints [] candidates
  let slots := constraints.maxSimultaneousPositions - account.openPositionCount
  if slots ≤ 0 then []
  else (allocateAll sectors constraints slots eligible (initial account constraints)).allocations

end PortfolioAllocator

namespace PortfolioAllocator

theorem sampleCaps_pos : Money.zero < ⟨50000⟩ ∧ Money.zero < ⟨1000⟩ ∧ Money.zero < ⟨3000⟩ ∧
    Money.zero < ⟨1500⟩ := by
  simp [Money.lt_iff, Money.zero]

theorem sampleSlots_pos : (0 : ℤ) < 3 := by decide

theorem sampleSector_pos : ∀ cap ∈ some (Money.mk 1500), Money.zero < cap := by
  intro cap hcap
  obtain rfl := Option.some.inj hcap
  exact sampleCaps_pos.2.2.2

/-- A sector may deploy 1500. -/
def sampleConstraints : AllocationConstraints where
  productionCapital := ⟨50000⟩
  maxSimultaneousPositions := 3
  maxRiskPerTrade := ⟨1000⟩
  maxPortfolioRisk := ⟨3000⟩
  maxSectorExposure := some ⟨1500⟩
  capital_pos := sampleCaps_pos.1
  positions_pos := sampleSlots_pos
  trade_pos := sampleCaps_pos.2.1
  portfolio_pos := sampleCaps_pos.2.2.1
  sector_pos := sampleSector_pos

end PortfolioAllocator

end Emporos
