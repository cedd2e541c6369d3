import Emporos.Core.Errors
import Emporos.Core.Text
import Emporos.Domain.Money
/-!
# Signals and approvals

A signal is an intent to trade that is well formed by construction: what
the constructor of the source refuses cannot be built, and `Signal.make`
is that constructor. An approval is a signal the risk engine let through.
-/

namespace Emporos

inductive OrderSide
  | buy
  | sell
  deriving DecidableEq, Repr

/-- A price is no worse than the limit for the order's owner. -/
def OrderSide.Within (side : OrderSide) (limit price : Money) : Prop :=
  match side with
  | .buy => price ≤ limit
  | .sell => limit ≤ price

instance (side : OrderSide) (limit price : Money) : Decidable (side.Within limit price) := by
  unfold OrderSide.Within
  cases side <;> infer_instance

/-- There is no market order and no IOC. -/
inductive OrderType
  | limit
  | stoplossLimit
  deriving DecidableEq, Repr

inductive SignalKind
  | entry
  | exit
  deriving DecidableEq, Repr

namespace SignalKind

def value : SignalKind → String
  | entry => "ENTRY"
  | exit => "EXIT"

/-- `SignalKind(text)`. -/
def ofValue (text : String) : Except PyError SignalKind :=
  if text = "ENTRY" then .ok entry
  else if text = "EXIT" then .ok exit
  else .error (.valueError (text ++ " is not a valid SignalKind"))

@[simp] theorem ofValue_value (k : SignalKind) : ofValue k.value = .ok k := by
  cases k <;> rfl

end SignalKind

/-- Which trigger price an order type takes. -/
def triggerFits (orderType : OrderType) (trigger : Option Money) : Prop :=
  match orderType, trigger with
  | .limit, none => True
  | .limit, some _ => False
  | .stoplossLimit, none => False
  | .stoplossLimit, some t => Money.zero < t

instance (o : OrderType) (t : Option Money) : Decidable (triggerFits o t) := by
  unfold triggerFits
  split <;> infer_instance

/-- Where the protective stop of a signal may lie: positive, on the losing
side of the limit, and only for an entry. -/
def stopFits (kind : SignalKind) (side : OrderSide) (limit : Money) (stop : Option Money) : Prop :=
  match stop with
  | none => True
  | some s => kind = .entry ∧ Money.zero < s ∧
      match side with
      | .buy => s < limit
      | .sell => limit < s

instance (k : SignalKind) (s : OrderSide) (l : Money) (p : Option Money) :
    Decidable (stopFits k s l p) := by
  unfold stopFits
  split
  · infer_instance
  · cases s <;> infer_instance

structure Signal where
  strategyRunId : String
  instrumentId : String
  kind : SignalKind
  side : OrderSide
  orderType : OrderType
  quantity : ℕ
  limitPrice : Money
  ts : Timestamp
  reason : String
  triggerPrice : Option Money
  protectiveStop : Option Money
  named : strategyRunId ≠ "" ∧ instrumentId ≠ ""
  explained : Text.isMeaningful reason
  quantity_pos : 0 < quantity
  limit_pos : Money.zero < limitPrice
  trigger_fits : triggerFits orderType triggerPrice
  stop_fits : stopFits kind side limitPrice protectiveStop

/-- The samples trade ten. -/
theorem Sample.ten_pos : 0 < 10 := by decide

/-- An entry of `quantity` of `I` at 100, without a stop. -/
def Signal.sample (side : OrderSide) (quantity : ℕ) (h : 0 < quantity) : Signal where
  strategyRunId := "R"
  instrumentId := "I"
  kind := .entry
  side := side
  orderType := .limit
  quantity := quantity
  limitPrice := ⟨100⟩
  ts := 0
  reason := "entry"
  triggerPrice := none
  protectiveStop := none
  named := by decide
  explained := by decide
  quantity_pos := h
  limit_pos := by decide
  trigger_fits := trivial
  stop_fits := trivial

/-- The constructor: it refuses what a signal may not be. -/
def Signal.make (strategyRunId instrumentId : String) (kind : SignalKind) (side : OrderSide)
    (orderType : OrderType) (quantity : ℕ) (limitPrice : Money) (ts : Timestamp) (reason : String)
    (triggerPrice protectiveStop : Option Money) : Except PyError Signal :=
  if named : strategyRunId ≠ "" ∧ instrumentId ≠ "" then
    if explained : Text.isMeaningful reason then
      if quantity_pos : 0 < quantity then
        if limit_pos : Money.zero < limitPrice then
          if trigger_fits : triggerFits orderType triggerPrice then
            if stop_fits : stopFits kind side limitPrice protectiveStop then
              .ok { strategyRunId, instrumentId, kind, side, orderType, quantity, limitPrice, ts,
                    reason, triggerPrice, protectiveStop, named, explained, quantity_pos,
                    limit_pos, trigger_fits, stop_fits }
            else .error (.valueError (if kind = .entry then
                "the protective stop must be positive and on the losing side of the limit"
              else "only an entry carries a protective stop"))
          else .error (.valueError (if orderType = .stoplossLimit then
              "a stop-loss limit signal needs a positive trigger price"
            else "only stop-loss limit signals take a trigger price"))
        else .error (.valueError "signal limit price must be positive")
      else .error (.valueError "signal quantity must be positive")
    else .error (.valueError "a signal must say why: an unexplained signal is unauditable")
  else .error (.valueError "a signal needs a strategy run and an instrument")

/-- **What the constructor accepts it returns unchanged.** -/
theorem Signal.make_eq_ok {run instrument : String} {kind : SignalKind} {side : OrderSide}
    {orderType : OrderType} {quantity : ℕ} {limit : Money} {ts : Timestamp} {reason : String}
    {trigger stop : Option Money} {s : Signal}
    (h : Signal.make run instrument kind side orderType quantity limit ts reason trigger stop
      = .ok s) :
    s.strategyRunId = run ∧ s.instrumentId = instrument ∧ s.kind = kind ∧ s.side = side ∧
      s.orderType = orderType ∧ s.quantity = quantity ∧ s.limitPrice = limit ∧ s.ts = ts ∧
      s.reason = reason ∧ s.triggerPrice = trigger ∧ s.protectiveStop = stop := by
  unfold Signal.make at h
  split_ifs at h
  obtain rfl := Except.ok.inj h
  exact ⟨rfl, rfl, rfl, rfl, rfl, rfl, rfl, rfl, rfl, rfl, rfl⟩

/-- What is well formed the constructor accepts. -/
theorem Signal.exists_make {run instrument : String} {kind : SignalKind} {side : OrderSide}
    {orderType : OrderType} {quantity : ℕ} {limit : Money} {ts : Timestamp} {reason : String}
    {trigger stop : Option Money} (hnamed : run ≠ "" ∧ instrument ≠ "")
    (hexplained : Text.isMeaningful reason) (hquantity : 0 < quantity) (hlimit : Money.zero < limit)
    (htrigger : triggerFits orderType trigger) (hstop : stopFits kind side limit stop) :
    ∃ s, Signal.make run instrument kind side orderType quantity limit ts reason trigger stop =
      .ok s :=
  ⟨_, by rw [Signal.make, dif_pos hnamed, dif_pos hexplained, dif_pos hquantity, dif_pos hlimit,
    dif_pos htrigger, dif_pos hstop]⟩

/-- A signal the risk engine approved; the only thing execution acts on. -/
structure RiskApprovedSignal where
  signal : Signal
  signalId : String
  approvalId : String
  approvedAt : Timestamp
  rulesPassed : List String
  passed_ne_nil : rulesPassed ≠ []

structure RiskRejection where
  signal : Signal
  signalId : String
  rule : String
  reason : String

inductive RiskDecision
  | approved (approval : RiskApprovedSignal)
  | rejected (rejection : RiskRejection)

/-- A net holding in one instrument: positive is long, zero flat. -/
structure Position where
  instrumentId : String
  netQuantity : ℤ
  averagePrice : Money
  deriving DecidableEq

namespace Position

def flat (instrumentId : String) : Position := ⟨instrumentId, 0, Money.zero⟩

def isFlat (p : Position) : Bool := p.netQuantity = 0

end Position

end Emporos
