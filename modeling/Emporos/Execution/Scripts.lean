import Emporos.Async.Schedule
import Emporos.Execution.Runs
/-!
# Scripted runs

A script settles what the clock reads and what the world outside the
journal answers. With it a call has one answer, so an operation can be run
alone (`Script.handle`), and a schedule of operations is a run
(`Run.play`).
-/

namespace Emporos

open Async

structure Script where
  clock : World → Timestamp
  outside : World → (c : Call) → c.Answer

namespace Script

variable (x : Script) (account : String)

/-- What task `t` is answered, and the world that leaves. The journal
answers what it holds. -/
def handle (t : ℕ) (c : Call) (w : World) : c.Answer × World :=
  match w.store.serve account c with
  | some (a, s) => (a, w.after t c a (x.clock w) s w.lock)
  | none =>
      match c with
      | .acquireLock => (.ok (), w.after t .acquireLock (.ok ()) (x.clock w) w.store (some t))
      | .releaseLock => (.ok (), w.after t .releaseLock (.ok ()) (x.clock w) w.store none)
      | .now => (.ok (x.clock w), w.after t .now (.ok (x.clock w)) (x.clock w) w.store w.lock)
      | c => (x.outside w c, w.after t c (x.outside w c) (x.clock w) w.store w.lock)

/-- The task has to wait for the lock. -/
def waits (w : World) : Call → Bool
  | .acquireLock => w.lock.isSome
  | _ => false

/-- The same as a responder: the lock is granted when it is free. -/
def respond : Responder calls PyError World := fun t w c =>
  if waits w c then none else some (x.handle account t c w)

variable {x account} {admits : (c : Call) → c.Answer → Prop} {t : ℕ} {w : World} {c : Call}

/-- A scripted answer is one the platform gives. -/
theorem step_handle (hadmits : ∀ w c, admits c (x.outside w c)) (hfree : waits w c = false) :
    (platform ⟨account, admits⟩).step t w c (x.handle account t c w).1
      (x.handle account t c w).2 := by
  unfold handle
  split
  · rename_i a s hserve
    exact ⟨x.clock w, s, w.lock, .served hserve, rfl⟩
  · rename_i hserve
    split
    · refine ⟨x.clock w, w.store, some t, .acquired ?_, rfl⟩
      simpa [waits] using hfree
    · exact ⟨x.clock w, w.store, none, .released, rfl⟩
    · exact ⟨x.clock w, w.store, w.lock, .clock, rfl⟩
    · rename_i hacq hrel hnow
      exact ⟨x.clock w, w.store, w.lock, .outside hserve ⟨hacq, hrel, hnow⟩ (hadmits w _), rfl⟩

theorem respond_within (hadmits : ∀ w c, admits c (x.outside w c)) :
    (x.respond account).Within (platform ⟨account, admits⟩) := by
  intro t w c a w' h
  unfold respond at h
  split at h
  · cases h
  · rename_i hwaits
    obtain ⟨rfl, rfl⟩ := Prod.mk.inj (Option.some.inj h)
    exact step_handle hadmits (by simpa using hwaits)

end Script

variable [DecimalContext]

/-- The pool a schedule of operations leads to from an empty journal. -/
def Script.play (x : Script) (cfg : Settings) (moves : List (Move Op)) :
    Pool calls PyError Unit World :=
  Pool.play (x.respond cfg.engine.accountId) (fun w => { w with lock := none }) (Op.program cfg)
    moves (Pool.idle World.start 0)

/-- **A scripted schedule is a run.** -/
theorem Run.play (x : Script) (cfg : Settings) {admits : (c : Call) → c.Answer → Prop}
    (hadmits : ∀ w c, admits c (x.outside w c)) (moves : List (Move Op)) :
    Run cfg Scope.all admits (x.play cfg moves) := by
  refine Pool.Reachable.play (Script.respond_within hadmits) (fun op => ⟨op, ?_, rfl⟩) .refl moves
  cases op <;> trivial

/-! ## A small configuration -/

namespace Sample

/-- The account `A`, the standard absence policy, no charges, and two
reprices within a hundred basis points. -/
def settings : Settings where
  engine :=
    { accountId := "A", absence := .standard, approvalLifetime := 3600 * Timestamp.second,
      rule := fun _ => ⟨0, le_rfl⟩, account_named := by decide, lifetime_pos := by decide }
  fills := { accountId := "A", charges := fun _ => .ok Money.zero }
  policy :=
    { after := Timestamp.second, maxReprices := 2, maxChaseBps := 100, after_pos := Timestamp.second_pos,
      chase_nonneg := by decide }
  same_account := rfl

/-- An approved entry: `quantity` of `I` at 100. -/
def approval (signalId : String) (side : OrderSide) (quantity : ℕ) (h : 0 < quantity) :
    RiskApprovedSignal where
  signal := .sample side quantity h
  signalId := signalId
  approvalId := "P"
  approvedAt := 0
  rulesPassed := ["all"]
  passed_ne_nil := by decide

/-- One call takes ten seconds, and ids count the calls. The broker's side
is the script's. -/
def script (submit : PlaceOrderRequest → Except PyError BrokerOrderAck)
    (rows : List Event → String → List BrokerOrder) (book : List Event → List BrokerTrade) :
    Script where
  clock w := 10 * Timestamp.second * w.trace.length
  outside w c :=
    match c with
    | .submit r => submit r
    | .findByTag tag => .ok (rows w.trace tag)
    | .tradeBook => .ok (book w.trace)
    | .newUlid => .ok ("N" ++ toString w.trace.length)
    | .tickSize _ => .ok ⟨1⟩
    | .revoke r => .ok ⟨r.brokerOrderId, none⟩
    | .candidate _ => .ok none
    | .review .. => .ok (.rejected "none" "")
    | .acquireOrders => .ok ()
    | .onFill .. => .ok ()
    | .raiseAlert _ => .ok ()
    | _ => .error (.other "unscripted")

/-- The broker's row of an order of `approval`, in a status. -/
def row (tag brokerOrderId : String) (side : OrderSide) (quantity filled : ℕ)
    (status : BrokerOrderStatus) : BrokerOrder where
  brokerOrderId := brokerOrderId
  clientTag := some tag
  instrumentId := "I"
  side := side
  orderType := some .limit
  quantity := quantity
  filledQuantity := filled
  status := status
  price := some ⟨100⟩
  triggerPrice := none
  statusMessage := ""

/-- A schedule of the small configuration, in the standard context. -/
def play (x : Script) (moves : List (Move Op)) : Pool calls PyError Unit World :=
  @Script.play Decimal.standard x settings moves

omit [DecimalContext] in
theorem run (x : Script) (moves : List (Move Op)) :
    @Run Decimal.standard settings Scope.all (fun _ _ => True) (play x moves) :=
  @Run.play Decimal.standard x settings _ (fun _ _ => trivial) moves

/-- Each operation runs to its end before the next one starts. -/
def inTurn (ops : List Op) : List (Move Op) :=
  ops.zipIdx.flatMap fun (op, t) => [.start op, .run t 60]

end Sample

end Emporos
