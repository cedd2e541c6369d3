import Emporos.Execution.Repricing
/-!
# The operations of a session

What the rest of the process calls on the execution layer, each a program
of its own. Several may be under way at once; the engine's operations wait
for its lock, the fill processor does not.
-/

namespace Emporos

inductive Op
  | place (approval : RiskApprovedSignal) (parentOrderId : Option String) (marketable : Bool)
  | cancel (orderId : String)
  | refresh (orderId : String)
  | recover
  | resolveUnresolved
  | process (trade : BrokerTrade)
  | sync
  /-- Reprice a stored order. -/
  | reprice (orderId : String) (candidate : Money)
  | runOnce

variable [DecimalContext] (cfg : Settings)

namespace RepriceCoordinator

/-- Reprice the row the journal has, if it has one. -/
def repriceStored (orderId : String) (candidate : Money) : Program (Option RepriceResult) := do
  match ← Program.await (.get orderId) with
  | none => pure none
  | some order => some <$> reprice cfg order candidate

end RepriceCoordinator

/-- The program of an operation; what it returns is the caller's. -/
def Op.program : Op → Program Unit
  | place approval parentOrderId marketable => do
      let _ ← ExecutionEngine.place cfg.engine approval parentOrderId marketable
  | cancel orderId => do let _ ← ExecutionEngine.cancel cfg.engine orderId
  | refresh orderId => do let _ ← ExecutionEngine.refresh cfg.engine orderId
  | recover => do let _ ← ExecutionEngine.recover cfg.engine
  | resolveUnresolved => do let _ ← ExecutionEngine.resolveUnresolved cfg.engine
  | process trade => do let _ ← FillProcessor.process cfg.fills trade
  | sync => do let _ ← FillSynchroniser.sync cfg.fills
  | reprice orderId candidate => do
      let _ ← RepriceCoordinator.repriceStored cfg orderId candidate
  | runOnce => do let _ ← RepriceScheduler.runOnce cfg

/-- The programs of the operations that satisfy `allowed`. -/
def Op.entry (allowed : Op → Prop) (p : Program Unit) : Prop := ∃ op, allowed op ∧ p = op.program cfg

end Emporos
