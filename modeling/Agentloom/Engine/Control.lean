import Agentloom.Engine.Complete

/-! Claims, the operator's control of a run, and the heals of the reconciler. -/

namespace Agentloom.Engine

open Transaction Store

def isAlreadyReady : StoreError → Bool
  | .stepConflict _ _ .ready _ .wrongStatus _ _ => true
  | _ => false

def takeoverAndClaim (stepID : String) (holder claimID : ClaimID) (workerID : String) (now : Time) :
    StoreTx Unit := do
  let _ ← Tx.dropping isAlreadyReady (takeoverStep stepID holder now)
  (claimStep stepID claimID workerID now).void

def cancelUnclaimed (row : StepRow) (now : Time) : StoreTx Unit :=
  match row.status with
  | .pending => (cancelStep row.stepID "run_cancelled" now).void
  | .ready => (cancelStep row.stepID "run_cancelled" now).void
  | .retrying => (cancelStep row.stepID "run_cancelled" now).void
  | .awaitingHuman => (cancelAwaitingHumanStep row.stepID "run_cancelled" now).void
  | _ => pure ()

/-- The steps no worker holds are cancelled with the run; the others settle on completion. -/
def sweepUnclaimed (now : Time) : StoreTx Unit := do
  let steps ← Tx.read listRunSteps
  Tx.forEach steps fun row => cancelUnclaimed row now
  (attemptCancelRollup now).void

def cancelRunTx (reason : RunCancelReason) (now : Time) : StoreTx Unit := do
  let _ ← cancelRun reason now
  sweepUnclaimed now

def unpark (now : Time) : StoreTx Unit := do
  let _ ← unparkRun now
  redispatch .unpark

def enforceDeadline (payload : Json) (now : Time) : StoreTx Unit := do
  match ← Tx.dropping StoreError.isConflict (cancelRunTx .deadlineExceeded now) with
  | some _ => recordEvent "record guard tripped" "guard_tripped" "" payload now
  | none => pure ()

def healRunningStep (stepID : String) (claimID : ClaimID) (hasPendingOutbox : Bool) (now : Time) :
    StoreTx Unit := do
  match ← Tx.dropping StoreError.isConflict (takeoverStep stepID claimID now) with
  | none => pure ()
  | some _ => if hasPendingOutbox then pure () else createOutbox stepID .reconcileRunning

def healCancellingStep (stepID : String) (claimID : ClaimID) (now : Time) : StoreTx Unit := do
  let _ ← takeoverStep stepID claimID now
  let _ ← cancelStep stepID "run_cancelled" now
  (attemptCancelRollup now).void

end Agentloom.Engine
