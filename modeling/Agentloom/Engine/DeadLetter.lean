import Agentloom.Library.Marking
import Agentloom.Engine.FanOut

/-! Dead-lettered steps: what they make impossible, what the failure policy does with the run, and
how a requeue brings a step and the steps written off with it back. -/

namespace Agentloom.Engine

open Transaction Store

def attemptCancelRollup (now : Time) : StoreTx (Option RunRow) :=
  Tx.dropping StoreError.isConflict (cancelRunRollup now)

/-- A step in one of these statuses never resolves its out-edges. -/
def isBlocked : StepStatus → Bool
  | .deadLettered => true
  | .cancelled => true
  | .failed => true
  | _ => false

def unresolvedIn (edges : List EdgeRow) (stepID : String) : List EdgeRow :=
  edges.filter fun edge =>
    edge.edgeType == .normal && edge.resolution == .unresolved && edge.toStep == stepID

def blockedSources (steps : List StepRow) : List String :=
  (steps.filter fun row => isBlocked row.status).map StepRow.stepID

def isImpossible (steps : List StepRow) (edges : List EdgeRow) (marked : List String)
    (row : StepRow) : Bool :=
  let blocked := fun edge : EdgeRow =>
    (blockedSources steps).contains edge.fromStep || marked.contains edge.fromStep
  let incoming := unresolvedIn edges row.stepID
  row.status == .pending &&
    if isJoinAny row then
      row.firedDeps == 0 && incoming.length > 0 && incoming.countP (fun edge => !blocked edge) == 0
    else incoming.countP blocked > 0

/-- The pending steps whose readiness is impossible on these rows, in discovery order. -/
def planWriteOff (steps : List StepRow) (edges : List EdgeRow) : List String :=
  Marking.fixpoint StepRow.stepID (isImpossible steps edges) steps

def writeOffOf (s : RunStore) : List String := planWriteOff (listRunSteps s) (listRunEdges s)

def deadLetterDisposition (onFailure : Dag.FailurePolicy) (now : Time) :
    StoreTx (List String × Bool) :=
  match onFailure with
  | .failFast => do
      let failed ← Tx.dropping StoreError.isConflict (failRun now)
      pure ([], failed.isSome)
  | .continueIndependentBranches => do
      let writeOff ← Tx.read writeOffOf
      Tx.forEach writeOff fun stepID => (cancelStep stepID "upstream_dead_lettered" now).void
      let failed ← Tx.dropping StoreError.isConflict (failRunRollup now)
      pure (writeOff, failed.isSome)

def cancelRollupUnless (runFailed : Bool) (now : Time) : StoreTx Unit :=
  if runFailed then pure () else (attemptCancelRollup now).void

def handlePoison (stepID : String) (error payload : Option Json) (now : Time) : StoreTx Unit := do
  let run ← lockRun
  let _ ← poisonDeadLetterStep stepID error payload now
  let (_, runFailed) ← deadLetterDisposition run.onFailure now
  cancelRollupUnless runFailed now

def asIfPending (row : StepRow) : StepRow :=
  if row.status = .cancelled then { row with status := .pending } else row

def revivable (s : RunStore) : List String :=
  let stillImpossible := planWriteOff ((listRunSteps s).map asIfPending) (listRunEdges s)
  ((listRunSteps s).filter fun row =>
    row.status == .cancelled && !stillImpossible.contains row.stepID).map StepRow.stepID

def listReadyWithoutOutbox (s : RunStore) : List String :=
  ((listRunSteps s).filter fun row =>
    row.status == .ready && !(s.outbox.any fun entry => entry.stepID == row.stepID)).map
      StepRow.stepID

def redispatch (reason : OutboxReason) : StoreTx Unit := do
  let stepIDs ← Tx.read listReadyWithoutOutbox
  Tx.forEach stepIDs fun stepID => createOutbox stepID reason

def reopen (now : Time) : StoreTx Unit := do
  let run ← lockRun
  match run.status with
  | .cancelling => Tx.throw (.engine "requeue" "run is not requeueable")
  | .cancelled => Tx.throw (.engine "requeue" "run is not requeueable")
  | .failed => (resumeRun now).void
  | _ => pure ()

def requeue (stepID : String) (now : Time) : StoreTx Unit := do
  let _ ← requeueStep stepID now
  reopen now
  let revived ← Tx.read revivable
  Tx.forEach revived fun id => (reviveStep id "dlq_requeue" now).void
  redispatch .dlqRequeue

end Agentloom.Engine
