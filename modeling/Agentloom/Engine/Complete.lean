import Agentloom.Engine.DeadLetter

/-! The completions of an attempt. Each is one transaction that first locks the run: a step of a
cancelling run is only settled, any other is settled, routed and rolled up. -/

namespace Agentloom.Engine

open Transaction Store

def attemptFailRollup (now : Time) : StoreTx (Option RunRow) := do
  match ← Tx.dropping StoreError.isConflict (failRunRollup now) with
  | some run => pure (some run)
  | none => attemptCancelRollup now

def attemptRunRollup (now : Time) : StoreTx (Option RunRow) := do
  match ← Tx.dropping StoreError.isConflict (succeedRun now) with
  | some run => pure (some run)
  | none => attemptFailRollup now

/-- The source of a fan-out: the out-edges are read under the run lock, after any expansion. -/
def terminalSource (stepID : String) (stepType : Dag.StepType) (evaluator : Evaluator)
    (select : List EdgeRow → List EdgeVerdict → List EdgeVerdict) : StoreTx TerminalSource := do
  let edges ← Tx.read (listEdgesFromStep stepID)
  match planEdges stepType evaluator edges with
  | .error msg => Tx.throw (.engine "plan edges" msg)
  | .ok verdicts => pure { stepID, verdicts := select edges verdicts }

def route (source : TerminalSource) (now : Time) : StoreTx Unit := do
  let fanned ← fanOut source now
  Tx.forEach fanned.readied fun id => createOutbox id .stepReady

def routeSource (source : Option TerminalSource) (now : Time) : StoreTx Unit :=
  match source with
  | some source => route source now
  | none => pure ()

def routeAndRollup (source : Option TerminalSource) (now : Time) : StoreTx Unit := do
  routeSource source now
  (attemptRunRollup now).void

/-- What a completion records beside its transition: the charges of the attempt, and events that
report on blackboard writes and loop decisions. -/
inductive Note where
  | charge (args : AttemptCost)
  | event (op type : String) (payload : Json)
deriving DecidableEq, Repr

def recordNote (stepID : String) (now : Time) (note : Note) (columns : Columns := {}) :
    StoreTx Unit :=
  match note with
  | .charge args => (applyAttemptCost args now).void
  | .event op type payload => do
      requireTaken (columns.json payload) op
      recordEvent op type stepID payload now

def recordNotes (stepID : String) (notes : List Note) (now : Time) (columns : Columns := {}) :
    StoreTx Unit :=
  Tx.forEach notes fun note => recordNote stepID now note columns

structure Expansion where
  kind : Dag.ExpansionOriginKind
  plan : Dag.PlanOutput
  maxAddedSteps : Int := 0
  depthOverride : Option Int := none
deriving DecidableEq, Repr

def Expansion.args (expansion : Expansion) (stepID : String) : ExpandRun :=
  { kind := expansion.kind
    originStep := stepID
    plan := expansion.plan
    maxAddedSteps := expansion.maxAddedSteps
    depthOverride := expansion.depthOverride }

def expandOrigin (lint : Dag.PlanLint) (stepID : String) (expansion : Option Expansion)
    (now : Time) : StoreTx Unit :=
  match expansion with
  | some expansion => (expandRun lint (expansion.args stepID) now).void
  | none => pure ()

structure Success where
  stepID : String
  stepType : Dag.StepType
  claimID : ClaimID
  completion : Completion := {}
  notes : List Note := []
  expansion : Option Expansion := none
  loopNotes : List Note := []
  evaluator : Evaluator := .ok fun _ => .ok true
  columns : Columns := {}

def sourceOfSuccess (lint : Dag.PlanLint) (args : Success) (status : RunStatus) (now : Time) :
    StoreTx (Option TerminalSource) :=
  if status = .cancelling then pure none
  else do
    expandOrigin lint args.stepID args.expansion now
    recordNotes args.stepID args.loopNotes now args.columns
    let source ← terminalSource args.stepID args.stepType args.evaluator fun _ verdicts => verdicts
    pure (some source)

def settleSuccess (lint : Dag.PlanLint) (args : Success) (now : Time) :
    StoreTx (Option TerminalSource) := do
  let status ← lockRunStatus now
  let _ ← succeedStep args.stepID args.claimID args.completion now args.columns
  recordNotes args.stepID args.notes now args.columns
  sourceOfSuccess lint args status now

def completeSuccess (lint : Dag.PlanLint) (args : Success) (now : Time) : StoreTx Unit := do
  let source ← settleSuccess lint args now
  routeAndRollup source now

/-- On a cancelling run the attempt is not judged: the step is cancelled with its error. -/
def settleCancelled (stepID : String) (claimID : ClaimID) (error : Option Json) (now : Time) :
    StoreTx Unit := do
  let _ ← cancelRunningStep stepID claimID "run_cancelled" error now
  (attemptCancelRollup now).void

def unlessCancelling (stepID : String) (claimID : ClaimID) (error : Option Json) (now : Time)
    (otherwise : StoreTx Unit) : StoreTx Unit := do
  let status ← lockRunStatus now
  if status = .cancelling then settleCancelled stepID claimID error now else otherwise

def buryStep (stepID : String) (claimID : ClaimID) (source : DeadLetterSource) (failure : Failure)
    (notes : List Note) (now : Time) : StoreTx Unit := do
  let _ ← deadLetterStep stepID claimID source failure now
  recordNotes stepID notes now
  let run ← lockRun
  (deadLetterDisposition run.onFailure now).void

inductive FailureRoute where
  | retry (nextAttemptAt : Time)
  | bury (exhausted : Bool)
deriving DecidableEq, Repr

def FailureRoute.settle (stepID : String) (claimID : ClaimID) (failure : Failure)
    (notes : List Note) (now : Time) : FailureRoute → StoreTx Unit
  | .retry nextAttemptAt => do
      let _ ← retryStep stepID claimID failure nextAttemptAt now
      recordNotes stepID notes now
  | .bury exhausted =>
    buryStep stepID claimID (if exhausted then .retriesExhausted else .permanent) failure notes now

def completeFailure (stepID : String) (claimID : ClaimID) (failure : Failure) (notes : List Note)
    (failureRoute : FailureRoute) (now : Time) : StoreTx Unit :=
  unlessCancelling stepID claimID failure.error now
    (failureRoute.settle stepID claimID failure notes now)

structure Collected where
  stepID : String
  stepType : Dag.StepType
  claimID : ClaimID
  failure : Failure
  marker : Json
  notes : List Note := []
  evaluator : Evaluator := .ok fun _ => .ok true

def settleCollected (args : Collected) (now : Time) : StoreTx TerminalSource := do
  let _ ← collectFailStep args.stepID args.claimID args.failure args.marker now
  recordNotes args.stepID args.notes now
  terminalSource args.stepID args.stepType args.evaluator fun _ verdicts => verdicts

def completeCollected (args : Collected) (now : Time) : StoreTx Unit :=
  unlessCancelling args.stepID args.claimID args.failure.error now do
    let source ← settleCollected args now
    routeAndRollup (some source) now

def completeThrottle (stepID : String) (claimID : ClaimID) (resource bucket retryAfter : String)
    (nextAttemptAt now : Time) : StoreTx Unit :=
  unlessCancelling stepID claimID none now
    (throttleStep stepID claimID resource bucket retryAfter nextAttemptAt now).void

def completeBudgetPark (stepID : String) (claimID : ClaimID) (payload : Json) (now : Time) :
    StoreTx Unit :=
  unlessCancelling stepID claimID none now (budgetParkStep stepID claimID payload now).void

def completeAwaitHuman (stepID : String) (claimID : ClaimID) (content : ApprovalContent)
    (now : Time) : StoreTx Unit :=
  unlessCancelling stepID claimID none now (awaitHumanStep stepID claimID content now).void

inductive ValidationRoute where
  | semanticRetry (feedback : Option Json) (semanticAttempt maxAttempts issueCount : Nat)
  | bury (error : Option Json)
deriving DecidableEq, Repr

def ValidationRoute.settle (stepID : String) (claimID : ClaimID) (failure : Failure)
    (notes : List Note) (now : Time) : ValidationRoute → StoreTx Unit
  | .semanticRetry feedback semanticAttempt maxAttempts issueCount => do
      -- The retry is due at once and dispatched from the same transaction.
      let _ ← semanticRetryStep stepID claimID
        { failure, feedback, semanticAttempt, maxAttempts, issueCount, nextAttemptAt := now } now
      createOutbox stepID .semanticRetry
      recordNotes stepID notes now
  | .bury error =>
    buryStep stepID claimID .retriesExhausted
      { failure with outcome := .validationFailed, error } notes now

def completeValidationFailure (stepID : String) (claimID : ClaimID) (failure : Failure)
    (notes : List Note) (validationRoute : ValidationRoute) (now : Time) : StoreTx Unit :=
  unlessCancelling stepID claimID failure.error now
    (validationRoute.settle stepID claimID failure notes now)

end Agentloom.Engine
