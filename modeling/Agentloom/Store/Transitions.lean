import Agentloom.Store.Rows

/-! The guarded transitions of steps, edges and runs. A step transition is its guard, its update
and what is written beside it; a transition that does more has its own body. -/

namespace Agentloom.Store

open Transaction

def fenced (op stepID : String) (claimID : ClaimID) (now : Time) (target : StepStatus)
    (set : StepRow → StepRow) (finish : Option Finish) (event : StepRow → Nat → Event) :
    StepTransition :=
  { op, stepID, now, target, finish, event
    claim := some claimID
    guard := heldBy claimID
    set := fun row => { set row with status := target, updatedAt := now }
    reason := conflictReason .running (some claimID) }

def takeover (stepID : String) (claimID : ClaimID) (now : Time) : StepTransition :=
  fenced "takeover step" stepID claimID now .ready (fun row => { row with claimID := none })
    (some { outcome := .lost })
    fun row _ => .stepReclaimed stepID claimID row.attemptCount

def takeoverStep (stepID : String) (claimID : ClaimID) (now : Time) : StoreTx StepRow :=
  (takeover stepID claimID now).run

structure Completion where
  output : Json := ""
  usage : Option Json := none
  verdict : Option Json := none
  repair : Option Json := none
deriving DecidableEq, Repr

def succeed (stepID : String) (claimID : ClaimID) (completion : Completion) (now : Time) :
    StepTransition :=
  { (fenced "succeed step" stepID claimID now .succeeded
      (fun row => { row with
        output := some completion.output
        feedback := none
        finishedAt := some now })
      (some {
        outcome := .succeeded
        usage := completion.usage
        verdict := completion.verdict
        repair := completion.repair })
      fun row _ => .stepSucceeded stepID row.attemptCount) with
    delta := { succeeded := 1 } }

def Completion.taken (completion : Completion) (columns : Columns) : Bool :=
  columns.json completion.output && completion.usage.all columns.json &&
    completion.verdict.all columns.json && completion.repair.all columns.json

def succeedStep (stepID : String) (claimID : ClaimID) (completion : Completion) (now : Time)
    (columns : Columns := {}) : StoreTx StepRow := do
  requireTaken (completion.taken columns) "succeed step"
  (succeed stepID claimID completion now).run

structure Failure where
  outcome : AttemptOutcome
  error : Option Json := none
  usage : Option Json := none
  verdict : Option Json := none
  repair : Option Json := none
deriving DecidableEq, Repr

def Failure.finish (failure : Failure) : Finish :=
  { outcome := failure.outcome
    error := failure.error
    usage := failure.usage
    verdict := failure.verdict
    repair := failure.repair }

def deadLetter (stepID : String) (claimID : ClaimID) (source : DeadLetterSource)
    (failure : Failure) (now : Time) : StepTransition :=
  { (fenced "dead-letter step" stepID claimID now .deadLettered
      (fun row => { row with error := failure.error, feedback := none, finishedAt := some now })
      (some failure.finish)
      fun row seq =>
        .stepDeadLettered stepID source (some failure.outcome) row.attemptCount seq) with
    delta := { failed := 1 }
    letter := some { source, errorClass := some failure.outcome, error := failure.error } }

def deadLetterStep (stepID : String) (claimID : ClaimID) (source : DeadLetterSource)
    (failure : Failure) (now : Time) : StoreTx StepRow := do
  requireNow "dead-letter step" now
  requireArgument (source ≠ .poison) "dead-letter step"
    "source is not a fenced dead-letter source (retries_exhausted/permanent)"
  (deadLetter stepID claimID source failure now).run

def collectFail (stepID : String) (claimID : ClaimID) (failure : Failure) (output : Json)
    (now : Time) : StepTransition :=
  { (fenced "collect-fail step" stepID claimID now .collected
      (fun row => { row with
        output := some output
        error := failure.error
        feedback := none
        finishedAt := some now })
      (some { outcome := failure.outcome, error := failure.error, usage := failure.usage })
      fun row _ => .stepCollected stepID failure.outcome row.attemptCount) with
    delta := { collected := 1 } }

def collectFailStep (stepID : String) (claimID : ClaimID) (failure : Failure) (output : Json)
    (now : Time) : StoreTx StepRow :=
  (collectFail stepID claimID failure output now).run

def cancelRunning (stepID : String) (claimID : ClaimID) (reason : String) (error : Option Json)
    (now : Time) : StepTransition :=
  { (fenced "cancel running step" stepID claimID now .cancelled
      (fun row => { row with error, finishedAt := some now })
      (some { outcome := .cancelled, error })
      fun _ _ => .stepCancelled stepID reason) with
    delta := { cancelled := 1 } }

def cancelRunningStep (stepID : String) (claimID : ClaimID) (reason : String) (error : Option Json)
    (now : Time) : StoreTx StepRow := do
  requireNow "cancel running step" now
  requireArgument (reason ≠ "") "cancel running step" "empty Reason — pass the cancel reason"
  (cancelRunning stepID claimID reason error now).run

def releaseToRetry (error : Option Json) (nextAttemptAt : Time) (row : StepRow) : StepRow :=
  { row with error, claimID := none, nextAttemptAt := some nextAttemptAt }

def retry (stepID : String) (claimID : ClaimID) (failure : Failure) (nextAttemptAt now : Time) :
    StepTransition :=
  fenced "retry step" stepID claimID now .retrying (releaseToRetry failure.error nextAttemptAt)
    (some { outcome := failure.outcome, error := failure.error, usage := failure.usage })
    fun row _ => .stepRetryScheduled stepID row.attemptCount failure.outcome nextAttemptAt

def retryStep (stepID : String) (claimID : ClaimID) (failure : Failure) (nextAttemptAt now : Time) :
    StoreTx StepRow := do
  requireNow "retry step" now
  requireArgument (failure.outcome = .transient ∨ failure.outcome = .timeout) "retry step"
    "outcome is not a counted retryable class (transient/timeout)"
  requireArgument (nextAttemptAt ≠ 0) "retry step" "zero NextAttemptAt — pass the computed due time"
  (retry stepID claimID failure nextAttemptAt now).run

def throttleError (resource bucket : String) : Json :=
  "\x7b\"bucket\":" ++ Dag.quote bucket ++ ",\"outcome\":\"throttled\",\"resource\":" ++
    Dag.quote resource ++ "\x7d"

def throttle (stepID : String) (claimID : ClaimID) (resource bucket retryAfter : String)
    (nextAttemptAt now : Time) : StepTransition :=
  fenced "throttle step" stepID claimID now .retrying
    (releaseToRetry (some (throttleError resource bucket)) nextAttemptAt)
    (some { outcome := .throttled, error := some (throttleError resource bucket) })
    fun row _ =>
      .stepThrottled stepID row.attemptCount resource bucket retryAfter nextAttemptAt

def throttleStep (stepID : String) (claimID : ClaimID) (resource bucket retryAfter : String)
    (nextAttemptAt now : Time) : StoreTx StepRow := do
  requireNow "throttle step" now
  requireArgument (nextAttemptAt ≠ 0) "throttle step"
    "zero NextAttemptAt — pass the computed due time"
  (throttle stepID claimID resource bucket retryAfter nextAttemptAt now).run

structure SemanticRetry where
  failure : Failure
  feedback : Option Json := none
  semanticAttempt : Nat
  maxAttempts : Nat
  issueCount : Nat
  nextAttemptAt : Time
deriving DecidableEq, Repr

def semanticRetry (stepID : String) (claimID : ClaimID) (args : SemanticRetry) (now : Time) :
    StepTransition :=
  fenced "semantic retry step" stepID claimID now .retrying
    (fun row => { releaseToRetry args.failure.error args.nextAttemptAt row with
      feedback := args.feedback })
    (some { args.failure.finish with outcome := .validationFailed })
    fun row _ => .stepSemanticRetry stepID row.attemptCount args.semanticAttempt args.maxAttempts
      args.issueCount args.nextAttemptAt

def semanticRetryStep (stepID : String) (claimID : ClaimID) (args : SemanticRetry) (now : Time) :
    StoreTx StepRow := do
  requireNow "semantic retry step" now
  requireArgument (args.nextAttemptAt ≠ 0) "semantic retry step"
    "zero NextAttemptAt — pass the computed due time"
  (semanticRetry stepID claimID args now).run

def budgetRelease (stepID : String) (claimID : ClaimID) (payload : Json) (now : Time) :
    StepTransition :=
  fenced "budget park step" stepID claimID now .ready (fun row => { row with claimID := none })
    (some { outcome := .budgetExceeded, error := some payload })
    fun row _ => .budgetExceeded stepID row.attemptCount "park" payload

def parkRow (reason : ParkReason) (row : RunRow) : RunRow :=
  { row with status := .parked, parkReason := some reason }

def parkOverBudget (status : RunStatus) : StoreTx Unit := do
  if status = .running then
    match ← updateRun (fun r => r.status == .running) (parkRow .budgetExceeded) with
    | some _ => appendEvent (.runParked .budgetExceeded)
    | none => Tx.throw (.notFound "budget park step: park run" "run")
  else pure ()

/-- The step is released and the run is parked with it; a run that is not running keeps its
status. -/
def budgetParkStep (stepID : String) (claimID : ClaimID) (payload : Json) (now : Time) :
    StoreTx StepRow := do
  let run ← lockRun
  let row ← (budgetRelease stepID claimID payload now).run
  parkOverBudget run.status
  pure row

def cancel (stepID reason : String) (now : Time) : StepTransition :=
  { op := "cancel step", stepID, now
    target := .cancelled
    guard := fun row => row.status == .pending || row.status == .ready || row.status == .retrying
    set := fun row => { row with status := .cancelled, nextAttemptAt := none, updatedAt := now }
    reason := fun _ => .wrongStatus
    delta := { cancelled := 1 }
    event := fun _ _ => .stepCancelled stepID reason }

def cancelStep (stepID reason : String) (now : Time) : StoreTx StepRow := do
  requireNow "cancel step" now
  requireArgument (reason ≠ "") "cancel step" "empty Reason — pass the write-off reason"
  (cancel stepID reason now).run

def requeue (stepID : String) (now : Time) : StepTransition :=
  { op := "requeue step", stepID, now
    target := .ready
    guard := fun row => row.status == .deadLettered
    set := fun row => { row with
      status := .ready
      error := none
      nextAttemptAt := none
      finishedAt := none
      updatedAt := now }
    reason := conflictReason .deadLettered none
    delta := { failed := -1 }
    event := fun _ _ => .stepRequeued stepID }

def requeueStep (stepID : String) (now : Time) : StoreTx StepRow := (requeue stepID now).run

def revive (stepID reason : String) (now : Time) : StepTransition :=
  { op := "revive step", stepID, now
    target := .pending
    guard := fun row => row.status == .cancelled
    set := fun row => { row with status := .pending, updatedAt := now }
    reason := conflictReason .cancelled none
    delta := { cancelled := -1 }
    event := fun _ _ => .stepRevived stepID reason }

def reviveStep (stepID reason : String) (now : Time) : StoreTx StepRow := do
  requireNow "revive step" now
  requireArgument (reason ≠ "") "revive step" "empty Reason — pass the revival reason"
  (revive stepID reason now).run

def ready (stepID : String) (joinAny : Bool) (now : Time) : StepTransition :=
  { op := "ready step", stepID, now
    target := .ready
    guard := fun row =>
      row.status == .pending && row.firedDeps ≥ 1 && (row.remainingDeps == 0 || joinAny)
    set := fun row => { row with status := .ready, updatedAt := now }
    reason := conflictReason .pending none
    event := fun _ _ => .stepReady stepID }

def readyStep (stepID : String) (joinAny : Bool) (now : Time) : StoreTx StepRow :=
  (ready stepID joinAny now).run

def skip (stepID : String) (now : Time) : StepTransition :=
  { op := "skip step", stepID, now
    target := .skipped
    guard := fun row => row.status == .pending && row.remainingDeps == 0 && row.firedDeps == 0
    set := fun row => { row with status := .skipped, updatedAt := now }
    reason := conflictReason .pending none
    delta := { skipped := 1 }
    event := fun _ _ => .stepSkipped stepID }

def skipStep (stepID : String) (now : Time) : StoreTx StepRow := (skip stepID now).run

/-- Poison is not fenced: it takes any step that is not settled, and closes the attempt of a step
that was running. -/
def poison (stepID : String) (error payload : Option Json) (wasRunning : Bool) (now : Time) :
    StepTransition :=
  { op := "poison dead-letter step", stepID, now
    target := .deadLettered
    guard := fun row => row.status == .pending || row.status == .ready || row.status == .running ||
      row.status == .retrying
    set := fun row => { row with
      status := .deadLettered
      error
      claimID := none
      nextAttemptAt := none
      feedback := none
      finishedAt := some now
      updatedAt := now }
    reason := fun _ => .wrongStatus
    finish := if wasRunning then some { outcome := .lost, error } else none
    delta := { failed := 1 }
    letter := some { source := .poison, errorClass := none, error, payload }
    event := fun row seq => .stepDeadLettered stepID .poison none row.attemptCount seq }

def poisonDeadLetterStep (stepID : String) (error payload : Option Json) (now : Time) :
    StoreTx StepRow := do
  requireNow "poison dead-letter step" now
  let prior ← getRunStep "poison dead-letter step" stepID
  (poison stepID error payload (prior.status == .running) now).run

def claimRow (claimID : ClaimID) (now : Time) (row : StepRow) : StepRow :=
  { row with
    status := .running
    claimID := some claimID
    attemptCount := row.attemptCount + 1
    nextAttemptAt := none
    startedAt := some (row.startedAt.getD now)
    updatedAt := now }

def claimable (now : Time) (row : StepRow) : Bool :=
  row.status == .ready || (row.status == .retrying && row.nextAttemptAt.any (· ≤ now))

theorem claimable_status {now : Time} {row : StepRow} (claims : claimable now row = true) :
    row.status = .ready ∨ row.status = .retrying := by
  simp only [claimable, Bool.or_eq_true, Bool.and_eq_true, beq_iff_eq] at claims
  exact claims.imp_right And.left

def claimStep (stepID : String) (claimID : ClaimID) (workerID : String) (now : Time) :
    StoreTx StepRow := do
  requireNow "claim step" now
  let run ← lockRun
  if run.status ≠ .running then
    let row ← getRunStep "claim step" stepID
    Tx.throw (.runNotRunning "claim step" stepID run.status row.claimID)
  else
    match ← updateRunStep stepID (claimable now) (claimRow claimID now) with
    | none =>
      let row ← getRunStep "claim step" stepID
      Tx.throw (.stepConflict "claim step" stepID row.status .running
        (conflictReason .ready none row) none row.claimID)
    | some row =>
      createStepAttempt "claim step: insert attempt"
        { stepID
          attemptNo := row.attemptCount
          claimID
          feedback := row.feedback
          workerID
          startedAt := now }
      appendEvent (.stepClaimed stepID claimID row.attemptCount workerID)
      pure row

structure ResolveEdgeResult where
  resolved : Bool
  edge : EdgeRow
  toStep : Option StepRow

def resolutionOf (fired : Bool) : EdgeResolution := if fired then .fired else .skipped

def resolvable (ordinal : Nat) (row : EdgeRow) : Bool :=
  row.ordinal == ordinal && row.edgeType == .normal && row.resolution == .unresolved

def updateRunEdge (ordinal : Nat) (resolution : EdgeResolution) : StoreTx (Option EdgeRow) := fun s =>
  match Table.updateFirst (resolvable ordinal) (fun row => { row with resolution }) s.edges with
  | some (row, edges) => (.ok (some row), { s with edges })
  | none => (.ok none, s)

def applyResolution (fired : Bool) (now : Time) (row : StepRow) : StepRow :=
  { row with
    remainingDeps := row.remainingDeps - 1
    firedDeps := row.firedDeps + if fired then 1 else 0
    updatedAt := now }

def resolveEdgeNoop (ordinal : Nat) (resolution : EdgeResolution) : StoreTx ResolveEdgeResult := do
  match ← Tx.read fun s => s.edges.find? fun row => row.ordinal == ordinal with
  | none => Tx.throw (.notFound "resolve edge" "edge")
  | some edge =>
    if edge.edgeType = .loop then
      Tx.throw (.invalidArgument "resolve edge" "loop edges never resolve")
    else if edge.resolution = resolution then pure { resolved := false, edge, toStep := none }
    else Tx.throw (.invalidArgument "resolve edge" "edge already resolved the other way")

def resolveEdge (ordinal : Nat) (fired : Bool) (now : Time) : StoreTx ResolveEdgeResult := do
  requireNow "resolve edge" now
  match ← updateRunEdge ordinal (resolutionOf fired) with
  | none => resolveEdgeNoop ordinal (resolutionOf fired)
  | some edge =>
    match ← updateRunStep edge.toStep (fun row => row.remainingDeps > 0)
        (applyResolution fired now) with
    | some toStep => pure { resolved := true, edge, toStep := some toStep }
    | none =>
      let _ ← getRunStep "resolve edge" edge.toStep
      Tx.throw (.corrupted "resolve edge"
        "remaining_deps 0 with this edge unresolved — dependency bookkeeping corrupted")

def RunRow.live (row : RunRow) : Bool := row.status == .running || row.status == .parked

def finishRun (status : RunStatus) (now : Time) (row : RunRow) : RunRow :=
  { row with status, parkReason := none, finishedAt := some now }

def allSettled (row : RunRow) : Bool := row.counters.total == row.stepsTotal

def succeedRun (now : Time) : StoreTx RunRow :=
  RunTransition.run
    { op := "succeed run", now, want := .running, target := .succeeded
      guard := fun row => row.live && row.counters.failed == 0 &&
        row.counters.succeeded + row.counters.skipped + row.counters.collected == row.stepsTotal
      set := finishRun .succeeded now
      event := .runSucceeded }

def failRun (now : Time) : StoreTx RunRow :=
  RunTransition.run
    { op := "fail run", now, want := .running, target := .failed
      guard := fun row => row.live && row.counters.failed ≥ 1
      set := finishRun .failed now
      event := .runFailed }

def failRunRollup (now : Time) : StoreTx RunRow :=
  RunTransition.run
    { op := "fail run rollup", now, want := .running, target := .failed
      guard := fun row => row.live && row.counters.failed ≥ 1 && allSettled row
      set := finishRun .failed now
      event := .runFailed }

def resumeRun (now : Time) : StoreTx RunRow :=
  RunTransition.run
    { op := "resume run", now, want := .failed, target := .running
      guard := fun row => row.status == .failed
      set := fun row => { row with status := .running, finishedAt := none }
      event := .runResumed }

def parkRun (reason : ParkReason) (now : Time) : StoreTx RunRow :=
  RunTransition.run
    { op := "park run", now, want := .running, target := .parked
      guard := fun row => row.status == .running
      set := parkRow reason
      event := .runParked reason }

def unparkRun (now : Time) : StoreTx RunRow :=
  RunTransition.run
    { op := "unpark run", now, want := .parked, target := .running
      guard := fun row => row.status == .parked
      set := fun row => { row with status := .running, parkReason := none }
      event := .runUnparked }

def cancelRun (reason : RunCancelReason) (now : Time) : StoreTx RunRow :=
  RunTransition.run
    { op := "cancel run", now, want := .running, target := .cancelling
      guard := RunRow.live
      set := fun row => { row with
        status := .cancelling
        cancelReason := some reason
        parkReason := none }
      event := .runCancelling reason }

def cancelRunRollup (now : Time) : StoreTx RunRow :=
  RunTransition.run
    { op := "cancel run rollup", now, want := .cancelling, target := .cancelled
      guard := fun row => row.status == .cancelling && allSettled row
      set := fun row => { row with status := .cancelled, finishedAt := some now }
      event := .runCancelled }

def lockRunStatus (now : Time) : StoreTx RunStatus := do
  requireNow "lock run status" now
  let run ← lockRun
  pure run.status

def RunStatus.terminal : RunStatus → Bool
  | .succeeded => true
  | .failed => true
  | .cancelled => true
  | _ => false

def setRunBudget (budgetNanoUSD : Int) (now : Time) : StoreTx RunRow := do
  requireNow "set run budget" now
  let locked ← lockRun
  match ← updateRun (fun row => !row.status.terminal)
      (fun row => { row with budgetNanoUSD := some budgetNanoUSD }) with
  | some row =>
    appendEvent (.runBudgetUpdated (locked.budgetNanoUSD.getD 0) budgetNanoUSD)
    pure row
  | none => Tx.throw (.runConflict "set run budget" locked.status locked.status .wrongStatus)

def recordModelDowngrade (stepID : String) (claimID : ClaimID) (payload : Json) (now : Time) :
    StoreTx Unit := do
  requireNow "record model downgrade" now
  let row ← getRunStep "record model downgrade" stepID
  if heldBy claimID row then appendEvent (.modelDowngraded stepID row.attemptCount payload)
  else Tx.throw (.stepConflict "record model downgrade" stepID row.status .running
    (conflictReason .running (some claimID) row) (some claimID) row.claimID)

def recordEvent (op type stepID : String) (payload : Json) (now : Time) : StoreTx Unit := do
  requireNow op now
  appendEvent (.recorded type stepID payload)

end Agentloom.Store
