import Agentloom.Library.Transaction
import Agentloom.Library.Table
import Agentloom.Dag.Expansion

/-! The rows of one run and the primitive writes its transitions are made of. Transitions of a run
serialise on its row lock, so a run is one state and a transition one program over it. Times are
natural numbers, with zero for the unset time; JSON columns are texts. -/

namespace Agentloom.Store

open Transaction

abbrev Time := Nat

abbrev Json := String

/-- What the columns take of the texts that they are given: neither TEXT nor JSONB takes U+0000. -/
structure Columns where
  text : String → Bool := fun _ => true
  json : Json → Bool := fun _ => true

abbrev ClaimID := Nat

abbrev ApprovalID := Nat

inductive RunStatus where
  | running
  | succeeded
  | failed
  | parked
  | cancelling
  | cancelled
deriving DecidableEq, Repr

inductive StepStatus where
  | pending
  | ready
  | running
  | succeeded
  | failed
  | skipped
  | retrying
  | deadLettered
  | cancelled
  | collected
  | awaitingHuman
deriving DecidableEq, Repr

inductive ParkReason where
  | manual
  | budgetExceeded
  | awaitingHuman
deriving DecidableEq, Repr

inductive RunCancelReason where
  | manual
  | deadlineExceeded
deriving DecidableEq, Repr

inductive EdgeResolution where
  | unresolved
  | fired
  | skipped
deriving DecidableEq, Repr

inductive AttemptOutcome where
  | succeeded
  | lost
  | transient
  | permanent
  | timeout
  | cancelled
  | throttled
  | budgetExceeded
  | validationFailed
deriving DecidableEq, Repr

inductive DeadLetterSource where
  | retriesExhausted
  | permanent
  | poison
deriving DecidableEq, Repr

inductive ApprovalStatus where
  | pending
  | approved
  | rejected
  | expired
  | cancelled
deriving DecidableEq, Repr

inductive ApprovalSource where
  | human
  | timeout
deriving DecidableEq, Repr

inductive ApprovalAction where
  | rejected
  | approved
  | runParked
  | runAlreadyParked
deriving DecidableEq, Repr

inductive OutboxReason where
  | stepReady
  | reconcileReady
  | reconcileRunning
  | reconcileRetry
  | dlqRequeue
  | unpark
  | semanticRetry
  | approvalTimeout
deriving DecidableEq, Repr

structure Counters where
  succeeded : Int := 0
  failed : Int := 0
  skipped : Int := 0
  cancelled : Int := 0
  collected : Int := 0
deriving DecidableEq, Repr

def Counters.add (a b : Counters) : Counters :=
  { succeeded := a.succeeded + b.succeeded
    failed := a.failed + b.failed
    skipped := a.skipped + b.skipped
    cancelled := a.cancelled + b.cancelled
    collected := a.collected + b.collected }

def Counters.total (c : Counters) : Int :=
  c.succeeded + c.failed + c.skipped + c.cancelled + c.collected

structure RunRow where
  name : String := ""
  status : RunStatus
  onFailure : Dag.FailurePolicy
  params : Json := ""
  graphVersion : Int := 1
  nextSeq : Nat := 0
  stepsTotal : Int
  counters : Counters := {}
  parkReason : Option ParkReason := none
  cancelReason : Option RunCancelReason := none
  budgetNanoUSD : Option Int := none
  spentNanoUSD : Int := 0
  savedNanoUSD : Int := 0
  expansionCaps : Dag.ExpansionCaps
  startedAt : Option Time := none
  finishedAt : Option Time := none
deriving DecidableEq, Repr

structure StepRow where
  stepID : String
  stepType : Dag.StepType
  config : Dag.StepConfig := .absent
  status : StepStatus := .pending
  remainingDeps : Nat := 0
  firedDeps : Nat := 0
  claimID : Option ClaimID := none
  attemptCount : Nat := 0
  nextAttemptAt : Option Time := none
  output : Option Json := none
  error : Option Json := none
  feedback : Option Json := none
  graphVersion : Int := 1
  depth : Int := 0
  originStep : Option String := none
  originKind : Option Dag.ExpansionOriginKind := none
  startedAt : Option Time := none
  finishedAt : Option Time := none
  updatedAt : Time := 0
deriving DecidableEq, Repr

structure EdgeRow where
  ordinal : Nat
  fromStep : String
  toStep : String
  edgeType : Dag.EdgeType := .normal
  whenExpr : String := ""
  condition : String := ""
  maxIterations : Int := 0
  decision : Dag.DecisionMarker := .unset
  resolution : EdgeResolution := .unresolved
  graphVersion : Int := 1
  originStep : Option String := none
  originKind : Option Dag.ExpansionOriginKind := none
deriving DecidableEq, Repr

structure AttemptRow where
  stepID : String
  attemptNo : Nat
  claimID : ClaimID
  outcome : Option AttemptOutcome := none
  error : Option Json := none
  usage : Option Json := none
  verdict : Option Json := none
  repair : Option Json := none
  feedback : Option Json := none
  workerID : String := ""
  startedAt : Time
  finishedAt : Option Time := none
deriving DecidableEq, Repr

structure DeadLetterRow where
  stepID : String
  seq : Nat
  source : DeadLetterSource
  errorClass : Option AttemptOutcome
  error : Option Json
  payload : Option Json
  attemptsAtDeath : Nat
  createdAt : Time
deriving DecidableEq, Repr

structure ApprovalRow where
  id : ApprovalID
  stepID : String
  attempt : Nat
  status : ApprovalStatus := .pending
  title : String := ""
  description : String := ""
  payload : Option Json := none
  allowedDecisions : List Dag.ApprovalDecision := []
  allowEdit : Bool := false
  editSchema : Option Json := none
  timeoutAt : Option Time := none
  decision : Option Dag.ApprovalDecision := none
  editedPayload : Option Json := none
  comment : Option String := none
  decidedBy : Option String := none
  decidedAt : Option Time := none
  decisionSource : Option ApprovalSource := none
  expiredAt : Option Time := none
  createdAt : Time := 0
  updatedAt : Time := 0
deriving DecidableEq, Repr

structure CostRow where
  stepID : String
  attempt : Nat
  entry : String
  resource : String
  usage : Option Json := none
  rate : Json
  rateSource : String := ""
  cacheHit : Bool := false
  overhead : Bool := false
  costNanoUSD : Int := 0
  savedNanoUSD : Int := 0
  createdAt : Time := 0
deriving DecidableEq, Repr

structure OutboxRow where
  stepID : String
  reason : OutboxReason
deriving DecidableEq, Repr

/-- The payload of an event; `recorded` stands for the events that report on context, loops, unknown
prices and guards and that no transition reads back. -/
inductive Event where
  | runCreated (name : String) (stepsTotal : Nat)
  | stepReady (stepID : String)
  | stepSkipped (stepID : String)
  | stepRequeued (stepID : String)
  | stepClaimed (stepID : String) (claimID : ClaimID) (attempt : Nat) (workerID : String)
  | stepReclaimed (stepID : String) (claimID : ClaimID) (attempt : Nat)
  | stepSucceeded (stepID : String) (attempt : Nat)
  | stepRetryScheduled (stepID : String) (attempt : Nat) (errorClass : AttemptOutcome)
      (nextAttemptAt : Time)
  | stepThrottled (stepID : String) (attempt : Nat) (resource bucket retryAfter : String)
      (nextAttemptAt : Time)
  | stepSemanticRetry (stepID : String) (attempt semanticAttempt maxAttempts issueCount : Nat)
      (nextAttemptAt : Time)
  | stepDeadLettered (stepID : String) (source : DeadLetterSource)
      (errorClass : Option AttemptOutcome) (attempts seq : Nat)
  | stepCancelled (stepID reason : String)
  | stepRevived (stepID reason : String)
  | stepCollected (stepID : String) (errorClass : AttemptOutcome) (attempts : Nat)
  | runSucceeded
  | runFailed
  | runResumed
  | runParked (reason : ParkReason)
  | runUnparked
  | runCancelling (reason : RunCancelReason)
  | runCancelled
  | budgetExceeded (stepID : String) (attempt : Nat) (action : String) (payload : Json)
  | runBudgetUpdated (previousNanoUSD budgetNanoUSD : Int)
  | modelDowngraded (stepID : String) (attempt : Nat) (payload : Json)
  | graphExpanded (originStep : String) (originKind : Dag.ExpansionOriginKind)
      (fromVersion toVersion depth : Int) (delta : Dag.PlanOutput) (readied widened : List String)
  | approvalRequested (approvalID : ApprovalID) (stepID : String) (attempt : Nat) (title : String)
      (allowedDecisions : List Dag.ApprovalDecision) (allowEdit : Bool) (timeoutAt : Option Time)
  | approvalCancelled (approvalID : ApprovalID) (stepID reason : String)
  | approvalDecided (approvalID : ApprovalID) (stepID : String) (attempt : Nat)
      (decision : Dag.ApprovalDecision) (edited : Bool) (comment decidedBy : String)
      (source : ApprovalSource)
  | approvalExpired (approvalID : ApprovalID) (stepID : String) (attempt : Nat) (policy : String)
      (decision : Option Dag.ApprovalDecision) (action : ApprovalAction) (timeoutAt : Option Time)
  | costUpdated (stepID : String) (attempt : Nat) (entry resource : String) (cacheHit overhead : Bool)
      (costNanoUSD savedNanoUSD runSpentNanoUSD runSavedNanoUSD : Int) (budgetNanoUSD : Option Int)
  | recorded (type stepID : String) (payload : Json)
deriving DecidableEq, Repr

structure EventRow where
  seq : Nat
  payload : Event
deriving DecidableEq, Repr

structure RunStore where
  run : RunRow
  steps : List StepRow
  edges : List EdgeRow
  attempts : List AttemptRow := []
  approvals : List ApprovalRow := []
  deadLetters : List DeadLetterRow := []
  costs : List CostRow := []
  events : List EventRow := []
  outbox : List OutboxRow := []
deriving DecidableEq, Repr

inductive ConflictReason where
  | wrongStatus
  | claimMismatch
  | guardFailed
  | runNotRunning
deriving DecidableEq, Repr

inductive StoreError where
  | invalidArgument (op msg : String)
  | notFound (op what : String)
  | uniqueViolation (op table : String)
  | checkViolation (op table : String)
  | outOfRange (op column : String)
  | corrupted (op msg : String)
  | stepConflict (op stepID : String) (source target : StepStatus) (reason : ConflictReason)
      (callerClaimID currentClaimID : Option ClaimID)
  | runNotRunning (op stepID : String) (source : RunStatus) (currentClaimID : Option ClaimID)
  | runConflict (op : String) (source target : RunStatus) (reason : ConflictReason)
  | approvalNotPending (id : ApprovalID) (status : ApprovalStatus)
  | approvalAlreadyExpired (id : ApprovalID)
  | expansionRejected (verdict : Dag.ExpansionVerdict)
  | engine (op msg : String)
deriving DecidableEq, Repr

def StoreError.isConflict : StoreError → Bool
  | .stepConflict .. => true
  | .runNotRunning .. => true
  | .runConflict .. => true
  | _ => false

/-- The error says that a guard refused the call, as opposed to a broken or missing row. -/
def StoreError.isRefusal : StoreError → Bool
  | .approvalNotPending .. => true
  | .approvalAlreadyExpired _ => true
  | .expansionRejected _ => true
  | e => e.isConflict

abbrev StoreTx := Tx RunStore StoreError

def requireNow (op : String) (now : Time) : StoreTx Unit :=
  if now = 0 then
    Tx.throw (.invalidArgument op "zero Now — pass the injected current time")
  else pure ()

def requireArgument (valid : Bool) (op msg : String) : StoreTx Unit :=
  if valid then pure () else Tx.throw (.invalidArgument op msg)

def requireTaken (taken : Bool) (op : String) : StoreTx Unit :=
  requireArgument taken op "unsupported Unicode escape sequence"

def findStep (s : RunStore) (stepID : String) : Option StepRow :=
  s.steps.find? fun row => row.stepID == stepID

def getRunStep (op stepID : String) : StoreTx StepRow := do
  match ← Tx.read (findStep · stepID) with
  | some row => pure row
  | none => Tx.throw (.notFound op stepID)

def lockRun : StoreTx RunRow := Tx.read RunStore.run

def updateRunStep (stepID : String) (guard : StepRow → Bool) (set : StepRow → StepRow) :
    StoreTx (Option StepRow) := fun s =>
  match Table.updateFirst (fun row => row.stepID == stepID && guard row) set s.steps with
  | some (row, steps) => (.ok (some row), { s with steps })
  | none => (.ok none, s)

def updateRun (guard : RunRow → Bool) (set : RunRow → RunRow) : StoreTx (Option RunRow) := fun s =>
  if guard s.run then (.ok (some (set s.run)), { s with run := set s.run }) else (.ok none, s)

def RunStore.record (s : RunStore) (payload : Event) : RunStore :=
  { s with
    run := { s.run with nextSeq := s.run.nextSeq + 1 }
    events := s.events ++ [{ seq := s.run.nextSeq + 1, payload }] }

section Record

variable (s : RunStore) (payload : Event)

@[simp] theorem record_steps : (s.record payload).steps = s.steps := rfl

@[simp] theorem record_edges : (s.record payload).edges = s.edges := rfl

@[simp] theorem record_attempts : (s.record payload).attempts = s.attempts := rfl

@[simp] theorem record_approvals : (s.record payload).approvals = s.approvals := rfl

@[simp] theorem record_status : (s.record payload).run.status = s.run.status := rfl

@[simp] theorem record_counters : (s.record payload).run.counters = s.run.counters := rfl

@[simp] theorem record_stepsTotal : (s.record payload).run.stepsTotal = s.run.stepsTotal := rfl

@[simp] theorem record_onFailure : (s.record payload).run.onFailure = s.run.onFailure := rfl

@[simp] theorem record_nextSeq : (s.record payload).run.nextSeq = s.run.nextSeq + 1 := rfl

end Record

def appendEvent (payload : Event) : StoreTx Unit := Tx.write fun s => s.record payload

def bumpCounters (delta : Counters) : StoreTx Unit := Tx.write fun s =>
  { s with run := { s.run with counters := s.run.counters.add delta } }

structure Finish where
  outcome : AttemptOutcome
  error : Option Json := none
  usage : Option Json := none
  verdict : Option Json := none
  repair : Option Json := none
deriving DecidableEq, Repr

def AttemptRow.finish (finish : Finish) (now : Time) (row : AttemptRow) : AttemptRow :=
  { row with
    outcome := some finish.outcome
    error := finish.error
    usage := finish.usage
    verdict := finish.verdict
    repair := finish.repair
    finishedAt := some now }

/-- Writes the outcome of the step's current attempt, whatever outcome the row had before. -/
def finishAttempt (op : String) (step : StepRow) (finish : Finish) (now : Time) : StoreTx Unit :=
  fun s =>
    match Table.updateFirst
        (fun row => row.stepID == step.stepID && row.attemptNo == step.attemptCount)
        (AttemptRow.finish finish now) s.attempts with
    | some (_, attempts) => (.ok (), { s with attempts })
    | none => (.error (.notFound op "attempt"), s)

def deadLetterSeq (s : RunStore) (stepID : String) : Nat :=
  ((s.deadLetters.filter fun row => row.stepID == stepID).map DeadLetterRow.seq).foldl max 0 + 1

structure Letter where
  source : DeadLetterSource
  errorClass : Option AttemptOutcome
  error : Option Json
  payload : Option Json := none

def createDeadLetter (step : StepRow) (letter : Letter) (now : Time) : StoreTx Nat := fun s =>
  let seq := deadLetterSeq s step.stepID
  (.ok seq, { s with
    deadLetters := s.deadLetters ++ [{
      stepID := step.stepID
      seq
      source := letter.source
      errorClass := letter.errorClass
      error := letter.error
      payload := letter.payload
      attemptsAtDeath := step.attemptCount
      createdAt := now }] })

def createStepAttempt (op : String) (row : AttemptRow) : StoreTx Unit := fun s =>
  if s.attempts.any fun other => other.stepID == row.stepID && other.attemptNo == row.attemptNo then
    (.error (.uniqueViolation op "step_attempts"), s)
  else (.ok (), { s with attempts := s.attempts ++ [row] })

def createOutbox (stepID : String) (reason : OutboxReason) : StoreTx Unit := Tx.write fun s =>
  { s with outbox := s.outbox ++ [{ stepID, reason }] }

def conflictReason (want : StepStatus) (claim : Option ClaimID) (row : StepRow) : ConflictReason :=
  if row.status ≠ want then .wrongStatus
  else if claim.isSome && row.claimID ≠ claim then .claimMismatch
  else .guardFailed

/-- A guarded update of one step together with what is written beside it: the outcome of the
current attempt, the counters of the run, a dead letter, and one event. -/
structure StepTransition where
  op : String
  stepID : String
  now : Time
  claim : Option ClaimID := none
  target : StepStatus
  guard : StepRow → Bool
  set : StepRow → StepRow
  reason : StepRow → ConflictReason
  finish : Option Finish := none
  delta : Counters := {}
  letter : Option Letter := none
  event : StepRow → Nat → Event

def changeStep (t : StepTransition) : StoreTx StepRow := do
  match ← updateRunStep t.stepID t.guard t.set with
  | some row => pure row
  | none =>
    let row ← getRunStep t.op t.stepID
    Tx.throw (.stepConflict t.op t.stepID row.status t.target (t.reason row) t.claim row.claimID)

def StepTransition.closeAttempt (t : StepTransition) (row : StepRow) : StoreTx Unit :=
  match t.finish with
  | some finish => finishAttempt t.op row finish t.now
  | none => pure ()

def StepTransition.writeLetter (t : StepTransition) (row : StepRow) : StoreTx Nat :=
  match t.letter with
  | some letter => createDeadLetter row letter t.now
  | none => pure 0

def StepTransition.run (t : StepTransition) : StoreTx StepRow := do
  requireNow t.op t.now
  let row ← changeStep t
  t.closeAttempt row
  bumpCounters t.delta
  let seq ← t.writeLetter row
  appendEvent (t.event row seq)
  pure row

def heldBy (claim : ClaimID) (row : StepRow) : Bool :=
  row.status == .running && row.claimID == some claim

structure RunTransition where
  op : String
  now : Time
  want : RunStatus
  target : RunStatus
  guard : RunRow → Bool
  set : RunRow → RunRow
  event : Event

def RunTransition.run (t : RunTransition) : StoreTx RunRow := do
  requireNow t.op t.now
  match ← updateRun t.guard t.set with
  | some row =>
    appendEvent t.event
    pure row
  | none =>
    let row ← lockRun
    Tx.throw (.runConflict t.op row.status t.target
      (if row.status ≠ t.want then .wrongStatus else .guardFailed))

end Agentloom.Store
