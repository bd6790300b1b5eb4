import Agentloom.Store.Transitions

/-! Human approvals: a step parks without a lease behind a pending approval row, and leaves when
the row is decided, expires or is cancelled with its run. -/

namespace Agentloom.Store

open Transaction

structure ApprovalContent where
  id : ApprovalID
  title : String := ""
  description : String := ""
  payload : Option Json := none
  allowedDecisions : List Dag.ApprovalDecision := []
  allowEdit : Bool := false
  editSchema : Option Json := none
  timeoutAt : Option Time := none
deriving DecidableEq, Repr

def ApprovalContent.row (content : ApprovalContent) (step : StepRow) (now : Time) : ApprovalRow :=
  { id := content.id
    stepID := step.stepID
    attempt := step.attemptCount
    title := content.title
    description := content.description
    payload := content.payload
    allowedDecisions := content.allowedDecisions
    allowEdit := content.allowEdit
    editSchema := content.editSchema
    timeoutAt := content.timeoutAt
    createdAt := now
    updatedAt := now }

def ApprovalRow.isPending (row : ApprovalRow) : Bool := row.status == .pending

/-- The primary key and the index of one pending approval per step refuse a second row. -/
def insertApproval (op : String) (row : ApprovalRow) : StoreTx Unit := fun s =>
  if s.approvals.any fun other =>
      other.id == row.id || (other.stepID == row.stepID && other.isPending) then
    (.error (.uniqueViolation op "approvals"), s)
  else (.ok (), { s with approvals := s.approvals ++ [row] })

def updateApproval (guard : ApprovalRow → Bool) (set : ApprovalRow → ApprovalRow) :
    StoreTx (Option ApprovalRow) := fun s =>
  match Table.updateFirst guard set s.approvals with
  | some (row, approvals) => (.ok (some row), { s with approvals })
  | none => (.ok none, s)

def getApproval (op : String) (id : ApprovalID) : StoreTx ApprovalRow := do
  match ← Tx.read fun s => s.approvals.find? fun row => row.id == id with
  | some row => pure row
  | none => Tx.throw (.notFound op "approval")

def awaitRow (now : Time) (row : StepRow) : StepRow :=
  { row with status := .awaitingHuman, claimID := none, updatedAt := now }

/-- The attempt stays open: it spans the wait. -/
def awaitHumanStep (stepID : String) (claimID : ClaimID) (content : ApprovalContent) (now : Time) :
    StoreTx StepRow := do
  requireNow "await human step" now
  match ← updateRunStep stepID (heldBy claimID) (awaitRow now) with
  | none =>
    let row ← getRunStep "await human step" stepID
    Tx.throw (.stepConflict "await human step" stepID row.status .awaitingHuman
      (conflictReason .running (some claimID) row) (some claimID) row.claimID)
  | some step =>
    insertApproval "await human step: insert approval" (content.row step now)
    appendEvent (.approvalRequested content.id stepID step.attemptCount content.title
      content.allowedDecisions content.allowEdit content.timeoutAt)
    pure step

/-- A step leaves the wait without a claim: the approval row arbitrates, not a lease. -/
def leaveWait (op stepID : String) (now : Time) (target : StepStatus) (set : StepRow → StepRow)
    (finish : Finish) (delta : Counters) (event : StepRow → Nat → Event) : StepTransition :=
  { op, stepID, now, target, delta, event
    guard := fun row => row.status == .awaitingHuman
    set := fun row => { set row with status := target, finishedAt := some now, updatedAt := now }
    reason := conflictReason .awaitingHuman none
    finish := some finish }

def cancelAwaitingHuman (stepID reason : String) (now : Time) : StepTransition :=
  leaveWait "cancel awaiting human step" stepID now .cancelled
    (fun row => { row with nextAttemptAt := none })
    { outcome := .cancelled } { cancelled := 1 } fun _ _ => .stepCancelled stepID reason

def cancelPendingApprovalByStep (stepID : String) (now : Time) : StoreTx (Option ApprovalRow) :=
  updateApproval (fun row => row.stepID == stepID && row.isPending)
    fun row => { row with status := .cancelled, updatedAt := now }

def cancelAwaitingHumanStep (stepID reason : String) (now : Time) : StoreTx StepRow := do
  requireNow "cancel awaiting human step" now
  requireArgument (reason ≠ "") "cancel awaiting human step" "empty Reason — pass the cancel reason"
  let step ← (cancelAwaitingHuman stepID reason now).run
  match ← cancelPendingApprovalByStep stepID now with
  | none => pure step
  | some approval =>
    appendEvent (.approvalCancelled approval.id stepID reason)
    pure step

def succeedAwaitingHuman (stepID : String) (output : Json) (now : Time) : StepTransition :=
  leaveWait "succeed awaiting human step" stepID now .succeeded
    (fun row => { row with output := some output })
    { outcome := .succeeded } { succeeded := 1 }
    fun row _ => .stepSucceeded stepID row.attemptCount

def succeedAwaitingHumanStep (stepID : String) (output : Json) (now : Time)
    (columns : Columns := {}) : StoreTx StepRow := do
  requireTaken (columns.json output) "succeed awaiting human step"
  (succeedAwaitingHuman stepID output now).run

def deadLetterAwaitingHuman (stepID : String) (error : Option Json) (now : Time) : StepTransition :=
  { (leaveWait "dead-letter awaiting human step" stepID now .deadLettered
      (fun row => { row with error })
      { outcome := .permanent, error } { failed := 1 }
      fun row seq =>
        .stepDeadLettered stepID .permanent (some .permanent) row.attemptCount seq) with
    letter := some { source := .permanent, errorClass := some .permanent, error } }

def deadLetterAwaitingHumanStep (stepID : String) (error : Option Json) (now : Time)
    (columns : Columns := {}) : StoreTx StepRow := do
  requireTaken (error.all columns.json) "dead-letter awaiting human step"
  (deadLetterAwaitingHuman stepID error now).run

def decisionText : Dag.ApprovalDecision → String
  | .approve => "approve"
  | .reject => "reject"

structure DecideApproval where
  id : ApprovalID
  stepID : String
  attemptNo : Nat
  status : ApprovalStatus
  decision : Dag.ApprovalDecision
  expiredAt : Option Time := none
  timeoutAt : Option Time := none
  editedPayload : Option Json := none
  comment : String := ""
  decidedBy : String := ""
  source : ApprovalSource
deriving DecidableEq, Repr

def ApprovalStatus.isDecision : ApprovalStatus → Bool
  | .approved => true
  | .rejected => true
  | .expired => true
  | _ => false

def DecideApproval.set (args : DecideApproval) (now : Time) (row : ApprovalRow) : ApprovalRow :=
  { row with
    status := args.status
    decision := some args.decision
    editedPayload := args.editedPayload
    comment := if args.comment = "" then none else some args.comment
    decidedBy := some args.decidedBy
    decidedAt := some now
    decisionSource := some args.source
    expiredAt := args.expiredAt
    updatedAt := now }

def DecideApproval.event (args : DecideApproval) : Event :=
  if args.status = .expired then
    .approvalExpired args.id args.stepID args.attemptNo (decisionText args.decision)
      (some args.decision) (if args.decision = .reject then .rejected else .approved) args.timeoutAt
  else
    .approvalDecided args.id args.stepID args.attemptNo args.decision args.editedPayload.isSome
      args.comment args.decidedBy args.source

def DecideApproval.taken (args : DecideApproval) (columns : Columns) : Bool :=
  columns.text args.comment && columns.text args.decidedBy && args.editedPayload.all columns.json

/-- Only the approval row and its event: the caller settles the step in the same transaction. -/
def decideApproval (args : DecideApproval) (now : Time) (columns : Columns := {}) :
    StoreTx ApprovalRow := do
  requireNow "decide approval" now
  requireArgument args.status.isDecision "decide approval" "status is not a decision status"
  requireTaken (args.taken columns) "decide approval"
  match ← updateApproval (fun row => row.id == args.id && row.isPending) (args.set now) with
  | none =>
    let current ← getApproval "decide approval" args.id
    Tx.throw (.approvalNotPending args.id current.status)
  | some approval =>
    appendEvent args.event
    pure approval

structure ExpireApprovalPark where
  id : ApprovalID
  stepID : String
  attemptNo : Nat
  timeoutAt : Option Time := none
deriving DecidableEq, Repr

def parkForTimeout (status : RunStatus) (now : Time) : StoreTx ApprovalAction := do
  if status = .parked then pure .runAlreadyParked
  else
    let _ ← parkRun .awaitingHuman now
    pure .runParked

/-- The park policy: the approval stays pending and is only marked, and the run parks unless it
already is parked. -/
def expireApprovalPark (args : ExpireApprovalPark) (now : Time) : StoreTx ApprovalAction := do
  requireNow "expire approval park" now
  let run ← lockRun
  match ← updateApproval (fun row => row.id == args.id && row.isPending && row.expiredAt.isNone)
      (fun row => { row with expiredAt := some now, updatedAt := now }) with
  | none =>
    let current ← getApproval "expire approval park" args.id
    if current.status ≠ .pending then Tx.throw (.approvalNotPending args.id current.status)
    else Tx.throw (.approvalAlreadyExpired args.id)
  | some _ =>
    let action ← parkForTimeout run.status now
    appendEvent (.approvalExpired args.id args.stepID args.attemptNo "park" none action
      args.timeoutAt)
    pure action

end Agentloom.Store
