import Agentloom.Engine.Complete

/-! Decisions on approvals, by an operator or by the timeout policy of the gate. The approval is
read before the transaction; inside it the approval row arbitrates. -/

namespace Agentloom.Engine

open Transaction Store

structure DecideRequest where
  decision : Dag.ApprovalDecision
  editedPayload : Option Json := none
  comment : String := ""
  decidedBy : String := ""
  source : ApprovalSource
deriving DecidableEq, Repr

/-- Whether an edited payload applies, or why the gate does not permit the decision. The schema
validator is given. -/
def validateDecision (satisfies : Json → Json → Bool) (approval : ApprovalRow)
    (request : DecideRequest) : Except String Bool :=
  if request.decision ∉ approval.allowedDecisions then
    .error "invalid decision: decision is not in the gate's allowed set"
  else match request.editedPayload with
    | none => .ok false
    | some edited =>
      if request.decision ≠ .approve then
        .error "invalid decision: an edited payload may only accompany an approve decision"
      else if !approval.allowEdit then
        .error "invalid decision: this approval does not permit edits"
      else if approval.editSchema.all fun schema => satisfies schema edited then .ok true
      else .error "invalid decision: edited payload does not satisfy the edit schema"

def edgeMatchesDecision (decision : Dag.ApprovalDecision) (edge : EdgeRow) : Bool :=
  match edge.decision with
  | .unset => decision == .approve
  | .decision value => value == decision
  | .other _ => false

def filterDecisionVerdicts (decision : Dag.ApprovalDecision) (edges : List EdgeRow)
    (verdicts : List EdgeVerdict) : List EdgeVerdict :=
  verdicts.map fun verdict =>
    { verdict with
      fired := verdict.fired && edges.any fun edge =>
        edge.ordinal == verdict.ordinal && edgeMatchesDecision decision edge }

def rejectPolicy (row : StepRow) : Dag.ApprovalRejectPolicy :=
  match row.config with
  | .humanApproval config => config.onReject
  | _ => .fail

def timeoutPolicy (row : StepRow) : Dag.ApprovalTimeoutPolicy :=
  match row.config with
  | .humanApproval config => config.onTimeout.getD .reject
  | _ => .reject

structure Decision where
  approvalID : ApprovalID
  request : DecideRequest
  output : Json := ""
  evaluator : Evaluator := .ok fun _ => .ok true
  columns : Columns := {}

def requireLiveRun (now : Time) : StoreTx Unit := do
  let status ← lockRunStatus now
  if status = .running ∨ status = .parked then pure ()
  else Tx.throw (.runConflict "decide" status status .runNotRunning)

def DecideRequest.status (request : DecideRequest) : ApprovalStatus :=
  match request.source, request.decision with
  | .timeout, _ => .expired
  | .human, .approve => .approved
  | .human, .reject => .rejected

def decisionRow (approval : ApprovalRow) (request : DecideRequest) (now : Time) : DecideApproval :=
  { id := approval.id
    stepID := approval.stepID
    attemptNo := approval.attempt
    status := request.status
    decision := request.decision
    expiredAt := if request.source = .timeout then some now else none
    timeoutAt := approval.timeoutAt
    editedPayload := request.editedPayload
    comment := request.comment
    decidedBy := request.decidedBy
    source := request.source }

def rejectionError (comment : String) : Json :=
  let message := if comment = "" then "approval_rejected" else "approval_rejected: " ++ comment
  "\x7b\"class\":\"permanent\",\"message\":" ++ Dag.quote message ++ "\x7d"

def decideSucceed (stepID : String) (stepType : Dag.StepType) (args : Decision) (now : Time) :
    StoreTx TerminalSource := do
  let _ ← succeedAwaitingHumanStep stepID args.output now args.columns
  terminalSource stepID stepType args.evaluator (filterDecisionVerdicts args.request.decision)

def decideDeadLetter (stepID comment : String) (now : Time) (columns : Columns) : StoreTx Unit := do
  let run ← lockRun
  let _ ← deadLetterAwaitingHumanStep stepID (some (rejectionError comment)) now columns
  (deadLetterDisposition run.onFailure now).void

def DecideRequest.buries (request : DecideRequest) (step : StepRow) : Bool :=
  request.decision == .reject && rejectPolicy step == .fail

def settleStep (step : StepRow) (args : Decision) (now : Time) : StoreTx (Option TerminalSource) :=
  if args.request.buries step then do
    decideDeadLetter step.stepID args.request.comment now args.columns
    pure none
  else do
    let source ← decideSucceed step.stepID step.stepType args now
    pure (some source)

def settleDecision (approval : ApprovalRow) (step : StepRow) (args : Decision) (now : Time) :
    StoreTx (Option TerminalSource) := do
  requireLiveRun now
  let _ ← decideApproval (decisionRow approval args.request now) now args.columns
  settleStep step args now

/-- The disposition of a rejected gate has rolled the run up already. -/
def routeDecided (source : Option TerminalSource) (now : Time) : StoreTx Unit :=
  match source with
  | some source => routeAndRollup (some source) now
  | none => pure ()

def admitDecision (satisfies : Json → Json → Bool) (args : Decision) (seen : RunStore) :
    Except StoreError (ApprovalRow × StepRow) :=
  match seen.approvals.find? fun row => row.id == args.approvalID with
  | none => .error (.notFound "decide" "approval")
  | some approval =>
    if approval.status ≠ .pending then .error (.approvalNotPending args.approvalID approval.status)
    else match findStep seen approval.stepID with
      | none => .error (.notFound "decide" approval.stepID)
      | some step =>
        match validateDecision satisfies approval args.request with
        | .error msg => .error (.engine "decide" msg)
        | .ok _ => .ok (approval, step)

def decide (satisfies : Json → Json → Bool) (args : Decision) (seen : RunStore) (now : Time) :
    StoreTx Unit :=
  match admitDecision satisfies args seen with
  | .error e => Tx.throw e
  | .ok (approval, step) => do
      let source ← settleDecision approval step args now
      routeDecided source now

def dueApproval (stepID : String) (seen : RunStore) (now : Time) : Option ApprovalRow :=
  match seen.approvals.find? fun row => row.stepID == stepID && row.isPending with
  | none => none
  | some approval =>
    if approval.expiredAt.isNone && approval.timeoutAt.any (· ≤ now) then some approval else none

def approvalTimeoutPolicy (stepID : String) (seen : RunStore) : Dag.ApprovalTimeoutPolicy :=
  match findStep seen stepID with
  | some step => timeoutPolicy step
  | none => .reject

def applyTimeoutPark (approval : ApprovalRow) (now : Time) : StoreTx Unit :=
  (expireApprovalPark
    { id := approval.id
      stepID := approval.stepID
      attemptNo := approval.attempt
      timeoutAt := approval.timeoutAt } now).void

def timeoutDecision (approvalID : ApprovalID) (decision : Dag.ApprovalDecision) (output : Json)
    (evaluator : Evaluator) : Decision :=
  { approvalID, output, evaluator
    request := { decision, decidedBy := "system:timeout", source := .timeout } }

/-- The approval is read once to find what is due, and read again by the decision it leads to. -/
def handleApprovalTimeout (satisfies : Json → Json → Bool) (stepID : String) (output : Json)
    (evaluator : Evaluator) (seen later : RunStore) (now : Time) : StoreTx Unit :=
  match dueApproval stepID seen now with
  | none => pure ()
  | some approval =>
    match approvalTimeoutPolicy stepID seen with
    | .park => applyTimeoutPark approval now
    | .approve =>
      decide satisfies (timeoutDecision approval.id .approve output evaluator) later now
    | .reject =>
      decide satisfies (timeoutDecision approval.id .reject output evaluator) later now

end Agentloom.Engine
