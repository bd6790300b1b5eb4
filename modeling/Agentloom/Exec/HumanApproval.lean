import Agentloom.Dag.ApprovalChecks
import Agentloom.Store.Approval

/-! What a `human_approval` step asks for: the executor resolves the rendered configuration into a
request, and the engine parks the step behind an approval with that content. -/

namespace Agentloom.Exec

open Store

structure ApprovalRequest where
  title : String
  description : String
  payload : Option Json
  allowedDecisions : List Dag.ApprovalDecision
  allowEdit : Bool
  editSchema : Option Json
  timeout : Int
deriving DecidableEq, Repr

/-- Rendering replaces templated texts. A decision, a flag or a duration that passed its check holds
no template. -/
structure Rendered (config rendered : Dag.HumanApprovalConfig) : Prop where
  allowedDecisions : rendered.allowedDecisions = config.allowedDecisions
  allowEdit : rendered.allowEdit = config.allowEdit
  timeout : rendered.timeout = config.timeout

def resolvedDecisions (config : Dag.HumanApprovalConfig) : List Dag.ApprovalDecision :=
  if config.allowedDecisions.isEmpty then [.approve, .reject] else config.allowedDecisions

theorem mem_resolvedDecisions :
    decision ∈ resolvedDecisions config ↔ config.decisionAllowed decision = true := by
  unfold resolvedDecisions Dag.HumanApprovalConfig.decisionAllowed
  cases config.allowedDecisions.isEmpty <;> cases decision <;> simp

structure Readers where
  duration : String → Except String Int
  editSchema : Json → Except String Unit

def Readers.compile (readers : Readers) : Option Json → Except String Unit
  | none => .ok ()
  | some schema => match readers.editSchema schema with
      | .ok () => .ok ()
      | .error e => .error ("human_approval: edit_schema does not compile: " ++ e)

def Readers.wait (readers : Readers) (timeout : String) : Except String Int :=
  if timeout = "" then .ok 0
  else match readers.duration timeout with
    | .ok d => .ok d
    | .error e => .error ("human_approval: corrupt timeout " ++ Dag.quote timeout ++ ": " ++ e)

/-- `HumanApprovalExecutor.Execute`: every refusal is a permanent failure of the step. -/
def humanApproval (readers : Readers) (config : Dag.HumanApprovalConfig) :
    Except String ApprovalRequest :=
  if config.title = "" then .error "human_approval: missing required field \"title\""
  else do
    readers.compile config.editSchema
    let timeout ← readers.wait config.timeout
    .ok
      { title := config.title
        description := config.description
        payload := config.payload
        allowedDecisions := resolvedDecisions config
        allowEdit := config.allowEdit
        editSchema := config.editSchema
        timeout }

/-- The content of the approval, under a new id. A wait of zero is one without end. -/
def ApprovalRequest.content (request : ApprovalRequest) (id : ApprovalID) (now : Time) :
    ApprovalContent :=
  { id
    title := request.title
    description := request.description
    payload := request.payload
    allowedDecisions := request.allowedDecisions
    allowEdit := request.allowEdit
    editSchema := request.editSchema
    timeoutAt := if 0 < request.timeout then some (now + request.timeout.toNat) else none }

theorem humanApproval_decisions (rendering : Rendered config rendered)
    (executed : humanApproval readers rendered = .ok request) :
    request.allowedDecisions = resolvedDecisions config := by
  unfold humanApproval at executed
  split_ifs at executed
  · cases compiled : readers.compile rendered.editSchema with
    | error e =>
      rw [compiled] at executed
      cases executed
    | ok u =>
      cases waited : readers.wait rendered.timeout with
      | error e =>
        rw [compiled, waited] at executed
        cases executed
      | ok d =>
        rw [compiled, waited] at executed
        cases executed
        simp only [resolvedDecisions, rendering.allowedDecisions]

end Agentloom.Exec
