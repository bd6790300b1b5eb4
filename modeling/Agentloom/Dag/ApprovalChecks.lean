import Agentloom.Dag.Expansion

/-! The checks of a `human_approval` step. Definitions and plans make the same ones, and the policy
of a timeout is checked only where it is authored. -/

namespace Agentloom.Dag

open List

def errorIf (condition : Bool) (code : ValidationCode) (path msg : String) : List ErrorIssue :=
  if condition then [⟨addIssue code path msg, rfl⟩] else []

theorem errorIf_eq_nil : errorIf condition code path msg = [] ↔ condition = false := by
  cases condition <;> simp [errorIf]

def ApprovalDecision.text : ApprovalDecision → String
  | .approve => "approve"
  | .reject => "reject"

def ApprovalTimeoutPolicy.decision : ApprovalTimeoutPolicy → Option ApprovalDecision
  | .reject => some .reject
  | .approve => some .approve
  | .park => none

def maxApprovalTimeout : Int := 30 * 24 * 3600 * 1000000000

def HumanApprovalConfig.decisionAllowed (config : HumanApprovalConfig)
    (decision : ApprovalDecision) : Bool :=
  config.allowedDecisions.isEmpty || config.allowedDecisions.contains decision

def isObjectText (text : String) : Bool :=
  (text.toList.dropWhile fun c => c == ' ' || c == '\t' || c == '\n' || c == '\r').head? ==
    some '\x7b'

def checkAllowedDecisions (path : String) (config : HumanApprovalConfig) : List ErrorIssue :=
  config.allowedDecisions.zipIdx.flatMap fun (decision, position) =>
    errorIf ((config.allowedDecisions.take position).contains decision) .configFieldInvalid
      (path ++ ".allowed_decisions[" ++ toString position ++ "]")
      ("duplicate decision " ++ quote decision.text)

def checkApprovalEdits (path : String) (config : HumanApprovalConfig) : List ErrorIssue :=
  let schema := config.editSchema.getD ""
  errorIf (schema ≠ "" && !config.allowEdit) .configFieldInvalid (path ++ ".edit_schema")
      "requires allow_edit to be true" ++
    errorIf (schema ≠ "" && !isObjectText schema) .configFieldInvalid (path ++ ".edit_schema")
      "must be a JSON object" ++
    errorIf (config.allowEdit && !config.decisionAllowed .approve) .configFieldInvalid
      (path ++ ".allow_edit")
      ("requires " ++ quote ApprovalDecision.approve.text ++ " to be an allowed decision")

section Checks

-- The duration parser, in nanoseconds.
variable (duration : String → Except String Int)

def checkApprovalTimeout (path : String) (config : HumanApprovalConfig) : List ErrorIssue :=
  if config.timeout = "" then
    errorIf config.onTimeout.isSome .configFieldInvalid (path ++ ".on_timeout")
      "requires a timeout to be set"
  else match duration config.timeout with
    | .error e => errorIf true .configFieldInvalid (path ++ ".timeout")
        ("not a Go duration string: " ++ e)
    | .ok d =>
      if d ≤ 0 then errorIf true .configFieldInvalid (path ++ ".timeout")
        ("must be positive, got " ++ quote config.timeout)
      else errorIf (d > maxApprovalTimeout) .configFieldInvalid (path ++ ".timeout")
        ("must be at most 720h0m0s, got " ++ quote config.timeout)

def checkOnTimeout (path : String) (config : HumanApprovalConfig) : List ErrorIssue :=
  match config.onTimeout with
  | some .reject => errorIf (!config.decisionAllowed .reject) .configFieldInvalid
      (path ++ ".on_timeout")
      ("records a " ++ quote ApprovalDecision.reject.text ++ " decision, which is not allowed")
  | some .approve => errorIf (!config.decisionAllowed .approve) .configFieldInvalid
      (path ++ ".on_timeout")
      ("records an " ++ quote ApprovalDecision.approve.text ++ " decision, which is not allowed")
  | _ => []

def checkApprovalConfig (path : String) (config : HumanApprovalConfig) : List ErrorIssue :=
  errorIf (config.title == "") .configFieldRequired (path ++ ".title")
      "required field is missing" ++
    checkAllowedDecisions path config ++ checkApprovalEdits path config ++
    checkApprovalTimeout duration path config ++ checkOnTimeout path config ++
    errorIf (config.onReject == .route && !config.decisionAllowed .reject) .configFieldInvalid
      (path ++ ".on_reject") ("\"route\" routing requires " ++
        quote ApprovalDecision.reject.text ++ " to be an allowed decision")

def Step.approvalConfig (step : Step) : HumanApprovalConfig :=
  match step.config with
  | .humanApproval config => config
  | _ => { title := "" }

def checkHumanApproval (path : String) (step : Step) : List ErrorIssue :=
  if step.type = .humanApproval then
    checkApprovalConfig duration (path ++ ".config") step.approvalConfig
  else []

def DefinitionLint.withApprovals (lint : DefinitionLint) : DefinitionLint :=
  { lint with step := fun definition path step =>
      lint.step definition path step ++ checkHumanApproval duration path step }

def PlanLint.withApprovals (lint : PlanLint) : PlanLint :=
  { lint with step := fun path step => lint.step path step ++ checkHumanApproval duration path step }

def HumanApprovalConfig.TimeoutAllowed (config : HumanApprovalConfig) : Prop :=
  ∀ policy decision, config.onTimeout = some policy → policy.decision = some decision →
    config.decisionAllowed decision = true

def ApprovalChecked (type : StepType) (config : StepConfig) : Prop :=
  type = .humanApproval → ∃ approval, config = .humanApproval approval ∧ approval.TimeoutAllowed

variable {duration}

theorem checkOnTimeout_eq_nil (clean : checkOnTimeout path config = []) : config.TimeoutAllowed := by
  intro policy decision authored records
  cases policy <;> cases records <;>
    simpa [checkOnTimeout, authored, errorIf_eq_nil] using clean

theorem checkHumanApproval_eq_nil (clean : checkHumanApproval duration path step = []) :
    ApprovalChecked step.type step.config := by
  intro approval
  rw [checkHumanApproval, if_pos approval, checkApprovalConfig] at clean
  simp only [append_eq_nil_iff, errorIf_eq_nil, beq_eq_false_iff_ne] at clean
  obtain ⟨⟨⟨⟨⟨title, _⟩, _⟩, _⟩, onTimeout⟩, _⟩ := clean
  unfold Step.approvalConfig at title onTimeout
  cases config : step.config with
  | humanApproval approval =>
    rw [config] at onTimeout
    exact ⟨approval, rfl, checkOnTimeout_eq_nil onTimeout⟩
  | _ => simp [config] at title

theorem errorIssues_eq_nil (clean : noErrors (errorIssues issues) = true) : issues = [] := by
  refine eq_nil_iff_forall_not_mem.mpr fun issue mem => ?_
  have harmless := all_eq_true.mp clean issue.1 (mem_map_of_mem mem)
  simp [issue.2] at harmless

theorem validates_approvals {lint : DefinitionLint}
    (accepted : validates (lint.withApprovals duration) definition = true) :
    ∀ step ∈ definition.steps, ApprovalChecked step.type step.config := by
  intro step mem
  have steps : noErrors (checkSteps (lint.withApprovals duration) definition) = true :=
    noErrors_of_subset (validates_structural accepted) fun _ mem => by simp [structuralIssues, mem]
  simp only [checkSteps, noErrors_append, Bool.and_eq_true, noErrors_flatMap] at steps
  obtain ⟨position, found⟩ := mem_iff_getElem?.mp mem
  have checked := (steps.2 (step, position) (mem_zipIdx_iff_getElem?.mpr found)).2
  exact checkHumanApproval_eq_nil (append_eq_nil_iff.mp (errorIssues_eq_nil checked)).2

theorem validateExpansion_approvals {lint : PlanLint}
    (accepted : (validateExpansion (lint.withApprovals duration) input).ok = true) :
    ∀ step ∈ input.plan.steps, ApprovalChecked step.type step.config := by
  intro step mem
  simp only [ExpansionVerdict.ok, validateExpansion, noErrors_append, Bool.and_eq_true,
    planIssues, noErrors_flatMap] at accepted
  obtain ⟨position, found⟩ := mem_iff_getElem?.mp mem
  have clean := accepted.1.1.2 (step, position) (mem_zipIdx_iff_getElem?.mpr found)
  simp only [checkInjectedStep, noErrors_append, Bool.and_eq_true] at clean
  exact checkHumanApproval_eq_nil (append_eq_nil_iff.mp (errorIssues_eq_nil clean.2)).2

end Checks

example : checkHumanApproval (fun _ => .ok 60000000000) "steps[0]"
    { id := "g"
      type := .humanApproval
      config := .humanApproval
        { title := "Ship it", allowedDecisions := [.approve], timeout := "1m" } } = [] := by
  decide

end Agentloom.Dag
