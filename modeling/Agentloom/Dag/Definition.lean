import Mathlib.Data.List.Nodup
import Agentloom.Library.Acyclic

/-! Workflow definitions: steps, edges, and the issues a validation pass reports. Configurations
keep what the graph and the run logic read; every other configuration is its JSON text. -/

namespace Agentloom.Dag

open List

inductive StepType where
  | llm
  | tool
  | retrieve
  | map
  | gather
  | planner
  | agent
  | humanApproval
  | join
  | branch
  | noop
  | echo
  | sleep
  | failNTimes
  | counter
  | effectfulEcho
  | blackboardWrite
  | unregistered (name : String)
deriving DecidableEq, Repr

def StepType.registered : StepType → Bool
  | .unregistered _ => false
  | _ => true

def StepType.text : StepType → String
  | .llm => "llm"
  | .tool => "tool"
  | .retrieve => "retrieve"
  | .map => "map"
  | .gather => "gather"
  | .planner => "planner"
  | .agent => "agent"
  | .humanApproval => "human_approval"
  | .join => "join"
  | .branch => "branch"
  | .noop => "noop"
  | .echo => "echo"
  | .sleep => "sleep"
  | .failNTimes => "fail_n_times"
  | .counter => "counter"
  | .effectfulEcho => "effectful_echo"
  | .blackboardWrite => "blackboard_write"
  | .unregistered name => name

inductive JoinMode where
  | all
  | any
deriving DecidableEq, Repr

inductive ApprovalDecision where
  | approve
  | reject
deriving DecidableEq, Repr

inductive ApprovalTimeoutPolicy where
  | reject
  | approve
  | park
deriving DecidableEq, Repr

inductive ApprovalRejectPolicy where
  | fail
  | route
deriving DecidableEq, Repr

structure HumanApprovalConfig where
  title : String
  description : String := ""
  payload : Option String := none
  allowedDecisions : List ApprovalDecision := []
  allowEdit : Bool := false
  editSchema : Option String := none
  timeout : String := ""
  onTimeout : Option ApprovalTimeoutPolicy := none
  onReject : ApprovalRejectPolicy := .fail
deriving DecidableEq, Repr

inductive StepConfig where
  | absent
  | join (mode : JoinMode)
  | humanApproval (config : HumanApprovalConfig)
  | planner (maxAddedSteps : Int)
  | json (text : String)
deriving DecidableEq, Repr

structure Step where
  id : String
  type : StepType
  config : StepConfig := .absent
deriving DecidableEq, Repr

inductive EdgeType where
  | normal
  | loop
deriving DecidableEq, Repr

inductive ExhaustPolicy where
  | unset
  | proceed
  | fail
  | other (text : String)
deriving DecidableEq, Repr

structure NoProgressPolicy where
  step : String := ""
  path : String := ""
  policy : ExhaustPolicy := .unset
deriving DecidableEq, Repr

inductive DecisionMarker where
  | unset
  | decision (value : ApprovalDecision)
  | other (text : String)
deriving DecidableEq, Repr

structure Edge where
  fromStep : String
  toStep : String
  when : String := ""
  type : EdgeType := .normal
  condition : String := ""
  maxIterations : Int := 0
  onExhausted : ExhaustPolicy := .unset
  noProgress : Option NoProgressPolicy := none
  decision : DecisionMarker := .unset
deriving DecidableEq, Repr

def Edge.isLoop (edge : Edge) : Bool := edge.type == .loop

inductive FailurePolicy where
  | failFast
  | continueIndependentBranches
deriving DecidableEq, Repr

structure ExpansionPolicy where
  maxAddedSteps : Option Int := none
  maxTotalSteps : Option Int := none
  maxExpansions : Option Int := none
  maxDepth : Option Int := none
deriving DecidableEq, Repr

structure Definition where
  name : String := ""
  onFailure : FailurePolicy := .failFast
  expansion : Option ExpansionPolicy := none
  steps : List Step
  edges : List Edge
deriving DecidableEq, Repr

def Definition.stepIDs (definition : Definition) : List String := definition.steps.map Step.id

def NormalEdge (edges : List Edge) (a b : String) : Prop :=
  ∃ edge ∈ edges, edge.isLoop = false ∧ edge.fromStep = a ∧ edge.toStep = b

def EdgesAcyclic (edges : List Edge) : Prop := Acyclic (NormalEdge edges)

inductive Severity where
  | error
  | warning
deriving DecidableEq, Repr

inductive ValidationCode where
  | noSteps
  | duplicateStepID
  | invalidStepID
  | unknownStepType
  | unknownEdgeEndpoint
  | noEntryStep
  | isolatedStep
  | configFieldRequired
  | configFieldConflict
  | configFieldInvalid
  | branchNoOutEdges
  | branchEdgeUnconditioned
  | loopFieldRequired
  | loopFieldForbidden
  | retryFieldRequired
  | retryFieldInvalid
  | timeoutFieldInvalid
  | maxWallClockInvalid
  | cacheFieldRequired
  | cacheFieldInvalid
  | budgetFieldRequired
  | budgetFieldInvalid
  | validationFieldRequired
  | validationFieldInvalid
  | blackboardFieldRequired
  | blackboardFieldInvalid
  | contextFieldRequired
  | contextFieldInvalid
  | expansionFieldInvalid
  | expansionAnchorInvalid
  | expansionCapExceeded
  | templateSectionInvalid
  | mapBodyUnknown
  | agentSectionInvalid
  | agentRefUnknown
  | approvalEdgeInvalid
  | approvalRejectEdgeRequired
  | limitExceeded
  | cycle
  | loopEdgeNotAncestor
  | exprInvalid
  | exprNotBool
  | templateInvalid
  | templateRefInvalid
  | templateRefUnknownStep
  | templateRefNotUpstream
  | templateRefUnknownParam
deriving DecidableEq, Repr

structure ValidationIssue where
  code : ValidationCode
  severity : Severity
  path : String
  msg : String
deriving DecidableEq, Repr

def addIssue (code : ValidationCode) (path msg : String) : ValidationIssue :=
  { code, severity := .error, path, msg }

def warnIssue (code : ValidationCode) (path msg : String) : ValidationIssue :=
  { code, severity := .warning, path, msg }

abbrev ErrorIssue := { issue : ValidationIssue // issue.severity = .error }

def errorIssues (issues : List ErrorIssue) : List ValidationIssue := issues.map Subtype.val

def hasCode (issues : List ValidationIssue) (codes : List ValidationCode) : Bool :=
  issues.any fun issue => codes.contains issue.code

def noErrors (issues : List ValidationIssue) : Bool :=
  issues.all fun issue => issue.severity != .error

def issueIf (condition : Bool) (issue : ValidationIssue) : List ValidationIssue :=
  if condition then [issue] else []

def quote (text : String) : String :=
  let escape := fun c : Char => if c.toNat = 34 ∨ c.toNat = 92 then [Char.ofNat 92, c] else [c]
  "\"" ++ String.ofList (text.toList.flatMap escape) ++ "\""

@[simp] theorem noErrors_append (first second : List ValidationIssue) :
    noErrors (first ++ second) = (noErrors first && noErrors second) := by
  simp [noErrors]

theorem noErrors_of_subset (clean : noErrors issues = true) (included : part ⊆ issues) :
    noErrors part = true := by
  rw [noErrors, List.all_eq_true] at clean ⊢
  exact fun issue mem => clean issue (included mem)

@[simp] theorem noErrors_nil : noErrors [] = true := rfl

@[simp] theorem noErrors_issueIf (condition : Bool) (code : ValidationCode) (path msg : String) :
    noErrors (issueIf condition (addIssue code path msg)) = !condition := by
  cases condition <;> rfl

theorem noErrors_flatMap {α : Type} (items : List α) (check : α → List ValidationIssue) :
    noErrors (items.flatMap check) = true ↔ ∀ item ∈ items, noErrors (check item) = true := by
  induction items with
  | nil => simp
  | cons item items ih => simp [ih]

def Severe (issues : List ValidationIssue) : Prop :=
  ∀ issue ∈ issues, issue.severity = .error ∨ issue.code = .isolatedStep

namespace Severe

theorem nil : Severe [] := by simp [Severe]

theorem append (left : Severe first) (right : Severe second) : Severe (first ++ second) := by
  intro issue mem
  exact (mem_append.mp mem).elim (left issue) (right issue)

theorem issueIf (condition : Bool) (code : ValidationCode) (path msg : String) :
    Severe (issueIf condition (addIssue code path msg)) := by
  cases condition <;> simp [Severe, Dag.issueIf, addIssue]

theorem singleton (code : ValidationCode) (path msg : String) :
    Severe [addIssue code path msg] := issueIf true code path msg

theorem flatMap {α : Type} {items : List α} {check} (each : ∀ item, Severe (check item)) :
    Severe (items.flatMap check) := by
  intro issue mem
  obtain ⟨item, _, inside⟩ := mem_flatMap.mp mem
  exact each item issue inside

theorem errorIssues (issues : List ErrorIssue) : Severe (errorIssues issues) := by
  intro issue mem
  obtain ⟨⟨_, severe⟩, _, rfl⟩ := mem_map.mp mem
  exact .inl severe

theorem hasCode_eq_false (severe : Severe issues)
    (clean : noErrors issues = true) (codes : List ValidationCode)
    (blocking : ValidationCode.isolatedStep ∉ codes) : hasCode issues codes = false := by
  rw [hasCode, any_eq_false]
  intro issue mem present
  have harmless := all_eq_true.mp clean issue mem
  rcases severe issue mem with isError | isolated
  · simp [isError] at harmless
  · rw [isolated] at present
    exact blocking (contains_iff_mem.mp present)

end Severe

/-! Step ids: an authored id, and the reserved space of engine-generated instances. -/

def idHeadChar (c : Char) : Bool := 'a' ≤ c && c ≤ 'z'

def idChar (c : Char) : Bool := idHeadChar c || ('0' ≤ c && c ≤ '9') || c == '_' || c == '-'

def segmentChar (c : Char) : Bool := idHeadChar c || ('0' ≤ c && c ≤ '9') || c == '_'

def baseIDMatches : List Char → Bool
  | [] => false
  | head :: tail => idHeadChar head && tail.length ≤ 63 && tail.all idChar

def stepIDReMatches (id : String) : Bool := baseIDMatches id.toList

def instanceStepIDReMatches (id : String) : Bool :=
  match id.toList.splitOn '#' with
  | base :: segment :: segments =>
    baseIDMatches base &&
      (segment :: segments).all fun part => part ≠ [] && part.all segmentChar
  | _ => false

example : stepIDReMatches "fetch-1" = true := by decide

example : instanceStepIDReMatches "body#2#gather" = true := by decide

end Agentloom.Dag
