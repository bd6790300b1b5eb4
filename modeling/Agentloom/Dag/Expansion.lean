import Mathlib.Data.List.Sort
import Agentloom.Dag.Validate

/-! A proposed expansion of a running graph and the checks it has to pass: shape, caps, ids,
endpoints, splice points, and the cycle and loop rules on the merged graph. -/

namespace Agentloom.Dag

def planSchemaVersion : Int := 1

structure PlanOutput where
  schemaVersion : Int
  steps : List Step
  edges : List Edge := []
deriving DecidableEq, Repr

inductive ExpansionOriginKind where
  | planner
  | map
  | loop
deriving DecidableEq, Repr

structure ExpansionOrigin where
  kind : ExpansionOriginKind
  stepID : String
  depth : Int
deriving DecidableEq, Repr

inductive ExpansionAnchorStatus where
  | pending
  | active
  | terminal
deriving DecidableEq, Repr

def ExpansionAnchorStatus.text : ExpansionAnchorStatus → String
  | .pending => "pending"
  | .active => "active"
  | .terminal => "terminal"

structure ExpansionAnchor where
  type : StepType
  status : ExpansionAnchorStatus
  succeeded : Bool := false
deriving DecidableEq, Repr

structure ExpansionInput where
  plan : PlanOutput
  origin : ExpansionOrigin
  existing : List (String × ExpansionAnchor)
  existingEdges : List Edge
  runParams : String := ""
  perExpansionCap : Int
  caps : ExpansionCaps
  currentStepCount : Int
  expansionsSoFar : Int
deriving DecidableEq, Repr

structure CapBreach where
  limit : String
  current : Int
  cap : Int
deriving DecidableEq, Repr

structure ExpansionVerdict where
  issues : List ValidationIssue
  breaches : List CapBreach
deriving DecidableEq, Repr

def ExpansionVerdict.ok (verdict : ExpansionVerdict) : Bool := noErrors verdict.issues

def ExpansionVerdict.capExceeded (verdict : ExpansionVerdict) : Bool :=
  hasCode verdict.issues [.expansionCapExceeded]

structure PlanLint where
  /-- The checks of one injected step's configuration and policies, at the given path. -/
  step : String → Step → List ErrorIssue
  /-- `checkExpr`: compile an expression, at the given path. -/
  expr : String → String → List ErrorIssue
  /-- `checkExpansionRefs`: template and context references against the merged graph. -/
  references : ExpansionInput → Graph → List ErrorIssue

namespace ExpansionInput

variable (input : ExpansionInput)

def existingIDs : List String := input.existing.map Prod.fst

def anchor (id : String) : Option ExpansionAnchor := input.existing.lookup id

def deltaIDs : List String := input.plan.steps.map Step.id

def touchesDelta (edge : Edge) : Bool :=
  input.deltaIDs.contains edge.fromStep || input.deltaIDs.contains edge.toStep

def mergedEdges : List Edge := input.existingEdges ++ input.plan.edges

def existingOnly (id : String) : Bool :=
  input.existingIDs.contains id && !input.deltaIDs.contains id

end ExpansionInput

def planStepPath (position : Nat) : String := "plan.steps[" ++ toString position ++ "]"

def planEdgePath (position : Nat) : String := "plan.edges[" ++ toString position ++ "]"

structure CapCheck where
  crossed : Bool
  path : String
  msg : String
  breach : CapBreach

def capChecks (input : ExpansionInput) : List CapCheck :=
  let added : Int := input.plan.steps.length
  let total := input.currentStepCount + added
  let count := input.expansionsSoFar + 1
  let depth := input.origin.depth + 1
  [ { crossed := input.perExpansionCap > 0 && added > input.perExpansionCap
      path := "plan.steps"
      msg := "plan adds " ++ toString added ++ " steps, exceeding the per-expansion cap of " ++
        toString input.perExpansionCap
      breach := ⟨"max_added_steps", added, input.perExpansionCap⟩ },
    { crossed := total > input.caps.maxTotalSteps
      path := "plan.steps"
      msg := "expansion would bring the run to " ++ toString total ++
        " steps, exceeding max_total_steps " ++ toString input.caps.maxTotalSteps
      breach := ⟨"max_total_steps", total, input.caps.maxTotalSteps⟩ },
    { crossed := count > input.caps.maxExpansions
      path := "plan"
      msg := "this is expansion " ++ toString count ++ ", exceeding max_expansions " ++
        toString input.caps.maxExpansions
      breach := ⟨"max_expansions", count, input.caps.maxExpansions⟩ },
    { crossed := depth > input.caps.maxDepth
      path := "plan"
      msg := "injected steps would be at depth " ++ toString depth ++ ", exceeding max_depth " ++
        toString input.caps.maxDepth
      breach := ⟨"max_depth", depth, input.caps.maxDepth⟩ } ]

def checkPlanShape (input : ExpansionInput) : List ValidationIssue :=
  issueIf (input.plan.schemaVersion ≠ planSchemaVersion) (addIssue .expansionFieldInvalid
      "plan.schema_version" ("unsupported plan schema_version " ++
        toString input.plan.schemaVersion ++ " (this engine supports " ++
        toString planSchemaVersion ++ ")")) ++
    issueIf (input.plan.steps.length == 0) (addIssue .expansionFieldInvalid "plan.steps"
      "a plan must add at least one step") ++
    (capChecks input).flatMap fun check =>
      issueIf check.crossed (addIssue .expansionCapExceeded check.path check.msg)

def allowInstanceIDs (input : ExpansionInput) : Bool :=
  input.plan.schemaVersion = planSchemaVersion &&
    (input.origin.kind = .map || input.origin.kind = .loop)

def checkInjectedStep (lint : PlanLint) (input : ExpansionInput) (position : Nat) (step : Step) :
    List ValidationIssue :=
  let path := planStepPath position
  let first := firstDuplicate input.plan.steps position step.id
  issueIf (!stepIDReMatches step.id &&
      (!allowInstanceIDs input || !instanceStepIDReMatches step.id))
      (addIssue .invalidStepID (path ++ ".id")
        ("step ID " ++ quote step.id ++ " does not match " ++ stepIDReText)) ++
    issueIf (input.existingIDs.contains step.id) (addIssue .expansionAnchorInvalid (path ++ ".id")
      ("injected step ID " ++ quote step.id ++
        " collides with an existing step in the run graph")) ++
    issueIf first.isSome (addIssue .duplicateStepID (path ++ ".id")
      ("duplicate injected step ID " ++ quote step.id ++ " (first at " ++
        planStepPath (first.getD 0) ++ ")")) ++
    issueIf (!step.type.registered) (addIssue .unknownStepType (path ++ ".type")
      ("unknown step type " ++ quote step.type.text)) ++
    errorIssues (lint.step path step)

def checkExpansionEdgeFields (lint : PlanLint) (path : String) (edge : Edge) :
    List ValidationIssue :=
  if edge.isLoop then loopFieldIssues lint.expr path edge
  else normalFieldIssues lint.expr path edge
    (match edge.decision with
    | .other text => [addIssue .approvalEdgeInvalid (path ++ ".decision")
        ("unknown decision " ++ quote text)]
    | _ => [])

def unknownPlanEnd (input : ExpansionInput) (path id : String) : List ValidationIssue :=
  issueIf (!input.deltaIDs.contains id && !input.existingIDs.contains id)
    (addIssue .unknownEdgeEndpoint path
      ("edge names unknown step " ++ quote id ++ " (not in the plan or the run graph)"))

def anchorHas (input : ExpansionInput) (id : String) (test : ExpansionAnchorStatus → Bool) :
    Bool :=
  input.existingOnly id && (input.anchor id).any fun anchor => test anchor.status

def checkPlanEdge (lint : PlanLint) (input : ExpansionInput) (position : Nat) (edge : Edge) :
    List ValidationIssue :=
  let path := planEdgePath position
  unknownPlanEnd input (path ++ ".from") edge.fromStep ++
    unknownPlanEnd input (path ++ ".to") edge.toStep ++
    issueIf (input.existingOnly edge.fromStep && input.existingOnly edge.toStep)
      (addIssue .expansionAnchorInvalid path
        ("an expansion edge must touch an injected step; " ++ quote edge.fromStep ++ " → " ++
          quote edge.toStep ++ " are both existing")) ++
    issueIf (anchorHas input edge.fromStep (· = .terminal))
      (addIssue .expansionAnchorInvalid (path ++ ".from")
        ("cannot splice an edge from " ++ quote edge.fromStep ++
          ": it is already terminal (its out-edges are resolved)")) ++
    issueIf (anchorHas input edge.toStep (· ≠ .pending))
      (addIssue .expansionAnchorInvalid (path ++ ".to")
        ("cannot splice an edge to " ++ quote edge.toStep ++ ": it is " ++
          ((input.anchor edge.toStep).map fun anchor => anchor.status.text).getD "" ++
          ", not pending (a new dependency would never resolve)")) ++
    checkExpansionEdgeFields lint path edge

def mergedDefinition (input : ExpansionInput) : Definition :=
  { steps := (input.existing.map fun entry => { id := entry.1, type := entry.2.type :
                                                  Step }).insertionSort
      (fun a b => a.id ≤ b.id) ++ input.plan.steps
    edges := input.mergedEdges }

def buildMergedGraph (input : ExpansionInput) : Option Graph :=
  (newGraph (mergedDefinition input)).toOption

def closingEdge (graph : Graph) (finding : CycleFinding) : Option Edge :=
  graph.definition.edges[finding.edgeIdx]?

/-- Cycles are reported only where the closing edge touches the delta; a finding that closes on an
edge between two existing steps is passed over. -/
def mergedCycleIssues (input : ExpansionInput) (graph : Graph) : List ValidationIssue :=
  graph.findCycles.flatMap fun finding =>
    issueIf ((closingEdge graph finding).any input.touchesDelta)
      (addIssue .cycle "plan.edges"
        ("the plan would create a cycle in the run graph: " ++ finding.pathString))

def mergedLoopIssues (input : ExpansionInput) (graph : Graph) : List ValidationIssue :=
  input.plan.edges.zipIdx.flatMap fun (edge, position) =>
    issueIf (edge.isLoop &&
        !graph.reaches (graph.index edge.toStep) (graph.index edge.fromStep))
      (addIssue .loopEdgeNotAncestor (planEdgePath position)
        ("loop edge target " ++ quote edge.toStep ++ " is not a normal-edge ancestor of source " ++
          quote edge.fromStep))

def planIssues (lint : PlanLint) (input : ExpansionInput) : List ValidationIssue :=
  checkPlanShape input ++
    (input.plan.steps.zipIdx.flatMap fun (step, position) =>
      checkInjectedStep lint input position step) ++
    input.plan.edges.zipIdx.flatMap fun (edge, position) => checkPlanEdge lint input position edge

def mergeGate : List ValidationCode :=
  [.duplicateStepID, .unknownEdgeEndpoint, .expansionAnchorInvalid, .invalidStepID]

def checkedGraph (lint : PlanLint) (input : ExpansionInput) : Option Graph :=
  if hasCode (planIssues lint input) mergeGate then none else buildMergedGraph input

def validateExpansion (lint : PlanLint) (input : ExpansionInput) : ExpansionVerdict :=
  { issues := planIssues lint input ++
      match checkedGraph lint input with
      | none => []
      | some graph => mergedCycleIssues input graph ++ mergedLoopIssues input graph ++
          errorIssues (lint.references input graph)
    breaches := ((capChecks input).filter CapCheck.crossed).map CapCheck.breach }

variable {lint : PlanLint} {input : ExpansionInput}

theorem validateExpansion_clean (accepted : (validateExpansion lint input).ok = true) :
    noErrors (planIssues lint input) = true := by
  simp only [ExpansionVerdict.ok, validateExpansion, noErrors_append, Bool.and_eq_true] at accepted
  exact accepted.1

structure WithinCaps (input : ExpansionInput) : Prop where
  grows : input.plan.steps ≠ []
  added : 0 < input.perExpansionCap → (input.plan.steps.length : Int) ≤ input.perExpansionCap
  total : input.currentStepCount + input.plan.steps.length ≤ input.caps.maxTotalSteps
  expansions : input.expansionsSoFar + 1 ≤ input.caps.maxExpansions
  depth : input.origin.depth + 1 ≤ input.caps.maxDepth

theorem checkPlanShape_withinCaps (clean : noErrors (checkPlanShape input) = true) :
    WithinCaps input := by
  simp only [checkPlanShape, noErrors_append, Bool.and_eq_true, noErrors_issueIf, noErrors_flatMap,
    capChecks, List.forall_mem_cons, Bool.not_eq_true', Bool.and_eq_false_imp, decide_eq_true_eq,
    decide_eq_false_iff_not, beq_eq_false_iff_ne] at clean
  obtain ⟨⟨_, some?⟩, added, total, expansions, depth, _⟩ := clean
  refine ⟨fun none => some? (by rw [none]; rfl), fun positive => ?_, ?_, ?_, ?_⟩
  · exact not_lt.mp (added positive)
  · exact not_lt.mp total
  · exact not_lt.mp expansions
  · exact not_lt.mp depth

theorem validateExpansion_withinCaps
    (accepted : (validateExpansion lint input).ok = true) : WithinCaps input := by
  have clean := validateExpansion_clean accepted
  simp only [planIssues, noErrors_append, Bool.and_eq_true] at clean
  exact checkPlanShape_withinCaps clean.1.1

def strictPlanLint : PlanLint :=
  { step := fun path _ => [⟨addIssue .configFieldInvalid path "", rfl⟩]
    expr := fun _ _ => []
    references := fun _ _ => [] }

theorem strictPlanLint_rejects (input : ExpansionInput) :
    (validateExpansion strictPlanLint input).ok ≠ true := by
  intro accepted
  have grows := (validateExpansion_withinCaps accepted).grows
  have clean := validateExpansion_clean accepted
  simp only [planIssues, noErrors_append, Bool.and_eq_true, noErrors_flatMap] at clean
  cases steps : input.plan.steps with
  | nil => exact grows steps
  | cons step rest =>
    have checked := clean.1.2 (step, 0) (by simp [steps])
    simp [checkInjectedStep, strictPlanLint, errorIssues, noErrors, addIssue] at checked

variable (input : ExpansionInput) (edge : Edge)

def refusesSource : Bool := anchorHas input edge.fromStep (· = .terminal)

def refusesTarget : Bool := anchorHas input edge.toStep (· ≠ .pending)

variable {input} {edge}

theorem refused_of_splice (mem : edge ∈ input.plan.edges)
    (refused : refusesSource input edge = true ∨ refusesTarget input edge = true) :
    (validateExpansion lint input).ok = false := by
  refine Bool.eq_false_iff.mpr fun accepted => ?_
  have clean := validateExpansion_clean accepted
  simp only [planIssues, noErrors_append, Bool.and_eq_true, noErrors_flatMap] at clean
  obtain ⟨position, found⟩ := List.mem_iff_getElem?.mp mem
  have checked := clean.2 (edge, position) (List.mem_zipIdx_iff_getElem?.mpr found)
  simp only [checkPlanEdge, noErrors_append, noErrors_issueIf, Bool.and_eq_true,
    Bool.not_eq_true'] at checked
  rcases refused with source | target
  · exact Bool.false_ne_true (checked.1.1.2.symm.trans source)
  · exact Bool.false_ne_true (checked.1.2.symm.trans target)

end Agentloom.Dag
