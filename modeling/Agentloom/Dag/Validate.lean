import Agentloom.Dag.Graph

/-! The structural rules of a definition. The rules that read only one step's own configuration,
the expression compiler, the template and agent libraries and the reference lint are parameters:
every result holds whatever they report. -/

namespace Agentloom.Dag

open List

def maxSteps : Nat := 10000

def maxEdges : Nat := 20000

def maxNameLen : Nat := 128

def maxExprLen : Nat := 1024

def maxLoopIterations : Int := 100

structure DefinitionLint where
  /-- `checkMaxWallClock` and `checkRunBudget`. -/
  envelope : Definition → List ErrorIssue
  /-- The checks of one step's configuration and policies, at the given path. -/
  step : Definition → String → Step → List ErrorIssue
  /-- `checkExpr`: compile an expression, at the given path. -/
  expr : String → String → List ErrorIssue
  /-- `checkTemplateSection`, `checkMaps` and `checkAgents`. -/
  libraries : Definition → List ErrorIssue
  /-- `checkTemplates` and `checkContextGraph`. -/
  references : Definition → Graph → List ErrorIssue

structure ExpansionCaps where
  maxAddedStepsPerExpansion : Int
  maxTotalSteps : Int
  maxExpansions : Int
  maxDepth : Int
deriving DecidableEq, Repr

def defaultMaxAddedStepsPerExpansion : Int := 32

def defaultMaxExpansions : Int := 100

def defaultMaxDepth : Int := 4

def defaultMaxTotalSteps : Int := maxSteps

def resolveCaps (policy : Option ExpansionPolicy) : ExpansionCaps :=
  let policy := policy.getD {}
  { maxAddedStepsPerExpansion := policy.maxAddedSteps.getD defaultMaxAddedStepsPerExpansion
    maxTotalSteps := policy.maxTotalSteps.getD defaultMaxTotalSteps
    maxExpansions := policy.maxExpansions.getD defaultMaxExpansions
    maxDepth := policy.maxDepth.getD defaultMaxDepth }

def stepPath (position : Nat) : String := "steps[" ++ toString position ++ "]"

def edgePath (position : Nat) : String := "edges[" ++ toString position ++ "]"

def checkLimits (definition : Definition) : List ValidationIssue :=
  issueIf (definition.steps.length > maxSteps) (addIssue .limitExceeded "steps"
      ("definition has " ++ toString definition.steps.length ++ " steps (max " ++
        toString maxSteps ++ ")")) ++
    issueIf (definition.edges.length > maxEdges) (addIssue .limitExceeded "edges"
      ("definition has " ++ toString definition.edges.length ++ " edges (max " ++
        toString maxEdges ++ ")")) ++
    issueIf (definition.name.utf8ByteSize > maxNameLen) (addIssue .limitExceeded "name"
      ("name is " ++ toString definition.name.utf8ByteSize ++ " bytes (max " ++
        toString maxNameLen ++ ")"))

def checkPositive (field : String) (value : Option Int) : List ValidationIssue :=
  issueIf (value.any (· < 1)) (addIssue .expansionFieldInvalid ("expansion." ++ field)
    ("must be positive, got " ++ toString (value.getD 0)))

def checkPlannerCap (caps : ExpansionCaps) (position : Nat) (step : Step) :
    List ValidationIssue :=
  match step.type, step.config with
  | .planner, .planner cap =>
    let path := stepPath position ++ ".config.max_added_steps"
    if cap = 0 then []
    else if cap < 0 then
      [addIssue .configFieldInvalid path ("must be positive, got " ++ toString cap)]
    else issueIf (cap > caps.maxAddedStepsPerExpansion) (addIssue .configFieldInvalid path
      ("cannot exceed the run per-expansion cap " ++ toString caps.maxAddedStepsPerExpansion ++
        ", got " ++ toString cap))
  | _, _ => []

def checkExpansion (definition : Definition) : List ValidationIssue :=
  let caps := resolveCaps definition.expansion
  let policy := definition.expansion.getD {}
  checkPositive "max_added_steps" policy.maxAddedSteps ++
    checkPositive "max_total_steps" policy.maxTotalSteps ++
    checkPositive "max_expansions" policy.maxExpansions ++
    checkPositive "max_depth" policy.maxDepth ++
    issueIf (policy.maxTotalSteps.any (· > defaultMaxTotalSteps)) (addIssue .expansionFieldInvalid
      "expansion.max_total_steps" ("must not exceed the definition ceiling " ++
        toString maxSteps ++ ", got " ++ toString (policy.maxTotalSteps.getD 0))) ++
    issueIf (policy.maxAddedSteps.any fun cap => cap ≥ 1 && cap > caps.maxTotalSteps)
      (addIssue .expansionFieldInvalid "expansion.max_added_steps"
        ("cannot exceed max_total_steps " ++ toString caps.maxTotalSteps ++ ", got " ++
          toString (policy.maxAddedSteps.getD 0))) ++
    definition.steps.zipIdx.flatMap fun entry => checkPlannerCap caps entry.2 entry.1

def stepIDReText : String := "^[a-z][a-z0-9_-]\x7b0,63\x7d$"

def firstDuplicate (steps : List Step) (position : Nat) (id : String) : Option Nat :=
  stepIndex (steps.take position) id

def checkSteps (lint : DefinitionLint) (definition : Definition) : List ValidationIssue :=
  issueIf (definition.steps.length == 0) (addIssue .noSteps "steps" "definition has no steps") ++
    definition.steps.zipIdx.flatMap fun (step, position) =>
      let path := stepPath position
      let first := firstDuplicate definition.steps position step.id
      issueIf (!stepIDReMatches step.id) (addIssue .invalidStepID (path ++ ".id")
          ("step ID " ++ quote step.id ++ " does not match " ++ stepIDReText)) ++
        issueIf first.isSome (addIssue .duplicateStepID (path ++ ".id")
          ("duplicate step ID " ++ quote step.id ++ " (first declared at " ++
            stepPath (first.getD 0) ++ ")")) ++
        issueIf (!step.type.registered) (addIssue .unknownStepType (path ++ ".type")
          ("unknown step type " ++ quote step.type.text)) ++
        errorIssues (lint.step definition path step)

def checkJSONPointerEscapes : List Char → Option String
  | [] => none
  | [c] => if c = '~' then some "'~' must be followed by '0' or '1'" else none
  | c :: d :: rest =>
    if c = '~' then
      if d = '0' ∨ d = '1' then checkJSONPointerEscapes rest
      else some "'~' must be followed by '0' or '1'"
    else checkJSONPointerEscapes (d :: rest)

def checkJSONPointer (pointer : String) : Option String :=
  match pointer.toList with
  | [] => none
  | '/' :: rest => checkJSONPointerEscapes rest
  | _ => some "must start with '/'"

def ExhaustPolicy.valid : ExhaustPolicy → Bool
  | .other _ => false
  | _ => true

def ExhaustPolicy.text : ExhaustPolicy → String
  | .unset => ""
  | .proceed => "proceed"
  | .fail => "fail"
  | .other text => text

def exhaustPolicyIssue (path : String) (policy : ExhaustPolicy) : List ValidationIssue :=
  issueIf (!policy.valid) (addIssue .configFieldInvalid path
    ("must be " ++ quote "proceed" ++ " or " ++ quote "fail" ++ ", got " ++ quote policy.text))

def predicateIssues (expr : String → String → List ErrorIssue) (path source : String) :
    List ValidationIssue :=
  if source.utf8ByteSize > maxExprLen then
    [addIssue .limitExceeded path ("expression is " ++ toString source.utf8ByteSize ++
      " bytes (max " ++ toString maxExprLen ++ ")")]
  else errorIssues (expr path source)

def loopFieldIssues (expr : String → String → List ErrorIssue) (path : String) (edge : Edge) :
    List ValidationIssue :=
  issueIf (edge.when ≠ "") (addIssue .loopFieldForbidden (path ++ ".when")
      "\"when\" is not valid on a loop edge (its predicate is \"condition\")") ++
    (if edge.condition = "" then
      [addIssue .loopFieldRequired (path ++ ".condition") "required on a loop edge"]
    else predicateIssues expr (path ++ ".condition") edge.condition) ++
    (if edge.maxIterations = 0 then
      [addIssue .loopFieldRequired (path ++ ".max_iterations") "required on a loop edge"]
    else issueIf (edge.maxIterations < 1 || edge.maxIterations > maxLoopIterations)
      (addIssue .limitExceeded (path ++ ".max_iterations") ("must be between 1 and " ++
        toString maxLoopIterations ++ ", got " ++ toString edge.maxIterations))) ++
    exhaustPolicyIssue (path ++ ".on_exhausted") edge.onExhausted ++
    (match edge.noProgress with
    | none => []
    | some guard =>
      exhaustPolicyIssue (path ++ ".no_progress.policy") guard.policy ++
        match checkJSONPointer guard.path with
        | none => []
        | some err => [addIssue .configFieldInvalid (path ++ ".no_progress.path")
            ("invalid JSON pointer: " ++ err)]) ++
    issueIf (edge.decision ≠ .unset)
      (addIssue .approvalEdgeInvalid (path ++ ".decision") "not valid on a loop edge")

def normalFieldIssues (expr : String → String → List ErrorIssue) (path : String) (edge : Edge)
    (decisionIssues : List ValidationIssue) : List ValidationIssue :=
  issueIf (edge.condition ≠ "")
      (addIssue .loopFieldForbidden (path ++ ".condition") "only valid on loop edges") ++
    issueIf (edge.maxIterations ≠ 0)
      (addIssue .loopFieldForbidden (path ++ ".max_iterations") "only valid on loop edges") ++
    issueIf (edge.onExhausted ≠ .unset)
      (addIssue .loopFieldForbidden (path ++ ".on_exhausted") "only valid on loop edges") ++
    issueIf edge.noProgress.isSome
      (addIssue .loopFieldForbidden (path ++ ".no_progress") "only valid on loop edges") ++
    decisionIssues ++
    (if edge.when = "" then [] else predicateIssues expr (path ++ ".when") edge.when)

def findStep (definition : Definition) (id : String) : Option Step :=
  definition.steps.find? fun step => step.id == id

def isHumanApproval (definition : Definition) (id : String) : Bool :=
  (findStep definition id).any fun step => step.type = .humanApproval

def checkEdges (lint : DefinitionLint) (definition : Definition) : List ValidationIssue :=
  definition.edges.zipIdx.flatMap fun (edge, position) =>
    let path := edgePath position
    issueIf (!definition.stepIDs.contains edge.fromStep) (addIssue .unknownEdgeEndpoint
        (path ++ ".from") ("unknown step " ++ quote edge.fromStep)) ++
      issueIf (!definition.stepIDs.contains edge.toStep) (addIssue .unknownEdgeEndpoint
        (path ++ ".to") ("unknown step " ++ quote edge.toStep)) ++
      if edge.isLoop then loopFieldIssues lint.expr path edge
      else normalFieldIssues lint.expr path edge
        (issueIf (edge.decision ≠ .unset && !isHumanApproval definition edge.fromStep)
          (addIssue .approvalEdgeInvalid (path ++ ".decision")
            "only valid on an edge leaving a human_approval step"))

def Step.onReject (step : Step) : ApprovalRejectPolicy :=
  match step.config with
  | .humanApproval config => config.onReject
  | _ => .fail

def rejectEdge (definition : Definition) (edge : Edge) : Bool :=
  !edge.isLoop && edge.decision = .decision .reject && isHumanApproval definition edge.fromStep

def checkApprovals (definition : Definition) : List ValidationIssue :=
  (definition.edges.zipIdx.flatMap fun (edge, position) =>
      issueIf (rejectEdge definition edge &&
          (findStep definition edge.fromStep).any fun step => step.onReject ≠ .route)
        (addIssue .approvalEdgeInvalid (edgePath position ++ ".decision")
          ("a " ++ quote "reject" ++ " edge requires the source step's on_reject to be " ++
            quote "route"))) ++
    definition.steps.zipIdx.flatMap fun (step, position) =>
      issueIf (step.type = .humanApproval && step.onReject = .route &&
          !definition.edges.any fun edge =>
            rejectEdge definition edge && edge.fromStep = step.id)
        (addIssue .approvalRejectEdgeRequired (stepPath position ++ ".config.on_reject")
          (quote "route" ++ " reject routing requires at least one outgoing edge with " ++
            quote "\"decision\": \"reject\""))

def resolvedNormal (definition : Definition) (edge : Edge) : Bool :=
  !edge.isLoop && definition.stepIDs.contains edge.fromStep &&
    definition.stepIDs.contains edge.toStep

def branchOutEdges (definition : Definition) (id : String) : List (Edge × Nat) :=
  definition.edges.zipIdx.filter fun entry => !entry.1.isLoop && entry.1.fromStep == id

def checkBranch (definition : Definition) (position : Nat) (step : Step) : List ValidationIssue :=
  if step.type ≠ .branch then []
  else
    let outs := branchOutEdges definition step.id
    if outs.length = 0 then
      [addIssue .branchNoOutEdges (stepPath position)
        ("branch step " ++ quote step.id ++ " has no outgoing edges")]
    else outs.zipIdx.flatMap fun ((edge, edgeIndex), place) =>
      issueIf (edge.when = "" && place ≠ outs.length - 1)
        (addIssue .branchEdgeUnconditioned (edgePath edgeIndex)
          ("unconditioned out-edge of branch " ++ quote step.id ++
            " must be the single trailing default"))

def checkGraph (definition : Definition) : List ValidationIssue :=
  if definition.steps.length = 0 then []
  else
    let entry := definition.steps.any fun step =>
      !definition.edges.any fun edge => resolvedNormal definition edge && edge.toStep == step.id
    let touched := fun id => definition.edges.any fun edge =>
      definition.stepIDs.contains edge.fromStep && definition.stepIDs.contains edge.toStep &&
        (edge.fromStep == id || edge.toStep == id)
    issueIf (!entry) (addIssue .noEntryStep ""
        "no entry step: every step has an incoming normal edge") ++
      (if definition.steps.length > 1 then
        definition.steps.zipIdx.flatMap fun (step, position) =>
          issueIf (!touched step.id) (warnIssue .isolatedStep (stepPath position)
            ("step " ++ quote step.id ++ " has no edges; it will run as an independent entry step"))
      else []) ++
      definition.steps.zipIdx.flatMap fun (step, position) => checkBranch definition position step

def loopBody (graph : Graph) (source target : String) : List String :=
  source :: target :: ((graph.descendants (graph.index target)).filter fun step =>
    step = graph.index source || (graph.ancestors (graph.index source)).contains step).map
      graph.stepID

def checkGraphSemantics (definition : Definition) (graph : Graph) : List ValidationIssue :=
  (graph.findCycles.map fun finding =>
      addIssue .cycle (edgePath finding.edgeIdx) ("edge closes the cycle " ++ finding.pathString ++
        " (mark a loop edge instead: only loop edges may form cycles)")) ++
    definition.edges.zipIdx.flatMap fun (edge, position) =>
      if !edge.isLoop then []
      else if !graph.reaches (graph.index edge.toStep) (graph.index edge.fromStep) then
        [addIssue .loopEdgeNotAncestor (edgePath position)
          ("loop edge target " ++ quote edge.toStep ++ " is not an ancestor of source " ++
            quote edge.fromStep ++ " (no loop body to iterate)")]
      else match edge.noProgress with
        | none => []
        | some guard =>
          issueIf (guard.step ≠ "" &&
              !(loopBody graph edge.fromStep edge.toStep).contains guard.step)
            (addIssue .configFieldInvalid (edgePath position ++ ".no_progress.step")
              ("step " ++ quote guard.step ++ " is not a member of the loop body of " ++
                quote edge.toStep ++ " → " ++ quote edge.fromStep))

def structuralIssues (lint : DefinitionLint) (definition : Definition) : List ValidationIssue :=
  checkLimits definition ++ errorIssues (lint.envelope definition) ++ checkExpansion definition ++
    checkSteps lint definition ++ checkEdges lint definition ++ checkApprovals definition ++
    checkGraph definition ++ errorIssues (lint.libraries definition)

def validate (lint : DefinitionLint) (definition : Definition) : List ValidationIssue :=
  let issues := structuralIssues lint definition
  if hasCode issues [.duplicateStepID, .unknownEdgeEndpoint] then issues
  else match newGraph definition with
    | .error _ => issues
    | .ok graph => issues ++ checkGraphSemantics definition graph ++
        errorIssues (lint.references definition graph)

def validates (lint : DefinitionLint) (definition : Definition) : Bool :=
  noErrors (validate lint definition)

theorem checkLimits_severe (definition : Definition) : Severe (checkLimits definition) :=
  ((Severe.issueIf _ _ _ _).append (Severe.issueIf _ _ _ _)).append (Severe.issueIf _ _ _ _)

theorem checkPlannerCap_severe (caps : ExpansionCaps) (position : Nat) (step : Step) :
    Severe (checkPlannerCap caps position step) := by
  unfold checkPlannerCap
  split
  · dsimp only
    split_ifs
    · exact .nil
    · exact .singleton _ _ _
    · exact .issueIf _ _ _ _
  · exact .nil

theorem checkExpansion_severe (definition : Definition) : Severe (checkExpansion definition) := by
  refine Severe.append ?_ (.flatMap fun entry => checkPlannerCap_severe _ _ _)
  exact (((((Severe.issueIf _ _ _ _).append (.issueIf _ _ _ _)).append (.issueIf _ _ _ _)).append
    (.issueIf _ _ _ _)).append (.issueIf _ _ _ _)).append (.issueIf _ _ _ _)

theorem checkSteps_severe (lint : DefinitionLint) (definition : Definition) :
    Severe (checkSteps lint definition) := by
  refine (Severe.issueIf _ _ _ _).append (.flatMap fun entry => ?_)
  exact (((Severe.issueIf _ _ _ _).append (.issueIf _ _ _ _)).append (.issueIf _ _ _ _)).append
    (.errorIssues _)

theorem predicateIssues_severe (expr : String → String → List ErrorIssue) (path source : String) :
    Severe (predicateIssues expr path source) := by
  unfold predicateIssues
  split_ifs
  · exact .singleton _ _ _
  · exact .errorIssues _

theorem loopFieldIssues_severe (expr : String → String → List ErrorIssue) (path : String)
    (edge : Edge) : Severe (loopFieldIssues expr path edge) := by
  refine Severe.append ?_ (.issueIf _ _ _ _)
  refine Severe.append ?_ ?_
  · refine (((Severe.issueIf _ _ _ _).append ?_).append ?_).append (.issueIf _ _ _ _)
    · split_ifs
      · exact .singleton _ _ _
      · exact predicateIssues_severe _ _ _
    · split_ifs
      · exact .singleton _ _ _
      · exact .issueIf _ _ _ _
  · split
    · exact .nil
    · refine (Severe.issueIf _ _ _ _).append ?_
      split
      · exact .nil
      · exact .singleton _ _ _

theorem normalFieldIssues_severe (expr : String → String → List ErrorIssue) (path : String)
    (edge : Edge) (severe : Severe decisionIssues) :
    Severe (normalFieldIssues expr path edge decisionIssues) := by
  refine Severe.append (Severe.append ?_ severe) ?_
  · exact (((Severe.issueIf _ _ _ _).append (.issueIf _ _ _ _)).append (.issueIf _ _ _ _)).append
      (.issueIf _ _ _ _)
  · split_ifs
    · exact .nil
    · exact predicateIssues_severe _ _ _

theorem checkEdges_severe (lint : DefinitionLint) (definition : Definition) :
    Severe (checkEdges lint definition) := by
  refine Severe.flatMap fun entry => ?_
  refine ((Severe.issueIf _ _ _ _).append (.issueIf _ _ _ _)).append ?_
  split_ifs
  · exact loopFieldIssues_severe _ _ _
  · exact normalFieldIssues_severe _ _ _ (.issueIf _ _ _ _)

theorem checkApprovals_severe (definition : Definition) : Severe (checkApprovals definition) :=
  Severe.append (.flatMap fun _ => .issueIf _ _ _ _) (.flatMap fun _ => .issueIf _ _ _ _)

theorem checkBranch_severe (definition : Definition) (position : Nat) (step : Step) :
    Severe (checkBranch definition position step) := by
  unfold checkBranch
  dsimp only
  split_ifs
  · exact .nil
  · exact .singleton _ _ _
  · exact .flatMap fun _ => .issueIf _ _ _ _

theorem checkGraph_severe (definition : Definition) : Severe (checkGraph definition) := by
  unfold checkGraph
  split_ifs
  · exact .nil
  · refine Severe.append (Severe.append (.issueIf _ _ _ _) ?_)
      (.flatMap fun _ => checkBranch_severe _ _ _)
    refine Severe.flatMap fun entry => ?_
    intro issue mem
    refine .inr ?_
    simp only [issueIf] at mem
    split_ifs at mem
    · rw [mem_singleton.mp mem]
      rfl
    · simp at mem
  · exact Severe.append (Severe.append (.issueIf _ _ _ _) .nil)
      (.flatMap fun _ => checkBranch_severe _ _ _)

theorem structuralIssues_severe (lint : DefinitionLint) (definition : Definition) :
    Severe (structuralIssues lint definition) :=
  (((((((checkLimits_severe _).append (.errorIssues _)).append (checkExpansion_severe _)).append
    (checkSteps_severe _ _)).append (checkEdges_severe _ _)).append
      (checkApprovals_severe _)).append (checkGraph_severe _)).append (.errorIssues _)

theorem nodup_of_firstDuplicate
    (fresh : ∀ entry ∈ steps.zipIdx, (firstDuplicate steps entry.2 entry.1.id).isSome = false) :
    (steps.map Step.id).Nodup := by
  rw [List.Nodup, pairwise_map, pairwise_iff_getElem]
  intro i j iBound jBound before same
  have absent := fresh (steps[j], j) (mem_zipIdx_iff_getElem?.mpr (by simp))
  have present : (firstDuplicate steps j steps[j].id).isSome = true := by
    rw [firstDuplicate, stepIndex, findIdx?_isSome, any_eq_true]
    refine ⟨steps[i], ?_, by simp [same]⟩
    exact mem_take_iff_getElem.mpr ⟨i, by omega, rfl⟩
  simp [present] at absent

structure Resolved (stepIDs : List String) (edges : List Edge) : Prop where
  unique : stepIDs.Nodup
  ends : ∀ edge ∈ edges, edge.fromStep ∈ stepIDs ∧ edge.toStep ∈ stepIDs

structure WellFormed (stepIDs : List String) (edges : List Edge) : Prop
    extends Resolved stepIDs edges where
  acyclic : EdgesAcyclic edges

variable {lint : DefinitionLint} {definition : Definition}

theorem validates_structural (accepted : validates lint definition = true) :
    noErrors (structuralIssues lint definition) = true := by
  unfold validates validate at accepted
  dsimp only at accepted
  split at accepted
  · exact accepted
  · split at accepted
    · exact accepted
    · simp only [noErrors_append, Bool.and_eq_true] at accepted
      exact accepted.1.1

theorem validates_steps (accepted : validates lint definition = true) :
    definition.steps ≠ [] ∧ definition.stepIDs.Nodup := by
  have steps : noErrors (checkSteps lint definition) = true :=
    noErrors_of_subset (validates_structural accepted) fun _ mem => by simp [structuralIssues, mem]
  simp only [checkSteps, noErrors_append, Bool.and_eq_true, noErrors_issueIf, noErrors_flatMap,
    Bool.not_eq_true', beq_eq_false_iff_ne] at steps
  obtain ⟨some?, each⟩ := steps
  refine ⟨fun none => some? (by simp [none]), nodup_of_firstDuplicate fun entry mem => ?_⟩
  exact (each entry mem).1.1.2

theorem validates_resolved (accepted : validates lint definition = true) :
    ∀ edge ∈ definition.edges,
      edge.fromStep ∈ definition.stepIDs ∧ edge.toStep ∈ definition.stepIDs := by
  intro edge mem
  have edges : noErrors (checkEdges lint definition) = true :=
    noErrors_of_subset (validates_structural accepted) fun _ mem => by simp [structuralIssues, mem]
  obtain ⟨position, found⟩ := mem_iff_getElem?.mp mem
  rw [checkEdges, noErrors_flatMap] at edges
  have checked := edges (edge, position) (mem_zipIdx_iff_getElem?.mpr found)
  simp only [noErrors_append, Bool.and_eq_true, noErrors_issueIf, Bool.not_not,
    contains_iff_mem] at checked
  exact checked.1

theorem validates_wellFormed (accepted : validates lint definition = true) :
    WellFormed definition.stepIDs definition.edges := by
  have unique := (validates_steps accepted).2
  have resolved := validates_resolved accepted
  have gate := (structuralIssues_severe lint definition).hasCode_eq_false
    (validates_structural accepted) [.duplicateStepID, .unknownEdgeEndpoint] (by decide)
  simp only [validates, validate, gate, Bool.false_eq_true, ↓reduceIte,
    newGraph_of_resolved unique resolved, noErrors_append, Bool.and_eq_true] at accepted
  refine ⟨⟨unique, resolved⟩, ?_⟩
  have cycles := accepted.1.2
  simp only [checkGraphSemantics, noErrors_append, Bool.and_eq_true] at cycles
  refine (Graph.findCycles_nil_iff { definition, unique, resolved }).mp ?_
  rw [eq_nil_iff_forall_not_mem]
  intro finding found
  have clean := all_eq_true.mp cycles.1 _ (mem_map.mpr ⟨finding, found, rfl⟩)
  simp [addIssue] at clean

theorem getD_positive
    (clean : noErrors (checkPositive field value) = true) (positive : 1 ≤ fallback) :
    1 ≤ value.getD fallback := by
  rw [checkPositive, noErrors_issueIf] at clean
  cases value with
  | none => exact positive
  | some cap => simpa using clean

theorem getD_le_iff {value : Option Int} :
    value.getD fallback ≤ fallback ↔ ∀ cap ∈ value, cap ≤ fallback := by
  cases value <;> simp

theorem validates_caps {lint : DefinitionLint}
    (accepted : validates lint definition = true) :
    let caps := resolveCaps definition.expansion
    1 ≤ caps.maxAddedStepsPerExpansion ∧ 1 ≤ caps.maxTotalSteps ∧ 1 ≤ caps.maxExpansions ∧
      1 ≤ caps.maxDepth ∧ caps.maxTotalSteps ≤ defaultMaxTotalSteps := by
  have clean : noErrors (checkExpansion definition) = true :=
    noErrors_of_subset (validates_structural accepted) fun _ mem => by simp [structuralIssues, mem]
  simp only [checkExpansion, noErrors_append, Bool.and_eq_true, and_assoc] at clean
  obtain ⟨added, total, expansions, depth, ceiling, _⟩ := clean
  refine ⟨getD_positive added (by decide), getD_positive total (by decide),
    getD_positive expansions (by decide), getD_positive depth (by decide), ?_⟩
  refine getD_le_iff.mpr fun cap given => ?_
  simpa [Option.mem_def.mp given] using ceiling

/-- What the validation does not ask of an authored policy: no cap above its default. -/
def TightensDefaults (policy : Option ExpansionPolicy) : Prop :=
  let policy := policy.getD {}
  (∀ cap ∈ policy.maxAddedSteps, cap ≤ defaultMaxAddedStepsPerExpansion) ∧
    (∀ cap ∈ policy.maxExpansions, cap ≤ defaultMaxExpansions) ∧
    ∀ cap ∈ policy.maxDepth, cap ≤ defaultMaxDepth

theorem tightensDefaults_iff {policy : Option ExpansionPolicy} :
    (resolveCaps policy).maxAddedStepsPerExpansion ≤ defaultMaxAddedStepsPerExpansion ∧
      (resolveCaps policy).maxExpansions ≤ defaultMaxExpansions ∧
      (resolveCaps policy).maxDepth ≤ defaultMaxDepth ↔ TightensDefaults policy := by
  simp only [resolveCaps, getD_le_iff, TightensDefaults]

def TrailingDefault (edges : List Edge) (id : String) : Prop :=
  edges.Pairwise fun first later => first.isLoop = false → later.isLoop = false →
    first.fromStep = id → later.fromStep = id → first.when ≠ ""

theorem TrailingDefault.conditioned {edges id}
    (trailing : TrailingDefault edges id) {first later} (mem : first ∈ edges.zipIdx)
    (mem' : later ∈ edges.zipIdx) (before : first.2 < later.2) (normal : first.1.isLoop = false)
    (normal' : later.1.isLoop = false) (leaves : first.1.fromStep = id)
    (leaves' : later.1.fromStep = id) : first.1.when ≠ "" := by
  obtain ⟨bound, found⟩ := List.getElem?_eq_some_iff.mp (List.mem_zipIdx_iff_getElem?.mp mem)
  obtain ⟨bound', found'⟩ := List.getElem?_eq_some_iff.mp (List.mem_zipIdx_iff_getElem?.mp mem')
  have rule := pairwise_iff_getElem.mp trailing _ _ bound bound' before
  rw [found, found'] at rule
  exact rule normal normal' leaves leaves'

theorem validates_branches
    (accepted : validates lint definition = true) (mem : step ∈ definition.steps)
    (isBranch : step.type = .branch) : TrailingDefault definition.edges step.id := by
  have graph : noErrors (checkGraph definition) = true :=
    noErrors_of_subset (validates_structural accepted) fun _ mem => by simp [structuralIssues, mem]
  rw [checkGraph, if_neg (by simpa using ne_nil_of_mem mem), noErrors_append,
    Bool.and_eq_true, noErrors_flatMap] at graph
  obtain ⟨position, found⟩ := mem_iff_getElem?.mp mem
  have checked := graph.2 (step, position) (mem_zipIdx_iff_getElem?.mpr found)
  rw [TrailingDefault, pairwise_iff_getElem]
  intro i j iBound jBound before normal normal' leaves leaves' unconditioned
  have listed : ∀ k (bound : k < definition.edges.length), definition.edges[k].isLoop = false →
      definition.edges[k].fromStep = step.id →
      (definition.edges[k], k) ∈ branchOutEdges definition step.id := fun k bound isNormal from_ =>
    mem_filter.mpr ⟨mem_zipIdx_iff_getElem?.mpr (by simp [bound]), by simp [isNormal, from_]⟩
  obtain ⟨a, aBound, isFirst⟩ := mem_iff_getElem.mp (listed i iBound normal leaves)
  obtain ⟨b, bBound, isLater⟩ := mem_iff_getElem.mp (listed j jBound normal' leaves')
  -- the out-edges are listed in the order of the definition
  have sorted : ((branchOutEdges definition step.id).map Prod.snd).Pairwise (· < ·) := by
    refine List.Pairwise.sublist (filter_sublist.map Prod.snd) ?_
    rw [zipIdx_map_snd]
    exact pairwise_lt_range'
  have early : a < b := by
    by_contra late
    rcases Nat.eq_or_lt_of_le (Nat.not_lt.mp late) with same | less
    · subst same
      have := congrArg Prod.snd (isFirst.symm.trans isLater)
      omega
    · have := pairwise_iff_getElem.mp sorted b a (by simpa using bBound) (by simpa using aBound)
        less
      simp only [getElem_map, isFirst, isLater] at this
      omega
  unfold checkBranch at checked
  dsimp only at checked
  rw [if_neg (by simp [isBranch]), if_neg (by omega), noErrors_flatMap] at checked
  have last := checked ((definition.edges[i], i), a)
    (mem_zipIdx_iff_getElem?.mpr (by rw [getElem?_eq_getElem aBound, isFirst]))
  simp only [noErrors_issueIf, unconditioned] at last
  simp at last
  omega

end Agentloom.Dag
