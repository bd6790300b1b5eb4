import Agentloom.Dag.ReadyRules
import Agentloom.Store.Rows

/-! Run instantiation: a validated definition becomes the rows of a run, with the dependency
counters precomputed and the entry steps ready. -/

namespace Agentloom.Store

open Transaction List

structure StepPlacement where
  status : StepStatus
  remainingDeps : Nat
  graphVersion : Int
  depth : Int := 0
  originStep : Option String := none
  originKind : Option Dag.ExpansionOriginKind := none

def stepRowParams (step : Dag.Step) (placement : StepPlacement) (now : Time) : StepRow :=
  { stepID := step.id
    stepType := step.type
    config := step.config
    status := placement.status
    remainingDeps := placement.remainingDeps
    graphVersion := placement.graphVersion
    depth := placement.depth
    originStep := placement.originStep
    originKind := placement.originKind
    updatedAt := now }

def edgeRowParams (edge : Dag.Edge) (ordinal : Nat) (graphVersion : Int)
    (originStep : Option String) (originKind : Option Dag.ExpansionOriginKind) : EdgeRow :=
  { ordinal
    fromStep := edge.fromStep
    toStep := edge.toStep
    edgeType := edge.type
    whenExpr := edge.when
    condition := edge.condition
    maxIterations := edge.maxIterations
    decision := edge.decision
    graphVersion
    originStep
    originKind }

def inDegree (edges : List Dag.Edge) (id : String) : Nat :=
  edges.countP fun edge => !edge.isLoop && edge.toStep == id

def planInstantiation (definition : Dag.Definition) : Except String (List String) := do
  let graph ← Dag.newGraph definition
  let (entry, newlySkipped) ← graph.readySteps [] [] []
  if newlySkipped ≠ [] then
    .error ("instantiation skipped steps " ++ Dag.Graph.quoteList newlySkipped)
  else .ok entry

theorem inNormal_isEmpty_iff (graph : Dag.Graph)
    (found : graph.definition.steps[position]? = some step) :
    (graph.inNormal position).isEmpty = true ↔ inDegree graph.definition.edges step.id = 0 := by
  have mem : step.id ∈ graph.definition.stepIDs :=
    mem_map_of_mem (mem_of_getElem? found)
  rw [List.isEmpty_iff, inDegree, List.countP_eq_zero, List.eq_nil_iff_forall_not_mem]
  constructor
  · intro none edge inside into
    simp only [Bool.and_eq_true, Bool.not_eq_true', beq_iff_eq] at into
    obtain ⟨ordinal, isEdge⟩ := mem_iff_getElem?.mp inside
    refine none ordinal (Dag.Graph.mem_inNormal.mpr ⟨edge, isEdge, into.1, ?_⟩)
    rw [into.2, Dag.Graph.index_of_get found]
  · intro none ordinal into
    obtain ⟨edge, isEdge, normal, same⟩ := Dag.Graph.mem_inNormal.mp into
    have inside := mem_of_getElem? isEdge
    rw [← Dag.Graph.index_of_get found] at same
    refine none edge inside ?_
    rw [normal, Dag.Graph.index_inj (graph.resolved edge inside).2 mem same]
    simp

theorem planInstantiation_eq
    (built : Dag.newGraph definition = .ok graph) (acyclic : Dag.EdgesAcyclic definition.edges) :
    planInstantiation definition = .ok ((definition.steps.filter fun step =>
      inDegree definition.edges step.id = 0).map Dag.Step.id) := by
  obtain rfl := Dag.newGraph_ok built
  have entry : (graph.definition.steps.zipIdx.filter fun entry =>
        (graph.inNormal entry.2).isEmpty).map (fun entry => entry.1.id) =
      (graph.definition.steps.filter fun step =>
        inDegree graph.definition.edges step.id = 0).map Dag.Step.id := by
    have first : graph.definition.steps = graph.definition.steps.zipIdx.map Prod.fst :=
      (zipIdx_map_fst 0 _).symm
    conv_rhs => rw [first, filter_map, map_map]
    refine congrArg _ (filter_congr fun entry mem => ?_)
    rw [Bool.eq_iff_iff, inNormal_isEmpty_iff graph (mem_zipIdx_iff_getElem?.mp mem)]
    simp
  simp only [planInstantiation, built, bind, Except.bind, Dag.Graph.readySteps_start acyclic, entry]
  rfl

def initialSteps (definition : Dag.Definition) (entry : List String) (now : Time) : List StepRow :=
  definition.steps.map fun step =>
    stepRowParams step
      { status := if entry.contains step.id then .ready else .pending
        remainingDeps := inDegree definition.edges step.id
        graphVersion := 1 } now

def initialEdges (definition : Dag.Definition) : List EdgeRow :=
  definition.edges.zipIdx.map fun (edge, ordinal) => edgeRowParams edge ordinal 1 none none

def initialStore (definition : Dag.Definition) (entry : List String) (params : Json)
    (budgetNanoUSD : Option Int) (now : Time) : RunStore :=
  { run :=
      { name := definition.name
        status := .running
        onFailure := definition.onFailure
        params
        stepsTotal := definition.steps.length
        budgetNanoUSD
        expansionCaps := Dag.resolveCaps definition.expansion
        startedAt := some now }
    steps := initialSteps definition entry now
    edges := initialEdges definition }

def announce (name : String) (stepsTotal : Nat) (entry : List String) : StoreTx Unit := do
  appendEvent (.runCreated name stepsTotal)
  Tx.forEach entry fun id => appendEvent (.stepReady id)
  Tx.forEach entry fun id => createOutbox id .stepReady

def createRun (lint : Dag.DefinitionLint) (definition : Dag.Definition) (params : Json)
    (budgetNanoUSD : Option Int) (now : Time) : Except String RunStore := do
  if now = 0 then .error "store: CreateRun: zero Now — pass the injected current time"
  else if !Dag.validates lint definition then .error "store: CreateRun: invalid definition"
  else
    let entry ← planInstantiation definition
    .ok (announce definition.name definition.steps.length entry
      (initialStore definition entry params budgetNanoUSD now)).2

end Agentloom.Store
