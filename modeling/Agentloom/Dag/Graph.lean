import Agentloom.Library.DepthFirst
import Agentloom.Dag.Definition

/-! The adjacency view of a definition and its cycle search. Loop edges are kept apart: they are
never part of a step's adjacency. -/

namespace Agentloom.Dag

open List

/-- A graph can only be built over unique step ids and edges whose ends are declared. -/
structure Graph where
  definition : Definition
  unique : definition.stepIDs.Nodup
  resolved : ∀ edge ∈ definition.edges,
    edge.fromStep ∈ definition.stepIDs ∧ edge.toStep ∈ definition.stepIDs

def stepIndex (steps : List Step) (id : String) : Option Nat :=
  steps.findIdx? fun step => step.id == id

def duplicateText (definition : Definition) : String :=
  match definition.steps.zipIdx.find? fun entry =>
      (stepIndex (definition.steps.take entry.2) entry.1.id).isSome with
  | some (step, position) =>
    "dag: NewGraph: duplicate step ID " ++ quote step.id ++ " (steps[" ++
      toString ((stepIndex definition.steps step.id).getD 0) ++ "] and steps[" ++
      toString position ++ "])"
  | none => ""

def unknownEndpointText (definition : Definition) : String :=
  match definition.edges.zipIdx.find? fun entry =>
      !(definition.stepIDs.contains entry.1.fromStep && definition.stepIDs.contains entry.1.toStep) with
  | some (edge, position) =>
    let unknown := fun field id =>
      "dag: NewGraph: edges[" ++ toString position ++ "]." ++ field ++ " names unknown step " ++
        quote id
    if definition.stepIDs.contains edge.fromStep then unknown "to" edge.toStep
    else unknown "from" edge.fromStep
  | none => ""

def newGraph (definition : Definition) : Except String Graph :=
  if unique : definition.stepIDs.Nodup then
    if resolved : ∀ edge ∈ definition.edges,
        edge.fromStep ∈ definition.stepIDs ∧ edge.toStep ∈ definition.stepIDs then
      .ok { definition, unique, resolved }
    else .error (unknownEndpointText definition)
  else .error (duplicateText definition)

namespace Graph

variable (graph : Graph)

def size : Nat := graph.definition.steps.length

def index (id : String) : Nat := (stepIndex graph.definition.steps id).getD 0

def stepID (position : Nat) : String :=
  (graph.definition.steps[position]?.map Step.id).getD ""

def normalEdges (select : Edge → Bool) : List Nat :=
  (graph.definition.edges.zipIdx.filter fun entry => !entry.1.isLoop && select entry.1).map
    Prod.snd

def outNormal (step : Nat) : List Nat :=
  graph.normalEdges fun edge => graph.index edge.fromStep == step

def inNormal (step : Nat) : List Nat :=
  graph.normalEdges fun edge => graph.index edge.toStep == step

def toIdx (edge : Nat) : Nat :=
  (graph.definition.edges[edge]?.map fun e => graph.index e.toStep).getD 0

def fromIdx (edge : Nat) : Nat :=
  (graph.definition.edges[edge]?.map fun e => graph.index e.fromStep).getD 0

def closure (next : Nat → List Nat) : Nat → List Nat → List Nat → List Nat
  | 0, _, visited => visited
  | _ + 1, [], visited => visited
  | fuel + 1, step :: queue, visited =>
    let fresh := ((next step).filter fun t => !visited.contains t).dedup
    closure next fuel (queue ++ fresh) (visited ++ fresh)

def descendants (step : Nat) : List Nat :=
  closure (fun s => (graph.outNormal s).map graph.toIdx) (graph.size + 1) [step] []

def ancestors (step : Nat) : List Nat :=
  closure (fun s => (graph.inNormal s).map graph.fromIdx) (graph.size + 1) [step] []

def reaches (start goal : Nat) : Bool := (graph.descendants start).contains goal

end Graph

structure CycleFinding where
  edgeIdx : Nat
  path : List String
deriving DecidableEq, Repr

def CycleFinding.pathString (finding : CycleFinding) : String :=
  String.intercalate " -> " finding.path

def Graph.findCycles (graph : Graph) : List CycleFinding :=
  (DepthFirst.searchAll graph.outNormal graph.toIdx (List.range graph.size)).findings.map
    fun finding => { edgeIdx := finding.1, path := finding.2.map graph.stepID }

variable {id : String}

theorem stepIndex_of_mem (mem : id ∈ steps.map Step.id) :
    ∃ position, stepIndex steps id = some position ∧ position < steps.length ∧
      (steps[position]?.map Step.id) = some id := by
  obtain ⟨step, inside, rfl⟩ := mem_map.mp mem
  have some? : (stepIndex steps step.id).isSome := by
    rw [stepIndex, findIdx?_isSome, any_eq_true]
    exact ⟨step, inside, by simp⟩
  obtain ⟨position, found⟩ := Option.isSome_iff_exists.mp some?
  obtain ⟨bound, same, _⟩ := findIdx?_eq_some_iff_getElem.mp found
  exact ⟨position, found, bound, by simpa [bound] using same⟩

variable {step edge : Nat}

namespace Graph

variable {graph : Graph}

theorem index_lt (mem : id ∈ graph.definition.stepIDs) : graph.index id < graph.size := by
  obtain ⟨_, found, bound, _⟩ := stepIndex_of_mem mem
  simpa [index, found, size] using bound

theorem stepID_index (mem : id ∈ graph.definition.stepIDs) :
    graph.stepID (graph.index id) = id := by
  obtain ⟨_, found, _, same⟩ := stepIndex_of_mem mem
  simp [index, found, stepID, same]

theorem mem_outNormal : edge ∈ graph.outNormal step ↔ ∃ e, graph.definition.edges[edge]? = some e ∧
      e.isLoop = false ∧ graph.index e.fromStep = step := by
  simp only [outNormal, normalEdges, mem_map, mem_filter, Bool.and_eq_true,
    Bool.not_eq_true', beq_iff_eq, Prod.exists, exists_eq_right,
    mem_zipIdx_iff_getElem?]

theorem toIdx_of_get (found : graph.definition.edges[edge]? = some e) :
    graph.toIdx edge = graph.index e.toStep := by
  simp [toIdx, found]

theorem toIdx_lt (mem : edge ∈ graph.outNormal step) : graph.toIdx edge < graph.size := by
  obtain ⟨e, found, _, _⟩ := mem_outNormal.mp mem
  rw [toIdx_of_get found]
  exact index_lt (graph.resolved e (mem_of_getElem? found)).2

theorem lt_size_of_outNormal (nonempty : graph.outNormal step ≠ []) : step < graph.size := by
  obtain ⟨_, mem⟩ := exists_mem_of_ne_nil _ nonempty
  obtain ⟨e, found, _, rfl⟩ := mem_outNormal.mp mem
  exact index_lt (graph.resolved e (mem_of_getElem? found)).1

def NormalEdgeOff (graph : Graph) (cut : Nat → Prop) (a b : String) : Prop :=
  ∃ edge e, graph.definition.edges[edge]? = some e ∧ ¬cut edge ∧ e.isLoop = false ∧
    e.fromStep = a ∧ e.toStep = b

theorem acyclic_off_iff (cut : Nat → Prop) :
    Acyclic (DepthFirst.StepOff graph.outNormal graph.toIdx cut) ↔
      Acyclic (graph.NormalEdgeOff cut) := by
  constructor
  · intro acyclic
    refine acyclic.comap graph.index ?_
    rintro a b ⟨edge, e, found, uncut, normal, rfl, rfl⟩
    exact ⟨edge, mem_outNormal.mpr ⟨e, found, normal, rfl⟩, uncut, toIdx_of_get found⟩
  · intro acyclic
    refine acyclic.comap graph.stepID ?_
    rintro i j ⟨edge, mem, uncut, rfl⟩
    obtain ⟨e, found, normal, rfl⟩ := mem_outNormal.mp mem
    obtain ⟨fromKnown, toKnown⟩ := graph.resolved e (mem_of_getElem? found)
    rw [toIdx_of_get found, stepID_index fromKnown, stepID_index toKnown]
    exact ⟨edge, e, found, uncut, normal, rfl, rfl⟩

theorem normalEdgeOff_none :
    graph.NormalEdgeOff (fun _ => False) a b ↔ NormalEdge graph.definition.edges a b := by
  constructor
  · rintro ⟨edge, e, found, _, normal, fromEq, toEq⟩
    exact ⟨e, mem_of_getElem? found, normal, fromEq, toEq⟩
  · rintro ⟨e, mem, normal, fromEq, toEq⟩
    obtain ⟨edge, found⟩ := mem_iff_getElem?.mp mem
    exact ⟨edge, e, found, not_false, normal, fromEq, toEq⟩

theorem edgesAcyclic_iff : EdgesAcyclic graph.definition.edges ↔
      Acyclic (DepthFirst.Step graph.outNormal graph.toIdx) := by
  have steps : DepthFirst.StepOff graph.outNormal graph.toIdx (fun _ => False) =
      DepthFirst.Step graph.outNormal graph.toIdx := by
    funext i j
    simp [DepthFirst.StepOff, DepthFirst.Step]
  have edges : graph.NormalEdgeOff (fun _ => False) = NormalEdge graph.definition.edges := by
    funext a b
    exact propext normalEdgeOff_none
  rw [EdgesAcyclic, ← steps, ← edges, acyclic_off_iff]

theorem outNormal_target_mem (graph : Graph) :
    ∀ step, ∀ edge ∈ graph.outNormal step, graph.toIdx edge ∈ range graph.size :=
  fun _ _ mem => mem_range.mpr (toIdx_lt mem)

theorem findCycles_nil_iff (graph : Graph) :
    graph.findCycles = [] ↔ EdgesAcyclic graph.definition.edges := by
  rw [edgesAcyclic_iff, findCycles, map_eq_nil_iff]
  exact DepthFirst.searchAll_nil_iff nodup_range graph.outNormal_target_mem
    fun _ nonempty => mem_range.mpr (lt_size_of_outNormal nonempty)

/-- Every cycle has an edge that closes a finding. -/
theorem findCycles_cuts (graph : Graph) :
    Acyclic (graph.NormalEdgeOff (· ∈ graph.findCycles.map CycleFinding.edgeIdx)) := by
  rw [← acyclic_off_iff, findCycles, map_map]
  exact DepthFirst.searchAll_cuts nodup_range graph.outNormal_target_mem
    fun _ nonempty => mem_range.mpr (lt_size_of_outNormal nonempty)

end Graph

theorem newGraph_ok (built : newGraph definition = .ok graph) : graph.definition = definition := by
  unfold newGraph at built
  split at built
  · split at built
    · cases built
      rfl
    · cases built
  · cases built

theorem newGraph_of_resolved (unique : definition.stepIDs.Nodup)
    (resolved : ∀ edge ∈ definition.edges,
      edge.fromStep ∈ definition.stepIDs ∧ edge.toStep ∈ definition.stepIDs) :
    newGraph definition = .ok { definition, unique, resolved } := by
  unfold newGraph
  rw [dif_pos unique, dif_pos resolved]

end Agentloom.Dag
