import Agentloom.Dag.ReadyRules

/-! The cycle search and the topological order give the same answer to the question whether the
normal edges contain a cycle. -/

namespace Agentloom.Dag.Graph

open Relation List

def topoOrderIDs (graph : Graph) : Except String (List String) :=
  if graph.topoOrder.2 then .ok (graph.topoOrder.1.map graph.stepID)
  else .error ("dag: TopoOrder: the normal-edge graph has a cycle " ++
    "(run Validate for the offending edges)")

/-- The path of the finding is a closed walk along normal edges that repeats no step before it
returns, and the reported edge is its last one. -/
def ClosedBy (graph : Graph) (finding : CycleFinding) (edge : Edge) : Prop :=
  graph.definition.edges[finding.edgeIdx]? = some edge ∧ edge.isLoop = false ∧
    ∃ inner, finding.path = inner ++ [edge.toStep] ∧ inner.Nodup ∧
      inner.head? = some edge.toStep ∧ inner.getLast? = some edge.fromStep ∧
      inner.IsChain (NormalEdge graph.definition.edges)

variable {graph : Graph}

theorem stepID_range : (range graph.size).map graph.stepID = graph.definition.stepIDs := by
  refine ext_getElem? fun position => ?_
  by_cases inside : position < graph.size
  · have bound : position < graph.definition.steps.length := inside
    simp [getElem?_range inside, stepID, Definition.stepIDs, getElem?_eq_getElem bound]
  · have bound : graph.definition.steps.length ≤ position := Nat.not_lt.mp inside
    simp [Definition.stepIDs, size, bound]

theorem stepID_inj (inA : a < graph.size) (inB : b < graph.size)
    (same : graph.stepID a = graph.stepID b) : a = b := by
  have unique : ((range graph.size).map graph.stepID).Nodup := by
    rw [stepID_range]
    exact graph.unique
  exact inj_on_of_nodup_map unique (mem_range.mpr inA) (mem_range.mpr inB) same

theorem normalEdge_of_step (step : DepthFirst.Step graph.outNormal graph.toIdx a b) :
    NormalEdge graph.definition.edges (graph.stepID a) (graph.stepID b) := by
  obtain ⟨_, mem, rfl⟩ := step
  obtain ⟨e, found, normal, rfl⟩ := mem_outNormal.mp mem
  have inside := mem_of_getElem? found
  obtain ⟨fromKnown, toKnown⟩ := graph.resolved e inside
  rw [toIdx_of_get found, stepID_index fromKnown, stepID_index toKnown]
  exact ⟨e, inside, normal, rfl, rfl⟩

theorem findCycles_closed (found : finding ∈ graph.findCycles) :
    ∃ edge, graph.ClosedBy finding edge := by
  obtain ⟨raw, mem, rfl⟩ := mem_map.mp found
  obtain ⟨inner, _, path, once, first, last, chain, leaves⟩ :=
    DepthFirst.searchAll_sound nodup_range graph.outNormal_target_mem raw mem
  obtain ⟨e, get, normal, rfl⟩ := mem_outNormal.mp leaves
  obtain ⟨fromKnown, toKnown⟩ := graph.resolved e (mem_of_getElem? get)
  have target : graph.stepID (graph.toIdx raw.1) = e.toStep := by
    rw [toIdx_of_get get, stepID_index toKnown]
  -- every vertex of the walk has an out-edge on it, so it is the index of a step
  have inside : ∀ vertex ∈ inner, vertex < graph.size := by
    intro vertex listed
    rcases mem_iff_getElem.mp listed with ⟨position, bound, rfl⟩
    by_cases more : position + 1 < inner.length
    · obtain ⟨_, out, _⟩ := isChain_iff_getElem.mp chain position more
      exact lt_size_of_outNormal (ne_nil_of_mem out)
    · have final : inner[position] = graph.index e.fromStep := by
        rw [getLast?_eq_getElem?, show inner.length - 1 = position by omega,
          getElem?_eq_getElem bound] at last
        exact Option.some.inj last
      rw [final]
      exact index_lt fromKnown
  refine ⟨e, get, normal, inner.map graph.stepID, ?_, ?_, ?_, ?_, ?_⟩
  · rw [path, map_append, map_singleton, target]
  · exact List.Nodup.map_on (fun a inA b inB => stepID_inj (inside a inA) (inside b inB)) once
  · rw [head?_map, first, Option.map_some, target]
  · rw [getLast?_map, last, Option.map_some, stepID_index fromKnown]
  · exact (isChain_map graph.stepID).mpr (chain.imp fun _ _ => normalEdge_of_step)

theorem topoOrder_perm (complete : graph.topoOrder.2 = true) :
    graph.topoOrder.1.Perm (range graph.size) := by
  have inside : graph.topoOrder.1 ⊆ range graph.size :=
    Kahn.order_subset graph.inNormal_length nodup_range graph.topoOrder_declared
  refine (subperm_of_subset graph.topoOrder_nodup inside).perm_of_length_le ?_
  have length : graph.topoOrder.1.length = graph.size := beq_iff_eq.mp complete
  rw [length_range, length]

theorem topoOrder_split (complete : graph.topoOrder.2 = true) {position : Nat}
    (found : graph.definition.edges[position]? = some edge) (normal : edge.isLoop = false) :
    ∃ front rest, graph.topoOrder.1 = front ++ graph.index edge.toStep :: rest ∧
      graph.index edge.fromStep ∈ front := by
  have known := (graph.resolved edge (mem_of_getElem? found)).2
  have placed : graph.index edge.toStep ∈ graph.topoOrder.1 :=
    (topoOrder_perm complete).mem_iff.mpr (mem_range.mpr (index_lt known))
  obtain ⟨front, rest, split⟩ := append_of_mem placed
  refine ⟨front, rest, split, ?_⟩
  rw [← fromIdx_of_get found]
  exact graph.topoOrder_after split (mem_inNormal.mpr ⟨edge, found, normal, rfl⟩)

theorem acyclic_of_complete (complete : graph.topoOrder.2 = true) :
    EdgesAcyclic graph.definition.edges := by
  have rises : ∀ a b, DepthFirst.Step graph.outNormal graph.toIdx a b →
      graph.topoOrder.1.idxOf a < graph.topoOrder.1.idxOf b := by
    rintro a b ⟨_, mem, rfl⟩
    obtain ⟨e, found, normal, rfl⟩ := mem_outNormal.mp mem
    obtain ⟨front, _, split, before⟩ := topoOrder_split complete found normal
    have absent : graph.index e.toStep ∉ front := by
      have once := graph.topoOrder_nodup
      rw [split] at once
      exact fun inside => (nodup_append.mp once).2.2 _ inside _ mem_cons_self rfl
    rw [toIdx_of_get found, split, idxOf_append_of_mem before,
      idxOf_append_of_notMem absent]
    have bound := idxOf_lt_length_iff.mpr before
    omega
  rw [edgesAcyclic_iff]
  refine Acyclic.comap (t := (· < ·)) (fun n cycle => ?_) graph.topoOrder.1.idxOf rises
  rw [transGen_eq_self] at cycle
  exact lt_irrefl n cycle

/-- A cycle of normal edges, a finding of the cycle search and a failing topological order occur
together. Every finding is a cycle with its closing edge, and without a cycle the order lists every
step once, the source of each normal edge before its target. -/
theorem cycle_answers_agree (graph : Graph) :
    ((∃ id, TransGen (NormalEdge graph.definition.edges) id id) ↔ graph.findCycles ≠ []) ∧
    (graph.findCycles ≠ [] ↔ ∃ text, graph.topoOrderIDs = .error text) ∧
    (∀ finding ∈ graph.findCycles, ∃ edge, graph.ClosedBy finding edge) ∧
    ((¬∃ id, TransGen (NormalEdge graph.definition.edges) id id) →
      ∃ order, graph.topoOrderIDs = .ok order ∧ order.Perm graph.definition.stepIDs ∧
        ∀ edge ∈ graph.definition.edges, edge.isLoop = false →
          ∃ front rest, order = front ++ edge.toStep :: rest ∧ edge.fromStep ∈ front) := by
  have cyclic : (∃ id, TransGen (NormalEdge graph.definition.edges) id id) ↔
      graph.findCycles ≠ [] := by
    rw [ne_eq, findCycles_nil_iff, EdgesAcyclic, Acyclic, not_forall]
    exact exists_congr fun _ => not_not.symm
  refine ⟨cyclic, ?_, fun _ => findCycles_closed, fun acyclic => ?_⟩
  · unfold topoOrderIDs
    split
    · rename_i complete
      simp [(findCycles_nil_iff graph).mpr (acyclic_of_complete complete)]
    · rename_i incomplete
      refine iff_of_true (fun none => incomplete ?_) ⟨_, rfl⟩
      exact (graph.topoOrder_complete ((findCycles_nil_iff graph).mp none)).2
  · rw [cyclic, not_not, findCycles_nil_iff] at acyclic
    have complete := (graph.topoOrder_complete acyclic).2
    refine ⟨_, if_pos complete, ?_, fun edge member normal => ?_⟩
    · rw [← stepID_range]
      exact (topoOrder_perm complete).map graph.stepID
    · obtain ⟨_, found⟩ := mem_iff_getElem?.mp member
      obtain ⟨fromKnown, toKnown⟩ := graph.resolved edge member
      obtain ⟨front, rest, split, before⟩ := topoOrder_split complete found normal
      refine ⟨front.map graph.stepID, rest.map graph.stepID, ?_, ?_⟩
      · rw [split, map_append, map_cons, stepID_index toKnown]
      · exact mem_map.mpr ⟨_, before, stepID_index fromKnown⟩

end Agentloom.Dag.Graph
