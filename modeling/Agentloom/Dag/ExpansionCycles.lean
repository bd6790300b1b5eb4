import Agentloom.Dag.Expansion

/-! Which cycles the expansion check keeps out of a run graph. The check passes over a cycle that
its search closes on an edge between two existing steps. A cycle that consists of edges of the plan
is never passed over, so an accepted plan keeps the graph acyclic where no path of the live graph
leads from a step that the plan enters to one that it leaves. -/

namespace Agentloom.Dag

open Relation List

theorem checkPlanShape_severe (input : ExpansionInput) : Severe (checkPlanShape input) :=
  ((Severe.issueIf _ _ _ _).append (.issueIf _ _ _ _)).append (.flatMap fun _ => .issueIf _ _ _ _)

theorem checkInjectedStep_severe (lint : PlanLint) (input : ExpansionInput) (position : Nat)
    (step : Step) : Severe (checkInjectedStep lint input position step) :=
  ((((Severe.issueIf _ _ _ _).append (.issueIf _ _ _ _)).append (.issueIf _ _ _ _)).append
    (.issueIf _ _ _ _)).append (.errorIssues _)

theorem checkExpansionEdgeFields_severe (lint : PlanLint) (path : String) (edge : Edge) :
    Severe (checkExpansionEdgeFields lint path edge) := by
  unfold checkExpansionEdgeFields
  split
  · exact loopFieldIssues_severe _ _ _
  · apply normalFieldIssues_severe
    split
    · exact .singleton _ _ _
    · exact .nil

theorem checkPlanEdge_severe (lint : PlanLint) (input : ExpansionInput) (position : Nat)
    (edge : Edge) : Severe (checkPlanEdge lint input position edge) :=
  (((((Severe.issueIf _ _ _ _).append (.issueIf _ _ _ _)).append (.issueIf _ _ _ _)).append
    (.issueIf _ _ _ _)).append (.issueIf _ _ _ _)).append (checkExpansionEdgeFields_severe _ _ _)

theorem planIssues_severe (lint : PlanLint) (input : ExpansionInput) :
    Severe (planIssues lint input) :=
  ((checkPlanShape_severe _).append (.flatMap fun _ => checkInjectedStep_severe _ _ _ _)).append
    (.flatMap fun _ => checkPlanEdge_severe _ _ _ _)

variable {lint : PlanLint} {input : ExpansionInput}

theorem checkedGraph_of_clean (clean : noErrors (planIssues lint input) = true) :
    checkedGraph lint input = buildMergedGraph input := by
  have gate := (planIssues_severe lint input).hasCode_eq_false clean mergeGate (by decide)
  simp [checkedGraph, gate]

structure PlanFits (input : ExpansionInput) : Prop where
  distinct : input.deltaIDs.Nodup
  fresh : ∀ id ∈ input.deltaIDs, id ∉ input.existingIDs
  ends : ∀ edge ∈ input.plan.edges,
    (edge.fromStep ∈ input.deltaIDs ∨ edge.fromStep ∈ input.existingIDs) ∧
    (edge.toStep ∈ input.deltaIDs ∨ edge.toStep ∈ input.existingIDs)
  sources : ∀ edge ∈ input.plan.edges, anchorHas input edge.fromStep (· = .terminal) = false
  touches : ∀ edge ∈ input.plan.edges, input.touchesDelta edge = true

theorem planFits_of_clean (clean : noErrors (planIssues lint input) = true) : PlanFits input := by
  simp only [planIssues, noErrors_append, Bool.and_eq_true, noErrors_flatMap] at clean
  obtain ⟨⟨_, steps⟩, edges⟩ := clean
  have eachStep : ∀ entry ∈ input.plan.steps.zipIdx,
      input.existingIDs.contains entry.1.id = false ∧
        (firstDuplicate input.plan.steps entry.2 entry.1.id).isSome = false := by
    intro entry mem
    have checked := steps entry mem
    simp only [checkInjectedStep, noErrors_append, noErrors_issueIf, Bool.and_eq_true,
      Bool.not_eq_true'] at checked
    exact ⟨checked.1.1.1.2, checked.1.1.2⟩
  have eachEdge : ∀ edge ∈ input.plan.edges, ∃ position,
      noErrors (checkPlanEdge lint input position edge) = true := by
    intro edge mem
    obtain ⟨position, found⟩ := mem_iff_getElem?.mp mem
    exact ⟨position, edges (edge, position) (mem_zipIdx_iff_getElem?.mpr found)⟩
  simp only [checkPlanEdge, unknownPlanEnd, noErrors_append, noErrors_issueIf, Bool.and_eq_true,
    and_assoc, Bool.not_eq_true', Bool.and_eq_false_iff, Bool.not_eq_false',
    contains_iff_mem] at eachEdge
  have ends : ∀ edge ∈ input.plan.edges,
      (edge.fromStep ∈ input.deltaIDs ∨ edge.fromStep ∈ input.existingIDs) ∧
      (edge.toStep ∈ input.deltaIDs ∨ edge.toStep ∈ input.existingIDs) := by
    intro edge mem
    obtain ⟨_, fromKnown, toKnown, _⟩ := eachEdge edge mem
    exact ⟨fromKnown, toKnown⟩
  refine ⟨nodup_of_firstDuplicate fun entry mem => (eachStep entry mem).2, ?_, ends, ?_, ?_⟩
  · intro id mem
    obtain ⟨step, inside, rfl⟩ := mem_map.mp mem
    obtain ⟨position, found⟩ := mem_iff_getElem?.mp inside
    have absent := (eachStep (step, position) (mem_zipIdx_iff_getElem?.mpr found)).1
    simpa using absent
  · intro edge mem
    obtain ⟨_, _, _, _, unfinished, _⟩ := eachEdge edge mem
    exact unfinished
  · intro edge mem
    obtain ⟨_, fromKnown, toKnown, mixed, _⟩ := eachEdge edge mem
    simp only [ExpansionInput.touchesDelta, Bool.or_eq_true, contains_iff_mem]
    simp only [ExpansionInput.existingOnly, Bool.and_eq_false_iff, Bool.not_eq_false',
      contains_eq_mem, decide_eq_false_iff_not, decide_eq_true_eq] at mixed
    tauto

theorem PlanFits.resolved (fits : PlanFits input)
    (live : Resolved input.existingIDs input.existingEdges) :
    Resolved (input.existingIDs ++ input.deltaIDs) input.mergedEdges where
  unique := nodup_append.mpr ⟨live.unique, fits.distinct,
    fun id old other new same => fits.fresh other new (same ▸ old)⟩
  ends edge member := by
    rcases mem_append.mp member with old | new
    · obtain ⟨fromKnown, toKnown⟩ := live.ends edge old
      exact ⟨mem_append_left _ fromKnown, mem_append_left _ toKnown⟩
    · obtain ⟨fromKnown, toKnown⟩ := fits.ends edge new
      exact ⟨mem_append.mpr fromKnown.symm, mem_append.mpr toKnown.symm⟩

theorem mergedDefinition_stepIDs (input : ExpansionInput) :
    (mergedDefinition input).stepIDs.Perm (input.existingIDs ++ input.deltaIDs) := by
  simp only [mergedDefinition, Definition.stepIDs, map_append]
  refine List.Perm.append ?_ (List.Perm.refl _)
  refine ((perm_insertionSort _ _).map Step.id).trans ?_
  simp [ExpansionInput.existingIDs, List.map_map, Function.comp_def]

theorem buildMergedGraph_of_fits (fits : PlanFits input)
    (live : Resolved input.existingIDs input.existingEdges) :
    ∃ graph, buildMergedGraph input = some graph ∧ graph.definition.edges = input.mergedEdges := by
  have resolved := fits.resolved live
  have perm := mergedDefinition_stepIDs input
  have unique : (mergedDefinition input).stepIDs.Nodup := perm.nodup_iff.mpr resolved.unique
  have ends : ∀ edge ∈ (mergedDefinition input).edges,
      edge.fromStep ∈ (mergedDefinition input).stepIDs ∧
        edge.toStep ∈ (mergedDefinition input).stepIDs := by
    intro edge mem
    obtain ⟨fromKnown, toKnown⟩ := resolved.ends edge mem
    exact ⟨perm.mem_iff.mpr fromKnown, perm.mem_iff.mpr toKnown⟩
  refine ⟨{ definition := mergedDefinition input, unique, resolved := ends }, ?_, rfl⟩
  rw [buildMergedGraph, newGraph_of_resolved unique ends]
  rfl

theorem validateExpansion_fits (accepted : (validateExpansion lint input).ok = true) :
    PlanFits input :=
  planFits_of_clean (validateExpansion_clean accepted)

theorem findings_untouched (accepted : (validateExpansion lint input).ok = true)
    (built : buildMergedGraph input = some graph) : ∀ finding ∈ graph.findCycles,
      (closingEdge graph finding).any input.touchesDelta = false := by
  have clean := validateExpansion_clean accepted
  simp only [ExpansionVerdict.ok, validateExpansion, checkedGraph_of_clean clean, built,
    noErrors_append, Bool.and_eq_true, mergedCycleIssues, noErrors_flatMap, noErrors_issueIf,
    Bool.not_eq_true'] at accepted
  exact accepted.2.1.1

/-- No path of the live graph leads from a step that the plan enters to a step that it leaves. -/
def Onward (live plan : List Edge) : Prop :=
  ∀ a b c d, NormalEdge plan a b → TransGen (NormalEdge live) b c → ¬NormalEdge plan c d

/-- Every edge of a cycle within an accepted plan touches an injected step, so its finding would have
been reported. -/
theorem plan_acyclic (live : Resolved input.existingIDs input.existingEdges)
    (accepted : (validateExpansion lint input).ok = true) : EdgesAcyclic input.plan.edges := by
  have fits := validateExpansion_fits accepted
  obtain ⟨graph, built, edges⟩ := buildMergedGraph_of_fits fits live
  refine graph.findCycles_cuts.mono ?_
  rintro a b ⟨edge, mem, normal, fromEq, toEq⟩
  obtain ⟨position, found⟩ := mem_iff_getElem?.mp mem
  have merged : graph.definition.edges[input.existingEdges.length + position]? = some edge := by
    rw [edges, ExpansionInput.mergedEdges, getElem?_append_right (by omega),
      Nat.add_sub_cancel_left, found]
  refine ⟨_, edge, merged, fun closes => ?_, normal, fromEq, toEq⟩
  obtain ⟨finding, inside, closed⟩ := mem_map.mp closes
  have untouched := findings_untouched accepted built finding inside
  rw [closingEdge, closed, merged, Option.any_some, fits.touches edge mem] at untouched
  cases untouched

theorem normalEdge_append :
    NormalEdge (first ++ second) a b ↔ NormalEdge first a b ∨ NormalEdge second a b := by
  simp only [NormalEdge, mem_append, or_and_right, exists_or]

theorem merged_acyclic (live : Resolved input.existingIDs input.existingEdges)
    (acyclic : EdgesAcyclic input.existingEdges)
    (onward : Onward input.existingEdges input.plan.edges)
    (accepted : (validateExpansion lint input).ok = true) : EdgesAcyclic input.mergedEdges :=
  (acyclic.union (plan_acyclic live accepted) onward).mono fun _ _ => normalEdge_append.mp

/-- A plan that leads back along a path of the live graph closes a cycle. -/
theorem merged_cyclic (forth : TransGen (NormalEdge input.existingEdges) a b)
    (back : TransGen (NormalEdge input.plan.edges) b a) : ¬EdgesAcyclic input.mergedEdges := by
  intro acyclic
  refine acyclic a (TransGen.trans (TransGen.mono (fun _ _ edge => ?_) _ _ forth)
    (TransGen.mono (fun _ _ edge => ?_) _ _ back))
  · exact normalEdge_append.mpr (.inl edge)
  · exact normalEdge_append.mpr (.inr edge)

structure LiveGraph where
  stepIDs : List String
  edges : List Edge

def LiveGraph.ofDefinition (definition : Definition) : LiveGraph :=
  { stepIDs := definition.stepIDs, edges := definition.edges }

def ReadsGraph (graph : LiveGraph) (input : ExpansionInput) : Prop :=
  input.existingIDs.Perm graph.stepIDs ∧ input.existingEdges = graph.edges

def LiveGraph.expand (graph : LiveGraph) (plan : PlanOutput) : LiveGraph :=
  { stepIDs := graph.stepIDs ++ plan.steps.map Step.id, edges := graph.edges ++ plan.edges }

def Expands (lint : PlanLint) (condition : List Edge → List Edge → Prop)
    (graph graph' : LiveGraph) : Prop :=
  ∃ input, ReadsGraph graph input ∧ (validateExpansion lint input).ok = true ∧
    condition graph.edges input.plan.edges ∧ graph' = graph.expand input.plan

theorem Resolved.perm
    (resolved : Resolved stepIDs edges) (perm : stepIDs.Perm stepIDs') :
    Resolved stepIDs' edges where
  unique := perm.nodup_iff.mp resolved.unique
  ends edge member := ⟨perm.mem_iff.mp (resolved.ends edge member).1,
    perm.mem_iff.mp (resolved.ends edge member).2⟩

theorem expands_wellFormed (expands : Expands lint Onward graph graph')
    (wellFormed : WellFormed graph.stepIDs graph.edges) :
    WellFormed graph'.stepIDs graph'.edges := by
  obtain ⟨input, ⟨ids, edges⟩, accepted, onward, rfl⟩ := expands
  have live : Resolved input.existingIDs input.existingEdges :=
    edges ▸ wellFormed.toResolved.perm ids.symm
  have merged := (validateExpansion_fits accepted).resolved live
  have mergedEdges : input.mergedEdges = (graph.expand input.plan).edges := by
    rw [ExpansionInput.mergedEdges, edges]
    rfl
  rw [mergedEdges] at merged
  refine ⟨merged.perm (ids.append_right _), ?_⟩
  rw [← mergedEdges]
  exact merged_acyclic live (edges ▸ wellFormed.acyclic) (edges ▸ onward) accepted

def quietDefinitionLint : DefinitionLint :=
  { envelope := fun _ => [], step := fun _ _ _ => [], expr := fun _ _ => [],
    libraries := fun _ => [], references := fun _ _ => [] }

def quietPlanLint : PlanLint :=
  { step := fun _ _ => [], expr := fun _ _ => [], references := fun _ _ => [] }

def plannedDefinition : Definition :=
  { steps := [{ id := "p", type := .planner }, { id := "z", type := .noop },
      { id := "b", type := .noop }]
    edges := [{ fromStep := "p", toStep := "z" }, { fromStep := "z", toStep := "b" }] }

def plannedInput (edges : List Edge) : ExpansionInput :=
  { plan := { schemaVersion := 1, steps := [{ id := "x", type := .noop }], edges }
    origin := { kind := .planner, stepID := "p", depth := 0 }
    existing := [("p", { type := .planner, status := .active }),
      ("z", { type := .noop, status := .pending }), ("b", { type := .noop, status := .pending })]
    existingEdges := plannedDefinition.edges
    perExpansionCap := 32
    caps := resolveCaps none
    currentStepCount := 3
    expansionsSoFar := 0 }

def mixedCycleInput : ExpansionInput :=
  plannedInput [{ fromStep := "b", toStep := "x" }, { fromStep := "x", toStep := "z" }]

def spliceInput : ExpansionInput :=
  plannedInput [{ fromStep := "p", toStep := "x" }, { fromStep := "x", toStep := "z" }]

theorem plannedDefinition_validates : validates quietDefinitionLint plannedDefinition = true := by
  decide

theorem plannedInput_resolved (edges : List Edge) :
    Resolved (plannedInput edges).existingIDs (plannedInput edges).existingEdges := by
  change Resolved ["p", "z", "b"] plannedDefinition.edges
  exact ⟨by decide, by decide⟩

theorem mixedCycleInput_accepted : (validateExpansion quietPlanLint mixedCycleInput).ok = true := by
  decide

theorem spliceInput_onward : Onward plannedDefinition.edges spliceInput.plan.edges := by
  rintro a b c d - path ⟨edge, mem, _, rfl, _⟩
  obtain ⟨_, _, last, inside, _, _, enters⟩ := TransGen.tail'_iff.mp path
  have apart : ∀ edge ∈ spliceInput.plan.edges, ∀ last ∈ plannedDefinition.edges,
      last.toStep ≠ edge.fromStep := by decide
  exact apart edge mem last inside enters

end Agentloom.Dag
