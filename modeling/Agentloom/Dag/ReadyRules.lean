import Mathlib.Data.List.Perm.Basic
import Agentloom.Dag.Ready

/-! What the reference rules compute. One pass in topological order reaches the states in which every
step is skipped exactly when all its edges are, and on an acyclic graph there is only one such
assignment of states. -/

namespace Agentloom.Dag.Graph

open List

variable {graph : Graph} {completed skipped : List String}

variable {edge : Nat}

theorem mem_normalEdges :
    edge ∈ graph.normalEdges select ↔ ∃ e, graph.definition.edges[edge]? = some e ∧
      e.isLoop = false ∧ select e = true := by
  simp only [normalEdges, mem_map, mem_filter, Bool.and_eq_true, Bool.not_eq_true',
    Prod.exists, exists_eq_right, mem_zipIdx_iff_getElem?]

variable {step : Nat}

theorem mem_inNormal : edge ∈ graph.inNormal step ↔ ∃ e, graph.definition.edges[edge]? = some e ∧
      e.isLoop = false ∧ graph.index e.toStep = step := by
  rw [inNormal, mem_normalEdges]
  simp only [beq_iff_eq]

theorem fromIdx_of_get (found : graph.definition.edges[edge]? = some e) :
    graph.fromIdx edge = graph.index e.fromStep := by
  simp [fromIdx, found]

theorem normalEdges_nodup (select : Edge → Bool) : (graph.normalEdges select).Nodup := by
  have positions : (graph.definition.edges.zipIdx.map Prod.snd).Nodup := by
    rw [zipIdx_map_snd]
    exact nodup_range'
  exact positions.sublist (filter_sublist.map Prod.snd)

variable {position : Nat}

theorem index_of_get {step} (found : graph.definition.steps[position]? = some step) :
    graph.index step.id = position := by
  have mem : step.id ∈ graph.definition.stepIDs :=
    mem_map_of_mem (mem_of_getElem? found)
  obtain ⟨other, isOther, bound, same⟩ := stepIndex_of_mem mem
  have ids : graph.definition.stepIDs[other]? = graph.definition.stepIDs[position]? := by
    simp only [Definition.stepIDs, getElem?_map, found, Option.map_some]
    exact same
  rw [index, isOther, Option.getD_some]
  exact (getElem?_inj (by simpa [Definition.stepIDs] using bound) graph.unique).mp ids

theorem index_inj (memberA : a ∈ graph.definition.stepIDs)
    (memberB : b ∈ graph.definition.stepIDs) (same : graph.index a = graph.index b) : a = b := by
  rw [← stepID_index memberA, ← stepID_index memberB, same]

theorem inNormal_source (mem : edge ∈ graph.inNormal step) :
    edge ∈ graph.outNormal (graph.fromIdx edge) ∧ graph.toIdx edge = step ∧
      graph.fromIdx edge < graph.size := by
  obtain ⟨e, found, normal, rfl⟩ := mem_inNormal.mp mem
  rw [fromIdx_of_get found, toIdx_of_get found]
  exact ⟨mem_outNormal.mpr ⟨e, found, normal, rfl⟩, rfl,
    index_lt (graph.resolved e (mem_of_getElem? found)).1⟩

theorem inNormal_length (graph : Graph) (step : Nat) : (graph.inNormal step).length =
    Kahn.hits graph.outNormal graph.toIdx (range graph.size) step := by
  have perm : ((range graph.size).flatMap graph.outNormal).Perm
      (graph.normalEdges fun _ => true) := by
    refine (perm_ext_iff_of_nodup ?_ (normalEdges_nodup _)).mpr fun edge => ?_
    · refine nodup_flatMap.mpr ⟨fun _ _ => normalEdges_nodup _, ?_⟩
      refine nodup_range.imp fun {a b} differ edge fromA fromB => differ ?_
      obtain ⟨e, found, _, rfl⟩ := mem_outNormal.mp fromA
      obtain ⟨_, found', _, rfl⟩ := mem_outNormal.mp fromB
      rw [Option.some.inj (found.symm.trans found')]
    · rw [mem_flatMap, mem_normalEdges]
      constructor
      · rintro ⟨_, _, mem⟩
        obtain ⟨e, found, normal, _⟩ := mem_outNormal.mp mem
        exact ⟨e, found, normal, rfl⟩
      · rintro ⟨e, found, normal, _⟩
        exact ⟨_, mem_range.mpr (index_lt (graph.resolved e (mem_of_getElem? found)).1),
          mem_outNormal.mpr ⟨e, found, normal, rfl⟩⟩
  have same : graph.inNormal step =
      (graph.normalEdges fun _ => true).filter fun edge => graph.toIdx edge == step := by
    unfold inNormal normalEdges
    rw [filter_map, filter_filter]
    refine congrArg _ (filter_congr fun entry mem => ?_)
    rw [Function.comp_apply, toIdx_of_get (mem_zipIdx_iff_getElem?.mp mem)]
    simp [Bool.and_comm]
  rw [Kahn.hits, (perm.map graph.toIdx).count_eq, same, ← countP_eq_length_filter,
    count, countP_map]
  rfl

variable {front : List Nat}

section Order

variable (graph)

theorem topoOrder_declared :
    ∀ u ∈ range graph.size, ∀ edge ∈ graph.outNormal u, graph.toIdx edge ∈ range graph.size :=
  fun u _ edge mem => graph.outNormal_target_mem u edge mem

theorem topoOrder_nodup : graph.topoOrder.1.Nodup :=
  Kahn.order_nodup graph.inNormal_length nodup_range graph.topoOrder_declared

theorem topoOrder_after (split : graph.topoOrder.1 = front ++ step :: rest)
    (mem : edge ∈ graph.inNormal step) : graph.fromIdx edge ∈ front := by
  obtain ⟨leaves, into, bound⟩ := inNormal_source mem
  exact (Kahn.order_sound graph.inNormal_length nodup_range graph.topoOrder_declared).ordered _ _ _
    split _ (mem_range.mpr bound) _ leaves into

theorem topoOrder_complete (acyclic : EdgesAcyclic graph.definition.edges) :
    graph.topoOrder.1.Perm (range graph.size) ∧ graph.topoOrder.2 = true := by
  have all := Kahn.order_complete graph.inNormal_length nodup_range graph.topoOrder_declared
    ((edgesAcyclic_iff.mp acyclic).mono fun _ _ step => step.2)
  have inside := Kahn.order_subset graph.inNormal_length nodup_range graph.topoOrder_declared
  have perm : graph.topoOrder.1.Perm (range graph.size) :=
    (perm_ext_iff_of_nodup graph.topoOrder_nodup nodup_range).mpr fun step =>
      ⟨fun mem => inside mem, fun mem => all mem⟩
  refine ⟨perm, ?_⟩
  have length := perm.length_eq
  rw [length_range] at length
  exact beq_iff_eq.mpr length

end Order

theorem stepIndex_eq {id} (known : id ∈ graph.definition.stepIDs) :
    stepIndex graph.definition.steps id = some (graph.index id) := by
  obtain ⟨_, found, _⟩ := stepIndex_of_mem known
  rw [index, found, Option.getD_some]

theorem foldl_assign {state} {ids : List String} {acc}
    (known : ∀ id ∈ ids, id ∈ graph.definition.stepIDs) (distinct : ids.Nodup)
    (free : ∀ id ∈ ids, acc.states (graph.index id) = .pending) :
    ids.foldl (graph.assign state) acc = { acc with
      states := fun position =>
        if position ∈ ids.map graph.index then state else acc.states position } := by
  induction ids generalizing acc with
  | nil => simp
  | cons id rest ih =>
    obtain ⟨absent, distinct⟩ := nodup_cons.mp distinct
    have isKnown := known id mem_cons_self
    have others : ∀ other ∈ rest, other ∈ graph.definition.stepIDs := fun other mem =>
      known other (mem_cons_of_mem _ mem)
    have apart : ∀ other ∈ rest, graph.index other ≠ graph.index id := fun other mem same =>
      absent (index_inj (others other mem) isKnown same ▸ mem)
    have assigned : graph.assign state acc id =
        { acc with states := acc.states.set (graph.index id) state } := by
      simp [assign, stepIndex_eq isKnown, free id mem_cons_self]
    rw [foldl_cons, assigned, ih others distinct]
    · congr 1
      funext position
      by_cases listed : position ∈ rest.map graph.index
      · simp [listed]
      · by_cases same : position = graph.index id <;> simp [listed, same, States.set]
    · intro other mem
      simp [States.set, apart other mem, free other (mem_cons_of_mem _ mem)]

theorem inputStates_ok (known : ∀ id ∈ completed ++ skipped, id ∈ graph.definition.stepIDs)
    (distinct : (completed ++ skipped).Nodup) :
    graph.inputStates completed skipped [] = .ok fun position =>
      if position ∈ skipped.map graph.index then .skipped
      else if position ∈ completed.map graph.index then .completed else .pending := by
  obtain ⟨first, second, apart⟩ := nodup_append.mp distinct
  have knownFirst : ∀ id ∈ completed, id ∈ graph.definition.stepIDs := fun id mem =>
    known id (mem_append_left _ mem)
  have knownSecond : ∀ id ∈ skipped, id ∈ graph.definition.stepIDs := fun id mem =>
    known id (mem_append_right _ mem)
  dsimp only [inputStates]
  rw [foldl_assign knownFirst first fun _ _ => rfl, foldl_assign knownSecond second]
  · simp
  · intro id mem
    refine if_neg fun listed => ?_
    obtain ⟨other, inside, same⟩ := mem_map.mp listed
    exact apart other inside id mem (index_inj (knownFirst other inside) (knownSecond id mem) same)

variable {states given states' : States}

section Rules

variable (graph) (fires : Nat → Bool)

def AllSkipped (states : States) (step : Nat) : Prop :=
  graph.inNormal step ≠ [] ∧
    ∀ edge ∈ graph.inNormal step, graph.resolve fires states edge = .skipped

instance (states : States) (step : Nat) : Decidable (graph.AllSkipped fires states step) :=
  inferInstanceAs (Decidable (_ ∧ _))

def outcome (given states : States) (step : Nat) : StepState :=
  if given step = .pending ∧ graph.AllSkipped fires states step then .skipped else given step

def FixedPoint (given states : States) : Prop :=
  ∀ step < graph.size, states step = graph.outcome fires given states step

variable {graph fires}

theorem skipsNow_iff : graph.skipsNow fires states step = true ↔
      states step = .pending ∧ graph.AllSkipped fires states step := by
  simp [skipsNow, AllSkipped, and_assoc]

theorem outcome_congr
    (same : ∀ edge ∈ graph.inNormal step, states' (graph.fromIdx edge) = states (graph.fromIdx edge)) :
    graph.outcome fires given states' step = graph.outcome fires given states step := by
  have resolved : ∀ edge ∈ graph.inNormal step,
      graph.resolve fires states' edge = graph.resolve fires states edge := by
    intro edge into
    rw [resolve, resolve, same edge into]
  have all : graph.AllSkipped fires states' step ↔ graph.AllSkipped fires states step := by
    refine and_congr_right fun _ => forall₂_congr fun edge into => ?_
    rw [resolved edge into]
  simp only [outcome, all]

structure Visited (graph : Graph) (fires : Nat → Bool) (given : States) (front : List Nat)
    (acc : States × List Nat) : Prop where
  ahead : ∀ step ∉ front, acc.1 step = given step
  final : ∀ step ∈ front, acc.1 step = graph.outcome fires given acc.1 step
  newly : ∀ step, step ∈ acc.2 ↔ step ∈ front ∧ given step = .pending ∧ acc.1 step = .skipped
  distinct : acc.2.Nodup

theorem Visited.propagate (visited : Visited graph fires given front acc) (fresh : step ∉ front)
    (sources : ∀ other ∈ front ++ [step], ∀ edge ∈ graph.inNormal other, graph.fromIdx edge ∈ front) :
    Visited graph fires given (front ++ [step]) (graph.propagate fires acc step) := by
  obtain ⟨ahead, final, newly, distinct⟩ := visited
  have here := ahead step fresh
  have apart : ∀ other ∈ front, other ≠ step := fun other inside same => fresh (same ▸ inside)
  unfold Graph.propagate
  split
  · rename_i skips
    obtain ⟨isPending, all⟩ := skipsNow_iff.mp skips
    have now : acc.1.set step .skipped step = .skipped := if_pos rfl
    have moved : ∀ other, other ≠ step → acc.1.set step .skipped other = acc.1 other :=
      fun other differ => if_neg differ
    -- The step is no source of a step visited so far, nor of itself.
    have kept : ∀ other ∈ front ++ [step],
        graph.outcome fires given (acc.1.set step .skipped) other =
          graph.outcome fires given acc.1 other := fun other mem =>
      outcome_congr fun edge into => moved _ (apart _ (sources other mem edge into))
    refine ⟨?_, ?_, ?_, ?_⟩
    · intro other outside
      rw [mem_append, mem_singleton, not_or] at outside
      exact (moved other outside.2).trans (ahead other outside.1)
    · intro other mem
      rw [kept other mem]
      rcases mem_append.mp mem with inside | same
      · exact (moved other (apart other inside)).trans (final other inside)
      · rw [mem_singleton.mp same, outcome, if_pos ⟨here.symm.trans isPending, all⟩]
        exact now
    · intro other
      rw [mem_append, mem_append, mem_singleton, newly]
      by_cases same : other = step
      · subst same
        simp [now, ← here, isPending]
      · simp [moved other same, same]
    · refine nodup_append.mpr ⟨distinct, nodup_singleton _, ?_⟩
      rintro other listed _ isStep rfl
      rw [mem_singleton.mp isStep] at listed
      exact fresh ((newly step).mp listed).1
  · rename_i skips
    refine ⟨?_, ?_, ?_, distinct⟩
    · intro other outside
      exact ahead other fun inside => outside (mem_append_left _ inside)
    · intro other mem
      rcases mem_append.mp mem with inside | same
      · exact final other inside
      · rw [mem_singleton.mp same, outcome, if_neg, here]
        rintro ⟨isPending, all⟩
        exact skips (skipsNow_iff.mpr ⟨here.trans isPending, all⟩)
    · intro other
      rw [newly, mem_append, mem_singleton]
      constructor
      · rintro ⟨inside, rest⟩
        exact ⟨.inl inside, rest⟩
      · rintro ⟨inside | rfl, isGiven, isSkipped⟩
        · exact ⟨inside, isGiven, isSkipped⟩
        · simp [here, isGiven] at isSkipped

theorem Visited.foldl
    (visited : Visited graph fires given front acc) (split : graph.topoOrder.1 = front ++ rest) :
    Visited graph fires given graph.topoOrder.1 (rest.foldl (graph.propagate fires) acc) := by
  induction rest generalizing front acc with
  | nil =>
    rw [append_nil] at split
    rw [split]
    exact visited
  | cons step rest ih =>
    have distinct := graph.topoOrder_nodup
    rw [split] at distinct
    have fresh : step ∉ front := fun inside =>
      (nodup_append.mp distinct).2.2 step inside step mem_cons_self rfl
    refine ih (visited.propagate fresh fun other mem edge into => ?_) ?_
    · rcases mem_append.mp mem with inside | same
      · obtain ⟨_, _, rfl⟩ := append_of_mem inside
        rw [append_assoc, cons_append] at split
        exact mem_append_left _ (graph.topoOrder_after split into)
      · rw [mem_singleton.mp same] at into
        exact graph.topoOrder_after split into
    · rw [split, append_assoc, singleton_append]

variable (acyclic : EdgesAcyclic graph.definition.edges)

include acyclic

theorem foldl_propagate_fixedPoint (fires : Nat → Bool) (given : States) :
    let result := graph.topoOrder.1.foldl (graph.propagate fires) (given, [])
    graph.FixedPoint fires given result.1 ∧ result.2.Nodup ∧
      ∀ step, step ∈ result.2 ↔
        step < graph.size ∧ given step = .pending ∧ result.1 step = .skipped := by
  have start : Visited graph fires given [] (given, []) :=
    ⟨fun _ _ => rfl, by simp, by simp, nodup_nil⟩
  obtain ⟨_, final, newly, distinct⟩ := start.foldl (nil_append _).symm
  have all : ∀ step, step ∈ graph.topoOrder.1 ↔ step < graph.size := fun step =>
    (graph.topoOrder_complete acyclic).1.mem_iff.trans mem_range
  refine ⟨fun step bound => final step ((all step).mpr bound), distinct, fun step => ?_⟩
  rw [newly, all]

/-- A function of the steps that the sources of each step determine is unique on an acyclic graph:
two of them would differ first at a step on whose sources they agree. -/
theorem eq_of_sources {α : Type} [DecidableEq α] {f g : Nat → α} (determined : ∀ step < graph.size,
      (∀ edge ∈ graph.inNormal step, f (graph.fromIdx edge) = g (graph.fromIdx edge)) →
      f step = g step) : ∀ step < graph.size, f step = g step := by
  by_contra differ
  push Not at differ
  obtain ⟨_, bound, differs⟩ := differ
  let differing := (range graph.size).filter fun step => f step ≠ g step
  have nonempty : differing ≠ [] :=
    ne_nil_of_mem (mem_filter.mpr ⟨mem_range.mpr bound, by simpa using differs⟩)
  obtain ⟨step, mem, first⟩ := (edgesAcyclic_iff.mp acyclic).exists_source differing nonempty
  obtain ⟨isStep, stepDiffers⟩ := mem_filter.mp mem
  have same : f step = g step := by
    refine determined step (mem_range.mp isStep) fun edge into => ?_
    obtain ⟨leaves, isInto, sourceBound⟩ := inNormal_source into
    by_contra sourceDiffers
    refine first (graph.fromIdx edge) (mem_filter.mpr ⟨mem_range.mpr sourceBound, ?_⟩)
      ⟨edge, leaves, isInto⟩
    simpa using sourceDiffers
  simp [same] at stepDiffers

theorem FixedPoint.eq (fixed : graph.FixedPoint fires given states)
    (fixed' : graph.FixedPoint fires given states') :
    ∀ step < graph.size, states step = states' step := by
  refine eq_of_sources acyclic fun step bound same => ?_
  rw [fixed step bound, fixed' step bound, outcome_congr same]

omit acyclic in
theorem readyNow_iff {step} :
    graph.readyNow fires states position step = true ↔ states position = .pending ∧
      (graph.inNormal position = [] ∨
        (∃ edge ∈ graph.inNormal position, graph.resolve fires states edge = .fired) ∧
          (joinMode step = some .any ∨
            ∀ edge ∈ graph.inNormal position, graph.resolve fires states edge ≠ .unresolved)) := by
  simp [readyNow]

omit acyclic in
theorem readyNow_congr {step} (same : ∀ step < graph.size, states step = states' step)
    (bound : position < graph.size) :
    graph.readyNow fires states position step = graph.readyNow fires states' position step := by
  have resolved : ∀ edge ∈ graph.inNormal position,
      graph.resolve fires states edge = graph.resolve fires states' edge := by
    intro edge into
    rw [resolve, resolve, same _ (inNormal_source into).2.2]
  rw [Bool.eq_iff_iff, readyNow_iff, readyNow_iff, same position bound]
  refine and_congr_right fun _ => or_congr_right (and_congr ?_ (or_congr_right ?_))
  · exact exists_congr fun edge => and_congr_right fun into => by rw [resolved edge into]
  · exact forall₂_congr fun edge into => by rw [resolved edge into]

omit acyclic in
theorem sorted_positions {positions : List Nat} (distinct : positions.Nodup) {p : Nat → Bool}
    (listed : ∀ position, position ∈ positions ↔ position < graph.size ∧ p position = true) :
    (positions.insertionSort (· ≤ ·)).map graph.stepID =
      (graph.definition.steps.zipIdx.filter fun entry => p entry.2).map fun entry => entry.1.id := by
  have sorted : positions.insertionSort (· ≤ ·) = (range graph.size).filter p := by
    refine List.Perm.eq_of_pairwise' (pairwise_insertionSort _ _)
      ((pairwise_le_range).filter _) ?_
    refine (perm_insertionSort _ _).trans ?_
    refine (perm_ext_iff_of_nodup distinct (nodup_range.filter _)).mpr fun position => ?_
    rw [listed, mem_filter, mem_range]
  have range : range graph.size = graph.definition.steps.zipIdx.map Prod.snd := by
    rw [zipIdx_map_snd, range_eq_range', size]
  rw [sorted, range, filter_map, map_map]
  refine map_congr_left fun entry mem => ?_
  have found := mem_zipIdx_iff_getElem?.mp (mem_filter.mp mem).1
  simp [stepID, found]

theorem readyStepsWith_eq {failed : List String}
    (inputs : graph.inputStates completed skipped failed = .ok given)
    (fixed : graph.FixedPoint fires given states) :
    graph.readyStepsWith fires completed skipped failed = .ok
      ((graph.definition.steps.zipIdx.filter fun entry =>
          graph.readyNow fires states entry.2 entry.1).map fun entry => entry.1.id,
        (graph.definition.steps.zipIdx.filter fun entry =>
          given entry.2 == .pending && states entry.2 == .skipped).map fun entry => entry.1.id) := by
  obtain ⟨reached, distinct, newly⟩ := foldl_propagate_fixedPoint acyclic fires given
  have same := reached.eq acyclic fixed
  simp only [readyStepsWith, inputs, bind, Except.bind, (graph.topoOrder_complete acyclic).2,
    Bool.not_true, Bool.false_eq_true, ↓reduceIte]
  congr 2
  · congr 1
    refine filter_congr fun entry mem => ?_
    refine readyNow_congr same ?_
    have bound := (mem_zipIdx mem).2.1
    simpa [size] using bound
  · refine sorted_positions distinct (p := fun position =>
      given position == .pending && states position == .skipped) fun position => ?_
    rw [newly]
    refine and_congr_right fun bound => ?_
    rw [same position bound]
    simp

theorem readySteps_start : graph.readySteps [] [] [] = .ok
    ((graph.definition.steps.zipIdx.filter fun entry =>
      (graph.inNormal entry.2).isEmpty).map fun entry => entry.1.id, []) := by
  have unresolved : ∀ edge,
      graph.resolve (fun _ => true) (fun _ => .pending) edge = .unresolved := fun _ => rfl
  have fixed : graph.FixedPoint (fun _ => true) (fun _ => .pending) fun _ => .pending := by
    intro step _
    rw [outcome, if_neg]
    rintro ⟨_, nonempty, all⟩
    obtain ⟨edge, into⟩ := exists_mem_of_ne_nil _ nonempty
    exact absurd ((unresolved edge).symm.trans (all edge into)) (by decide)
  have inputs : graph.inputStates [] [] [] = .ok fun _ => .pending := rfl
  have entry : ∀ position step, graph.readyNow (fun _ => true) (fun _ => .pending) position step =
      (graph.inNormal position).isEmpty := by
    intro position step
    rw [Bool.eq_iff_iff, readyNow_iff]
    simp [unresolved]
  rw [readySteps, readyStepsWith_eq acyclic inputs fixed]
  simp [entry]

end Rules

end Agentloom.Dag.Graph
