import Agentloom.Store.Runs

/-! The dependency counters of a step count its incoming normal edges by resolution. Instantiation,
expansion, widening and edge resolution write them without ever counting the edges again. -/

namespace Agentloom.Store

open Transaction List Tx

variable {now : Time} {s : RunStore}

def EdgeRow.isInto (stepID : String) (resolution : EdgeResolution) (row : EdgeRow) : Bool :=
  row.edgeType == .normal && row.toStep == stepID && row.resolution == resolution

def incoming (edges : List EdgeRow) (stepID : String) (resolution : EdgeResolution) : Nat :=
  edges.countP (EdgeRow.isInto stepID resolution)

structure Wired (s : RunStore) : Prop where
  ordinals : (s.edges.map EdgeRow.ordinal).Nodup
  ends : ∀ edge ∈ s.edges,
    edge.fromStep ∈ s.steps.map StepRow.stepID ∧ edge.toStep ∈ s.steps.map StepRow.stepID
  remaining : ∀ step ∈ s.steps, step.remainingDeps = incoming s.edges step.stepID .unresolved
  fired : ∀ step ∈ s.steps, step.firedDeps = incoming s.edges step.stepID .fired

theorem incoming_pos (mem : edge ∈ edges) (normal : edge.edgeType = .normal)
    (into : edge.toStep = stepID) (resolved : edge.resolution = resolution) :
    0 < incoming edges stepID resolution :=
  countP_pos_iff.mpr ⟨edge, mem, by simp [EdgeRow.isInto, normal, into, resolved]⟩

theorem incoming_append (edges more : List EdgeRow) (stepID : String) (resolution : EdgeResolution) :
    incoming (edges ++ more) stepID resolution =
      incoming edges stepID resolution + incoming more stepID resolution :=
  countP_append

theorem incoming_eq_zero
    (absent : ∀ edge ∈ edges, edge.toStep ≠ stepID) (resolution : EdgeResolution) :
    incoming edges stepID resolution = 0 := by
  refine countP_eq_zero.mpr fun edge mem => ?_
  simp [EdgeRow.isInto, absent edge mem]

theorem incoming_placed (edges : List Dag.Edge) (place : Nat → Nat) (version : Int)
    (originStep : Option String) (originKind : Option Dag.ExpansionOriginKind) (stepID : String) :
    let rows := edges.zipIdx.map fun (edge, position) =>
      edgeRowParams edge (place position) version originStep originKind
    incoming rows stepID .unresolved = inDegree edges stepID ∧ incoming rows stepID .fired = 0 := by
  refine ⟨?_, countP_eq_zero.mpr fun row mem => ?_⟩
  · have first : edges.countP (fun edge => !edge.isLoop && edge.toStep == stepID) =
        edges.zipIdx.countP ((fun edge => !edge.isLoop && edge.toStep == stepID) ∘ Prod.fst) := by
      rw [← countP_map, zipIdx_map_fst]
    unfold inDegree incoming
    rw [first, countP_map]
    refine countP_congr fun entry _ => ?_
    obtain ⟨edge, _⟩ := entry
    cases type : edge.type <;> simp [EdgeRow.isInto, edgeRowParams, Dag.Edge.isLoop, type]
  · obtain ⟨_, _, rfl⟩ := mem_map.mp mem
    simp [EdgeRow.isInto, edgeRowParams]

theorem newEdges_incoming (args : ExpandRun) (version : Int) (first : Nat) (stepID : String) :
    incoming (args.newEdges version first) stepID .unresolved = inDegree args.plan.edges stepID ∧
      incoming (args.newEdges version first) stepID .fired = 0 :=
  incoming_placed args.plan.edges (first + ·) version _ _ stepID

theorem initialStore_wired (ends : ∀ edge ∈ definition.edges, edge.fromStep ∈ definition.stepIDs ∧
      edge.toStep ∈ definition.stepIDs) :
    Wired (initialStore definition entry params budgetNanoUSD now) := by
  refine ⟨?_, ?_, ?_, ?_⟩
  · have ordinals : (initialEdges definition).map EdgeRow.ordinal =
        range definition.edges.length := by
      unfold initialEdges
      rw [map_map, range_eq_range', ← zipIdx_map_snd 0 definition.edges]
      rfl
    change ((initialEdges definition).map EdgeRow.ordinal).Nodup
    rw [ordinals]
    exact nodup_range
  · intro edge mem
    obtain ⟨placed, inside, rfl⟩ := mem_map.mp mem
    have known := ends placed.1 (fst_mem_of_mem_zipIdx inside)
    change _ ∈ (initialSteps definition entry now).map StepRow.stepID ∧
      _ ∈ (initialSteps definition entry now).map StepRow.stepID
    rw [initialSteps_stepID]
    exact known
  · intro step mem
    obtain ⟨planned, _, rfl⟩ := mem_map.mp mem
    exact (incoming_placed definition.edges id 1 none none planned.id).1.symm
  · intro step mem
    obtain ⟨planned, _, rfl⟩ := mem_map.mp mem
    exact (incoming_placed definition.edges id 1 none none planned.id).2.symm

theorem Founded.wired (founded : Founded definitionLint definition s) : Wired s := by
  have wellFormed := Dag.validates_wellFormed founded.validated
  obtain ⟨_, _, _, _, _, rfl⟩ := founded.planned
  exact initialStore_wired wellFormed.ends

def wireShape (row : StepRow) : String × Nat × Nat := (row.stepID, row.remainingDeps, row.firedDeps)

variable {s' : RunStore}

theorem Wired.of_shapes (wired : Wired s) (edges : s'.edges = s.edges)
    (shapes : s'.steps.map wireShape = s.steps.map wireShape) : Wired s' := by
  have ids : s'.steps.map StepRow.stepID = s.steps.map StepRow.stepID := by
    simpa [Function.comp_def, wireShape] using congrArg (map Prod.fst) shapes
  have back : ∀ step' ∈ s'.steps, ∃ step ∈ s.steps, step.stepID = step'.stepID ∧
      step.remainingDeps = step'.remainingDeps ∧ step.firedDeps = step'.firedDeps := by
    intro step' mem
    have shaped : wireShape step' ∈ s.steps.map wireShape := shapes ▸ mem_map_of_mem mem
    obtain ⟨step, inside, same⟩ := mem_map.mp shaped
    simp only [wireShape, Prod.mk.injEq] at same
    exact ⟨step, inside, same⟩
  refine ⟨by rw [edges]; exact wired.ordinals, by rw [edges, ids]; exact wired.ends, ?_, ?_⟩
  · intro step' mem
    obtain ⟨step, inside, id, remaining, _⟩ := back step' mem
    rw [edges, ← remaining, ← id]
    exact wired.remaining step inside
  · intro step' mem
    obtain ⟨step, inside, id, _, fired⟩ := back step' mem
    rw [edges, ← fired, ← id]
    exact wired.fired step inside

theorem SameStep.wireShape_eq (same : SameStep old new) : wireShape new = wireShape old := by
  simp [wireShape, same.stepID, same.remaining, same.fired]

section Resolution

variable {edges edges' : List EdgeRow} {edge : EdgeRow} {ordinal : Nat} {fired : Bool}

theorem incoming_resolved (isOpen : resolvable ordinal edge = true)
    (replaced : Table.Replaced edges edges' edge { edge with resolution := resolutionOf fired })
    (stepID : String) :
    incoming edges stepID .unresolved =
        incoming edges' stepID .unresolved + (if edge.toStep = stepID then 1 else 0) ∧
      incoming edges' stepID .fired =
        incoming edges stepID .fired + if edge.toStep = stepID ∧ fired = true then 1 else 0 := by
  simp only [resolvable, Bool.and_eq_true, beq_iff_eq] at isOpen
  obtain ⟨⟨_, normal⟩, unresolved⟩ := isOpen
  have remaining := replaced.countP (EdgeRow.isInto stepID .unresolved)
  have resolved := replaced.countP (EdgeRow.isInto stepID .fired)
  unfold incoming
  by_cases into : edge.toStep = stepID
  · cases fired
    all_goals
      simp [EdgeRow.isInto, normal, unresolved, into, resolutionOf] at remaining resolved ⊢
      omega
  · simp [EdgeRow.isInto, into] at remaining resolved ⊢
    omega

theorem Wired.resolved (wired : Wired s)
    (unique : UniqueSteps s) (isOpen : resolvable ordinal edge = true)
    (edgeReplaced : Table.Replaced s.edges edges edge { edge with resolution := resolutionOf fired })
    (into : target.stepID = edge.toStep) (owed : 0 < target.remainingDeps)
    (stepReplaced : Table.Replaced s.steps steps target (applyResolution fired now target)) :
    Wired { s with edges, steps } := by
  have ids : steps.map StepRow.stepID = s.steps.map StepRow.stepID :=
    stepReplaced.map_eq StepRow.stepID rfl
  have counts := incoming_resolved isOpen edgeReplaced
  refine ⟨?_, ?_, ?_, ?_⟩
  · exact (edgeReplaced.map_eq EdgeRow.ordinal rfl) ▸ wired.ordinals
  · intro other mem
    rw [ids]
    rcases edgeReplaced.mem_of_mem mem with rfl | inside
    · exact wired.ends edge edgeReplaced.old_mem
    · exact wired.ends other inside
  · intro step mem
    rcases stepReplaced.key_ne unique mem with rfl | ⟨inside, other⟩
    · have before := wired.remaining target stepReplaced.old_mem
      have count := (counts target.stepID).1
      simp only [into, if_true] at count before
      change target.remainingDeps - 1 = incoming edges target.stepID .unresolved
      rw [into]
      omega
    · have count := (counts step.stepID).1
      have elsewhere : edge.toStep ≠ step.stepID := fun same => other (same.symm.trans into.symm)
      rw [if_neg elsewhere] at count
      exact (wired.remaining step inside).trans count
  · intro step mem
    rcases stepReplaced.key_ne unique mem with rfl | ⟨inside, other⟩
    · have before := wired.fired target stepReplaced.old_mem
      have count := (counts target.stepID).2
      simp only [into, true_and] at count before
      change target.firedDeps + (if fired then 1 else 0) = incoming edges target.stepID .fired
      rw [into, count, before]
    · have count := (counts step.stepID).2
      have elsewhere : edge.toStep ≠ step.stepID := fun same => other (same.symm.trans into.symm)
      simp only [elsewhere, false_and, if_false] at count
      exact (wired.fired step inside).trans count.symm

end Resolution

theorem existingIDs_perm (args : ExpandRun) (origin : StepRow) (s : RunStore) :
    (args.input origin s).existingIDs.Perm (s.steps.map StepRow.stepID) := by
  unfold ExpandRun.input Dag.ExpansionInput.existingIDs buildAnchors
  rw [map_map]
  exact (perm_insertionSort _ s.steps).map StepRow.stepID

theorem anchor_of_row (args : ExpandRun) (origin : StepRow) (unique : UniqueSteps s)
    (mem : row ∈ s.steps) :
    (args.input origin s).anchor row.stepID = some
      { type := row.stepType
        status := if row.stepID = args.originStep then .active else anchorStatus row.status
        succeeded := row.status == .succeeded } := by
  have listed : row ∈ listRunSteps s := (mem_insertionSort _).mpr mem
  have known : ((args.input origin s).anchor row.stepID).isSome = true :=
    lookup_isSome_iff.mpr ⟨_, mem_map_of_mem listed, by simp⟩
  obtain ⟨anchor, found⟩ := Option.isSome_iff_exists.mp known
  obtain ⟨_, _, split, _⟩ := lookup_eq_some_iff.mp found
  have inside : (row.stepID, anchor) ∈ buildAnchors (listRunSteps s) args.originStep := by
    change _ ∈ (args.input origin s).existing
    rw [split]
    simp
  obtain ⟨_, isListed, entry⟩ := mem_map.mp inside
  simp only [Prod.mk.injEq] at entry
  obtain rfl := Table.eq_of_key unique ((mem_insertionSort _).mp isListed) mem entry.1
  rw [found, ← entry.2]

section Expansion

variable {lint : Dag.PlanLint} {args : ExpandRun} {origin : StepRow}
  (fits : args.Fits lint origin now s)

include fits

theorem ExpandRun.Fits.fresh {id} (old : id ∈ s.steps.map StepRow.stepID) : id ∉ args.deltaIDs := by
  intro new
  have distinct := fits.steps
  rw [map_append, newSteps_stepID, nodup_append] at distinct
  exact distinct.2.2 id old id new rfl

theorem ExpandRun.Fits.inDegree_eq_zero {id} (old : id ∈ s.steps.map StepRow.stepID)
    (kept : id ∉ args.widened) : inDegree args.plan.edges id = 0 := by
  refine countP_eq_zero.mpr fun edge mem into => kept ?_
  simp only [Bool.and_eq_true, Bool.not_eq_true', beq_iff_eq] at into
  exact mem_widened.mpr ⟨fits.fresh old, edge, mem, into.1, into.2⟩

theorem ExpandRun.Fits.sources (unique : UniqueSteps s) (mem : edge ∈ args.plan.edges) :
    edge.fromStep ∈ args.deltaIDs ∨
      ∃ row ∈ s.steps, row.stepID = edge.fromStep ∧
        (row.stepID = args.originStep ∨ anchorStatus row.status ≠ .terminal) := by
  have planFits := Dag.validateExpansion_fits fits.accepted
  rcases (planFits.ends edge mem).1 with new | old
  · exact .inl new
  obtain ⟨row, inside, same⟩ :=
    mem_map.mp ((existingIDs_perm args origin s).mem_iff.mp old)
  refine .inr ⟨row, inside, same, or_iff_not_imp_left.mpr fun other terminal => ?_⟩
  have anchored := anchor_of_row args origin unique inside
  rw [same, if_neg (same ▸ other), terminal] at anchored
  have fresh : edge.fromStep ∉ (args.input origin s).deltaIDs :=
    fits.fresh (same ▸ mem_map_of_mem inside)
  have refused := planFits.sources edge mem
  simp [Dag.anchorHas, Dag.ExpansionInput.existingOnly, anchored, old, fresh] at refused

theorem Wired.expanded (wired : Wired s) : Wired (args.apply origin now s) := by
  have planFits := Dag.validateExpansion_fits fits.accepted
  have ids : (args.apply origin now s).steps.map StepRow.stepID =
      s.steps.map StepRow.stepID ++ args.deltaIDs := by
    unfold ExpandRun.apply
    rw [map_append, map_widenRow_stepID, newSteps_stepID]
  have known : ∀ id, (id ∈ args.deltaIDs ∨ id ∈ (args.input origin s).existingIDs) →
      id ∈ (args.apply origin now s).steps.map StepRow.stepID := by
    intro id place
    rw [ids, mem_append]
    exact place.symm.imp_left (existingIDs_perm args origin s).mem_iff.mp
  refine ⟨fits.edges, ?_, ?_, ?_⟩
  · intro edge mem
    rcases mem_append.mp mem with old | new
    · rw [ids]
      obtain ⟨fromKnown, toKnown⟩ := wired.ends edge old
      exact ⟨mem_append_left _ fromKnown, mem_append_left _ toKnown⟩
    · obtain ⟨placed, inside, rfl⟩ := mem_map.mp new
      obtain ⟨fromKnown, toKnown⟩ := planFits.ends placed.1 (fst_mem_of_mem_zipIdx inside)
      exact ⟨known _ fromKnown, known _ toKnown⟩
  · intro step mem
    unfold ExpandRun.apply at mem ⊢
    rw [incoming_append, (newEdges_incoming _ _ _ _).1]
    rcases mem_append.mp mem with old | new
    · obtain ⟨row, inside, rfl⟩ := mem_map.mp old
      rw [widenRow_stepID, ← wired.remaining row inside]
      unfold ExpandRun.widenRow
      split
      · rfl
      · rename_i kept
        rw [fits.inDegree_eq_zero (mem_map_of_mem inside) kept]
        rfl
    · obtain ⟨planned, inside, rfl⟩ := mem_map.mp new
      rw [incoming_eq_zero]
      · exact (Nat.zero_add _).symm
      · rintro edge inEdges same
        exact fits.fresh (wired.ends edge inEdges).2 (same ▸ mem_map_of_mem inside)
  · intro step mem
    unfold ExpandRun.apply at mem ⊢
    rw [incoming_append, (newEdges_incoming _ _ _ _).2, Nat.add_zero]
    rcases mem_append.mp mem with old | new
    · obtain ⟨row, inside, rfl⟩ := mem_map.mp old
      rw [widenRow_stepID, ← wired.fired row inside]
      unfold ExpandRun.widenRow
      split <;> rfl
    · obtain ⟨_, inside, rfl⟩ := mem_map.mp new
      rw [incoming_eq_zero]
      · rfl
      · rintro edge inEdges same
        exact fits.fresh (wired.ends edge inEdges).2 (same ▸ mem_map_of_mem inside)

end Expansion

theorem Effect.wired (effect : Effect lint may s s')
    (unique : UniqueSteps s) (wired : Wired s) : Wired s' := by
  cases effect with
  | moved move _ replaced _ _ _ _ =>
    exact wired.of_shapes rfl (replaced.map_eq wireShape move.toSameStep.wireShape_eq)
  | claimed _ _ replaced _ _ _ _ _ _ => exact wired.of_shapes rfl (replaced.map_eq wireShape rfl)
  | awaited _ _ _ replaced _ _ _ => exact wired.of_shapes rfl (replaced.map_eq wireShape rfl)
  | resolved isOpen edgeReplaced into owed stepReplaced =>
    exact wired.resolved unique isOpen edgeReplaced into owed stepReplaced
  | expanded fits _ _ => exact (wired.expanded fits).of_shapes rfl rfl
  | _ => exact wired.of_shapes rfl rfl

theorem wired_invariant (definitionLint : Dag.DefinitionLint) (lint : Dag.PlanLint)
    (may : Permits) : Invariant definitionLint lint may Wired where
  founded _ _ founded := founded.wired
  kept _ _ effect unique wired := effect.wired unique wired

theorem Wired.owes (wired : Wired s) (mem : edge ∈ s.edges)
    (isOpen : resolvable ordinal edge = true) :
    ∃ target ∈ s.steps, target.stepID = edge.toStep ∧ 0 < target.remainingDeps := by
  obtain ⟨target, inside, into⟩ := mem_map.mp (wired.ends edge mem).2
  refine ⟨target, inside, into, ?_⟩
  rw [wired.remaining target inside, into]
  refine countP_pos_iff.mpr ⟨edge, mem, ?_⟩
  simp only [resolvable, Bool.and_eq_true, beq_iff_eq] at isOpen
  simp [EdgeRow.isInto, isOpen.1.2, isOpen.2]

theorem Wired.resolveEdge_error (wired : Wired s) {ordinal fired e}
    (failed : resolveEdge ordinal fired now s = (.error e, s')) :
    requireNow "resolve edge" now s = (.error e, s') ∨
      (∀ edge ∈ s.edges, resolvable ordinal edge = false) ∧
        resolveEdgeNoop ordinal (resolutionOf fired) s = (.error e, s') := by
  rcases bind_error failed with early | ⟨_, _, checked, failed₁⟩
  · exact .inl early
  obtain ⟨_, rfl⟩ := requireNow_ok checked
  rcases bind_error failed₁ with early | ⟨_, _, updated, failed₂⟩
  · unfold updateRunEdge at early
    split at early <;> cases early
  rcases updateRunEdge_ok updated with ⟨rfl, rfl, closed⟩ | ⟨_, _, isOpen, rfl, replaced, rfl⟩
  · exact .inr ⟨closed, failed₂⟩
  · obtain ⟨target, inside, into, _⟩ := wired.owes replaced.old_mem isOpen
    rcases bind_error failed₂ with early | ⟨applied, _, changed, failed₃⟩
    · exact absurd early updateRunStep_error
    cases applied with
    | some row => cases failed₃
    | none =>
      have missed := (updateRunStep_none changed).2 target inside into
      simp at missed
      omega

theorem Wired.resolveEdge_total (wired : Wired s) {edge} (mem : edge ∈ s.edges)
    (normal : edge.edgeType = .normal) {fired}
    (agrees : edge.resolution ≠ .unresolved → edge.resolution = resolutionOf fired)
    (timed : now ≠ 0) {e} : resolveEdge edge.ordinal fired now s ≠ (.error e, s') := by
  intro failed
  rcases wired.resolveEdge_error failed with early | ⟨closed, noop⟩
  · simp [requireNow, timed] at early
  have some? : (s.edges.find? fun row => row.ordinal == edge.ordinal).isSome = true :=
    find?_isSome.mpr ⟨edge, mem, by simp⟩
  obtain ⟨found, isFound⟩ := Option.isSome_iff_exists.mp some?
  have same : found.ordinal = edge.ordinal := by simpa using find?_some isFound
  obtain rfl := Table.eq_of_key wired.ordinals (mem_of_find?_eq_some isFound) mem same
  have isClosed := closed found mem
  have resolution := agrees (by simpa [resolvable, normal] using isClosed)
  unfold resolveEdgeNoop at noop
  rw [bind_apply, read_apply, isFound] at noop
  simp [normal, resolution] at noop

theorem Wired.resolveEdge_intact (wired : Wired s) (ordinal : Nat) (fired : Bool) (now : Time)
    (op msg : String) : (resolveEdge ordinal fired now s).1 ≠ .error (.corrupted op msg) := by
  intro corrupted
  obtain ⟨s', failed⟩ : ∃ s', resolveEdge ordinal fired now s = (.error (.corrupted op msg), s') :=
    ⟨_, Prod.ext corrupted rfl⟩
  rcases wired.resolveEdge_error failed with early | ⟨_, noop⟩
  · unfold requireNow at early
    split at early <;> cases early
  · -- the edge was resolved before: the errors here are a missing or a mismatched edge
    unfold resolveEdgeNoop at noop
    rw [bind_apply, read_apply] at noop
    cases found : s.edges.find? fun row => row.ordinal == ordinal with
    | none =>
      simp [found] at noop
    | some edge =>
      rw [found] at noop
      dsimp only at noop
      split_ifs at noop <;> cases noop

/-- After every history of calls the counters of every step agree with its incoming edges, so an
edge resolution never finds a counter at zero. -/
theorem counters_match_edges (definitionLint : Dag.DefinitionLint) (lint : Dag.PlanLint)
    (definition : Dag.Definition) (created : RunStore)
    (creation : Created definitionLint definition created) (calls : List Call) :
    let s := replay lint created calls
    (∀ step ∈ s.steps,
      step.remainingDeps = (s.edges.countP fun edge => edge.edgeType == .normal &&
        edge.toStep == step.stepID && edge.resolution == .unresolved) ∧
      step.firedDeps = s.edges.countP fun edge => edge.edgeType == .normal &&
        edge.toStep == step.stepID && edge.resolution == .fired) ∧
      ∀ ordinal fired now op msg,
        (resolveEdge ordinal fired now s).1 ≠ .error (.corrupted op msg) := by
  intro s
  obtain ⟨_, wired⟩ := (wired_invariant definitionLint lint .all).replay creation
    calls
    fun _ _ _ _ => trivial
  refine ⟨fun step member => ⟨wired.remaining step member, wired.fired step member⟩, ?_⟩
  exact wired.resolveEdge_intact

def unblockedStep : StepRow :=
  { stepID := "z", stepType := .noop, status := .ready, firedDeps := 1, updatedAt := 6 }

theorem planned_counters_match_edges :
    let s := replay Dag.quietPlanLint plannedRun plannedCalls
    unblockedStep.firedDeps = s.edges.countP fun edge => edge.edgeType == .normal &&
      edge.toStep == unblockedStep.stepID && edge.resolution == .fired :=
  ((counters_match_edges Dag.quietDefinitionLint Dag.quietPlanLint Dag.plannedDefinition plannedRun
    plannedRun_created plannedCalls).1 unblockedStep (by decide)).2

end Agentloom.Store
