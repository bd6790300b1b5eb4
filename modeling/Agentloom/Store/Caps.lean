import Agentloom.Store.Counters

/-! The caps of dynamic expansion. The counts an expansion is checked against are read from the
run's rows under its lock and the expansion writes them back, so the caps bound a run through every
history of accepted and rejected expansions. -/

namespace Agentloom.Store

open Transaction Relation

structure SameSize (s s' : RunStore) : Prop where
  graphVersion : s'.run.graphVersion = s.run.graphVersion
  stepsTotal : s'.run.stepsTotal = s.run.stepsTotal
  caps : s'.run.expansionCaps = s.run.expansionCaps
  placements : s'.steps.map StepRow.placement = s.steps.map StepRow.placement

theorem SameSize.refl (s : RunStore) : SameSize s s := ⟨rfl, rfl, rfl, rfl⟩

theorem SameSize.trans (s s' s'' : RunStore) (first : SameSize s s') (second : SameSize s' s'') :
    SameSize s s'' :=
  ⟨second.graphVersion.trans first.graphVersion, second.stepsTotal.trans first.stepsTotal,
    second.caps.trans first.caps, second.placements.trans first.placements⟩

theorem SameSize.row {s s'} (same : SameSize s s') {row} (mem : row ∈ s'.steps) :
    ∃ old ∈ s.steps, old.placement = row.placement := by
  have listed := List.mem_map_of_mem (f := StepRow.placement) mem
  rw [same.placements] at listed
  exact List.mem_map.mp listed

theorem Effect.sameSize_or_expanded (effect : Effect lint may s s') :
    SameSize s s' ∨ ∃ args origin now event, ExpandRun.Fits lint args origin now s ∧
      s' = RunStore.record (args.apply origin now s) event := by
  cases effect with
  | moved move _ replaced _ _ _ _ =>
    exact .inl ⟨rfl, rfl, rfl, replaced.map_eq StepRow.placement move.placement⟩
  | claimed _ _ replaced _ _ _ _ _ _ =>
    exact .inl ⟨rfl, rfl, rfl, replaced.map_eq StepRow.placement rfl⟩
  | awaited _ _ _ replaced _ _ _ =>
    exact .inl ⟨rfl, rfl, rfl, replaced.map_eq StepRow.placement rfl⟩
  | ran books _ _ _ => exact .inl ⟨books.graphVersion, books.stepsTotal, books.expansionCaps, rfl⟩
  | resolved _ _ _ _ replaced =>
    exact .inl ⟨rfl, rfl, rfl, replaced.map_eq StepRow.placement rfl⟩
  | expanded fits _ _ => exact .inr ⟨_, _, _, _, fits, rfl⟩
  | _ => exact .inl ⟨rfl, rfl, rfl, rfl⟩

/-! A call that makes no expansion is sound whatever the lint, also under the one that no plan
passes: none of its effects is an expansion. -/

theorem Effect.sameSize (effect : Effect Dag.strictPlanLint may s s') : SameSize s s' := by
  rcases effect.sameSize_or_expanded with same | ⟨_, _, _, _, fits, _⟩
  · exact same
  · exact absurd fits.accepted (Dag.strictPlanLint_rejects _)

theorem sameSize_of_chain (chain : ReflTransGen (Effect Dag.strictPlanLint may) s s') :
    SameSize s s' := by
  induction chain with
  | refl => exact .refl s
  | tail _ effect ih => exact ih.trans _ _ _ effect.sameSize

def Call.expands (lint : Dag.PlanLint) (s : RunStore) (call : Call) : Bool :=
  match call.transition with
  | .expand args => ((expandRun lint args call.now).commit s).1.isOk
  | _ => false

def committedExpansions (lint : Dag.PlanLint) : RunStore → List Call → Nat
  | _, [] => 0
  | s, call :: rest =>
    (if call.expands lint s then 1 else 0) + committedExpansions lint (advance lint s call) rest

theorem announceReadied_sameSize (ids : List String) : Tx.Ensures StoreError.isRefusal SameSize
      (Tx.forEach ids (fun id => appendEvent (.stepReady id)) >>= fun _ =>
        Tx.forEach ids fun id => createOutbox id .stepReady) := by
  refine .bind SameSize.trans (.forEach SameSize.trans SameSize.refl fun _ _ => ?_) fun _ =>
    .forEach SameSize.trans SameSize.refl fun _ _ => ?_
  · exact .write fun _ => ⟨rfl, rfl, rfl, rfl⟩
  · exact .write fun _ => ⟨rfl, rfl, rfl, rfl⟩

theorem expandRun_placed (ok : expandRun lint args now s = (.ok result, s')) :
    ∃ origin event, args.Fits lint origin now s ∧
      SameSize (RunStore.record (args.apply origin now s) event) s' := by
  obtain ⟨origin, event, fits, _, rest⟩ := expandRun_ok ok
  exact ⟨origin, event, fits, (announceReadied_sameSize _).of_ok rest⟩

theorem advance_sameSize (call : Call) (other : ∀ args, call.transition ≠ .expand args)
    (unique : UniqueSteps s) : SameSize s (advance lint s call) := by
  have same : call.perform lint = call.perform Dag.strictPlanLint := by
    obtain ⟨transition, _⟩ := call
    cases transition with
    | expand args => exact absurd rfl (other args)
    | _ => rfl
  have reaches := @advance_reaches Dag.strictPlanLint (fun _ => True) s call
    fun _ _ => trivial
  have chain := reaches unique
  unfold advance at chain ⊢
  rw [same]
  exact sameSize_of_chain chain

theorem advance_graphVersion (call : Call) (unique : UniqueSteps s) :
    (advance lint s call).run.graphVersion =
      s.run.graphVersion + if call.expands lint s then 1 else 0 := by
  obtain ⟨transition, now⟩ := call
  cases transition with
  | expand args =>
    cases outcome : expandRun lint args now s with
    | mk result s' =>
      cases result with
      | ok result =>
        obtain ⟨_, _, _, same⟩ := expandRun_placed outcome
        have version : s'.run.graphVersion = s.run.graphVersion + 1 := same.graphVersion
        simp [advance, Call.perform, Call.expands, Tx.commit, Tx.void, Tx.bind_apply, outcome,
          Except.isOk, Except.toBool, version]
      | error e =>
        simp [advance, Call.perform, Call.expands, Tx.commit, Tx.void, Tx.bind_apply, outcome,
          Except.isOk, Except.toBool]
  | _ =>
    rw [(advance_sameSize _ (by simp) unique).graphVersion]
    simp [Call.expands]

theorem replay_graphVersion (calls : List Call) (unique : UniqueSteps s) :
    (replay lint s calls).run.graphVersion =
      s.run.graphVersion + committedExpansions lint s calls := by
  induction calls generalizing s with
  | nil => simp [committedExpansions]
  | cons call rest ih =>
    have after : UniqueSteps (advance lint s call) :=
      uniqueSteps_of_chain
        (@advance_reaches lint (fun _ => True) s call (fun _ _ => trivial) unique) unique
    rw [replay_cons, ih after, advance_graphVersion call unique, committedExpansions]
    push_cast
    split <;> omega

structure Capped (created s : RunStore) : Prop where
  booked : Booked s
  caps : s.run.expansionCaps = created.run.expansionCaps
  added : 0 < s.run.expansionCaps.maxAddedStepsPerExpansion
  expansions : s.run.graphVersion - 1 ≤ s.run.expansionCaps.maxExpansions
  total : s.run.stepsTotal ≤
    max created.run.stepsTotal s.run.expansionCaps.maxTotalSteps
  depths : ∀ row ∈ s.steps, row.originStep.isSome = true →
    row.depth ≤ s.run.expansionCaps.maxDepth

section Kept

variable {created : RunStore}

theorem Capped.sameSize (capped : Capped created s) (same : SameSize s s') (booked : Booked s') :
    Capped created s' := by
  refine ⟨booked, same.caps.trans capped.caps, same.caps ▸ capped.added, ?_, ?_, ?_⟩
  · rw [same.graphVersion, same.caps]
    exact capped.expansions
  · rw [same.stepsTotal, same.caps]
    exact capped.total
  · intro row mem injected
    obtain ⟨old, listed, placed⟩ := same.row mem
    simp only [StepRow.placement, Prod.mk.injEq] at placed
    rw [← placed.2.1, same.caps]
    exact capped.depths old listed (placed.2.2.1 ▸ injected)

theorem ExpandRun.widenRow_placement (args : ExpandRun) (now : Time) (row : StepRow) :
    (args.widenRow now row).placement = row.placement := by
  unfold ExpandRun.widenRow widen
  split <;> rfl

theorem Capped.expanded {args : ExpandRun} {origin now event}
    (capped : Capped created s) (fits : args.Fits lint origin now s)
    (booked : Booked (RunStore.record (args.apply origin now s) event)) :
    Capped created (RunStore.record (args.apply origin now s) event) := by
  have within := Dag.validateExpansion_withinCaps fits.accepted
  refine ⟨booked, capped.caps, capped.added, ?_, ?_, ?_⟩
  · change s.run.graphVersion + 1 - 1 ≤ s.run.expansionCaps.maxExpansions
    have bound : s.run.graphVersion - 1 + 1 ≤ s.run.expansionCaps.maxExpansions := within.expansions
    omega
  · change s.run.stepsTotal + args.plan.steps.length ≤ _
    rw [capped.booked.total]
    exact le_max_of_le_right within.total
  · intro row mem injected
    rcases List.mem_append.mp mem with old | new
    · obtain ⟨row, listed, rfl⟩ := List.mem_map.mp old
      have placed := args.widenRow_placement now row
      simp only [StepRow.placement, Prod.mk.injEq] at placed
      rw [placed.2.1]
      exact capped.depths row listed (placed.2.2.1 ▸ injected)
    · obtain ⟨_, _, rfl⟩ := List.mem_map.mp new
      exact within.depth

theorem Capped.effect (capped : Capped created s) (effect : Effect lint may s s') :
    Capped created s' := by
  have booked := effect.booked capped.booked
  rcases effect.sameSize_or_expanded with same | ⟨_, _, _, _, fits, rfl⟩
  · exact capped.sameSize same booked
  · exact capped.expanded fits booked

theorem Capped.chain (chain : ReflTransGen (Effect lint may) s s') (capped : Capped created s) :
    Capped created s' := by
  induction chain with
  | refl => exact capped
  | tail _ effect ih => exact ih.effect effect

theorem initialSteps_authored :
    ∀ row ∈ initialSteps definition entry now, row.originStep = none := by
  intro row mem
  obtain ⟨_, _, rfl⟩ := List.mem_map.mp mem
  rfl

theorem announce_sameSize (name : String) (stepsTotal : Nat) (entry : List String) :
    Tx.Ensures StoreError.isRefusal SameSize (announce name stepsTotal entry) :=
  .bind SameSize.trans (.write fun _ => ⟨rfl, rfl, rfl, rfl⟩) fun _ => announceReadied_sameSize _

theorem Created.capped {definitionLint definition}
    (creation : Created definitionLint definition created) : Capped created created := by
  have booked := ((booked_invariant definitionLint Dag.strictPlanLint .all).created trivial creation).2
  obtain ⟨validated, _, _, _, _, _, announced⟩ := creation.opened
  have same := (announce_sameSize _ _ _).of_ok announced
  obtain ⟨added, _, expansions, _⟩ := Dag.validates_caps validated
  refine ⟨booked, rfl, ?_, ?_, le_max_left _ _, ?_⟩
  · rw [same.caps]
    exact added
  · rw [same.graphVersion, same.caps]
    exact Int.le_trans (show (0 : Int) ≤ 1 by decide) expansions
  · intro row mem injected
    obtain ⟨old, listed, placed⟩ := same.row mem
    simp only [StepRow.placement, Prod.mk.injEq] at placed
    simp [← placed.2.2.1, initialSteps_authored old listed] at injected

end Kept

def ExpandRun.stepCap (args : ExpandRun) (caps : Dag.ExpansionCaps) : Int :=
  if 0 < args.maxAddedSteps then min caps.maxAddedStepsPerExpansion args.maxAddedSteps
  else caps.maxAddedStepsPerExpansion

theorem ExpandRun.perExpansionCap_eq (args : ExpandRun) (caps : Dag.ExpansionCaps) :
    args.perExpansionCap caps = args.stepCap caps := by
  unfold ExpandRun.perExpansionCap ExpandRun.stepCap
  split_ifs <;> omega

theorem Capped.step_cap {args : ExpandRun} (capped : Capped created s)
    (fits : args.Fits lint origin now s) :
    (args.plan.steps.length : Int) ≤ args.stepCap s.run.expansionCaps := by
  have positive : 0 < args.stepCap s.run.expansionCaps := by
    have := capped.added
    unfold ExpandRun.stepCap
    split_ifs <;> omega
  have within := (Dag.validateExpansion_withinCaps fits.accepted).added
  change 0 < args.perExpansionCap s.run.expansionCaps →
    (args.plan.steps.length : Int) ≤ args.perExpansionCap s.run.expansionCaps at within
  rw [args.perExpansionCap_eq] at within
  exact within positive

theorem Created.replay_capped
    {created : RunStore} (creation : Created definitionLint definition created)
    (lint : Dag.PlanLint) (calls : List Call) : Capped created (replay lint created calls) ∧
      (replay lint created calls).run.graphVersion - 1 = committedExpansions lint created calls := by
  have unique : UniqueSteps created :=
    ((booked_invariant definitionLint lint .all).created trivial creation).1
  have chain : ReflTransGen (Effect lint .all) created (replay lint created calls) :=
    replay_reaches created calls (fun _ _ _ _ => trivial) unique
  have versions : (replay lint created calls).run.graphVersion = _ := replay_graphVersion calls unique
  have first : created.run.graphVersion = 1 := by
    obtain ⟨_, _, _, _, _, _, announced⟩ := creation.opened
    exact ((announce_sameSize _ _ _).of_ok announced).graphVersion
  exact ⟨creation.capped.chain chain, by omega⟩

/-- After every history of calls on a created run, an expansion that commits stays within the caps
of the run, and one that does not leaves its rows as they were. -/
theorem expansions_within_caps (definitionLint : Dag.DefinitionLint) (lint : Dag.PlanLint)
    (definition : Dag.Definition) (created : RunStore)
    (creation : Created definitionLint definition created) (calls : List Call) :
    let s := replay lint created calls
    let caps := created.run.expansionCaps
    s.run.expansionCaps = caps ∧
      s.run.graphVersion - 1 = committedExpansions lint created calls ∧
      s.run.graphVersion - 1 ≤ caps.maxExpansions ∧
      s.run.stepsTotal ≤ max created.run.stepsTotal caps.maxTotalSteps ∧
      (∀ row ∈ s.steps, row.originStep.isSome = true → row.depth ≤ caps.maxDepth) ∧
      ∀ (args : ExpandRun) (now : Time),
        (∀ result s', expandRun lint args now s = (.ok result, s') →
          s'.run.stepsTotal = s.run.stepsTotal + args.plan.steps.length ∧
            (args.plan.steps.length : Int) ≤ args.stepCap caps) ∧
        (∀ verdict s', expandRun lint args now s = (.error (.expansionRejected verdict), s') →
          s' = s) ∧
        ∀ e, ((expandRun lint args now).commit s).1 = .error e →
          ((expandRun lint args now).commit s).2 = s := by
  intro s caps
  obtain ⟨capped, versions⟩ : Capped created s ∧ _ := creation.replay_capped lint calls
  have same : s.run.expansionCaps = caps := capped.caps
  refine ⟨same, versions, same ▸ capped.expansions, same ▸ capped.total, same ▸ capped.depths, ?_⟩
  intro args now
  refine ⟨?_, ?_, fun e failed => Tx.commit_of_error failed⟩
  · intro result s' ok
    obtain ⟨_, _, fits, grown⟩ := expandRun_placed ok
    exact ⟨grown.stepsTotal, same ▸ capped.step_cap fits⟩
  · intro verdict s' rejected
    exact expandRun_clean args now s _ _ rejected rfl

def expandingCalls : List Call :=
  let plan (id : String) : Transition := .expand
    { kind := .planner, originStep := "p", plan := { schemaVersion := 1, steps :=
                                                       [{ id, type := .noop }] }
      maxAddedSteps := 1 }
  [{ transition := .claim "p" 7 "worker", now := 2 },
    { transition := .fenced "p" 7 (.succeed {}), now := 3 },
    { transition := plan "x", now := 3 },
    { transition := plan "x", now := 4 }]

theorem expansions_within_caps_planned :
    committedExpansions Dag.quietPlanLint plannedRun expandingCalls = 1 ∧
      (replay Dag.quietPlanLint plannedRun expandingCalls).run.graphVersion - 1 = 1 ∧
      (replay Dag.quietPlanLint plannedRun expandingCalls).run.stepsTotal ≤ 10000 := by
  have counted : committedExpansions Dag.quietPlanLint plannedRun expandingCalls = 1 := by decide
  obtain ⟨_, versions, _, total, _⟩ := expansions_within_caps Dag.quietDefinitionLint
    Dag.quietPlanLint Dag.plannedDefinition plannedRun plannedRun_created expandingCalls
  exact ⟨counted, by rw [versions, counted]; rfl, total⟩

/-- The caps of a validated definition are positive, and they stay within the compiled defaults
exactly when its policy names no larger one; a run then commits no more expansions, nests no deeper
and adds no more steps at once than the defaults allow. -/
theorem caps_within_defaults_iff (definitionLint : Dag.DefinitionLint) (definition : Dag.Definition)
    (accepted : Dag.validates definitionLint definition = true) :
    let caps := Dag.resolveCaps definition.expansion
    (1 ≤ caps.maxAddedStepsPerExpansion ∧ 1 ≤ caps.maxTotalSteps ∧ 1 ≤ caps.maxExpansions ∧
      1 ≤ caps.maxDepth) ∧
    (caps.maxTotalSteps ≤ Dag.defaultMaxTotalSteps ∧
        caps.maxAddedStepsPerExpansion ≤ Dag.defaultMaxAddedStepsPerExpansion ∧
        caps.maxExpansions ≤ Dag.defaultMaxExpansions ∧ caps.maxDepth ≤ Dag.defaultMaxDepth ↔
      Dag.TightensDefaults definition.expansion) ∧
    (Dag.TightensDefaults definition.expansion →
      ∀ (lint : Dag.PlanLint) (created : RunStore), Created definitionLint definition created →
        ∀ calls, let s := replay lint created calls
        (committedExpansions lint created calls : Int) ≤ Dag.defaultMaxExpansions ∧
          (∀ row ∈ s.steps, row.originStep.isSome = true → row.depth ≤ Dag.defaultMaxDepth) ∧
          ∀ args now result s', expandRun lint args now s = (.ok result, s') →
            (args.plan.steps.length : Int) ≤ Dag.defaultMaxAddedStepsPerExpansion) := by
  obtain ⟨added, total, expansions, depth, ceiling⟩ := Dag.validates_caps accepted
  refine ⟨⟨added, total, expansions, depth⟩, ?_, fun tightens lint created creation calls => ?_⟩
  · rw [← Dag.tightensDefaults_iff]
    exact and_iff_right ceiling
  · obtain ⟨_, expansionsLe, depthLe⟩ := Dag.tightensDefaults_iff.mpr tightens
    obtain ⟨capped, versions⟩ := creation.replay_capped lint calls
    have same : (replay lint created calls).run.expansionCaps =
        Dag.resolveCaps definition.expansion := by
      obtain ⟨_, _, _, _, _, _, announced⟩ := creation.opened
      exact capped.caps.trans ((announce_sameSize _ _ _).of_ok announced).caps
    refine ⟨?_, fun row member injected => ?_, fun args now result s' ok => ?_⟩
    · rw [← versions]
      exact capped.expansions.trans (same ▸ expansionsLe)
    · exact (capped.depths row member injected).trans (same ▸ depthLe)
    · obtain ⟨_, _, fits, _⟩ := expandRun_placed ok
      have within := capped.step_cap fits
      rw [same] at within
      refine within.trans ?_
      unfold ExpandRun.stepCap
      split_ifs <;> omega

def looseDefinition : Dag.Definition :=
  { Dag.plannedDefinition with
    expansion := some { maxAddedSteps := some 33, maxExpansions := some 101, maxDepth := some 5 } }

def looseRun : RunStore :=
  { plannedRun with
    run := { plannedRun.run with expansionCaps := Dag.resolveCaps looseDefinition.expansion } }

def looseCalls : List Call :=
  [{ transition := .claim "p" 7 "worker", now := 2 },
    { transition := .fenced "p" 7 (.succeed {}), now := 3 },
    { transition := .expand
        { kind := .planner, originStep := "p"
          plan :=
            { schemaVersion := 1
              steps := (List.range 33).map fun n => { id := "x" ++ toString n, type := .noop } } }
      now := 3 }]

theorem loose_policy_exceeds_defaults :
    Dag.validates Dag.quietDefinitionLint looseDefinition = true ∧
      Dag.defaultMaxExpansions < (Dag.resolveCaps looseDefinition.expansion).maxExpansions ∧
      Dag.defaultMaxDepth < (Dag.resolveCaps looseDefinition.expansion).maxDepth ∧
      Created Dag.quietDefinitionLint looseDefinition looseRun ∧
      committedExpansions Dag.quietPlanLint looseRun looseCalls = 1 ∧
      (replay Dag.quietPlanLint looseRun looseCalls).steps.length = looseRun.steps.length + 33 :=
  ⟨by decide +kernel, by decide, by decide, ⟨"", none, 1, by decide +kernel⟩, by decide +kernel,
    by decide +kernel⟩

theorem caps_within_defaults_planned :
    (committedExpansions Dag.quietPlanLint plannedRun expandingCalls : Int) ≤ 100 :=
  ((caps_within_defaults_iff Dag.quietDefinitionLint Dag.plannedDefinition (by decide)).2.2
    ⟨nofun, nofun, nofun⟩ Dag.quietPlanLint plannedRun plannedRun_created expandingCalls).1

end Agentloom.Store
