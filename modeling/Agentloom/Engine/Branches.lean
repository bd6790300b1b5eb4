import Agentloom.Store.Origins
import Agentloom.Engine.Splices

/-! The branches of a run. The validator lets only the last out-edge of a branch step stand without a
condition; expansions are not held to that rule. -/

namespace Agentloom.Engine

open Transaction Store Relation

def Leaves (id : String) (edge : EdgeRow) : Prop := edge.edgeType = .normal ∧ edge.fromStep = id

def outlet (edge : EdgeRow) : Nat × String × Dag.EdgeType × String :=
  (edge.ordinal, edge.whenExpr, edge.edgeType, edge.fromStep)

structure SameShape (s s' : RunStore) : Prop where
  steps : s'.steps.map StepRow.site = s.steps.map StepRow.site
  edges : s'.edges.map outlet = s.edges.map outlet

def still : Permits := { expands := False }

variable {lint : Dag.PlanLint} {now : Time} {s s' : RunStore}

theorem SameShape.of_effect (effect : Effect lint still s s') : SameShape s s' := by
  cases effect with
  | moved move _ replaced _ _ _ _ =>
    exact ⟨replaced.map_eq _ (site_of_same move.toSameStep), rfl⟩
  | claimed _ _ replaced _ _ _ _ _ _ => exact ⟨replaced.map_eq _ rfl, rfl⟩
  | awaited _ _ _ replaced _ _ _ => exact ⟨replaced.map_eq _ rfl, rfl⟩
  | resolved _ edges _ _ replaced => exact ⟨replaced.map_eq _ rfl, edges.map_eq _ rfl⟩
  | expanded _ expands _ => exact expands.elim
  | _ => exact ⟨rfl, rfl⟩

theorem SameShape.of_ok {α : Type} {x} {a : α} (sound : Sound lint still x)
    (unique : UniqueSteps s) (ok : x s = (.ok a, s')) : SameShape s s' := by
  have chain := sound.of_ok ok unique
  clear ok
  induction chain with
  | refl => exact ⟨rfl, rfl⟩
  | tail _ effect ih =>
    have last := SameShape.of_effect effect
    exact ⟨last.steps.trans ih.steps, last.edges.trans ih.edges⟩

theorem SameShape.row (same : SameShape s s') {row} (mem : row ∈ s'.steps) :
    ∃ old ∈ s.steps, old.stepID = row.stepID ∧ old.stepType = row.stepType := by
  have listed := List.mem_map_of_mem mem (f := StepRow.site)
  rw [same.steps] at listed
  obtain ⟨old, inside, site⟩ := List.mem_map.mp listed
  exact ⟨old, inside, congrArg Prod.fst site, congrArg (fun entry => entry.2.1) site⟩

theorem SameShape.edge (same : SameShape s s') {edge} (mem : edge ∈ s'.edges) :
    ∃ old ∈ s.edges, old.ordinal = edge.ordinal ∧ old.whenExpr = edge.whenExpr ∧
      ∀ id, Leaves id edge → Leaves id old := by
  have listed := List.mem_map_of_mem mem (f := outlet)
  rw [same.edges] at listed
  obtain ⟨old, inside, entry⟩ := List.mem_map.mp listed
  simp only [outlet, Prod.mk.injEq] at entry
  obtain ⟨ordinal, condition, type, source⟩ := entry
  exact ⟨old, inside, ordinal, condition, fun _ leaves => ⟨type.trans leaves.1, source.trans leaves.2⟩⟩

/-- Only the last normal out-edge of a branch step may lack a condition. -/
def Branching (s : RunStore) : Prop :=
  ∀ row ∈ s.steps, row.stepType = .branch → ∀ first ∈ s.edges, ∀ later ∈ s.edges,
    Leaves row.stepID first → Leaves row.stepID later → first.ordinal < later.ordinal →
      first.whenExpr ≠ ""

structure SparesBranches (s : RunStore) (plan : Dag.PlanOutput) : Prop where
  existing : ∀ row ∈ s.steps, row.stepType = .branch → ∀ edge ∈ plan.edges, edge.isLoop = false →
    edge.fromStep = row.stepID → (∀ out ∈ s.edges, Leaves row.stepID out → out.whenExpr ≠ "") ∧
      Dag.TrailingDefault plan.edges row.stepID
  injected : ∀ step ∈ plan.steps, step.type = .branch → Dag.TrailingDefault plan.edges step.id

theorem Branching.of_shape (branching : Branching s) (same : SameShape s s') : Branching s' := by
  intro row mem isBranch first isFirst later isLater leaves leaves' before
  obtain ⟨old, inside, stepID, stepType⟩ := same.row mem
  obtain ⟨first₀, inside₁, _, condition, leaves₁⟩ := same.edge isFirst
  obtain ⟨later₀, inside₂, _, _, leaves₂⟩ := same.edge isLater
  rw [← stepID] at leaves leaves'
  exact condition ▸ branching old inside (stepType.trans isBranch) first₀ inside₁ later₀ inside₂
    (leaves₁ _ leaves) (leaves₂ _ leaves') (by omega)

theorem SparesBranches.of_shape (spares : SparesBranches s plan) (same : SameShape s s') :
    SparesBranches s' plan := by
  refine ⟨fun row mem isBranch edge planned normal leaves => ?_, spares.injected⟩
  obtain ⟨old, inside, stepID, stepType⟩ := same.row mem
  rw [← stepID] at leaves ⊢
  obtain ⟨conditioned, trailing⟩ :=
    spares.existing old inside (stepType.trans isBranch) edge planned normal leaves
  refine ⟨fun out isOut outLeaves => ?_, trailing⟩
  obtain ⟨out₀, inside', _, condition, leaves₀⟩ := same.edge isOut
  exact condition ▸ conditioned out₀ inside' (leaves₀ _ outLeaves)

theorem le_foldl_max (values : List Nat) (start : Nat) :
    start ≤ values.foldl max start ∧ ∀ value ∈ values, value ≤ values.foldl max start := by
  induction values generalizing start with
  | nil => simp
  | cons value rest ih =>
    obtain ⟨_, each⟩ := ih (max start value)
    simp only [List.foldl_cons, List.forall_mem_cons]
    exact ⟨by omega, by omega, each⟩

theorem ordinal_lt_nextOrdinal (mem : edge ∈ s.edges) : edge.ordinal < nextOrdinal s :=
  (le_foldl_max _ 0).2 _ (List.mem_map_of_mem mem)

theorem Branching.expanded {args : ExpandRun} {origin : StepRow} (branching : Branching s)
    (wired : Wired s) (fits : args.Fits lint origin now s)
    (spares : SparesBranches s args.plan) : Branching (args.apply origin now s) := by
  intro row mem isBranch first isFirst later isLater leaves leaves' before
  have origins : (∃ old ∈ s.steps, old.stepID = row.stepID ∧ old.stepType = .branch) ∨
      ∃ step ∈ args.plan.steps, step.id = row.stepID ∧ step.type = .branch := by
    rcases List.mem_append.mp mem with old | new
    · obtain ⟨row₀, inside, rfl⟩ := List.mem_map.mp old
      have type : (args.widenRow now row₀).stepType = row₀.stepType :=
        congrArg (fun site => site.2.1) (site_widenRow args now row₀)
      exact .inl ⟨row₀, inside, (widenRow_stepID _ _ _).symm, type ▸ isBranch⟩
    · obtain ⟨step, inside, rfl⟩ := List.mem_map.mp new
      exact .inr ⟨step, inside, rfl, isBranch⟩
  -- no edge of the run leaves an injected step
  have unknown : ∀ step ∈ args.plan.steps, step.id = row.stepID →
      ∀ edge ∈ s.edges, ¬ Leaves row.stepID edge := by
    intro step inside named edge isEdge leaves
    have known := (wired.ends edge isEdge).1
    rw [leaves.2, ← named] at known
    exact fits.fresh known (List.mem_map_of_mem inside)
  have placed : ∀ edge ∈ args.newEdges (s.run.graphVersion + 1) (nextOrdinal s),
      ∃ entry ∈ args.plan.edges.zipIdx, edge.ordinal = nextOrdinal s + entry.2 ∧
        edge.whenExpr = entry.1.when ∧
        (Leaves row.stepID edge → entry.1.isLoop = false ∧ entry.1.fromStep = row.stepID) := by
    intro edge inside
    obtain ⟨entry, isEntry, rfl⟩ := List.mem_map.mp inside
    refine ⟨entry, isEntry, rfl, rfl, fun leaves => ⟨?_, leaves.2⟩⟩
    have normal : entry.1.type = .normal := leaves.1
    rw [Dag.Edge.isLoop, normal]
    rfl
  have trailing : ∀ edge ∈ args.plan.edges, edge.isLoop = false → edge.fromStep = row.stepID →
      Dag.TrailingDefault args.plan.edges row.stepID ∧
        ∀ out ∈ s.edges, Leaves row.stepID out → out.whenExpr ≠ "" := by
    intro edge planned normal from_
    rcases origins with ⟨old, inside, named, type⟩ | ⟨step, inside, named, type⟩
    · have safe := spares.existing old inside type edge planned normal (from_.trans named.symm)
      rw [named] at safe
      exact safe.symm
    · exact ⟨named ▸ spares.injected step inside type,
        fun out isOut outLeaves => absurd outLeaves (unknown step inside named out isOut)⟩
  rcases List.mem_append.mp isLater with old' | new'
  · rcases List.mem_append.mp isFirst with old | new
    · rcases origins with ⟨known, inside, named, type⟩ | ⟨step, inside, named, _⟩
      · rw [← named] at leaves leaves'
        exact branching known inside type first old later old' leaves leaves' before
      · exact absurd leaves (unknown step inside named first old)
    · obtain ⟨entry, _, ordinal, _⟩ := placed first new
      have below := ordinal_lt_nextOrdinal old'
      omega
  · obtain ⟨entry', planned', _, _, from'⟩ := placed later new'
    obtain ⟨normal', isSource'⟩ := from' leaves'
    obtain ⟨trails, conditioned⟩ := trailing entry'.1 (List.fst_mem_of_mem_zipIdx planned') normal'
      isSource'
    rcases List.mem_append.mp isFirst with old | new
    · exact conditioned first old leaves
    · obtain ⟨_, planned, _, condition, from_⟩ := placed first new
      obtain ⟨normal, isSource⟩ := from_ leaves
      rw [condition]
      exact trails.conditioned planned planned' (by omega) normal normal' isSource isSource'

section Actions

variable (unique : UniqueSteps s) (wired : Wired s) (branching : Branching s)

include unique wired branching

theorem completeSuccess_branching {args : Success}
    (spares : ∀ expansion, args.expansion = some expansion → SparesBranches s expansion.plan)
    (ok : completeSuccess lint args now s = (.ok (), s')) : Branching s' := by
  obtain ⟨source, t, settled, routed⟩ := Tx.bind_ok ok
  have reaches : Reaches lint .all s t :=
    (settleSuccess_sound trivial trivial args fun _ _ => trivial).of_ok settled
  have unique' := uniqueSteps_of_chain (reaches unique) unique
  have routes : Sound lint still (routeAndRollup source now) := routeAndRollup_sound trivial _
  refine Branching.of_shape ?_ (.of_ok routes unique' routed)
  rw [settleSuccess_eq] at settled
  obtain ⟨_, s₁, before, sourced⟩ := Tx.bind_ok settled
  have begins : Sound lint still (beforeExpansion args now) :=
    beforeExpansion_sound fun _ _ => trivial
  have early := SameShape.of_ok begins unique before
  have reached : Reaches lint .all s s₁ := (beforeExpansion_sound fun _ _ => trivial).of_ok before
  have unique₁ := uniqueSteps_of_chain (reached unique) unique
  have branching₁ := branching.of_shape early
  unfold sourceOfSuccess at sourced
  split at sourced
  · cases sourced
    exact branching₁
  · obtain ⟨_, s₂, grown, rest⟩ := Tx.bind_ok sourced
    have ends : Sound lint still (recordNotes args.stepID args.loopNotes now args.columns >>= fun _ =>
        terminalSource args.stepID args.stepType args.evaluator (fun _ verdicts => verdicts) >>=
          fun source => pure (some source)) :=
      (recordNotes_sound _ _ fun _ _ => trivial).bind fun _ =>
        (terminalSource_sound _ _ _ _).bind fun _ => .pure _
    have expanded : UniqueSteps s₂ ∧ Branching s₂ := by
      cases expansion : args.expansion with
      | none =>
        rw [expansion] at grown
        cases grown
        exact ⟨unique₁, branching₁⟩
      | some plan =>
        rw [expansion] at grown
        obtain ⟨_, applied⟩ := Tx.void_ok grown
        obtain ⟨_, fits, same⟩ := expandRun_grows applied
        have grownBranching := branching₁.expanded (wired_of_reaches reached unique wired) fits
          ((spares plan expansion).of_shape early)
        have steps := fits.steps
        refine ⟨?_, grownBranching.of_shape ⟨by rw [same.steps], by rw [same.edges]⟩⟩
        unfold UniqueSteps
        rw [same.steps, ExpandRun.apply, List.map_append, map_widenRow_stepID, ← List.map_append]
        exact steps
    exact expanded.2.of_shape (.of_ok ends expanded.1 rest)

def Action.SparesBranches (s : RunStore) (action : Action) : Prop :=
  ∀ args expansion, action = .succeed args → args.expansion = some expansion →
    Engine.SparesBranches s expansion.plan

theorem act_branching {env} {action : Action} (spares : action.SparesBranches s) :
    Branching (act env action now s) := by
  unfold act Tx.commit
  split
  on_goal 2 => exact branching
  rename_i ok
  by_cases succeeds : ∃ args, action = .succeed args
  · obtain ⟨args, rfl⟩ := succeeds
    exact completeSuccess_branching unique wired branching (fun _ => spares args _ rfl) ok
  · have sound : Sound env.lint still (action.exec env now) :=
      Action.exec_sound { expands := fun args same => succeeds ⟨args, same⟩ }
    exact branching.of_shape (.of_ok sound unique ok)

end Actions

theorem founded_branching (founded : Founded definitionLint definition s) : Branching s := by
  obtain ⟨_, _, _, _, _, rfl⟩ := founded.planned
  intro row mem isBranch first isFirst later isLater leaves leaves' before
  obtain ⟨_, inside, rfl⟩ := List.mem_map.mp mem
  obtain ⟨edge, planned, rfl⟩ := List.mem_map.mp isFirst
  obtain ⟨_, planned', rfl⟩ := List.mem_map.mp isLater
  have normal : ∀ edge : Dag.Edge, edge.type = .normal → edge.isLoop = false := by
    intro edge isNormal
    rw [Dag.Edge.isLoop, isNormal]
    rfl
  exact (Dag.validates_branches founded.validated inside isBranch).conditioned planned planned'
    before (normal _ leaves.1) (normal _ leaves'.1) leaves.2 leaves'.2

abbrev BranchingHistory (definitionLint : Dag.DefinitionLint) (env : Environment) :
    List RunStore → Prop :=
  HistoryOf definitionLint env fun action _ s => action.SparesBranches s

theorem HistoryOf.branching (history : BranchingHistory definitionLint env states) :
    ∀ s ∈ states, Branching s := by
  induction history with
  | created creation =>
    intro s mem
    rw [List.mem_singleton.mp mem]
    obtain ⟨_, founded, same⟩ := created_sameGraph creation
    exact (founded_branching founded).of_shape ⟨by rw [same.steps], by rw [same.edges]⟩
  | @acted action now s past earlier _ spares ih =>
    intro other mem
    rcases List.mem_cons.mp mem with rfl | old
    · obtain ⟨unique, wired⟩ := earlier.invariant (wired_invariant definitionLint env.lint .all) s
        List.mem_cons_self
      exact act_branching unique wired (ih s List.mem_cons_self) spares
    · exact ih other old

/-- In every state of every run whose expansions spare the branches, an out-edge of a branch step
without a condition is the last of its normal out-edges. -/
theorem branch_default_last (definitionLint : Dag.DefinitionLint) (env : Environment)
    (states : List RunStore) (history : BranchingHistory definitionLint env states) :
    ∀ s ∈ states, ∀ row ∈ s.steps, row.stepType = .branch → ∀ place edge,
      ((listEdgesFromStep row.stepID s).filter fun edge => edge.edgeType == .normal)[place]? =
        some edge → edge.whenExpr = "" → place + 1 =
        ((listEdgesFromStep row.stepID s).filter fun edge => edge.edgeType == .normal).length := by
  intro s member row inside isBranch place edge found unconditioned
  have branching := history.branching s member
  have ordinals :=
    ((history.invariant (wired_invariant definitionLint env.lint .all)) s member).2.ordinals
  generalize listed : (listEdgesFromStep row.stepID s).filter (fun edge => edge.edgeType == .normal) =
    outs at found ⊢
  have leaves : ∀ out ∈ outs, out ∈ s.edges ∧ Leaves row.stepID out := by
    intro out isOut
    simp only [← listed, listEdgesFromStep, listRunEdges, List.mem_filter, List.mem_insertionSort,
      beq_iff_eq] at isOut
    exact ⟨isOut.1.1, isOut.2, isOut.1.2⟩
  have sorted : outs.Pairwise fun a b => a.ordinal < b.ordinal := by
    have distinct : ((listRunEdges s).map EdgeRow.ordinal).Nodup :=
      ((List.perm_insertionSort _ s.edges).map EdgeRow.ordinal).nodup_iff.mpr ordinals
    have weak : (listRunEdges s).Pairwise fun a b => a.ordinal ≤ b.ordinal :=
      List.pairwise_insertionSort _ _
    have strict := (weak.and (List.pairwise_map.mp distinct)).imp fun both =>
      Nat.lt_of_le_of_ne both.1 both.2
    exact listed ▸ strict.sublist (List.filter_sublist.trans List.filter_sublist)
  obtain ⟨bound, isEdge⟩ := getElem?_eq_some_iff.mp found
  by_contra early
  have next : place + 1 < outs.length := by omega
  have before := List.pairwise_iff_getElem.mp sorted place (place + 1) bound next (by omega)
  rw [isEdge] at before
  have first := leaves edge (isEdge ▸ List.getElem_mem bound)
  have later := leaves _ (List.getElem_mem next)
  exact branching row inside isBranch edge first.1 _ later.1 first.2 later.2 before unconditioned

def routedDefinition : Dag.Definition :=
  { name := "routed"
    steps := [{ id := "p", type := .planner }, { id := "b", type := .branch },
      { id := "c", type := .noop }, { id := "d", type := .noop }]
    edges := [{ fromStep := "b", toStep := "c", when := "output.ok" },
      { fromStep := "b", toStep := "d" }] }

theorem routedRun_created :
    Created Dag.quietDefinitionLint routedDefinition (startedRun routedDefinition) :=
  ⟨"", none, 1, rfl⟩

def routedClaimed : RunStore :=
  act gateEnvironment (.claim "p" 8 "worker") 2 (startedRun routedDefinition)

def routedSuccess (source : String) : Action :=
  .succeed { besideSuccess with
    expansion := some
      { kind := .planner
        plan := { schemaVersion := 1, steps := [{ id := "x", type := .noop }]
                  edges := [{ fromStep := source, toStep := "x", when := "output.more" }] } } }

theorem default_hides_spliced_edge :
    ∃ s past, History Dag.quietDefinitionLint gateEnvironment (s :: past) ∧
      s.steps.map (fun row => (row.stepID, row.stepType)) = [("p", .planner), ("b", .branch),
        ("c", .noop), ("d", .noop), ("x", .noop)] ∧
      ((listEdgesFromStep "b" s).filter fun edge => edge.edgeType == .normal).map
        (fun edge => (edge.toStep, edge.whenExpr)) =
          [("c", "output.ok"), ("d", ""), ("x", "output.more")] :=
  ⟨act gateEnvironment (routedSuccess "b") 3 routedClaimed, _,
    .acted (.acted (.created routedRun_created) (by simp) trivial)
      (by simp [routedSuccess, Action.reads]) trivial, by decide +kernel, by decide +kernel⟩

theorem planner_edge_spares_branch :
    ((listEdgesFromStep "b" (act gateEnvironment (routedSuccess "p") 3 routedClaimed)).filter
      fun edge => edge.edgeType == .normal).length = 2 := by
  have claimed : BranchingHistory Dag.quietDefinitionLint gateEnvironment
      [routedClaimed, startedRun routedDefinition] :=
    .acted (.created routedRun_created) (by simp) (by rintro _ _ ⟨⟩)
  have others : ∀ row ∈ routedClaimed.steps, row.stepType = .branch → row.stepID ≠ "p" := by decide
  have spares : (routedSuccess "p").SparesBranches routedClaimed := by
    rintro args expansion ⟨⟩ ⟨⟩
    refine ⟨fun row member isBranch edge planned _ leaves => ?_, by simp⟩
    obtain rfl := List.mem_singleton.mp planned
    exact absurd leaves.symm (others row member isBranch)
  have history : BranchingHistory Dag.quietDefinitionLint gateEnvironment
      (act gateEnvironment (routedSuccess "p") 3 routedClaimed :: [routedClaimed, _]) :=
    .acted claimed (by simp [routedSuccess, Action.reads]) spares
  exact (branch_default_last _ _ _ history _ List.mem_cons_self
    { stepID := "b", stepType := .branch, status := .ready, updatedAt := 1 } (by decide +kernel) rfl 1
    { ordinal := 1, fromStep := "b", toStep := "d" } (by decide +kernel) rfl).symm

end Agentloom.Engine
