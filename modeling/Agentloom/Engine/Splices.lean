import Agentloom.Engine.Approvals
import Agentloom.Engine.Flow

/-! Where an expansion may be spliced into a running graph: which existing steps its edges may leave
and enter. -/

namespace Agentloom.Engine

open Transaction Store Relation

def beforeExpansion (args : Success) (now : Time) : StoreTx RunStatus := do
  let status ← lockRunStatus now
  let _ ← succeedStep args.stepID args.claimID args.completion now args.columns
  recordNotes args.stepID args.notes now args.columns
  pure status

theorem settleSuccess_eq (lint : Dag.PlanLint) (args : Success) (now : Time) :
    settleSuccess lint args now =
      beforeExpansion args now >>= fun status => sourceOfSuccess lint args status now := by
  funext s
  simp only [settleSuccess, beforeExpansion, Tx.bind_apply]
  rcases lockRunStatus now s with ⟨error | _, s₁⟩
  · rfl
  · dsimp only
    rcases succeedStep args.stepID args.claimID args.completion now args.columns s₁ with ⟨error | _, s₂⟩
    · rfl
    · dsimp only
      rcases recordNotes args.stepID args.notes now args.columns s₂ with ⟨_ | _, _⟩ <;> rfl

def isSpent : StepStatus → Bool
  | .succeeded => true
  | .skipped => true
  | .collected => true
  | .deadLettered => true
  | .cancelled => true
  | _ => false

theorem anchorHas_eq (args : ExpandRun) (origin : StepRow) (unique : UniqueSteps s)
    (mem : row ∈ s.steps) (existing : row.stepID ∉ args.deltaIDs)
    (test : Dag.ExpansionAnchorStatus → Bool) :
    Dag.anchorHas (args.input origin s) row.stepID test =
      test (if row.stepID = args.originStep then .active else anchorStatus row.status) := by
  have listed : row.stepID ∈ (args.input origin s).existingIDs :=
    (existingIDs_perm args origin s).mem_iff.mpr (List.mem_map_of_mem mem)
  have undeclared : row.stepID ∉ (args.input origin s).deltaIDs := existing
  simp [Dag.anchorHas, Dag.ExpansionInput.existingOnly, anchor_of_row args origin unique mem,
    listed, undeclared]

variable {now : Time} {s t : RunStore}

theorem beforeExpansion_sound
    (charges : ∀ cost ∈ chargesOf args.notes, may.charges (cost.row now)) :
    Sound lint may (beforeExpansion args now) :=
  (lockRunStatus_sound now).bind fun _ => (succeedStep_sound _ _ _ _).bind fun _ =>
    (recordNotes_sound _ _ charges).bind fun _ => .pure _

theorem beforeExpansion_ok (ran : beforeExpansion args now s = (.ok status, t)) :
    ∃ origin ∈ t.steps, origin.stepID = args.stepID ∧ origin.status = .succeeded := by
  have rest₁ := lockRunStatus_bind_ok ran
  obtain ⟨_, _, succeeded, rest₂⟩ := Tx.bind_ok rest₁
  obtain ⟨_, _, noted, rest₃⟩ := Tx.bind_ok rest₂
  cases rest₃
  obtain ⟨_, named, _, rfl, shifted⟩ :=
    shifted_of_run (requireArgument_bind_ok succeeded)
      (succeed_moves args.stepID args.claimID now args.completion)
  have steps := ((recordNotes_beside _ _).of_ok noted).steps
  exact ⟨_, steps ▸ shifted.replaced.new_mem, shifted.place.stepID.trans named, rfl⟩

/-- In every run, for every completion and every edge of the plan it expands the run by: the source
rule refuses exactly the steps whose out-edges are resolved for good, unless the source waits for a
human; the target rule refuses exactly the steps that are not pending. -/
theorem splice_rule_exact_iff (definitionLint : Dag.DefinitionLint) (env : Environment)
    (s : RunStore) (past : List RunStore) (history : History definitionLint env (s :: past))
    (args : Success) (now : Time) (status : RunStatus)
    (t : RunStore) (ran : beforeExpansion args now s = (.ok status, t)) (expansion : Expansion)
      (origin : StepRow) (edge : Dag.Edge) (planned : edge ∈ expansion.plan.edges) (row : StepRow)
    (member : row ∈ t.steps) (existing : row.stepID ∉ (expansion.args args.stepID).deltaIDs) :
    (edge.fromStep = row.stepID → row.stepID ≠ args.stepID →
      ((Dag.refusesSource ((expansion.args args.stepID).input origin t) edge = true ↔
          isSpent row.status = true) ↔ row.status ≠ .awaitingHuman)) ∧ (edge.toStep = row.stepID →
      (Dag.refusesTarget ((expansion.args args.stepID).input origin t) edge = true ↔
        row.status ≠ .pending)) ∧
    (Dag.refusesSource ((expansion.args args.stepID).input origin t) edge = true ∨
        Dag.refusesTarget ((expansion.args args.stepID).input origin t) edge = true →
      (Dag.validateExpansion env.lint ((expansion.args args.stepID).input origin t)).ok = false) := by
  obtain ⟨unique, unfailed⟩ :=
    history.invariant (unfailed_invariant definitionLint env.lint .all) s List.mem_cons_self
  have reaches : Reaches env.lint .all s t := (beforeExpansion_sound fun _ _ => trivial).of_ok ran
  obtain ⟨_, inside, isOrigin, succeeded⟩ := beforeExpansion_ok ran
  have unique' := uniqueSteps_of_chain (reaches unique) unique
  have notFailed := (unfailed_invariant definitionLint env.lint .all).chain (reaches unique) unique
    unfailed row member
  have anchored : ∀ test, Dag.anchorHas ((expansion.args args.stepID).input origin t) row.stepID test =
      test (if row.stepID = args.stepID then .active else anchorStatus row.status) :=
    anchorHas_eq (expansion.args args.stepID) origin unique' member existing
  refine ⟨fun leaves other => ?_, fun enters => ?_, Dag.refused_of_splice planned⟩
  · unfold Dag.refusesSource
    cases status : row.status <;> simp_all [anchorStatus, isSpent]
  · unfold Dag.refusesTarget
    rw [enters, anchored]
    by_cases same : row.stepID = args.stepID
    · obtain rfl := Table.eq_of_key unique' member inside (same.trans isOrigin.symm)
      rw [if_pos same, succeeded]
      simp
    · rw [if_neg same]
      cases status : row.status <;> simp_all [anchorStatus]

def besideDefinition : Dag.Definition :=
  { name := "planner"
    steps := { id := "p", type := .planner } :: gateDefinition.steps
    edges := [] }

def startedRun (definition : Dag.Definition) : RunStore :=
  match createRun Dag.quietDefinitionLint definition "" none 1 with
  | .ok s => s
  | .error _ => gateRun

def besideClaimed : RunStore :=
  act gateEnvironment (.claim "p" 8 "worker") 2 (startedRun besideDefinition)

def plannerBesideGate : RunStore :=
  act gateEnvironment
    (.awaitHuman "g" 7 { id := 9, title := "Ship it", allowedDecisions := [.approve, .reject] }) 4
    (act gateEnvironment (.claim "g" 7 "worker") 3 besideClaimed)

theorem besideClaimed_history : History Dag.quietDefinitionLint gateEnvironment
      [besideClaimed, startedRun besideDefinition] := by
  have created : Created Dag.quietDefinitionLint besideDefinition (startedRun besideDefinition) :=
    ⟨"", none, 1, rfl⟩
  exact .acted (.created created) (by simp) trivial

def besideSuccess : Success := { stepID := "p", stepType := .planner, claimID := 8 }

def afterGate : Expansion :=
  { kind := .planner
    plan := { schemaVersion := 1, steps := [{ id := "x", type := .noop }]
              edges := [{ fromStep := "g", toStep := "x" }] } }

def expansionInput (s : RunStore) : Dag.ExpansionInput :=
  (afterGate.args "p").input { stepID := "p", stepType := .planner } (beforeExpansion besideSuccess 5 s).2

theorem waiting_gate_refused :
    (∃ past, History Dag.quietDefinitionLint gateEnvironment (plannerBesideGate :: past)) ∧
      (beforeExpansion besideSuccess 5 plannerBesideGate).1.toOption = some .running ∧
      (beforeExpansion besideSuccess 5 plannerBesideGate).2.steps.map
        (fun row => (row.stepID, row.status)) = [("p", .succeeded), ("g", .awaitingHuman)] ∧
      Dag.refusesSource (expansionInput plannerBesideGate) { fromStep := "g", toStep := "x" } = true ∧
      (Dag.validateExpansion gateEnvironment.lint (expansionInput plannerBesideGate)).ok = false :=
  ⟨⟨_, .acted (.acted besideClaimed_history (by simp) trivial)
    (by simp) trivial⟩, by decide +kernel, by decide +kernel, by decide +kernel,
    by decide +kernel⟩

theorem ready_gate_accepted :
    Dag.refusesSource (expansionInput besideClaimed) { fromStep := "g", toStep := "x" } = false := by
  have ran : beforeExpansion besideSuccess 5 besideClaimed =
      (.ok .running, (beforeExpansion besideSuccess 5 besideClaimed).2) := by rfl
  have exact_here := splice_rule_exact_iff Dag.quietDefinitionLint gateEnvironment besideClaimed _
    besideClaimed_history besideSuccess 5 .running _ ran afterGate
    { stepID := "p", stepType := .planner } { fromStep := "g", toStep := "x" } (by decide)
    ((beforeExpansion besideSuccess 5 besideClaimed).2.steps.getLast (by decide))
    (List.getLast_mem _) (by decide)
  have unspent := (exact_here.1 (by decide) (by decide)).mpr (by decide)
  exact Bool.eq_false_iff.mpr fun refused => absurd (unspent.mp refused) (by decide)

end Agentloom.Engine
