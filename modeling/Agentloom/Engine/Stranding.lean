import Agentloom.Engine.Sheltered

/-! The write-off under the policy that continues independent branches. It is computed when a step
is dead-lettered; an edge that is skipped later can make a join impossible, and nothing looks at
that join again. -/

namespace Agentloom.Engine

open Transaction Store

abbrev SparingHistory (definitionLint : Dag.DefinitionLint) (env : Environment) :
    List RunStore → Prop :=
  HistoryOf definitionLint env fun action now s =>
    s.run.onFailure = .continueIndependentBranches → action.Spares env now s

/-- In every state of every run that continues its independent branches and whose completions spare
its joins, a running or parked run has no pending step that the write-off would mark. -/
theorem no_impossible_step_waits (definitionLint : Dag.DefinitionLint) (env : Environment)
    (states : List RunStore) (history : SparingHistory definitionLint env states) :
    ∀ s ∈ states, s.run.onFailure = .continueIndependentBranches →
      s.run.status = .running ∨ s.run.status = .parked →
      planWriteOff (listRunSteps s) (listRunEdges s) = [] := by
  intro s member continues live
  have isLive : s.run.live = true := by
    rcases live with running | parked
    · exact live_of_running (beq_iff_eq.mpr running)
    · exact live_of_parked (beq_iff_eq.mpr parked)
  have sheltered := history.sheltered (· = .continueIndependentBranches) ?_ s member
    (RunRow.live_not_ended isLive) continues
  · exact writeOffOf_eq_nil_iff.mpr (sheltered.possible isLive)
  · intro action now before met policy
    refine ⟨met policy, fun _ _ failFast => ?_⟩
    simp [policy] at failFast

/-! Two entry steps before a join of mode any. The first is dead-lettered, and the edge of the
second may fire or be skipped. -/

def joinDefinition : Dag.Definition :=
  { name := "join"
    onFailure := .continueIndependentBranches
    steps := [{ id := "a", type := .noop }, { id := "b", type := .noop },
      { id := "j", type := .join, config := .join .any }]
    edges := [{ fromStep := "a", toStep := "j" },
      { fromStep := "b", toStep := "j", when := "output.ok" }] }

def joinRun : RunStore := opened joinDefinition ["a", "b"]

theorem joinRun_created : Created Dag.quietDefinitionLint joinDefinition joinRun :=
  ⟨"", none, 1, rfl⟩

def quietEnvironment : Environment := ⟨Dag.quietPlanLint, fun _ _ => true⟩

def joinBuried : RunStore :=
  act quietEnvironment (.fail "a" 7 { outcome := .permanent } [] (.bury false)) 4
    (act quietEnvironment (.claim "b" 8 "worker") 3
      (act quietEnvironment (.claim "a" 7 "worker") 2 joinRun))

def joinSuccess (fires : Bool) : Success :=
  { stepID := "b", stepType := .noop, claimID := 8, evaluator := .ok fun _ => .ok fires }

def joinSettled (fires : Bool) : RunStore :=
  act quietEnvironment (.succeed (joinSuccess fires)) 5 joinBuried

theorem skipped_edge_strands_join :
    ∃ past, History Dag.quietDefinitionLint quietEnvironment (joinSettled false :: past) ∧
      (joinSettled false).run.onFailure = .continueIndependentBranches ∧
      (joinSettled false).run.status = .running ∧
      planWriteOff (listRunSteps (joinSettled false)) (listRunEdges (joinSettled false)) = ["j"] := by
  refine ⟨_, .acted (.acted (.acted (.acted (.created joinRun_created) (by simp)
    trivial) (by simp) trivial) (by simp) trivial)
    (by simp) trivial, by decide, by decide, by decide⟩

theorem Action.spares_of_unsourced {action : Action}
    (unsourced : action.source env now = pure none) : action.Spares env now s := by
  intro source t sourced
  simp [unsourced] at sourced

theorem joinSuccess_spares : Spares [{ ordinal := 1, fired := true }] joinBuried := by
  intro row mem pending _ _ _
  have isJoin : ∀ row ∈ joinBuried.steps, row.status = .pending → row.stepID = "j" := by decide
  rw [isJoin row mem pending]
  refine ⟨{ ordinal := 1, fromStep := "b", toStep := "j", whenExpr := "output.ok" }, by decide, ?_, ?_⟩
  · rintro ⟨source, inside, isB, blocked⟩
    revert source
    decide
  · rintro (⟨verdict, listed, _, unfired⟩ | dropped)
    · simp [List.mem_singleton.mp listed] at unfired
    · generalize isB : "b" = id at dropped
      obtain ⟨inside, waiting, _, _⟩ := dropped
      exact absurd (isB.trans (isJoin _ inside waiting)) (by decide)

theorem fired_edge_spares_join : (joinSettled true).run.status = .running ∧
      planWriteOff (listRunSteps (joinSettled true)) (listRunEdges (joinSettled true)) = [] := by
  have buried : SparingHistory Dag.quietDefinitionLint quietEnvironment (joinBuried :: _) :=
    .acted (.acted (.acted (.created joinRun_created) (by simp)
      fun _ => Action.spares_of_unsourced rfl) (by simp)
      fun _ => Action.spares_of_unsourced rfl) (by simp)
      fun _ => Action.spares_of_unsourced rfl
  have settled : SparingHistory Dag.quietDefinitionLint quietEnvironment
      (joinSettled true :: joinBuried :: _) :=
    .acted buried (by simp) fun _ source t sourced _ => by
      cases sourced
      exact joinSuccess_spares
  exact ⟨by decide, no_impossible_step_waits _ _ _ settled _ List.mem_cons_self (by decide)
    (.inl (by decide))⟩

end Agentloom.Engine
