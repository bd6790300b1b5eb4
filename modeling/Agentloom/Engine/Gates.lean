import Agentloom.Exec.HumanApproval
import Agentloom.Engine.Approvals

/-! The gate a step was authored with. What a step is never changes, nor do the terms of an approval
once its step has parked; so what was read of either before a transaction still holds in it. -/

namespace Agentloom.Engine

open Transaction Store Relation List

variable {lint : Dag.PlanLint} {may : Permits} {s s' : RunStore}

def stepOf (row : StepRow) : Dag.Step :=
  { id := row.stepID, type := row.stepType, config := row.config }

theorem stepOf_of_same (same : SameStep old new) : stepOf new = stepOf old := by
  simp [stepOf, same.stepID, same.stepType, same.config]

theorem stepOf_widenRow (args : ExpandRun) (now : Time) (row : StepRow) :
    stepOf (args.widenRow now row) = stepOf row := by
  unfold ExpandRun.widenRow
  split <;> rfl

theorem steps_of_effect (effect : Effect lint may s s') : s'.steps.map stepOf = s.steps.map stepOf ∨
      ∃ (args : ExpandRun) (origin : StepRow) (now : Time), args.Fits lint origin now s ∧
        s'.steps.map stepOf = s.steps.map stepOf ++ args.plan.steps := by
  cases effect with
  | moved move _ replaced _ _ _ _ => exact .inl (replaced.map_eq stepOf (stepOf_of_same move.toSameStep))
  | claimed _ _ replaced _ _ _ _ _ _ => exact .inl (replaced.map_eq stepOf rfl)
  | awaited _ _ _ replaced _ _ _ => exact .inl (replaced.map_eq stepOf rfl)
  | resolved _ _ _ _ replaced => exact .inl (replaced.map_eq stepOf rfl)
  | @expanded args origin now _ fits _ =>
    refine .inr ⟨args, origin, now, fits, ?_⟩
    simp only [record_steps, ExpandRun.apply, List.map_append, List.map_map, ExpandRun.newSteps]
    congr 1
    · exact List.map_congr_left fun row _ => stepOf_widenRow args now row
    · exact List.map_id args.plan.steps
  | _ => exact .inl rfl

structure GatesKept (s s' : RunStore) : Prop where
  steps : s.steps.map stepOf ⊆ s'.steps.map stepOf
  terms : ∀ a ∈ s.approvals, ∃ a' ∈ s'.approvals, a'.id = a.id ∧ a'.stepID = a.stepID ∧
    a'.terms = a.terms

theorem GatesKept.of_approvals (steps : s.steps.map stepOf ⊆ s'.steps.map stepOf)
    (approvals : s'.approvals = s.approvals) : GatesKept s s' :=
  ⟨steps, fun a mem => ⟨a, approvals ▸ mem, rfl, rfl, rfl⟩⟩

theorem GatesKept.refl (s : RunStore) : GatesKept s s := .of_approvals (List.Subset.refl _) rfl

theorem GatesKept.trans (first : GatesKept s s') (second : GatesKept s' s'') : GatesKept s s'' := by
  refine ⟨List.Subset.trans first.steps second.steps, fun a mem => ?_⟩
  obtain ⟨a', inside, id, stepID, terms⟩ := first.terms a mem
  obtain ⟨a'', inside', id', stepID', terms'⟩ := second.terms a' inside
  exact ⟨a'', inside', id'.trans id, stepID'.trans stepID, terms'.trans terms⟩

theorem gatesKept_of_effect (effect : Effect lint may s s') : GatesKept s s' := by
  have steps : s.steps.map stepOf ⊆ s'.steps.map stepOf := by
    rcases steps_of_effect effect with same | ⟨_, _, _, _, grown⟩
    · rw [same]
      exact List.Subset.refl _
    · rw [grown]
      exact subset_append_left _ _
  cases effect with
  | awaited _ _ _ _ _ _ _ =>
    exact ⟨steps, fun a mem => ⟨a, mem_append_left _ mem, rfl, rfl, rfl⟩⟩
  | @reapproved old new approvals _ pending id stepID _ terms replaced =>
    refine ⟨steps, fun a mem => ?_⟩
    rcases replaced.mem_or_old mem with rfl | other
    · exact ⟨new, replaced.new_mem, id, stepID, terms⟩
    · exact ⟨a, other, rfl, rfl, rfl⟩
  | _ => exact .of_approvals steps rfl

theorem gatesKept_of_chain (chain : ReflTransGen (Effect lint may) s s') : GatesKept s s' := by
  induction chain with
  | refl => exact .refl s
  | tail _ effect ih => exact ih.trans (gatesKept_of_effect effect)

theorem terms_of_effect (effect : Effect lint may s s') (shut : ¬may.opens) :
    ∀ a' ∈ s'.approvals, ∃ a ∈ s.approvals, a'.stepID = a.stepID ∧ a'.terms = a.terms := by
  intro a' mem
  cases effect with
  | awaited _ opens _ _ _ _ _ => exact absurd opens shut
  | reapproved _ _ _ stepID _ terms replaced =>
    rcases replaced.mem_of_mem mem with rfl | other
    · exact ⟨_, replaced.old_mem, stepID, terms⟩
    · exact ⟨a', other, rfl, rfl⟩
  | _ => exact ⟨a', mem, rfl, rfl⟩

def Action.OpensGate (readers : Exec.Readers) (now : Time) (s : RunStore) : Action → Prop
  | .awaitHuman stepID _ content => ∃ config rendered request,
      { id := stepID, type := .humanApproval, config := .humanApproval config } ∈
          s.steps.map stepOf ∧
        Exec.Rendered config rendered ∧ Exec.humanApproval readers rendered = .ok request ∧
        content = request.content content.id now
  | _ => True

abbrev GateHistory (definitionLint : Dag.DefinitionLint) (env : Environment)
    (readers : Exec.Readers) : List RunStore → Prop :=
  HistoryOf definitionLint env fun action now s => action.OpensGate readers now s

def GatesMatch (s : RunStore) : Prop :=
  ∀ a ∈ s.approvals, ∃ config,
    { id := a.stepID, type := .humanApproval, config := .humanApproval config } ∈
        s.steps.map stepOf ∧
      a.allowedDecisions = Exec.resolvedDecisions config

theorem GatesMatch.of_effect (matching : GatesMatch s) (effect : Effect lint may s s')
    (shut : ¬may.opens) : GatesMatch s' := by
  intro a' mem
  obtain ⟨a, inside, stepID, terms⟩ := terms_of_effect effect shut a' mem
  obtain ⟨config, isStep, allows⟩ := matching a inside
  have same : a'.allowedDecisions = a.allowedDecisions := congrArg Prod.fst terms
  refine ⟨config, (gatesKept_of_effect effect).steps ?_, same.trans allows⟩
  rw [stepID]
  exact isStep

theorem GatesMatch.of_reaches (matching : GatesMatch s) (reaches : Reaches lint may s s')
    (unique : UniqueSteps s) (shut : ¬may.opens) : GatesMatch s' := by
  have chain := reaches unique
  clear reaches
  induction chain with
  | refl => exact matching
  | tail _ effect ih => exact ih.of_effect effect shut

def shut : Permits := { opens := False }

theorem completeAwaitHuman_matches (lint : Dag.PlanLint) (unique : UniqueSteps s)
    (matching : GatesMatch s)
    (opens : (Action.awaitHuman stepID claimID content).OpensGate readers now s)
    (ok : completeAwaitHuman stepID claimID content now s = (.ok u, s')) : GatesMatch s' := by
  have rest := lockRunStatus_bind_ok ok
  split at rest
  · have sound : Sound lint shut (settleCancelled stepID claimID none now) :=
      settleCancelled_sound _ _ _
    exact matching.of_reaches (sound.of_ok rest) unique id
  obtain ⟨_, parked⟩ := Tx.void_ok rest
  obtain ⟨old, steps, named, _, rfl, replaced, _, _, rfl⟩ := awaitHumanStep_ok parked
  have kept : steps.map stepOf = s.steps.map stepOf := replaced.map_eq stepOf rfl
  intro a mem
  rw [record_steps, kept]
  rcases mem_append.mp mem with before | added
  · exact matching a before
  obtain ⟨config, _, request, isStep, rendering, executed, same⟩ := opens
  rw [mem_singleton.mp added, same]
  refine ⟨config, ?_, Exec.humanApproval_decisions rendering executed⟩
  have isID : ((request.content content.id now).row (awaitRow now old) now).stepID = stepID := named
  rw [isID]
  exact isStep

section Histories

variable {definitionLint : Dag.DefinitionLint} {env : Environment} {readers : Exec.Readers}

theorem HistoryOf.gatesKept (history : HistoryOf definitionLint env meets (s :: past)) :
    ∀ seen ∈ s :: past, GatesKept seen s := by
  generalize isStates : s :: past = states at history
  induction history generalizing s past with
  | created creation =>
    cases isStates
    simp [GatesKept.refl]
  | @acted action now before earlier history _ _ ih =>
    cases isStates
    intro seen mem
    rcases mem_cons.mp mem with rfl | earlier
    · exact .refl _
    · have unique := (history.invariant (uniqueApprovals_invariant definitionLint env.lint .all)
        before mem_cons_self).1
      exact (ih rfl seen earlier).trans (gatesKept_of_chain (act_reaches env action now before unique))

theorem HistoryOf.gatesMatch (history : GateHistory definitionLint env readers states) :
    ∀ s ∈ states, GatesMatch s := by
  induction history with
  | created creation =>
    intro s mem
    rw [mem_singleton.mp mem]
    obtain ⟨founding, founded, reaches⟩ := creation.founded env.lint idle trivial
    have start : GatesMatch founding := by
      obtain ⟨_, _, _, now, _, rfl⟩ := founded.planned
      exact fun a mem => absurd mem not_mem_nil
    exact start.of_reaches reaches founded.uniqueSteps id
  | @acted action now s past history _ met ih =>
    intro other mem
    rcases mem_cons.mp mem with rfl | earlier
    · have matching := ih s mem_cons_self
      have unique := (history.invariant (uniqueApprovals_invariant definitionLint env.lint .all)
        s mem_cons_self).1
      by_cases opens : action.opens = true
      · unfold act Tx.commit
        split
        · rename_i ok
          cases action with
          | awaitHuman => exact completeAwaitHuman_matches env.lint unique matching met ok
          | _ => cases opens
        · exact matching
      · have sound : Sound env.lint shut (action.exec env now) :=
          Action.exec_sound { opens := fun isOpen => absurd isOpen opens }
        exact matching.of_reaches (Tx.Ensures.commit Reaches.refl sound s) unique id
    · exact ih other earlier

theorem GateHistory.history (history : GateHistory definitionLint env readers states) :
    History definitionLint env states :=
  HistoryOf.mono history fun _ _ _ _ => trivial

end Histories

end Agentloom.Engine
