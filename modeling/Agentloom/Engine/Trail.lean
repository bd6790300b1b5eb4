import Agentloom.Store.EventLog
import Agentloom.Store.Fencing
import Agentloom.Store.Origins
import Agentloom.Engine.Cancelling

/-! The trail a run leaves: what the engine has written down stays, and an ended run starts no
further attempt. -/

namespace Agentloom.Engine

open Transaction Store Relation List Tx

/-- The log, the charges and the dead letters grow at their ends, a finished attempt and a resolved
edge stay as they are, and a step what it was inserted as. -/
structure Trailed (s s' : RunStore) : Prop where
  steps : Remain s s'
  events : s.events <+: s'.events
  costs : s.costs <+: s'.costs
  deadLetters : s.deadLetters <+: s'.deadLetters
  attempts : ∀ row ∈ s.attempts, row.outcome ≠ none → row ∈ s'.attempts
  edges : ∀ edge ∈ s.edges, edge.resolution ≠ .unresolved → edge ∈ s'.edges

theorem Trailed.refl (s : RunStore) : Trailed s s :=
  ⟨.refl s, prefix_rfl, prefix_rfl, prefix_rfl, fun _ mem _ => mem, fun _ mem _ => mem⟩

theorem Trailed.trans (first : Trailed s t) (second : Trailed t s') : Trailed s s' where
  steps := first.steps.trans second.steps
  events := first.events.trans second.events
  costs := first.costs.trans second.costs
  deadLetters := first.deadLetters.trans second.deadLetters
  attempts row mem closed := second.attempts row (first.attempts row mem closed) closed
  edges edge mem closed := second.edges edge (first.edges edge mem closed) closed

section Effects

variable {lint : Dag.PlanLint} {may : Permits} {s s' : RunStore}

theorem lettered_prefix {letter} (lettered : Lettered letters letters' row letter) :
    letters <+: letters' := by
  cases letter with
  | none => exact lettered ▸ prefix_rfl
  | some _ =>
    obtain ⟨_, _, _, _, rfl⟩ := lettered
    exact prefix_append _ _

theorem trailed_of_effect (effect : Effect lint may s s') (fit : AttemptsFit s) : Trailed s s' := by
  obtain ⟨appended, events, _⟩ := effect.logged
  have attempts := effect.settled_kept fit
  refine ⟨effect.remain, events ▸ prefix_append _ _, ?_, ?_, attempts, ?_⟩
  · cases effect with
    | charged _ _ _ => exact prefix_append _ _
    | _ => exact prefix_rfl
  · cases effect with
    | moved _ _ _ _ lettered _ _ => exact lettered_prefix lettered
    | _ => exact prefix_rfl
  · intro edge mem closed
    cases effect with
    | resolved open_ replaced _ _ _ =>
      refine (replaced.mem_or_old mem).resolve_left ?_
      rintro rfl
      simp only [resolvable, Bool.and_eq_true, beq_iff_eq] at open_
      exact closed open_.2
    | expanded _ _ _ => exact mem_append_left _ mem
    | _ => exact mem

/-- What an attempt is opened with. -/
def opening (row : AttemptRow) : (String × Nat) × ClaimID × String × Time :=
  (row.key, row.claimID, row.workerID, row.startedAt)

/-- Where no claim id may be issued, no attempt is opened. -/
theorem openings_of_effect (effect : Effect lint (.minting fun _ => False) s s') :
    s'.attempts.map opening = s.attempts.map opening := by
  cases effect with
  | @moved _ _ _ _ _ finish _ _ _ _ _ _ _ finished _ _ _ =>
    cases finish with
    | none => exact congrArg (map opening) finished
    | some _ =>
      obtain ⟨_, _, _, replaced⟩ := finished
      exact replaced.map_eq opening rfl
  | claimed minted _ _ _ _ _ _ _ _ => exact minted.elim
  | _ => rfl

theorem trailed_of_chain (chain : ReflTransGen (Effect lint may) s s') (unique : UniqueSteps s)
    (fit : AttemptsFit s) : Trailed s s' := by
  induction chain with
  | refl => exact .refl s
  | tail first effect ih =>
    exact ih.trans (trailed_of_effect effect (settled_kept_of_chain first unique fit).1)

theorem openings_of_chain (chain : ReflTransGen (Effect lint (.minting fun _ => False)) s s') :
    s'.attempts.map opening = s.attempts.map opening := by
  induction chain with
  | refl => rfl
  | tail _ effect ih => exact (openings_of_effect effect).trans ih

theorem claimStep_of_ended (ended : s.run.status.ended = true) :
    claimStep stepID claimID workerID now s ≠ (.ok row, s') := by
  intro ok
  rw [(claimStep_ok _ _ _ ok).1] at ended
  cases ended

end Effects

section Histories

variable {definitionLint : Dag.DefinitionLint} {env : Environment}

/-- What every action hands on from the states before it relates each of them to the last. -/
theorem HistoryOf.handsOn {R : RunStore → RunStore → Prop}
    (history : HistoryOf definitionLint env meets (s :: past)) (refl : ∀ s, R s s)
    (step : ∀ action now before earlier, HistoryOf definitionLint env meets (before :: earlier) →
      ∀ seen ∈ before :: earlier, R seen before → R seen (act env action now before)) :
    ∀ seen ∈ s :: past, R seen s := by
  generalize isStates : s :: past = states at history
  induction history generalizing s past with
  | created =>
    cases isStates
    intro seen mem
    rw [mem_singleton.mp mem]
    exact refl _
  | @acted action now before earlier history _ _ ih =>
    cases isStates
    intro seen mem
    rcases mem_cons.mp mem with rfl | inside
    · exact refl _
    · exact step action now before earlier history seen inside (ih rfl seen inside)

theorem trail_is_kept (definitionLint : Dag.DefinitionLint) (env : Environment)
    (history : History definitionLint env (s :: past)) : ∀ seen ∈ s :: past, Trailed seen s :=
  history.handsOn .refl fun action now before earlier history seen _ trailed => by
    obtain ⟨unique, fit⟩ := history.invariant
      (attemptsFit_invariant definitionLint env.lint .all) before mem_cons_self
    exact trailed.trans (trailed_of_chain (act_reaches env action now before unique) unique fit)

theorem joinHealed_history : History Dag.quietDefinitionLint quietEnvironment
    [joinHealed, joinCancelled, act quietEnvironment (.claim "a" 7 "worker") 2 joinRun, joinRun] :=
  .acted (.acted (.acted (.created joinRun_created) (by simp) trivial) (by simp) trivial) (by simp)
    trivial

theorem join_trail_is_kept : Trailed joinCancelled joinHealed :=
  trail_is_kept _ _ joinHealed_history joinCancelled (by simp)

theorem act_of_ended (unique : UniqueSteps s) (ended : s.run.status.ended = true)
    (action : Action) (now : Time) :
    (act env action now s).attempts.map opening = s.attempts.map opening := by
  cases minted : action.minted with
  | none =>
    have reaches : Reaches env.lint (.minting fun _ => False) s (act env action now s) :=
      Tx.Ensures.commit Reaches.refl (Action.exec_sound
        { minted := fun _ mints => by simp [minted] at mints }) s
    exact openings_of_chain (reaches unique)
  | some claimID =>
    have refused : ∀ u s', action.exec env now s ≠ (.ok u, s') := by
      intro u s' ok
      cases action <;> cases minted
      · obtain ⟨_, claimed⟩ := void_ok ok
        exact claimStep_of_ended ended claimed
      · obtain ⟨_, t, taken, rest⟩ := bind_ok ok
        obtain ⟨_, claimed⟩ := void_ok rest
        have reaches : Reaches env.lint .all s t :=
          (Tx.Ensures.dropping (takeoverStep_sound _ _ _) isRefusal_of_isAlreadyReady).of_ok taken
        exact claimStep_of_ended (ended_of_reaches reaches unique ended) claimed
    unfold act commit
    split
    · rename_i ok
      exact absurd ok (refused _ _)
    · rfl

/-- Once a run has succeeded or is being cancelled, it keeps exactly the attempts it has. -/
theorem ended_run_starts_nothing (definitionLint : Dag.DefinitionLint) (env : Environment)
    (history : History definitionLint env (s :: past)) : ∀ seen ∈ s :: past,
      seen.run.status.ended = true → s.attempts.map opening = seen.attempts.map opening := by
  refine history.handsOn (R := fun seen s => seen.run.status.ended = true →
    s.attempts.map opening = seen.attempts.map opening) (fun _ _ => rfl) ?_
  intro action now before earlier history seen mem same ended
  obtain ⟨unique, _⟩ := history.invariant
    (attemptsFit_invariant definitionLint env.lint .all) before mem_cons_self
  exact (act_of_ended unique (history.ended seen mem ended) action now).trans (same ended)

theorem cancelled_join_starts_nothing : joinCancelled.run.status.ended = true ∧
    joinHealed.attempts.map opening = joinCancelled.attempts.map opening :=
  ⟨by decide, ended_run_starts_nothing _ _ joinHealed_history joinCancelled (by simp) (by decide)⟩

end Histories

end Agentloom.Engine
