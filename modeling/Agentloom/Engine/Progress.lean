import Agentloom.Engine.Flow
import Agentloom.Engine.Stranding

/-! Whether a running run always has a step that is ready, executing, waiting for a retry or for a
human. The roll-ups end a run whose steps are all settled, so that a run can only stall on a pending
step, and then on one that is impossible or on a cycle. -/

namespace Agentloom.Engine

open Transaction Store Relation List

variable {now : Time} {s : RunStore} {env : Environment} {action : Action}

structure Progressing (s : RunStore) : Prop where
  acyclic : AcyclicRun s
  flowing : Flowing (fun _ => False) s
  active : s.run.live = true → ∃ row ∈ s.steps, isActive row.status = true

/-- The plan that the action expands the run by leads nowhere back along the edges of the run. -/
def Action.Onward (s : RunStore) (action : Action) : Prop :=
  ∀ args, action.expands = some args → Dag.Onward (s.edges.map toDagEdge) args.plan.edges

structure Draining (owed : List EdgeVerdict) (s : RunStore) : Prop where
  unique : UniqueSteps s
  wired : Wired s
  acyclic : AcyclicRun s
  flowing : Flowing (Owed owed) s

theorem Draining.step (draining : Draining (verdict :: owed) s)
    (ok : resolveVerdict verdict now s = (.ok reaction, s')) :
    Draining (owed ++ reaction.verdicts) s' := by
  obtain ⟨unique, wired, acyclic, flowing⟩ := draining
  have reaches : Reaches Dag.quietPlanLint .all s s' := (resolveVerdict_sound verdict).of_ok ok
  rcases resolveVerdict_ok unique ok with ⟨rfl, rfl, missed⟩ | ⟨_, _, _, resolves, rfl⟩
  · refine ⟨unique, wired, acyclic, ?_⟩
    simpa [Reaction.verdicts] using flowing.absorbed missed
  · exact ⟨uniqueSteps_of_chain (reaches unique) unique, wired_of_reaches reaches unique wired,
      acyclic.of_edges (resolves.edges.map_eq toDagEdge rfl),
      flowing.resolved resolves unique wired.ordinals⟩

variable {source : TerminalSource}

theorem Draining.fanOut (draining : Draining source.verdicts s)
    (ok : fanOut source now s = (.ok fan, s')) : Draining [] s' := by
  have unique : ∀ owed s, Draining owed s → UniqueSteps s := fun _ _ draining => draining.unique
  have step : ∀ verdict owed s reaction s', Draining (verdict :: owed) s →
      resolveVerdict verdict now s = (.ok reaction, s') → Draining (owed ++ reaction.verdicts) s' :=
    fun _ _ _ _ _ draining ok => draining.step ok
  have rule := fanOut_rule unique step draining
  rw [ok] at rule
  exact rule

theorem Flowing.of_none_owed (flowing : Flowing (Owed []) s) : Flowing (fun _ => False) s := by
  refine ⟨fun edge mem normal unresolved row inside same settled => ?_, flowing.waits⟩
  obtain ⟨_, isOwed, _⟩ := flowing.paid edge mem normal unresolved row inside same settled
  cases isOwed

theorem exists_active (wired : Wired s) (booked : Booked s) (unfailed : Unfailed s)
    (acyclic : AcyclicRun s) (flowing : Flowing (fun _ => False) s) (sheltered : Sheltered s)
    (live : s.run.live = true) (unable : canSucceed s.run = false)
    (standing : canFail s.run = false) : ∃ row ∈ s.steps, isActive row.status = true := by
  by_contra none
  have stalled : ∀ row ∈ s.steps, isActive row.status = false := by
    intro row mem
    by_contra active
    exact none ⟨row, mem, by simpa using active⟩
  have all := settled_of_stalled wired acyclic flowing (sheltered.possible live) stalled unfailed
  have settled := booked.allSettled_iff.mpr all
  simp only [canFail, live, settled, Bool.true_and, Bool.and_true, decide_eq_false_iff_not] at standing
  have noneDead : withStatus .deadLettered s.steps = 0 := by
    rw [booked.counters] at standing
    change ¬(withStatus .deadLettered s.steps : Int) ≥ 1 at standing
    omega
  have alive : ∀ row ∈ s.steps, isDead row.status = false := by
    intro row mem
    have notFailed := unfailed row mem
    have notBuried := countP_eq_zero.mp noneDead row mem
    cases status : row.status <;> simp_all [isDead]
  have noneCancelled : withStatus .cancelled s.steps = 0 := by
    refine countP_eq_zero.mpr fun row mem => ?_
    simpa using sheltered.grounded.none alive row mem
  rw [allSettled, beq_iff_eq, booked.counters] at settled
  simp only [canSucceed, live, Bool.true_and, booked.counters, Bool.and_eq_false_iff,
    beq_eq_false_iff_ne] at unable
  simp only [Counters.total, census, noneDead, noneCancelled] at settled unable
  push_cast at settled unable
  refine unable.elim id fun short => ?_
  omega

variable {t : RunStore} {old new : StepRow}

section Changes

variable {action : Action} {s' : RunStore}

theorem Progressing.stir (progressing : Progressing s) (stir : Stir s s') : Progressing s' := by
  obtain ⟨acyclic, flowing, active⟩ := progressing
  cases stir with
  | kept same =>
    refine ⟨acyclic.of_edges (by rw [same.edges]), flowing.of_same same.steps same.edges, ?_⟩
    rw [live_congr same.status, same.steps]
    exact active
  | ran before after onFailure =>
    exact ⟨acyclic, flowing.of_same rfl rfl, fun _ => active before⟩
  | @shifted _ old new shifted before after =>
    obtain ⟨_, _, _, _, moved⟩ := isActive_spec after
    refine ⟨acyclic.of_edges (by rw [shifted.edges]), ?_,
      fun _ => ⟨new, shifted.replaced.new_mem, after⟩⟩
    refine flowing.shifted shifted (fun _ => id) (fun settled => ?_) moved
    cases status : new.status <;> simp [status, isActive, isSettled] at after settled

theorem Progressing.calm (progressing : Progressing s) (chain : ReflTransGen Stir s s') :
    Progressing s' := by
  induction chain with
  | refl => exact progressing
  | tail _ stir ih => exact ih.stir stir

variable (unique : UniqueSteps s) (wired : Wired s)

include unique wired

theorem Settles.draining (settles : Settles env.lint action.expands source s s₁ t old new)
    (onward : action.Onward s) (acyclic : AcyclicRun s)
    (flowing : Flowing (fun _ => False) s) : AcyclicRun t ∧ Flowing (Owed source.verdicts) t := by
  have moved : new.status ≠ .pending := by
    intro pending
    have settled := settles.settled
    rw [pending] at settled
    cases settled
  have flowing₁ : Flowing (fun edge => edge.fromStep = source.stepID) s₁ :=
    flowing.shifted settles.shifted (fun _ => False.elim)
      (fun _ edge leaves => leaves.trans settles.stepID.symm) moved
  have acyclic₁ : AcyclicRun s₁ := acyclic.of_edges (by rw [settles.shifted.edges])
  have unique₁ := settles.shifted.uniqueSteps unique
  rcases settles.grown with same | ⟨args, origin, _, expands, isOrigin, fits, same⟩
  · exact ⟨acyclic₁.of_edges (by rw [same.edges]),
      (flowing₁.of_same same.steps same.edges).covered settles.covers⟩
  · have wired₁ := settles.shifted.wired wired
    have grown := acyclic₁.expanded fits unique₁ wired₁
      (settles.shifted.edges ▸ onward args expands)
    rw [settles.stepID, ← isOrigin] at flowing₁
    have flows := (flowing₁.expanded fits unique₁).of_same same.steps same.edges
    rw [isOrigin, ← settles.stepID] at flows
    exact ⟨grown.of_edges (by rw [same.edges]), flows.covered settles.covers⟩

variable (booked : Booked s) (unfailed : Unfailed s)

include booked unfailed

theorem Progressing.routed (progressing : Progressing s) (onward : action.Onward s)
    (sourced : action.source env now s = (.ok (some source), t))
    (settles : Settles env.lint action.expands source s s₁ t old new)
    (routed : routeAndRollup (some source) now t = (.ok (), s')) (sheltered : Sheltered s')
    (unended : s'.run.status.ended = false) : Progressing s' := by
  have settling := (action.source_sound env now).of_ok sourced
  have unique' := uniqueSteps_of_chain (settling unique) unique
  obtain ⟨acyclic, flowing⟩ := settles.draining unique wired onward progressing.acyclic
    progressing.flowing
  obtain ⟨_, _, t₂, _, fanned, same, routing, rolled⟩ := routeAndRollup_ok env.lint routed
  have reaches : Reaches env.lint .all s t₂ := .trans _ _ _ settling routing
  have drained := Draining.fanOut ⟨unique', wired_of_reaches settling unique wired, acyclic, flowing⟩
    fanned
  have acyclic₂ : AcyclicRun t₂ := drained.acyclic.of_edges (by rw [same.edges])
  have flowing₂ := drained.flowing.of_none_owed.of_same same.steps same.edges
  rcases attemptRunRollup_ok rolled with ended | ⟨_, fails⟩ | ⟨unable, standing, rfl⟩
  · simp [unended] at ended
  · refine ⟨acyclic₂.of_edges (by rw [fails.edges]), flowing₂.of_same fails.steps fails.edges, ?_⟩
    rw [not_live_of_failed fails.status]
    simp
  · refine ⟨acyclic₂, flowing₂, fun live => ?_⟩
    exact exists_active (wired_of_reaches reaches unique wired)
      (booked_of_reaches reaches unique booked)
      ((unfailed_invariant Dag.quietDefinitionLint env.lint .all).chain (reaches unique) unique
        unfailed) acyclic₂ flowing₂ sheltered live unable standing

theorem Progressing.buried (progressing : Progressing s) (dies : Dies env.lint s t old new)
    (disposition : deadLetterDisposition t.run.onFailure now t = (.ok disposed, s'))
    (sheltered : Sheltered s') : Progressing s' := by
  have unique' := uniqueSteps_of_chain (dies.reaches unique) unique
  have acyclic' : AcyclicRun t := progressing.acyclic.of_edges (by rw [dies.shifted.edges])
  have flowing' : Flowing (fun _ => False) t := by
    refine progressing.flowing.shifted dies.shifted (fun _ => id) (fun settled => ?_)
      (by simp [dies.after])
    simp [dies.after, isSettled] at settled
  have unmarked : ∀ {u : RunStore}, Fails u s' → AcyclicRun u → Flowing (fun _ => False) u →
      Progressing s' := by
    intro u fails acyclic flowing
    refine ⟨acyclic.of_edges (by rw [fails.edges]), flowing.of_same fails.steps fails.edges, ?_⟩
    rw [not_live_of_failed fails.status]
    simp
  have dead : ∀ {u : RunStore}, Booked u → new ∈ u.steps → 1 ≤ u.run.counters.failed := by
    intro u booked mem
    have found : 0 < withStatus .deadLettered u.steps :=
      countP_pos_iff.mpr ⟨new, mem, by simp [dies.after]⟩
    rw [booked.counters]
    change (1 : Int) ≤ withStatus .deadLettered u.steps
    omega
  rcases deadLetterDisposition_ok env.lint unique' disposition with ⟨_, fails | ⟨missed, rfl⟩⟩ |
    ⟨_, u, mapped, reaches, outcome⟩
  · exact unmarked fails acyclic' flowing'
  · refine ⟨acyclic', flowing', fun live => ?_⟩
    have few := missed live
    have counted := dead (booked_of_reaches dies.reaches unique booked) dies.shifted.replaced.new_mem
    omega
  · have acyclic₂ : AcyclicRun u := acyclic'.of_edges (by rw [mapped.edges])
    have flowing₂ : Flowing (fun _ => False) u := by
      refine flowing'.mapped mapped (setIn_place (cancelledRow_place now)) ?_ ?_
      all_goals
        intro row _
        unfold setIn
        split
        · simp [cancelledRow, isSettled]
        · first | exact id | exact .inl
    rcases outcome with ⟨_, fails⟩ | ⟨standing, rfl⟩
    · exact unmarked fails acyclic₂ flowing₂
    · refine ⟨acyclic₂, flowing₂, fun live => ?_⟩
      have toHere : Reaches env.lint .all s s' := .trans _ _ _ dies.reaches reaches
      have booked' := booked_of_reaches toHere unique booked
      have kept : new ∈ s'.steps := by
        rw [mapped.steps]
        refine mem_map.mpr ⟨new, dies.shifted.replaced.new_mem, setIn_of_notMem fun marked => ?_⟩
        obtain ⟨_, inside, same, pending⟩ := planWriteOff_pending _ marked
        have isRow := Table.eq_of_key unique' ((mem_insertionSort _).mp inside)
          dies.shifted.replaced.new_mem same
        simp [isRow, dies.after] at pending
      have unable : canSucceed s'.run = false := by
        have counted := dead booked' kept
        have some : s'.run.counters.failed ≠ 0 := by omega
        simp [canSucceed, some]
      exact exists_active (wired_of_reaches toHere unique wired) booked'
        ((unfailed_invariant Dag.quietDefinitionLint env.lint .all).chain (toHere unique) unique
          unfailed) acyclic₂ flowing₂ sheltered live unable standing

omit booked unfailed in
theorem Progressing.requeued (progressing : Progressing s)
    (grounded : Grounded s.steps s.edges) (unended : s.run.status.ended = false)
    (requeued : Engine.requeue stepID now s = (.ok (), s')) : Progressing s' := by
  obtain ⟨_, s₂, s₃, _, new, _, shifted, _, isReady, steps, edges, _, _, mapped, same⟩ :=
    requeue_ok unended unique requeued
  have unique₂ : UniqueSteps s₂ := by
    unfold UniqueSteps
    rw [steps]
    exact shifted.uniqueSteps unique
  have flowing₂ : Flowing (fun _ => False) s₂ := by
    refine (progressing.flowing.shifted shifted (fun _ => id) (fun settled => ?_)
      (by simp [isReady])).of_same steps edges
    simp [isReady, isSettled] at settled
  -- A step that is revived was cancelled as impossible, so that it waits for an edge.
  have revived : ∀ row ∈ s₂.steps, row.stepID ∈ revivable s₂ → Waits row := by
    intro row mem isRevived
    have cancelled := ((mem_revivable unique₂ mem).mp isRevived).1
    rw [steps] at mem
    have inside : row ∈ s.steps := by
      rcases shifted.replaced.mem_of_mem mem with rfl | inside
      · simp [isReady] at cancelled
      · exact inside
    have impossible := grounded.impossible unique inside cancelled
    obtain ⟨edge, into, _⟩ := impossible.source
    refine ⟨(remaining_pos_iff wired inside).mpr ⟨edge, into⟩, fun joins => ?_⟩
    exact ((impossible_of_join joins).mp impossible).1
  have flowing₃ : Flowing (fun _ => False) s₃ := by
    refine flowing₂.mapped mapped (setIn_place (revivedRow_place now)) ?_ ?_
    · intro row _
      unfold setIn
      split
      · simp [revivedRow, isSettled]
      · exact id
    · intro row mem
      unfold setIn
      split
      · rename_i isRevived
        exact fun _ => .inr (revived row mem isRevived)
      · exact .inl
  have edges' : s'.edges = s.edges :=
    same.edges.trans (mapped.edges.trans (edges.trans shifted.edges))
  refine ⟨progressing.acyclic.of_edges (by rw [edges']), flowing₃.of_same same.steps same.edges, ?_⟩
  have mem : new ∈ s₂.steps := steps ▸ shifted.replaced.new_mem
  refine fun _ => ⟨new, ?_, by rw [isReady]; rfl⟩
  rw [same.steps, mapped.steps]
  refine mem_map.mpr ⟨new, mem, setIn_of_notMem fun isRevived => ?_⟩
  have cancelled := ((mem_revivable unique₂ mem).mp isRevived).1
  simp [isReady] at cancelled

theorem Progressing.change (progressing : Progressing s) (change : Change env action now s s')
    (onward : action.Onward s) (before : Sheltered s) (after : Sheltered s')
    (unended : s.run.status.ended = false) (live : s'.run.status.ended = false) :
    Progressing s' := by
  cases change with
  | calm chain => exact progressing.calm chain
  | ended ended =>
    simp [live] at ended
  | routed sourced settles routed =>
    exact progressing.routed unique wired booked unfailed onward sourced settles routed after live
  | buried dies disposition =>
    exact progressing.buried unique wired booked unfailed dies disposition after
  | requeued _ requeued =>
    exact progressing.requeued unique wired before.grounded unended requeued

end Changes

theorem founded_progressing (founded : Founded definitionLint definition s) : Progressing s := by
  have wellFormed := Dag.validates_wellFormed founded.validated
  have steps := (Dag.validates_steps founded.validated).1
  obtain ⟨entry, _, _, _, planned, rfl⟩ := founded.planned
  have isEntry : ∀ step ∈ definition.steps,
      entry.contains step.id = true ↔ inDegree definition.edges step.id = 0 := by
    intro step mem
    rw [contains_iff_mem, mem_entry_iff founded.validated planned]
    exact ⟨fun ⟨_, _, _, free⟩ => free, fun free => ⟨step, mem, rfl, free⟩⟩
  refine ⟨?_, ⟨?_, ?_⟩, fun _ => ?_⟩
  · refine wellFormed.acyclic.mono ?_
    rintro a b ⟨edge, mem, normal, fromEq, toEq⟩
    obtain ⟨row, inside, rfl⟩ := mem_map.mp mem
    obtain ⟨placed, isPlaced, rfl⟩ := mem_map.mp inside
    exact ⟨placed.1, fst_mem_of_mem_zipIdx isPlaced, normal, fromEq, toEq⟩
  · intro edge _ _ _ row mem _ settled
    rcases initialSteps_unsettled row mem with ready | pending
    · simp [ready, isSettled] at settled
    · simp [pending, isSettled] at settled
  · intro row mem pending
    obtain ⟨step, inside, rfl⟩ := mem_map.mp mem
    refine ⟨Nat.pos_of_ne_zero fun none => ?_, fun _ => rfl⟩
    have ready := (isEntry step inside).mpr none
    simp only [stepRowParams, ready, if_true] at pending
    cases pending
  · -- the first step along the edges has no dependency
    obtain ⟨_, mem, first⟩ := Acyclic.exists_source wellFormed.acyclic definition.stepIDs
      (by simpa [Dag.Definition.stepIDs] using steps)
    obtain ⟨step, inside, rfl⟩ := mem_map.mp mem
    have none : inDegree definition.edges step.id = 0 := by
      refine countP_eq_zero.mpr fun edge isEdge into => ?_
      simp only [Bool.and_eq_true, Bool.not_eq_true', beq_iff_eq] at into
      exact first edge.fromStep (wellFormed.ends edge isEdge).1 ⟨edge, isEdge, into.1, rfl, into.2⟩
    refine ⟨_, mem_map_of_mem inside, ?_⟩
    simp only [stepRowParams, (isEntry step inside).mpr none, if_true]
    rfl

/-- The histories in which the completions spare the joins, no failed run is resumed while another
step blocks a pending one, and no expansion leads back. -/
abbrev GuardedHistory (definitionLint : Dag.DefinitionLint) (env : Environment) :
    List RunStore → Prop :=
  HistoryOf definitionLint env fun action now s =>
    action.Spares env now s ∧ action.Clear s ∧ action.Onward s

theorem HistoryOf.progressing (history : GuardedHistory definitionLint env states) :
    ∀ s ∈ states, s.run.status.ended = false → Sheltered s ∧ Progressing s := by
  refine history.rule ?_ ?_
  · intro definition s creation
    obtain ⟨_, founded, same⟩ := created_sameGraph creation
    exact ⟨(Founded.sheltered founded).of_same same,
      (founded_progressing founded).stir (.kept same)⟩
  · rintro action now s ⟨spared, clear, onward⟩ known unended live change ⟨sheltered, progressing⟩
    obtain ⟨unique, wired⟩ := known _ (wired_invariant definitionLint env.lint .all)
    have booked := (known _ (booked_invariant definitionLint env.lint .all)).2
    have unfailed := (known _ (unfailed_invariant definitionLint env.lint .all)).2
    have after := sheltered.change unique wired booked change spared clear unended live
    exact ⟨after, progressing.change unique wired booked unfailed change onward sheltered after
      unended live⟩

/-- In every state of every run whose actions all meet the condition, a running run has a step that
is ready, running, retrying or awaiting a human. -/
theorem running_run_has_active_step (definitionLint : Dag.DefinitionLint) (env : Environment)
    (states : List RunStore) (history : GuardedHistory definitionLint env states) :
    ∀ s ∈ states, s.run.status = .running →
      ∃ row ∈ s.steps, row.status = .ready ∨ row.status = .running ∨ row.status = .retrying ∨
        row.status = .awaitingHuman := by
  intro s member running
  have live := live_of_running (beq_iff_eq.mpr running)
  obtain ⟨row, inside, active⟩ :=
    (history.progressing s member (RunRow.live_not_ended live)).2.active live
  refine ⟨row, inside, ?_⟩
  cases status : row.status <;> simp [status, isActive] at active ⊢

/-! Two branches, one of them of two steps. Both entry steps are dead-lettered before one of them is
requeued, or only the requeued one is. -/

def branchDefinition : Dag.Definition :=
  { name := "branches"
    steps := [{ id := "a", type := .noop }, { id := "b", type := .noop }, { id := "c", type := .noop }]
    edges := [{ fromStep := "b", toStep := "c" }] }

def branchRun : RunStore := opened branchDefinition ["a", "b"]

theorem branchRun_created : Created Dag.quietDefinitionLint branchDefinition branchRun :=
  ⟨"", none, 1, rfl⟩

def branchFailed : RunStore :=
  act quietEnvironment (.fail "a" 7 { outcome := .permanent } [] (.bury false)) 4
    (act quietEnvironment (.claim "b" 8 "worker") 3
      (act quietEnvironment (.claim "a" 7 "worker") 2 branchRun))

def branchBuried : RunStore :=
  act quietEnvironment (.fail "b" 8 { outcome := .permanent } [] (.bury false)) 5 branchFailed

def branchStalled : RunStore :=
  act quietEnvironment (.succeed { stepID := "a", stepType := .noop, claimID := 9 }) 8
    (act quietEnvironment (.claim "a" 9 "worker") 7
      (act quietEnvironment (.requeue "a") 6 branchBuried))

theorem requeue_after_two_failures_stalls :
    ∃ past, History Dag.quietDefinitionLint quietEnvironment (branchStalled :: past) ∧
      branchStalled.run.status = .running ∧
      branchStalled.steps.map (fun row => (row.stepID, row.status)) =
        [("a", .succeeded), ("b", .deadLettered), ("c", .pending)] := by
  have buried : ∃ past, History Dag.quietDefinitionLint quietEnvironment (branchBuried :: past) :=
    ⟨_, .acted (.acted (.acted (.acted (.created branchRun_created) (by simp) trivial)
      (by simp) trivial) (by simp) trivial) (by simp)
      trivial⟩
  obtain ⟨_, history⟩ := buried
  exact ⟨_, .acted (.acted (.acted history (by simp) trivial) (by simp)
    trivial) (by simp) trivial, by decide, by decide⟩

def branchRequeued : RunStore := act quietEnvironment (.requeue "a") 5 branchFailed

theorem Action.onward_of_unexpanded (unexpanded : action.expands = none) : action.Onward s := by
  intro args expands
  simp [unexpanded] at expands

theorem Action.guarded_of_plain (unsourced : action.source env now = pure none)
    (plain : ∀ stepID, action ≠ .requeue stepID) (unexpanded : action.expands = none) :
    action.Spares env now s ∧ action.Clear s ∧ action.Onward s :=
  ⟨spares_of_unsourced unsourced, fun stepID isRequeue => absurd isRequeue (plain stepID),
    onward_of_unexpanded unexpanded⟩

theorem requeue_after_one_failure_clear : (Action.requeue "a").Clear branchFailed := by
  rintro stepID isRequeue _ _ row _ _ impossible
  cases isRequeue
  obtain ⟨edge, _, ⟨source, mem, isSource, blocked⟩, apart⟩ := impossible.source
  have only : ∀ row ∈ branchFailed.steps, isBlocked row.status = true → row.stepID = "a" := by decide
  exact apart (isSource.symm.trans (only source mem blocked))

theorem requeue_after_one_failure_progresses : branchRequeued.run.status = .running ∧
      ∃ row ∈ branchRequeued.steps, row.status = .ready ∨ row.status = .running ∨
        row.status = .retrying ∨ row.status = .awaitingHuman := by
  have failed : GuardedHistory Dag.quietDefinitionLint quietEnvironment (branchFailed :: _) :=
    .acted (.acted (.acted (.created branchRun_created) (by simp)
      (Action.guarded_of_plain rfl nofun rfl)) (by simp)
      (Action.guarded_of_plain rfl nofun rfl)) (by simp)
      (Action.guarded_of_plain rfl nofun rfl)
  have requeued : GuardedHistory Dag.quietDefinitionLint quietEnvironment
      (branchRequeued :: branchFailed :: _) :=
    .acted failed (by simp)
      ⟨Action.spares_of_unsourced rfl, requeue_after_one_failure_clear,
        Action.onward_of_unexpanded rfl⟩
  exact ⟨by decide, running_run_has_active_step _ _ _ requeued _ mem_cons_self (by decide)⟩

end Agentloom.Engine
