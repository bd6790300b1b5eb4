import Agentloom.Engine.Runs
import Agentloom.Engine.WriteOff

/-! What an action can do to the graph of a run that has not ended. Most actions only move a step
between active statuses; the others settle a step and route it, bury one, requeue one, or end the
run. -/

namespace Agentloom.Engine

open Transaction Store Relation List Tx

variable {s s' : RunStore} {lint : Dag.PlanLint} {now : Time}

structure SameGraph (s s' : RunStore) : Prop where
  steps : s'.steps = s.steps
  edges : s'.edges = s.edges
  status : s'.run.status = s.run.status
  onFailure : s'.run.onFailure = s.run.onFailure

theorem SameGraph.refl (s : RunStore) : SameGraph s s := ⟨rfl, rfl, rfl, rfl⟩

theorem SameGraph.trans (s s' s'' : RunStore) (first : SameGraph s s') (second : SameGraph s' s'') :
    SameGraph s s'' :=
  ⟨second.steps.trans first.steps, second.edges.trans first.edges,
    second.status.trans first.status, second.onFailure.trans first.onFailure⟩

structure Shifted (s s' : RunStore) (old new : StepRow) : Prop where
  replaced : Table.Replaced s.steps s'.steps old new
  place : SamePlace old new
  edges : s'.edges = s.edges
  status : s'.run.status = s.run.status
  onFailure : s'.run.onFailure = s.run.onFailure

variable {old new : StepRow}

theorem Shifted.before (shifted : Shifted s s' old new) (same : SameGraph s₀ s) :
    Shifted s₀ s' old new :=
  ⟨same.steps ▸ shifted.replaced, shifted.place, shifted.edges.trans same.edges,
    shifted.status.trans same.status, shifted.onFailure.trans same.onFailure⟩

theorem Shifted.after (shifted : Shifted s s' old new) (same : SameGraph s' s'') :
    Shifted s s'' old new :=
  ⟨same.steps.symm ▸ shifted.replaced, shifted.place, same.edges.trans shifted.edges,
    same.status.trans shifted.status, same.onFailure.trans shifted.onFailure⟩

theorem SamePlace.of_sameStep (same : SameStep old new) : SamePlace old new :=
  ⟨same.stepID, by rw [isJoinAny, isJoinAny, same.stepType, same.config], same.remaining, same.fired⟩

variable {row : StepRow}

theorem shifted_of_run {t : StepTransition} (ok : t.run s = (.ok row, s')) (moves : t.Moves) :
    ∃ old, old.stepID = t.stepID ∧ t.guard old = true ∧ row = t.set old ∧ Shifted s s' old row := by
  obtain ⟨old, _, _, _, _, named, guarded, rfl, replaced, _, _, rfl⟩ := StepTransition.run_ok ok
  exact ⟨old, named, guarded, rfl, replaced, .of_sameStep (moves old guarded).toSameStep, rfl, rfl,
    rfl⟩

abbrev Keeps {α : Type} (x : StoreTx α) : Prop := Tx.Ensures StoreError.isRefusal SameGraph x

theorem Keeps.bind {α β : Type} {x} {f : α → StoreTx β} (first : Keeps x)
    (second : ∀ a, Keeps (f a)) : Keeps (x >>= f) :=
  Tx.Ensures.bind SameGraph.trans first second

theorem Keeps.forEach {α : Type} {items} {body : α → StoreTx Unit}
    (each : ∀ item, Keeps (body item)) : Keeps (Tx.forEach items body) :=
  Tx.Ensures.forEach SameGraph.trans SameGraph.refl fun item _ => each item

theorem Keeps.of_state {α : Type} {x : StoreTx α} (keeps : ∀ s, (x s).2 = s) : Keeps x := by
  refine .intro ?_ ?_
  · intro s a s' ok
    rw [← show (x s).2 = s' from congrArg Prod.snd ok, keeps]
    exact .refl s
  · intro s e s' failed _
    rw [← show (x s).2 = s' from congrArg Prod.snd failed, keeps]
    exact .refl s

theorem SameGraph.of_beside (beside : Beside s s') : SameGraph s s' :=
  ⟨beside.steps, beside.edges, beside.status, beside.onFailure⟩

theorem appendEvent_keeps (event : Event) : Keeps (appendEvent event) :=
  .write fun _ => ⟨rfl, rfl, rfl, rfl⟩

theorem createOutbox_keeps (stepID : String) (reason : OutboxReason) :
    Keeps (createOutbox stepID reason) :=
  .write fun _ => ⟨rfl, rfl, rfl, rfl⟩

theorem recordNotes_keeps (stepID : String) (notes : List Note) (now : Time) :
    Keeps (recordNotes stepID notes now columns) :=
  (recordNotes_beside stepID notes).mono fun _ _ => SameGraph.of_beside

theorem redispatch_keeps (reason : OutboxReason) : Keeps (redispatch reason) :=
  (Keeps.of_state fun _ => rfl).bind fun _ => .forEach fun _ => createOutbox_keeps _ _

theorem updateApproval_keeps (guard : ApprovalRow → Bool) (set : ApprovalRow → ApprovalRow) :
    Keeps (updateApproval guard set) := by
  refine .intro ?_ fun s e s' failed => absurd failed updateApproval_error
  intro s row s' ok
  cases row with
  | none =>
    rw [(updateApproval_none ok).1]
    exact .refl s
  | some row =>
    obtain ⟨_, _, _, _, _, rfl⟩ := updateApproval_some ok
    exact ⟨rfl, rfl, rfl, rfl⟩

theorem getApproval_keeps (op : String) (id : ApprovalID) : Keeps (getApproval op id) := by
  refine (Keeps.of_state fun _ => rfl).bind fun found => ?_
  cases found with
  | some row => exact .of_state fun _ => rfl
  | none => exact .of_state fun _ => rfl

theorem decideApproval_keeps (args : DecideApproval) (now : Time) :
    Keeps (decideApproval args now columns) := by
  refine (Keeps.of_state (requireNow_state _ _)).bind fun _ =>
    (Keeps.of_state (requireArgument_state _ _ _)).bind fun _ =>
      (Keeps.of_state (requireArgument_state _ _ _)).bind fun _ =>
        (updateApproval_keeps _ _).bind fun decided => ?_
  cases decided with
  | none => exact (getApproval_keeps _ _).bind fun _ => .of_state fun _ => rfl
  | some approval => exact (appendEvent_keeps _).bind fun _ => .of_state fun _ => rfl

def isActive : StepStatus → Bool
  | .ready => true
  | .running => true
  | .retrying => true
  | .awaitingHuman => true
  | _ => false

inductive Stir : RunStore → RunStore → Prop
  | kept {s s' : RunStore} (same : SameGraph s s') : Stir s s'
  | ran {s : RunStore} {row : RunRow} {events : List EventRow} (before : s.run.live = true)
      (after : row.live = true) (onFailure : row.onFailure = s.run.onFailure) :
      Stir s { s with run := row, events }
  | shifted {s s' : RunStore} {old new : StepRow} (shifted : Shifted s s' old new)
      (before : isActive old.status = true) (after : isActive new.status = true) : Stir s s'

abbrev Calms {α : Type} (x : StoreTx α) : Prop :=
  Tx.Ensures StoreError.isRefusal (ReflTransGen Stir) x

theorem Calms.of_keeps {α : Type} {x : StoreTx α} (keeps : Keeps x) : Calms x :=
  keeps.mono fun _ _ same => .single (.kept same)

theorem Calms.of_state {α : Type} {x : StoreTx α} (keeps : ∀ s, (x s).2 = s) : Calms x :=
  .of_keeps (.of_state keeps)

theorem Calms.bind {α β : Type} {x} {f : α → StoreTx β} (first : Calms x)
    (second : ∀ a, Calms (f a)) : Calms (x >>= f) :=
  Tx.Ensures.bind (fun _ _ _ => .trans) first second

theorem Calms.conflicts {α : Type} {x : StoreTx α} (calms : Calms x) :
    Calms (dropping StoreError.isConflict x) :=
  Tx.Ensures.dropping calms fun e conflict => by
    cases e <;> first | rfl | exact conflict

theorem Calms.of_run {t : StepTransition} (moves : t.Moves)
    (before : ∀ row, t.guard row = true → isActive row.status = true)
    (after : ∀ row, isActive (t.set row).status = true) : Calms t.run := by
  refine fun s => .of_clean .refl (t.run_clean s) fun row s' ok => ?_
  obtain ⟨old, _, guarded, rfl, shifted⟩ := shifted_of_run ok moves
  exact .single (.shifted shifted (before old guarded) (after old))

variable {claimID : ClaimID}

theorem isActive_of_held (row : StepRow) (held : heldBy claimID row = true) :
    isActive row.status = true := by
  rw [heldBy_running row held]
  rfl

theorem Calms.of_runTransition {t : RunTransition}
    (before : ∀ row : RunRow, t.guard row = true → row.live = true)
    (after : ∀ row : RunRow, (t.set row).live = true)
    (onFailure : ∀ row : RunRow, (t.set row).onFailure = row.onFailure) : Calms t.run := by
  refine .intro ?_ ?_
  · intro s row s' ok
    obtain ⟨guarded, _, rfl⟩ := RunTransition.run_ok ok
    exact .single (.ran (before s.run guarded) (by exact after s.run) (by exact onFailure s.run))
  · intro s e s' failed _
    rw [(RunTransition.run_error failed).1]

theorem live_of_running {row : RunRow} (running : (row.status == .running) = true) :
    row.live = true := by
  rw [RunRow.live, running]
  rfl

theorem live_of_parked {row : RunRow} (parked : (row.status == .parked) = true) :
    row.live = true := by
  rw [RunRow.live, parked, Bool.or_true]

section Calm

variable (now : Time)

theorem parkRun_calms (reason : ParkReason) : Calms (parkRun reason now) :=
  .of_runTransition (fun _ => live_of_running) (fun _ => rfl) fun _ => rfl

theorem unpark_calms : Calms (unpark now) :=
  (Calms.of_runTransition (fun _ => live_of_parked) (fun _ => rfl) fun _ => rfl).bind fun _ =>
    .of_keeps (redispatch_keeps _)

theorem takeoverStep_calms (stepID : String) (claimID : ClaimID) :
    Calms (takeoverStep stepID claimID now) :=
  .of_run (takeover_moves stepID claimID now) isActive_of_held fun _ => rfl

theorem claimStep_calms (stepID : String) (claimID : ClaimID) (workerID : String) :
    Calms (claimStep stepID claimID workerID now) := by
  refine fun s => .of_clean .refl (claimStep_clean _ _ _ _ s) fun row s' ok => ?_
  obtain ⟨_, _, _, _, _, claims, rfl, replaced, _, _, _, _, _, rfl⟩ :=
    claimStep_ok _ _ _ ok
  refine .single (.shifted ⟨replaced, ⟨rfl, rfl, rfl, rfl⟩, rfl, rfl, rfl⟩ ?_ rfl)
  rcases claimable_status claims with status | status <;> rw [status] <;> rfl

theorem retryStep_calms (stepID : String) (claimID : ClaimID) (failure : Failure)
    (nextAttemptAt : Time) : Calms (retryStep stepID claimID failure nextAttemptAt now) :=
  (Calms.of_state (requireNow_state _ _)).bind fun _ =>
    (Calms.of_state (requireArgument_state _ _ _)).bind fun _ =>
      (Calms.of_state (requireArgument_state _ _ _)).bind fun _ =>
        .of_run (retry_moves stepID claimID now failure nextAttemptAt) isActive_of_held fun _ => rfl

theorem throttleStep_calms (stepID : String) (claimID : ClaimID) (resource bucket retryAfter : String)
    (nextAttemptAt : Time) :
    Calms (throttleStep stepID claimID resource bucket retryAfter nextAttemptAt now) :=
  (Calms.of_state (requireNow_state _ _)).bind fun _ =>
    (Calms.of_state (requireArgument_state _ _ _)).bind fun _ =>
      .of_run (throttle_moves stepID claimID now resource bucket retryAfter nextAttemptAt)
        isActive_of_held fun _ => rfl

theorem semanticRetryStep_calms (stepID : String) (claimID : ClaimID) (args : SemanticRetry) :
    Calms (semanticRetryStep stepID claimID args now) :=
  (Calms.of_state (requireNow_state _ _)).bind fun _ =>
    (Calms.of_state (requireArgument_state _ _ _)).bind fun _ =>
      .of_run (semanticRetry_moves stepID claimID now args) isActive_of_held fun _ => rfl

theorem updateRun_calms {guard} {set : RunRow → RunRow} {event missed}
    (before : ∀ row : RunRow, guard row = true → row.live = true)
    (after : ∀ row : RunRow, (set row).live = true)
    (onFailure : ∀ row : RunRow, (set row).onFailure = row.onFailure) (otherwise : Calms missed) :
    Calms (do
      match ← updateRun guard set with
      | some _ => appendEvent event
      | none => missed) := by
  intro s
  unfold Tx.EnsuresAt
  rw [bind_apply, updateRun_apply]
  by_cases guarded : guard s.run = true
  · simp only [guarded, ↓reduceIte]
    exact .single (.ran (before s.run guarded) (by exact after s.run) (by exact onFailure s.run))
  · simp only [guarded, Bool.false_eq_true, ↓reduceIte]
    exact otherwise s

theorem budgetParkStep_calms (stepID : String) (claimID : ClaimID) (payload : Json) :
    Calms (budgetParkStep stepID claimID payload now) := by
  refine (Calms.of_state fun _ => rfl).bind fun run => Calms.bind (.of_run
    (budgetRelease_moves stepID claimID now payload) isActive_of_held fun _ => rfl) fun _ => ?_
  refine Calms.bind ?_ fun _ => .of_state fun _ => rfl
  unfold parkOverBudget
  split
  · exact updateRun_calms (fun _ => live_of_running) (fun _ => rfl) (fun _ => rfl)
      (.of_state fun _ => rfl)
  · exact .of_state fun _ => rfl

theorem awaitHumanStep_calms (stepID : String) (claimID : ClaimID) (content : ApprovalContent) :
    Calms (awaitHumanStep stepID claimID content now) := by
  refine fun s => .of_clean .refl (awaitHumanStep_clean _ _ _ _ s) fun row s' ok => ?_
  obtain ⟨old, _, _, held, rfl, replaced, _, _, rfl⟩ := awaitHumanStep_ok ok
  exact .single (.shifted ⟨replaced, ⟨rfl, rfl, rfl, rfl⟩, rfl, rfl, rfl⟩ (isActive_of_held old held)
    rfl)

theorem setRunBudget_calms (budgetNanoUSD : Int) : Calms (setRunBudget budgetNanoUSD now) := by
  refine (Calms.of_state (requireNow_state _ _)).bind fun _ =>
    (Calms.of_state fun _ => rfl).bind fun locked => .of_keeps fun s => ?_
  unfold Tx.EnsuresAt
  rw [bind_apply, updateRun_apply]
  by_cases guarded : (!s.run.status.terminal) = true
  · simp only [guarded, ↓reduceIte]
    exact ⟨rfl, rfl, rfl, rfl⟩
  · simp only [guarded, Bool.false_eq_true, ↓reduceIte]
    exact fun _ => .refl s

theorem recordModelDowngrade_calms (stepID : String) (claimID : ClaimID) (payload : Json) :
    Calms (recordModelDowngrade stepID claimID payload now) := by
  refine (Calms.of_state (requireNow_state _ _)).bind fun _ =>
    (Calms.of_state (getRunStep_state _ _)).bind fun row => ?_
  split
  · exact .of_keeps (appendEvent_keeps _)
  · exact .of_state fun _ => rfl

theorem expireApprovalPark_calms (args : ExpireApprovalPark) :
    Calms (expireApprovalPark args now) := by
  refine (Calms.of_state (requireNow_state _ _)).bind fun _ =>
    (Calms.of_state fun _ => rfl).bind fun run =>
      (Calms.of_keeps (updateApproval_keeps _ _)).bind fun marked => ?_
  cases marked with
  | none =>
    refine (Calms.of_keeps (getApproval_keeps _ _)).bind fun current => ?_
    split
    · exact .of_state fun _ => rfl
    · exact .of_state fun _ => rfl
  | some approval =>
    refine Calms.bind ?_ fun _ => (Calms.of_keeps (appendEvent_keeps _)).bind fun _ =>
      .of_state fun _ => rfl
    unfold parkForTimeout
    split
    · exact .of_state fun _ => rfl
    · exact (parkRun_calms now _).bind fun _ => .of_state fun _ => rfl

theorem healRunningStep_calms (stepID : String) (claimID : ClaimID) (hasPendingOutbox : Bool) :
    Calms (healRunningStep stepID claimID hasPendingOutbox now) := by
  refine (takeoverStep_calms now _ _).conflicts.bind fun taken => ?_
  cases taken with
  | none => exact .of_state fun _ => rfl
  | some row =>
    dsimp only
    split
    · exact .of_state fun _ => rfl
    · exact .of_keeps (createOutbox_keeps _ _)

end Calm

def Covers (source : TerminalSource) (s : RunStore) : Prop :=
  source.verdicts.map EdgeVerdict.ordinal =
    ((listEdgesFromStep source.stepID s).filter fun edge => edge.edgeType == .normal).map
      EdgeRow.ordinal

theorem planVerdicts_ordinals (ok : planVerdicts isBranch evaluate isMatched edges = .ok verdicts) :
    verdicts.map EdgeVerdict.ordinal =
      (edges.filter fun edge => edge.edgeType == .normal).map EdgeRow.ordinal := by
  induction edges generalizing isMatched verdicts with
  | nil =>
    cases ok
    rfl
  | cons edge rest ih =>
    unfold planVerdicts at ok
    split at ok
    · rename_i loop
      rw [filter_cons_of_neg (by simpa using loop)]
      exact ih ok
    · rename_i normal
      simp only [bind, Except.bind] at ok
      split at ok
      · cases ok
      · rename_i fired _
        split at ok
        · cases ok
        · rename_i later planned
          cases ok
          rw [filter_cons_of_pos (by simpa using normal), map_cons, map_cons,
            ih planned]

variable {stepID : String}

theorem terminalSource_ok (selects : ∀ edges verdicts,
      (select edges verdicts).map EdgeVerdict.ordinal = verdicts.map EdgeVerdict.ordinal)
        (ok : terminalSource stepID stepType evaluator select s = (.ok source, s')) :
    s' = s ∧ source.stepID = stepID ∧ Covers source s := by
  unfold terminalSource at ok
  rw [bind_apply, read_apply] at ok
  cases planned : planEdges stepType evaluator (listEdgesFromStep stepID s) with
  | error msg =>
    simp only [planned] at ok
    cases ok
  | ok verdicts =>
    simp only [planned] at ok
    cases ok
    cases evaluator with
    | error msg => cases planned
    | ok evaluate => exact ⟨rfl, rfl, (selects _ _).trans (planVerdicts_ordinals planned)⟩

def Action.expands : Action → Option ExpandRun
  | .succeed args => args.expansion.map fun expansion => expansion.args args.stepID
  | _ => none

structure Settles (lint : Dag.PlanLint) (expands : Option ExpandRun)
    (source : TerminalSource) (s s₁ t : RunStore) (old new : StepRow) : Prop where
  shifted : Shifted s s₁ old new
  before : isActive old.status = true
  after : new.status = .succeeded ∨ new.status = .collected
  grown : SameGraph s₁ t ∨ ∃ (args : ExpandRun) (origin : StepRow) (now : Time),
    expands = some args ∧ args.originStep = new.stepID ∧
      args.Fits lint origin now s₁ ∧ SameGraph (args.apply origin now s₁) t
  stepID : source.stepID = new.stepID
  covers : Covers source t

structure MovesTo (stepID : String) (settled : StepStatus) (s t : RunStore) (old new : StepRow) :
    Prop where
  shifted : Shifted s t old new
  named : old.stepID = stepID
  before : isActive old.status = true
  after : new.status = settled

structure Verdicts where
  stepType : Dag.StepType
  evaluator : Evaluator
  select : List EdgeRow → List EdgeVerdict → List EdgeVerdict
  selects : ∀ edges verdicts,
    (select edges verdicts).map EdgeVerdict.ordinal = verdicts.map EdgeVerdict.ordinal

def Verdicts.plain (stepType : Dag.StepType) (evaluator : Evaluator) : Verdicts :=
  ⟨stepType, evaluator, fun _ verdicts => verdicts, fun _ _ => rfl⟩

structure SettlesTo (stepID : String) (verdicts : Verdicts) (settled : StepStatus)
    (source : TerminalSource) (s t : RunStore) (old new : StepRow) : Prop
    extends MovesTo stepID settled s t old new where
  planned : terminalSource stepID verdicts.stepType verdicts.evaluator verdicts.select t =
    (.ok source, t)

theorem SettlesTo.settles (lint : Dag.PlanLint) (expands : Option ExpandRun)
    (settlesTo : SettlesTo stepID verdicts settled source s t old new)
    (after : settled = .succeeded ∨ settled = .collected) :
    Settles lint expands source s t t old new := by
  obtain ⟨_, isStep, covers⟩ := terminalSource_ok verdicts.selects settlesTo.planned
  exact ⟨settlesTo.shifted, settlesTo.before, settlesTo.after ▸ after, .inl (.refl _),
    isStep.trans (settlesTo.named.symm.trans settlesTo.shifted.place.stepID.symm), covers⟩

theorem Covers.of_same (covers : Covers source s) (edges : s'.edges = s.edges) :
    Covers source s' := by
  unfold Covers listEdgesFromStep listRunEdges at covers ⊢
  rw [edges]
  exact covers

def decisionSource (satisfies : Json → Json → Bool) (args : Decision) (seen : RunStore)
    (now : Time) : StoreTx (Option TerminalSource) :=
  match admitDecision satisfies args seen with
  | .error e => Tx.throw e
  | .ok (approval, step) => settleDecision approval step args now

def Action.source (env : Environment) (now : Time) : Action → StoreTx (Option TerminalSource)
  | .succeed args => settleSuccess env.lint args now
  | .collect args => do
      let status ← lockRunStatus now
      if status = .cancelling then pure none
      else do
        let source ← settleCollected args now
        pure (some source)
  | .decide args seen => decisionSource env.satisfies args seen now
  | .timeout stepID output evaluator seen later =>
    match dueApproval stepID seen now with
    | none => pure none
    | some approval =>
      match approvalTimeoutPolicy stepID seen with
      | .park => pure none
      | .approve => decisionSource env.satisfies
          (timeoutDecision approval.id .approve output evaluator) later now
      | .reject => decisionSource env.satisfies
          (timeoutDecision approval.id .reject output evaluator) later now
  | _ => pure none

theorem decisionSource_sound (satisfies : Json → Json → Bool) (args : Decision) (seen : RunStore)
    (now : Time) : Sound lint .all (decisionSource satisfies args seen now) := by
  unfold decisionSource
  split
  · exact .throw _
  · exact settleDecision_sound trivial _ _ _

theorem Action.source_sound (env : Environment) (now : Time) (action : Action) :
    Sound env.lint .all (action.source env now) := by
  cases action with
  | succeed args => exact settleSuccess_sound trivial trivial args fun _ _ => trivial
  | collect args =>
    refine (lockRunStatus_sound now).bind fun status => ?_
    split
    · exact .pure _
    · refine Sound.bind ?_ fun _ => .pure _
      exact (collectFailStep_sound _ _ _ _ _).bind fun _ =>
        (recordNotes_sound _ _ fun _ _ => trivial).bind fun _ =>
        terminalSource_sound _ _ _ _
  | decide => exact decisionSource_sound _ _ _ _
  | timeout stepID output evaluator seen later =>
    unfold Action.source
    dsimp only
    split
    · exact .pure _
    · split
      · exact .pure _
      · exact decisionSource_sound _ _ _ _
      · exact decisionSource_sound _ _ _ _
  | _ => exact .pure _

theorem expandRun_grows {args result} (ok : expandRun lint args now s = (.ok result, s')) :
    ∃ origin, args.Fits lint origin now s ∧ SameGraph (args.apply origin now s) s' := by
  obtain ⟨origin, event, fits, _, announced⟩ := expandRun_ok ok
  have keeps : Keeps (Tx.forEach args.readied (fun id => appendEvent (.stepReady id)) >>= fun _ =>
      Tx.forEach args.readied fun id => createOutbox id .stepReady) :=
    Keeps.bind (.forEach fun _ => appendEvent_keeps _) fun _ =>
      .forEach fun _ => createOutbox_keeps _ _
  have recorded : SameGraph (args.apply origin now s) ((args.apply origin now s).record event) :=
    ⟨rfl, rfl, rfl, rfl⟩
  exact ⟨origin, fits, .trans _ _ _ recorded (keeps.of_ok announced)⟩

variable {t : RunStore}

theorem settleSuccess_plans
    (live : s.run.status ≠ .cancelling) (ok : settleSuccess lint args now s = (.ok source, t)) :
    ∃ found s₁ old new, source = some found ∧ MovesTo args.stepID .succeeded s s₁ old new ∧
      (SameGraph s₁ t ∨ ∃ plan origin,
        (Action.succeed args).expands = some plan ∧ plan.originStep = args.stepID ∧
          plan.Fits lint origin now s₁ ∧ SameGraph (plan.apply origin now s₁) t) ∧
      terminalSource args.stepID args.stepType args.evaluator (fun _ verdicts => verdicts) t =
        (.ok found, t) := by
  have rest₁ := lockRunStatus_bind_ok ok
  obtain ⟨_, _, succeeded, rest₂⟩ := bind_ok rest₁
  obtain ⟨old, named, held, rfl, shifted⟩ :=
    shifted_of_run (requireArgument_bind_ok succeeded)
      (succeed_moves args.stepID args.claimID now args.completion)
  obtain ⟨_, s₃, noted, rest₃⟩ := bind_ok rest₂
  have shifted₃ := shifted.after ((recordNotes_keeps _ _ _).of_ok noted)
  unfold sourceOfSuccess at rest₃
  rw [if_neg live] at rest₃
  obtain ⟨_, _, grown, rest₄⟩ := bind_ok rest₃
  obtain ⟨_, _, looped, rest₅⟩ := bind_ok rest₄
  obtain ⟨found, _, planned, rest₆⟩ := bind_ok rest₅
  cases rest₆
  obtain ⟨rfl, _⟩ := terminalSource_ok (fun _ _ => rfl) planned
  have keeps := (recordNotes_keeps _ _ _).of_ok looped
  refine ⟨found, s₃, old, _, rfl, ⟨shifted₃, named, isActive_of_held old held, rfl⟩, ?_, planned⟩
  cases expansion : args.expansion with
  | none =>
    rw [expansion] at grown
    cases grown
    exact .inl keeps
  | some plan =>
    rw [expansion] at grown
    obtain ⟨_, expanded⟩ := void_ok grown
    obtain ⟨origin, fits, same⟩ := expandRun_grows expanded
    refine .inr ⟨plan.args args.stepID, origin, ?_, rfl, fits, .trans _ _ _ same keeps⟩
    simp only [Action.expands, expansion, Option.map_some]

theorem settleSuccess_ok
    (live : s.run.status ≠ .cancelling) (ok : settleSuccess lint args now s = (.ok source, t)) :
    ∃ found s₁ old new, source = some found ∧
      Settles lint (Action.succeed args).expands found s s₁ t old new := by
  obtain ⟨found, s₁, old, new, rfl, moves, grown, planned⟩ := settleSuccess_plans live ok
  obtain ⟨_, isStep, covers⟩ := terminalSource_ok (fun _ _ => rfl) planned
  have named := moves.named.symm.trans moves.shifted.place.stepID.symm
  refine ⟨found, s₁, old, new, rfl, moves.shifted, moves.before, .inl moves.after, ?_,
    isStep.trans named, covers⟩
  refine grown.imp_right fun ⟨plan, origin, expands, isOrigin, fits, same⟩ => ?_
  exact ⟨plan, origin, now, expands, isOrigin.trans named, fits, same⟩

theorem settleSuccess_settlesTo (plain : args.expansion = none) (live : s.run.status ≠ .cancelling)
    (ok : settleSuccess lint args now s = (.ok source, t)) :
    ∃ found old new, source = some found ∧
      SettlesTo args.stepID (.plain args.stepType args.evaluator) .succeeded found s t old new := by
  obtain ⟨found, _, old, new, rfl, moves, same | ⟨_, _, expands, _⟩, planned⟩ :=
    settleSuccess_plans live ok
  · exact ⟨found, old, new, rfl, { moves with shifted := moves.shifted.after same }, planned⟩
  · simp [Action.expands, plain] at expands

theorem settleCollected_settlesTo (ok : settleCollected args now s = (.ok source, t)) :
    ∃ old new,
      SettlesTo args.stepID (.plain args.stepType args.evaluator) .collected source s t old new := by
  obtain ⟨_, _, collected, rest₁⟩ := bind_ok ok
  obtain ⟨old, named, held, rfl, shifted⟩ := shifted_of_run collected
    (collectFail_moves args.stepID args.claimID now args.failure args.marker)
  obtain ⟨_, _, noted, rest₂⟩ := bind_ok rest₁
  obtain ⟨rfl, _⟩ := terminalSource_ok (fun _ _ => rfl) rest₂
  exact ⟨old, _, ⟨shifted.after ((recordNotes_keeps _ _ _).of_ok noted), named,
    isActive_of_held old held, rfl⟩, rest₂⟩

theorem settleDecision_settlesTo (spared : args.request.buries step = false)
    (ok : settleDecision approval step args now s = (.ok found, t)) :
    s.run.live = true ∧ ∃ source old new, found = some source ∧
      SettlesTo step.stepID ⟨step.stepType, args.evaluator,
        filterDecisionVerdicts args.request.decision, fun _ _ => by simp [filterDecisionVerdicts]⟩
        .succeeded source s t old new := by
  obtain ⟨_, _, live, rest₁⟩ := bind_ok ok
  obtain ⟨isLive, rfl⟩ := requireLiveRun_ok live
  obtain ⟨row, _, decided, rest₃⟩ := bind_ok rest₁
  have keeps := (decideApproval_keeps _ _).of_ok decided
  unfold settleStep at rest₃
  rw [spared] at rest₃
  obtain ⟨source, _, succeeded, rest₄⟩ := bind_ok rest₃
  cases rest₄
  obtain ⟨_, _, left, planned⟩ := bind_ok succeeded
  obtain ⟨old, named, waits, rfl, shifted⟩ :=
    shifted_of_run (requireArgument_bind_ok left) (succeedAwaitingHuman_moves step.stepID now args.output)
  have waiting : old.status = .awaitingHuman := eq_of_beq waits
  obtain ⟨rfl, _⟩ := terminalSource_ok (fun edges verdicts => by simp [filterDecisionVerdicts]) planned
  refine ⟨isLive, source, old, _, rfl, ⟨shifted.before keeps, named, ?_, rfl⟩, planned⟩
  rw [waiting]
  rfl

structure Dies (lint : Dag.PlanLint) (s t : RunStore) (old new : StepRow) : Prop where
  shifted : Shifted s t old new
  before : isActive old.status = true ∨ old.status = .pending
  after : new.status = .deadLettered
  reaches : Reaches lint .all s t

variable {failure : Failure}

theorem deadLetterStep_dies (lint : Dag.PlanLint)
    (ok : deadLetterStep stepID claimID source failure now s = (.ok row, t)) :
    ∃ old, old.stepID = stepID ∧ Dies lint s t old row := by
  have reaches : Reaches lint .all s t := (deadLetterStep_sound _ _ _ _ _).of_ok ok
  have rest₁ := requireNow_bind_ok ok
  have rest₂ := requireArgument_bind_ok rest₁
  obtain ⟨old, named, held, rfl, shifted⟩ :=
    shifted_of_run rest₂ (deadLetter_moves stepID claimID now source failure)
  exact ⟨old, named, shifted, .inl (isActive_of_held old held), rfl, reaches⟩

variable {u : Unit}

theorem buryStep_ok (lint : Dag.PlanLint)
    (ok : buryStep stepID claimID source failure notes now s = (.ok u, s')) :
    ∃ t old new disposed, Dies lint s t old new ∧
      deadLetterDisposition t.run.onFailure now t = (.ok disposed, s') := by
  obtain ⟨_, s₁, buried, rest₁⟩ := bind_ok ok
  obtain ⟨_, s₂, noted, rest₂⟩ := bind_ok rest₁
  have rest₃ := read_bind_ok rest₂
  obtain ⟨disposed, disposition⟩ := void_ok rest₃
  have noting : Reaches lint .all s₁ s₂ := (recordNotes_sound _ _ fun _ _ => trivial).of_ok noted
  obtain ⟨old, _, dies⟩ := deadLetterStep_dies lint buried
  exact ⟨s₂, old, _, disposed, ⟨dies.shifted.after ((recordNotes_keeps _ _ _).of_ok noted),
    dies.before, dies.after, .trans _ _ _ dies.reaches noting⟩, disposition⟩

theorem decideDeadLetter_ok (lint : Dag.PlanLint)
    (ok : decideDeadLetter stepID comment now columns s = (.ok u, s')) :
    ∃ t old new disposed, Dies lint s t old new ∧
      deadLetterDisposition t.run.onFailure now t = (.ok disposed, s') := by
  have rest₁ := read_bind_ok ok
  obtain ⟨_, s₂, buried, rest₂⟩ := bind_ok rest₁
  obtain ⟨disposed, disposition⟩ := void_ok rest₂
  have reaches : Reaches lint .all s s₂ :=
    (deadLetterAwaitingHumanStep_sound _ _ trivial _).of_ok buried
  obtain ⟨old, _, waits, rfl, shifted⟩ := shifted_of_run (requireArgument_bind_ok buried)
    (deadLetterAwaitingHuman_moves stepID now (some (rejectionError comment)))
  have waiting : old.status = .awaitingHuman := eq_of_beq waits
  refine ⟨s₂, old, _, disposed, ⟨shifted, .inl ?_, rfl, reaches⟩, ?_⟩
  · rw [waiting]
    rfl
  · rw [shifted.onFailure]
    exact disposition

variable {error : Option Json}

theorem poisonDeadLetterStep_ok (lint : Dag.PlanLint)
    (ok : poisonDeadLetterStep stepID error payload now s = (.ok row, t)) :
    ∃ old new, Dies lint s t old new := by
  have reaches : Reaches lint .all s t := (poisonDeadLetterStep_sound _ _ trivial _ _).of_ok ok
  have rest₁ := requireNow_bind_ok ok
  obtain ⟨_, _, read, rest₂⟩ := bind_ok rest₁
  obtain ⟨_, rfl⟩ := getRunStep_ok read
  obtain ⟨old, _, _, _, _, _, guarded, rfl, replaced, _, _, rfl⟩ := StepTransition.run_ok rest₂
  refine ⟨old, _, ⟨replaced, ⟨rfl, rfl, rfl, rfl⟩, rfl, rfl, rfl⟩, ?_, rfl, reaches⟩
  simp only [poison, Bool.or_eq_true, beq_iff_eq] at guarded
  rcases guarded with ((status | status) | status) | status
  · exact .inr status
  all_goals exact .inl (by rw [status]; rfl)

section Ended

variable {may : Permits}

theorem ended_of_effect (effect : Effect lint may s s') (ended : s.run.status.ended = true) :
    s'.run.status.ended = true := by
  cases effect with
  | ran _ ends _ _ => exact ends ended
  | _ => exact ended

theorem ended_of_reaches (reaches : Reaches lint may s s') (unique : UniqueSteps s)
    (ended : s.run.status.ended = true) : s'.run.status.ended = true := by
  have chain := reaches unique
  clear reaches
  induction chain with
  | refl => exact ended
  | tail _ effect ih => exact ended_of_effect effect ih

theorem onFailure_of_reaches (reaches : Reaches lint may s s') (unique : UniqueSteps s) :
    s'.run.onFailure = s.run.onFailure := by
  have chain := reaches unique
  clear reaches
  induction chain with
  | refl => rfl
  | tail _ effect ih =>
    refine Eq.trans ?_ ih
    cases effect with
    | ran books _ _ _ => exact books.onFailure
    | _ => rfl

theorem dropped_run_ok {t : RunTransition}
    (ok : dropping StoreError.isConflict t.run s = (.ok found, s')) :
    (found = some (t.set s.run) ∧ t.guard s.run = true ∧
        s' = RunStore.record { s with run := t.set s.run } t.event) ∨
      (found = none ∧ t.guard s.run = false ∧ s' = s) := by
  unfold dropping at ok
  split at ok
  · rename_i row s₁ ran
    cases ok
    obtain ⟨guarded, rfl, rfl⟩ := RunTransition.run_ok ran
    exact .inl ⟨rfl, guarded, rfl⟩
  · rename_i e s₁ failed
    split at ok
    · rename_i conflict
      cases ok
      obtain ⟨rfl, zero | missed⟩ := RunTransition.run_error failed
      · -- a zero time is refused as an argument, before the guard
        unfold RunTransition.run requireNow at failed
        rw [if_pos zero] at failed
        cases failed
        cases conflict
      · exact .inr ⟨rfl, missed, rfl⟩
    · cases ok

theorem attemptCancelRollup_ok {found : Option RunRow}
    (ok : attemptCancelRollup now s = (.ok found, s')) : s' = s ∨ s'.run.status.ended = true := by
  rcases dropped_run_ok ok with ⟨_, _, rfl⟩ | ⟨_, _, rfl⟩
  · exact .inr rfl
  · exact .inl rfl

theorem cancelRun_ends {reason row} (ok : cancelRun reason now s = (.ok row, s')) :
    s'.run.status.ended = true := by
  obtain ⟨_, _, rfl⟩ := RunTransition.run_ok ok
  rfl

theorem cancelRunTx_ends (unique : UniqueSteps s) :
    (∀ u, cancelRunTx reason now s = (.ok u, s') → s'.run.status.ended = true) ∧
      ∀ e, cancelRunTx reason now s = (.error e, s') → e.isRefusal = true →
        s' = s ∨ s'.run.status.ended = true := by
  have unique₁ : ∀ row s₁, cancelRun reason now s = (.ok row, s₁) → UniqueSteps s₁ := by
    intro row s₁ cancelled
    have reaches : Reaches Dag.quietPlanLint .all s s₁ :=
      (cancelRun_sound now trivial reason).of_ok cancelled
    exact uniqueSteps_of_chain (reaches unique) unique
  constructor
  · intro u ok
    obtain ⟨row, s₁, cancelled, swept⟩ := bind_ok ok
    have reaches : Reaches Dag.quietPlanLint .all s₁ s' :=
      (sweepUnclaimed_sound trivial).of_ok swept
    exact ended_of_reaches reaches (unique₁ row s₁ cancelled) (cancelRun_ends cancelled)
  · intro e failed refused
    rcases bind_error failed with early | ⟨row, s₁, cancelled, late⟩
    · exact .inl (RunTransition.run_error early).1
    · have sound : Sound Dag.quietPlanLint .all (sweepUnclaimed now) := sweepUnclaimed_sound trivial
      exact .inr (ended_of_reaches ((sound s₁).of_error late refused) (unique₁ row s₁ cancelled)
        (cancelRun_ends cancelled))

theorem enforceDeadline_ends {payload} (unique : UniqueSteps s)
    (ok : Engine.enforceDeadline payload now s = (.ok u, s')) :
    s' = s ∨ s'.run.status.ended = true := by
  obtain ⟨_, _, dropped, rest⟩ := bind_ok ok
  unfold dropping at dropped
  split at dropped
  · rename_i cancelled
    cases dropped
    have keeps := ((Keeps.of_state (requireNow_state _ _)).bind fun _ => appendEvent_keeps _).of_ok rest
    rw [keeps.status]
    exact .inr ((cancelRunTx_ends unique).1 _ cancelled)
  · rename_i e s₂ failed
    split at dropped
    · rename_i conflict
      cases dropped
      cases rest
      refine (cancelRunTx_ends unique).2 e failed ?_
      cases e <;> first | rfl | exact conflict
    · cases dropped

end Ended

section Cancelling

variable {otherwise : StoreTx Unit}

theorem unlessCancelling_parts (uncancelled : s.run.status ≠ .cancelling)
    (ok : unlessCancelling stepID claimID error now otherwise s = (.ok u, s')) :
    otherwise s = (.ok u, s') := by
  have rest := lockRunStatus_bind_ok ok
  rwa [if_neg uncancelled] at rest

theorem unlessCancelling_settles (cancelling : s.run.status = .cancelling)
    (ok : unlessCancelling stepID claimID error now otherwise s = (.ok u, s')) :
    ∃ t old new found, Shifted s t old new ∧ new.status = .cancelled ∧
      attemptCancelRollup now t = (.ok found, s') := by
  have rest := lockRunStatus_bind_ok ok
  rw [if_pos cancelling] at rest
  obtain ⟨_, t, settled, rest₁⟩ := bind_ok rest
  obtain ⟨found, rolled⟩ := void_ok rest₁
  have rest₂ := requireNow_bind_ok settled
  have rest₃ := requireArgument_bind_ok rest₂
  obtain ⟨old, _, _, rfl, shifted⟩ := shifted_of_run rest₃ (cancelRunning_moves _ _ _ _ _)
  exact ⟨t, old, _, found, shifted, rfl, rolled⟩

end Cancelling

inductive Change (env : Environment) (action : Action) (now : Time) (s s' : RunStore) : Prop
  | calm (chain : ReflTransGen Stir s s')
  | ended (ended : s'.run.status.ended = true)
  | routed {source : TerminalSource} {s₁ t : RunStore} {old new : StepRow}
      (sourced : action.source env now s = (.ok (some source), t))
      (settles : Settles env.lint action.expands source s s₁ t old new)
      (routed : routeAndRollup (some source) now t = (.ok (), s'))
  | buried {t : RunStore} {old new : StepRow} {disposed : List String × Bool}
      (dies : Dies env.lint s t old new)
      (disposition : deadLetterDisposition t.run.onFailure now t = (.ok disposed, s'))
  | requeued {stepID : String} (isRequeue : action = .requeue stepID)
      (requeued : Engine.requeue stepID now s = (.ok (), s'))

variable {action : Action}

section Actions

variable {env : Environment} (unended : s.run.status.ended = false)

include unended

theorem not_cancelling : s.run.status ≠ .cancelling := by
  intro cancelling
  simp [cancelling, RunStatus.ended] at unended

theorem Change.of_calms (calms : Calms otherwise)
    (ok : unlessCancelling stepID claimID error now otherwise s = (.ok u, s')) :
    Change env action now s s' :=
  .calm (calms.of_ok (unlessCancelling_parts (not_cancelling unended) ok))

theorem collect_change (ok : completeCollected args now s = (.ok u, s')) :
    Change env (.collect args) now s s' := by
  have settled := unlessCancelling_parts (not_cancelling unended) ok
  obtain ⟨_, t, collected, routed⟩ := bind_ok settled
  obtain ⟨_, _, settles⟩ := settleCollected_settlesTo collected
  refine .routed ?_ (settles.settles env.lint _ (.inr rfl)) routed
  obtain ⟨_, _, locked, _⟩ := bind_ok ok
  obtain ⟨rfl, rfl⟩ := lockRunStatus_ok locked
  refine (bind_of_ok locked).trans ?_
  rw [if_neg (not_cancelling unended)]
  exact bind_of_ok collected

omit unended in
theorem decide_change
    (sourced : ∀ found t, decisionSource env.satisfies args seen now s = (.ok found, t) →
      action.source env now s = (.ok found, t))
    (ok : Engine.decide env.satisfies args seen now s = (.ok u, s')) :
    Change env action now s s' := by
  have source := sourced
  unfold decisionSource at source
  unfold Engine.decide at ok
  obtain ⟨approval, step, admitted⟩ : ∃ approval step,
      admitDecision env.satisfies args seen = .ok (approval, step) := by
    cases admitted : admitDecision env.satisfies args seen with
    | error e =>
      simp [admitted] at ok
    | ok rows => exact ⟨rows.1, rows.2, rfl⟩
  rw [admitted] at source ok
  obtain ⟨found, t, settled, routed⟩ := bind_ok ok
  have given := source found t settled
  cases buries : args.request.buries step with
  | false =>
    obtain ⟨_, _, old, new, rfl, settles⟩ := settleDecision_settlesTo buries settled
    exact .routed given (settles.settles env.lint _ (.inl rfl)) routed
  | true =>
    obtain ⟨_, s₁, live, rest₁⟩ := bind_ok settled
    obtain ⟨_, rfl⟩ := requireLiveRun_ok live
    obtain ⟨_, s₃, decided, rest₃⟩ := bind_ok rest₁
    have keeps := (decideApproval_keeps _ _).of_ok decided
    have reaches : Reaches env.lint .all s₁ s₃ := (decideApproval_sound now trivial _).of_ok decided
    unfold settleStep at rest₃
    rw [buries] at rest₃
    obtain ⟨_, _, buried, rest₄⟩ := bind_ok rest₃
    cases rest₄
    cases routed
    obtain ⟨t, _, _, _, dies, disposition⟩ := decideDeadLetter_ok env.lint buried
    exact .buried ⟨dies.shifted.before keeps, dies.before, dies.after,
      .trans _ _ _ reaches dies.reaches⟩ disposition

theorem bury_change (ok : unlessCancelling stepID claimID error now
      (buryStep stepID claimID source failure notes now) s = (.ok u, s')) :
    Change env action now s s' := by
  obtain ⟨t, _, _, _, dies, disposition⟩ :=
    buryStep_ok env.lint (unlessCancelling_parts (not_cancelling unended) ok)
  exact .buried dies disposition

omit unended in
theorem poison_change {payload : Option Json}
    (ok : handlePoison stepID error payload now s = (.ok u, s')) : Change env action now s s' := by
  have rest₁ := read_bind_ok ok
  obtain ⟨_, t, buried, rest₂⟩ := bind_ok rest₁
  obtain ⟨_, s₂, disposition, rest₃⟩ := bind_ok rest₂
  obtain ⟨_, _, dies⟩ := poisonDeadLetterStep_ok env.lint buried
  rw [← dies.shifted.onFailure] at disposition
  have after : s' = s₂ ∨ s'.run.status.ended = true := by
    dsimp only at rest₃
    unfold cancelRollupUnless at rest₃
    split at rest₃
    · cases rest₃
      exact .inl rfl
    · obtain ⟨_, rolled⟩ := void_ok rest₃
      exact attemptCancelRollup_ok rolled
  rcases after with rfl | ended
  · exact .buried dies disposition
  · exact .ended ended

theorem exec_change (unique : UniqueSteps s)
    (reads : ∀ seen ∈ action.reads, seen.run.status.ended = false)
    (ok : action.exec env now s = (.ok u, s')) : Change env action now s s' := by
  cases action with
  | claim => exact .calm ((claimStep_calms now _ _ _).void.of_ok ok)
  | takeoverAndClaim =>
    exact .calm ((Calms.bind (Tx.Ensures.dropping (takeoverStep_calms now _ _)
      isRefusal_of_isAlreadyReady) fun _ => (claimStep_calms now _ _ _).void).of_ok ok)
  | succeed args =>
    obtain ⟨_, t, settled, routed⟩ := bind_ok ok
    obtain ⟨_, _, _, _, rfl, settles⟩ :=
      settleSuccess_ok (not_cancelling unended) settled
    exact .routed settled settles routed
  | fail stepID claimID failure notes failureRoute =>
    cases failureRoute with
    | retry nextAttemptAt =>
      refine .of_calms unended ?_ ok
      exact (retryStep_calms now _ _ _ _).bind fun _ => .of_keeps (recordNotes_keeps _ _ _)
    | bury exhausted => exact bury_change unended ok
  | collect args => exact collect_change unended ok
  | throttle => exact .of_calms unended (throttleStep_calms now _ _ _ _ _ _).void ok
  | budgetPark => exact .of_calms unended (budgetParkStep_calms now _ _ _).void ok
  | awaitHuman => exact .of_calms unended (awaitHumanStep_calms now _ _ _).void ok
  | invalidate stepID claimID failure notes validationRoute =>
    cases validationRoute with
    | semanticRetry =>
      refine .of_calms unended ?_ ok
      exact (semanticRetryStep_calms now _ _ _).bind fun _ =>
        (Calms.of_keeps (createOutbox_keeps _ _)).bind fun _ =>
          .of_keeps (recordNotes_keeps _ _ _)
    | bury error => exact bury_change unended ok
  | poison => exact poison_change ok
  | requeue stepID => exact .requeued rfl ok
  | cancel => exact .ended ((cancelRunTx_ends unique).1 _ ok)
  | enforceDeadline =>
    rcases enforceDeadline_ends unique ok with rfl | ended
    · exact .calm .refl
    · exact .ended ended
  | park => exact .calm ((parkRun_calms now _).void.of_ok ok)
  | unpark => exact .calm ((unpark_calms now).of_ok ok)
  | setBudget => exact .calm ((setRunBudget_calms now _).void.of_ok ok)
  | decide args seen => exact decide_change (fun _ _ sourced => sourced) ok
  | timeout stepID output evaluator seen later =>
    change handleApprovalTimeout _ _ _ _ _ _ _ _ = _ at ok
    unfold handleApprovalTimeout at ok
    cases due : dueApproval stepID seen now with
    | none =>
      rw [due] at ok
      cases ok
      exact .calm .refl
    | some approval =>
      rw [due] at ok
      cases policy : approvalTimeoutPolicy stepID seen with
      | park =>
        simp only [policy] at ok
        exact .calm ((expireApprovalPark_calms now _).void.of_ok ok)
      | approve =>
        simp only [policy] at ok
        exact decide_change (fun _ _ sourced => by simpa [Action.source, due, policy]) ok
      | reject =>
        simp only [policy] at ok
        exact decide_change (fun _ _ sourced => by simpa [Action.source, due, policy]) ok
  | healRunning => exact .calm ((healRunningStep_calms now _ _ _).of_ok ok)
  | healCancelling stepID claimID seen =>
    have scanned : seen.run.status ≠ .cancelling :=
      not_cancelling (reads seen (by simp))
    change healScanned stepID claimID seen now s = _ at ok
    unfold healScanned at ok
    rw [if_neg scanned] at ok
    cases ok
    exact .calm .refl
  | downgrade => exact .calm ((recordModelDowngrade_calms now _ _ _).of_ok ok)
  | record stepID entry =>
    exact .calm (.single (.kept (.of_beside ((recordNote_beside stepID entry).of_ok ok))))
  | enqueue => exact .calm (.single (.kept ((createOutbox_keeps _ _).of_ok ok)))
  | drain kept =>
    cases ok
    exact .calm (.single (.kept ⟨rfl, rfl, rfl, rfl⟩))

theorem act_change (unique : UniqueSteps s)
    (reads : ∀ seen ∈ action.reads, seen.run.status.ended = false) :
    Change env action now s (act env action now s) := by
  unfold act commit
  split
  · rename_i ok
    exact exec_change unended unique reads ok
  · exact .calm .refl

end Actions

end Agentloom.Engine
