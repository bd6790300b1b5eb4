import Mathlib.Data.List.Dedup
import Agentloom.Store.Effects

/-! Every transition is a chain of effects, also where its caller drops a refusal. -/

namespace Agentloom.Store

open Transaction List Tx

variable {lint : Dag.PlanLint} {may : Permits}

abbrev Sound (lint : Dag.PlanLint) (may : Permits) {α : Type} (x : StoreTx α) : Prop :=
  Tx.Ensures StoreError.isRefusal (Reaches lint may) x

section Rules

variable {α β : Type} {x : StoreTx α}

theorem Sound.pure (a : α) : Sound lint may (Pure.pure a : StoreTx α) :=
  Tx.Ensures.pure Reaches.refl a

theorem Sound.throw (e : StoreError) : Sound lint may (Tx.throw e : StoreTx α) :=
  Tx.Ensures.throw Reaches.refl e

theorem Sound.read (f : RunStore → α) : Sound lint may (Tx.read f : StoreTx α) :=
  Tx.Ensures.read Reaches.refl f

theorem Sound.bind {f : α → StoreTx β} (first : Sound lint may x)
    (second : ∀ a, Sound lint may (f a)) : Sound lint may (x >>= f) :=
  Tx.Ensures.bind Reaches.trans first second

theorem Sound.forEach {items} {body : α → StoreTx Unit}
    (each : ∀ item ∈ items, Sound lint may (body item)) : Sound lint may (Tx.forEach items body) :=
  Tx.Ensures.forEach Reaches.trans Reaches.refl each

theorem Sound.of_state (keeps : ∀ s, (x s).2 = s) : Sound lint may x := by
  refine .intro ?_ ?_
  · intro s a s' ok
    rw [← show (x s).2 = s' from congrArg Prod.snd ok, keeps]
    exact Reaches.refl s
  · intro s e s' failed _
    rw [← show (x s).2 = s' from congrArg Prod.snd failed, keeps]
    exact Reaches.refl s

theorem Sound.conflicts (sound : Sound lint may x) :
    Sound lint may (dropping StoreError.isConflict x) :=
  Tx.Ensures.dropping sound fun e conflict => by
    cases e <;> first | rfl | exact conflict

end Rules

theorem requireNow_sound (op : String) (now : Time) : Sound lint may (requireNow op now) := by
  unfold requireNow
  split
  · exact .throw _
  · exact .pure _

theorem requireArgument_sound (valid : Bool) (op msg : String) :
    Sound lint may (requireArgument valid op msg) := by
  unfold requireArgument
  split
  · exact .pure _
  · exact .throw _

theorem getRunStep_sound (op stepID : String) : Sound lint may (getRunStep op stepID) :=
  .of_state (getRunStep_state op stepID)

theorem lockRun_sound : Sound lint may lockRun := .read _

theorem appendEvent_sound (event : Event) (plain : event.runTotals = none) :
    Sound lint may (appendEvent event) :=
  .write fun _ => .single (.recorded event plain)

theorem createOutbox_sound (sends : may.sends) (stepID : String) (reason : OutboxReason) :
    Sound lint may (createOutbox stepID reason) :=
  .write fun _ => .single (.enqueued _ (.inr sends))

def StepTransition.Moves (t : StepTransition) : Prop :=
  ∀ row, t.guard row = true → StepMove row (t.set row) t.finish t.delta

def StepTransition.Passes (may : Permits) (t : StepTransition) : Prop :=
  ∀ row, t.guard row = true → row.status = .awaitingHuman → may.gates

variable {t : StepTransition}

theorem StepTransition.run_sound (moves : t.Moves)
    (plain : ∀ row seq, (t.event row seq).runTotals = none) (passes : t.Passes may)
    (begins : ∀ row, t.guard row = true → Begins may row (t.set row)) : Sound lint may t.run := by
  refine fun s => .of_clean (.refl s) (t.run_clean s) fun row s' ok => ?_
  obtain ⟨old, _, _, _, _, _, guarded, rfl, replaced, finished, lettered,
    rfl⟩ := StepTransition.run_ok ok
  exact .single (.moved (moves old guarded) (passes old guarded) replaced finished lettered
    (begins old guarded) (plain _ _))

variable {claimID : ClaimID} {row : StepRow}

theorem heldBy_iff :
    heldBy claimID row = true ↔ row.status = .running ∧ row.claimID = some claimID := by
  rw [heldBy, Bool.and_eq_true, beq_iff_eq, beq_iff_eq]

theorem StepTransition.Moves.leaving (sources : List StepStatus)
    (guard : ∀ row, t.guard row = true → row.status ∈ sources)
    (same : ∀ row, SameStep row (t.set row)) (lands : ∀ row, (t.set row).status = t.target)
    (rests : t.target.isRest = true)
    (status : ∀ source ∈ sources, tally t.target = (tally source).add t.delta ∧
      t.finish.isSome = source.isOpen) : t.Moves := by
  intro row guarded
  obtain ⟨balanced, closes⟩ := status row.status (guard row guarded)
  exact ⟨same row, by rw [lands]; exact balanced, by rw [lands]; exact rests, closes⟩

theorem tally_of_open {status} (isOpen : status.isOpen = true) : tally status = {} := by
  cases status <;> first | rfl | cases isOpen

theorem StepTransition.Moves.closing {source} (isOpen : source.isOpen = true)
    (guard : ∀ row, t.guard row = true → row.status = source) (closes : t.finish.isSome = true)
    (same : ∀ row, SameStep row (t.set row)) (lands : ∀ row, (t.set row).status = t.target)
    (rests : t.target.isRest = true) (balanced : tally t.target = t.delta) : t.Moves := by
  refine .leaving [source] ?_ same lands rests ?_
  · intro row guarded
    exact mem_singleton.mpr (guard row guarded)
  · intro other mem
    rw [mem_singleton.mp mem, tally_of_open isOpen, isOpen, closes, balanced]
    simp [Counters.add]

theorem heldBy_running (row : StepRow) (held : heldBy claimID row = true) : row.status = .running :=
  (heldBy_iff.mp held).1

theorem StepTransition.sound_of_sources {sources : List StepStatus}
    (guard : ∀ row, t.guard row = true → row.status ∈ sources) (settled : .awaitingHuman ∉ sources)
    (moves : t.Moves) (plain : ∀ row seq, (t.event row seq).runTotals = none)
    (begins : ∀ row, t.guard row = true → Begins may row (t.set row)) : Sound lint may t.run :=
  StepTransition.run_sound moves plain
    (fun row guarded waits => absurd (waits ▸ guard row guarded) settled) begins

theorem StepTransition.held_sound (guard : t.guard = heldBy claimID) (moves : t.Moves)
    (plain : ∀ row seq, (t.event row seq).runTotals = none) : Sound lint may t.run := by
  have running : ∀ row, t.guard row = true → row.status = .running := by
    rw [guard]
    exact heldBy_running
  refine StepTransition.run_sound moves plain (fun row guarded waits => ?_) fun row guarded _ => .inl ?_
  · rw [running row guarded] at waits
    cases waits
  · rw [running row guarded]
    rfl

theorem StepTransition.waiting_sound (gates : may.gates)
    (guard : t.guard = fun row => row.status == .awaitingHuman) (moves : t.Moves)
    (plain : ∀ row seq, (t.event row seq).runTotals = none) : Sound lint may t.run := by
  refine StepTransition.run_sound moves plain (fun _ _ _ => gates) fun row waits _ => .inl ?_
  rw [guard] at waits
  rw [eq_of_beq waits]
  rfl

section Instances

variable (stepID reason : String) (claimID : ClaimID) (now : Time)

theorem takeover_moves : (takeover stepID claimID now).Moves :=
  .closing rfl heldBy_running rfl (fun _ => ⟨rfl, rfl, rfl, rfl, rfl, rfl, rfl⟩) (fun _ => rfl) rfl rfl

theorem succeed_moves (completion : Completion) : (succeed stepID claimID completion now).Moves :=
  .closing rfl heldBy_running rfl (fun _ => ⟨rfl, rfl, rfl, rfl, rfl, rfl, rfl⟩) (fun _ => rfl) rfl rfl

theorem deadLetter_moves (source : DeadLetterSource) (failure : Failure) :
    (deadLetter stepID claimID source failure now).Moves :=
  .closing rfl heldBy_running rfl (fun _ => ⟨rfl, rfl, rfl, rfl, rfl, rfl, rfl⟩) (fun _ => rfl) rfl rfl

theorem collectFail_moves (failure : Failure) (output : Json) :
    (collectFail stepID claimID failure output now).Moves :=
  .closing rfl heldBy_running rfl (fun _ => ⟨rfl, rfl, rfl, rfl, rfl, rfl, rfl⟩) (fun _ => rfl) rfl rfl

theorem cancelRunning_moves (error : Option Json) :
    (cancelRunning stepID claimID reason error now).Moves :=
  .closing rfl heldBy_running rfl (fun _ => ⟨rfl, rfl, rfl, rfl, rfl, rfl, rfl⟩) (fun _ => rfl) rfl rfl

theorem retry_moves (failure : Failure) (nextAttemptAt : Time) :
    (retry stepID claimID failure nextAttemptAt now).Moves :=
  .closing rfl heldBy_running rfl (fun _ => ⟨rfl, rfl, rfl, rfl, rfl, rfl, rfl⟩) (fun _ => rfl) rfl rfl

theorem throttle_moves (resource bucket retryAfter : String) (nextAttemptAt : Time) :
    (throttle stepID claimID resource bucket retryAfter nextAttemptAt now).Moves :=
  .closing rfl heldBy_running rfl (fun _ => ⟨rfl, rfl, rfl, rfl, rfl, rfl, rfl⟩) (fun _ => rfl) rfl rfl

theorem semanticRetry_moves (args : SemanticRetry) :
    (semanticRetry stepID claimID args now).Moves :=
  .closing rfl heldBy_running rfl (fun _ => ⟨rfl, rfl, rfl, rfl, rfl, rfl, rfl⟩) (fun _ => rfl) rfl rfl

theorem budgetRelease_moves (payload : Json) : (budgetRelease stepID claimID payload now).Moves :=
  .closing rfl heldBy_running rfl (fun _ => ⟨rfl, rfl, rfl, rfl, rfl, rfl, rfl⟩) (fun _ => rfl) rfl rfl

theorem cancel_sources (row : StepRow) (guarded : (cancel stepID reason now).guard row = true) :
    row.status ∈ [StepStatus.pending, .ready, .retrying] := by
  simpa [cancel, or_assoc] using guarded

theorem cancel_moves : (cancel stepID reason now).Moves :=
  .leaving _ (cancel_sources stepID reason now) (fun _ => ⟨rfl, rfl, rfl, rfl, rfl, rfl, rfl⟩)
    (fun _ => rfl) rfl (by simp [cancel, tally, Counters.add, StepStatus.isOpen])

theorem requeue_sources (row : StepRow) (guarded : (requeue stepID now).guard row = true) :
    row.status ∈ [StepStatus.deadLettered] := by
  simpa [requeue] using guarded

theorem requeue_moves : (requeue stepID now).Moves :=
  .leaving _ (requeue_sources stepID now) (fun _ => ⟨rfl, rfl, rfl, rfl, rfl, rfl, rfl⟩)
    (fun _ => rfl) rfl (by simp [requeue, tally, Counters.add, StepStatus.isOpen])

theorem revive_sources (row : StepRow) (guarded : (revive stepID reason now).guard row = true) :
    row.status ∈ [StepStatus.cancelled] := by
  simpa [revive] using guarded

theorem revive_moves : (revive stepID reason now).Moves :=
  .leaving _ (revive_sources stepID reason now) (fun _ => ⟨rfl, rfl, rfl, rfl, rfl, rfl, rfl⟩)
    (fun _ => rfl) rfl (by simp [revive, tally, Counters.add, StepStatus.isOpen])

theorem ready_sources (joinAny : Bool) (row : StepRow)
    (guarded : (ready stepID joinAny now).guard row = true) :
    row.status ∈ [StepStatus.pending] := by
  simp only [ready, Bool.and_eq_true, beq_iff_eq] at guarded
  simp [guarded.1.1]

theorem ready_moves (joinAny : Bool) : (ready stepID joinAny now).Moves :=
  .leaving _ (ready_sources stepID now joinAny) (fun _ => ⟨rfl, rfl, rfl, rfl, rfl, rfl, rfl⟩)
    (fun _ => rfl) rfl (by simp [ready, tally, Counters.add, StepStatus.isOpen])

theorem skip_sources (row : StepRow) (guarded : (skip stepID now).guard row = true) :
    row.status ∈ [StepStatus.pending] := by
  simp only [skip, Bool.and_eq_true, beq_iff_eq] at guarded
  simp [guarded.1.1]

theorem skip_moves : (skip stepID now).Moves :=
  .leaving _ (skip_sources stepID now) (fun _ => ⟨rfl, rfl, rfl, rfl, rfl, rfl, rfl⟩)
    (fun _ => rfl) rfl (by simp [skip, tally, Counters.add, StepStatus.isOpen])

theorem cancelAwaitingHuman_moves : (cancelAwaitingHuman stepID reason now).Moves :=
  .closing rfl (fun _ guarded => eq_of_beq guarded) rfl (fun _ => ⟨rfl, rfl, rfl, rfl, rfl, rfl, rfl⟩)
    (fun _ => rfl) rfl rfl

theorem succeedAwaitingHuman_moves (output : Json) :
    (succeedAwaitingHuman stepID output now).Moves :=
  .closing rfl (fun _ guarded => eq_of_beq guarded) rfl (fun _ => ⟨rfl, rfl, rfl, rfl, rfl, rfl, rfl⟩)
    (fun _ => rfl) rfl rfl

theorem deadLetterAwaitingHuman_moves (error : Option Json) :
    (deadLetterAwaitingHuman stepID error now).Moves :=
  .closing rfl (fun _ guarded => eq_of_beq guarded) rfl (fun _ => ⟨rfl, rfl, rfl, rfl, rfl, rfl, rfl⟩)
    (fun _ => rfl) rfl rfl

end Instances

variable {s s' : RunStore} {stepID : String} {now : Time}

theorem retryStep_run {failure nextAttemptAt}
    (ok : retryStep stepID claimID failure nextAttemptAt now s = (.ok row, s')) :
    (retry stepID claimID failure nextAttemptAt now).run s = (.ok row, s') := by
  have rest₁ := requireNow_bind_ok ok
  have rest₂ := requireArgument_bind_ok rest₁
  have rest₃ := requireArgument_bind_ok rest₂
  exact rest₃

theorem deadLetterStep_run {source failure}
    (ok : deadLetterStep stepID claimID source failure now s = (.ok row, s')) :
    (deadLetter stepID claimID source failure now).run s = (.ok row, s') := by
  have rest₁ := requireNow_bind_ok ok
  have rest₂ := requireArgument_bind_ok rest₁
  exact rest₂

theorem semanticRetryStep_run {args}
    (ok : semanticRetryStep stepID claimID args now s = (.ok row, s')) :
    (semanticRetry stepID claimID args now).run s = (.ok row, s') := by
  have rest₁ := requireNow_bind_ok ok
  have rest₂ := requireArgument_bind_ok rest₁
  exact rest₂

section Transitions

variable (stepID reason : String) (claimID : ClaimID) (now : Time)

theorem takeoverStep_sound : Sound lint may (takeoverStep stepID claimID now) :=
  StepTransition.held_sound rfl (takeover_moves stepID claimID now) fun _ _ => rfl

theorem succeedStep_sound (completion : Completion) {columns : Columns} :
    Sound lint may (succeedStep stepID claimID completion now columns) :=
  (requireArgument_sound _ _ _).bind fun _ =>
    StepTransition.held_sound rfl (succeed_moves stepID claimID now completion) fun _ _ => rfl

theorem deadLetterStep_sound (source : DeadLetterSource) (failure : Failure) :
    Sound lint may (deadLetterStep stepID claimID source failure now) :=
  (requireNow_sound _ _).bind fun _ => (requireArgument_sound _ _ _).bind fun _ =>
    StepTransition.held_sound rfl (deadLetter_moves stepID claimID now source failure) fun _ _ => rfl

theorem collectFailStep_sound (failure : Failure) (output : Json) :
    Sound lint may (collectFailStep stepID claimID failure output now) :=
  StepTransition.held_sound rfl (collectFail_moves stepID claimID now failure output) fun _ _ => rfl

theorem cancelRunningStep_sound (error : Option Json) :
    Sound lint may (cancelRunningStep stepID claimID reason error now) :=
  (requireNow_sound _ _).bind fun _ => (requireArgument_sound _ _ _).bind fun _ =>
    StepTransition.held_sound rfl (cancelRunning_moves stepID reason claimID now error) fun _ _ => rfl

theorem retryStep_sound (failure : Failure) (nextAttemptAt : Time) :
    Sound lint may (retryStep stepID claimID failure nextAttemptAt now) :=
  (requireNow_sound _ _).bind fun _ => (requireArgument_sound _ _ _).bind fun _ =>
    (requireArgument_sound _ _ _).bind fun _ =>
      StepTransition.held_sound rfl (retry_moves stepID claimID now failure nextAttemptAt) fun _ _ => rfl

theorem throttleStep_sound (resource bucket retryAfter : String) (nextAttemptAt : Time) :
    Sound lint may (throttleStep stepID claimID resource bucket retryAfter nextAttemptAt now) :=
  (requireNow_sound _ _).bind fun _ => (requireArgument_sound _ _ _).bind fun _ =>
    StepTransition.held_sound rfl (throttle_moves stepID claimID now resource bucket retryAfter _)
      fun _ _ => rfl

theorem semanticRetryStep_sound (args : SemanticRetry) :
    Sound lint may (semanticRetryStep stepID claimID args now) :=
  (requireNow_sound _ _).bind fun _ => (requireArgument_sound _ _ _).bind fun _ =>
    StepTransition.held_sound rfl (semanticRetry_moves stepID claimID now args) fun _ _ => rfl

theorem cancelStep_sound : Sound lint may (cancelStep stepID reason now) :=
  (requireNow_sound _ _).bind fun _ => (requireArgument_sound _ _ _).bind fun _ =>
    StepTransition.sound_of_sources (cancel_sources stepID reason now) (by decide)
      (cancel_moves stepID reason now) (fun _ _ => rfl)
      fun _ _ begun => nomatch begun

theorem requeueStep_sound : Sound lint may (requeueStep stepID now) :=
  StepTransition.sound_of_sources (requeue_sources stepID now) (by decide) (requeue_moves stepID now)
    (fun _ _ => rfl) fun row dead _ => .inl (by rw [eq_of_beq dead]; rfl)

theorem reviveStep_sound : Sound lint may (reviveStep stepID reason now) :=
  (requireNow_sound _ _).bind fun _ => (requireArgument_sound _ _ _).bind fun _ =>
    StepTransition.sound_of_sources (revive_sources stepID reason now) (by decide)
      (revive_moves stepID reason now) (fun _ _ => rfl)
      fun _ _ begun => nomatch begun

theorem readyStep_sound (joinAny : Bool) (buries : ∀ id, may.buries id) :
    Sound lint may (readyStep stepID joinAny now) :=
  StepTransition.sound_of_sources (ready_sources stepID now joinAny) (by decide)
    (ready_moves stepID now joinAny) (fun _ _ => rfl)
    fun _ _ _ => .inr (.inr (buries _))

theorem readyStep_soundAt {target joinAny} (mem : UniqueSteps s → target ∈ s.steps)
    (joins : joinAny = true → target.stepType = .join ∧ target.config = .join .any) :
    Tx.EnsuresAt StoreError.isRefusal (Reaches lint may) (readyStep target.stepID joinAny now) s := by
  refine .of_clean (.refl s) (StepTransition.run_clean _ s) fun row s' ok unique => ?_
  obtain ⟨old, _, _, _, _, named, guarded, rfl, replaced, finished, lettered,
    rfl⟩ := StepTransition.run_ok ok
  obtain rfl : old = target := Table.eq_of_key unique replaced.old_mem (mem unique) named
  have pending := mem_singleton.mp (ready_sources _ now joinAny old guarded)
  refine .single (.moved (ready_moves _ now joinAny old guarded) ?_ replaced finished lettered
    (fun _ => .inr (.inl ?_)) rfl)
  · simp [pending]
  · simp only [ready, Bool.and_eq_true, Bool.or_eq_true, beq_iff_eq, decide_eq_true_eq] at guarded
    exact ⟨guarded.1.2, guarded.2.imp_right joins⟩

theorem skipStep_sound : Sound lint may (skipStep stepID now) :=
  StepTransition.sound_of_sources (skip_sources stepID now) (by decide) (skip_moves stepID now)
    (fun _ _ => rfl) fun _ _ begun => nomatch begun

theorem succeedAwaitingHumanStep_sound (gates : may.gates) (output : Json) {columns : Columns} :
    Sound lint may (succeedAwaitingHumanStep stepID output now columns) :=
  (requireArgument_sound _ _ _).bind fun _ =>
    StepTransition.waiting_sound gates rfl (succeedAwaitingHuman_moves stepID now output) fun _ _ => rfl

theorem deadLetterAwaitingHumanStep_sound (gates : may.gates) (error : Option Json)
    {columns : Columns} : Sound lint may (deadLetterAwaitingHumanStep stepID error now columns) :=
  (requireArgument_sound _ _ _).bind fun _ =>
    StepTransition.waiting_sound gates rfl (deadLetterAwaitingHuman_moves stepID now error) fun _ _ => rfl

theorem poison_move (error payload : Option Json) {wasRunning}
    (guarded : (poison stepID error payload wasRunning now).guard row = true)
    (observed : wasRunning = (row.status == .running)) :
    StepMove row ((poison stepID error payload wasRunning now).set row)
      (poison stepID error payload wasRunning now).finish
      (poison stepID error payload wasRunning now).delta := by
  simp only [poison, Bool.or_eq_true, beq_iff_eq] at guarded
  subst observed
  refine ⟨⟨rfl, rfl, rfl, rfl, rfl, rfl, rfl⟩, ?_, rfl, ?_⟩
  · rcases guarded with ((status | status) | status) | status <;>
      simp [poison, tally, Counters.add, status]
  · rcases guarded with ((status | status) | status) | status <;>
      simp [poison, StepStatus.isOpen, status]

theorem poisonDeadLetterStep_sound (buries : may.buries stepID) (error payload : Option Json) :
    Sound lint may (poisonDeadLetterStep stepID error payload now) := by
  intro s
  refine .bind_reading (.refl s) (requireNow_state _ _ s) fun _ _ => ?_
  refine .bind_reading (.refl s) (getRunStep_state _ _ s) fun prior read => ?_
  have found := (getRunStep_ok read).1
  refine .of_clean (.refl s) (StepTransition.run_clean _ s) fun row s' ok unique => ?_
  obtain ⟨old, _, _, _, _, same, guarded, rfl, replaced, finished, lettered,
    rfl⟩ := StepTransition.run_ok ok
  have isPrior : prior = old := Table.eq_of_key unique (findStep_some found).1 replaced.old_mem
    ((findStep_some found).2.trans same.symm)
  subst isPrior
  refine .single (.moved (poison_move stepID now error payload guarded rfl) ?_ replaced finished
    lettered (fun _ => .inr (.inr (same ▸ buries))) rfl)
  intro waits
  simp [poison, waits] at guarded

theorem createStepAttempt_uncaught (op : String) (row : AttemptRow) :
    Tx.Uncaught StoreError.isRefusal (createStepAttempt op row) := by
  intro s e s' failed
  unfold createStepAttempt at failed
  split at failed <;> cases failed
  rfl

theorem updateRunStep_clean {α : Type} {guard set}
    {next : Option StepRow → StoreTx α} (refuses : (next none s).2 = s)
    (writes : ∀ row, Tx.Uncaught StoreError.isRefusal (next (some row))) :
    Tx.Clean StoreError.isRefusal (updateRunStep stepID guard set >>= next) s := by
  intro e s' failed conflict
  rcases bind_error failed with early | ⟨written, s₁, updated, failed₁⟩
  · exact absurd early updateRunStep_error
  cases written with
  | none =>
    obtain ⟨rfl, _⟩ := updateRunStep_none updated
    rw [failed₁] at refuses
    exact refuses
  | some row =>
    simp [writes row s₁ e s' failed₁] at conflict

theorem lookupThenThrow_state {α : Type} (op : String) (refusal : StepRow → StoreError)
    (s : RunStore) :
    ((getRunStep op stepID >>= fun row => Tx.throw (refusal row) : StoreTx α) s).2 = s := by
  rw [bind_apply, getRunStep_apply]
  cases findStep s stepID <;> rfl

theorem claimStep_ok {workerID : String}
    (ok : claimStep stepID claimID workerID now s = (.ok row, s')) :
    s.run.status = .running ∧ ∃ old steps attempt, old.stepID = stepID ∧
      claimable now old = true ∧ row = claimRow claimID now old ∧
      Table.Replaced s.steps steps old row ∧ attempt.stepID = old.stepID ∧
      attempt.attemptNo = old.attemptCount + 1 ∧ attempt.claimID = claimID ∧
      attempt.outcome = none ∧ attempt.finishedAt = none ∧
      s' = RunStore.record { s with steps, attempts := s.attempts ++ [attempt] }
        (.stepClaimed stepID claimID row.attemptCount workerID) := by
  have rest₁ := requireNow_bind_ok ok
  have rest₂ := read_bind_ok rest₁
  split at rest₂
  · obtain ⟨_, _, _, refused⟩ := bind_ok rest₂
    cases refused
  rename_i running
  refine ⟨Decidable.not_not.mp running, ?_⟩
  obtain ⟨written, _, updated, rest₃⟩ := bind_ok rest₂
  cases written with
  | none =>
    obtain ⟨_, _, _, refused⟩ := bind_ok rest₃
    cases refused
  | some new =>
    obtain ⟨old, steps, same, claims, rfl, replaced, rfl⟩ := updateRunStep_some updated
    obtain ⟨_, _, created, rest₄⟩ := bind_ok rest₃
    unfold createStepAttempt at created
    split at created
    · cases created
    · cases created
      cases rest₄
      exact ⟨old, steps, _, same, claims, rfl, replaced, same.symm, rfl, rfl, rfl, rfl, rfl⟩

theorem claimStep_clean (workerID : String) (s : RunStore) :
    Tx.Clean StoreError.isRefusal (claimStep stepID claimID workerID now) s := by
  refine .bind_reading (requireNow_state _ _ s) fun _ _ => .bind_reading rfl fun run _ => ?_
  split
  · exact .of_state (lookupThenThrow_state _ _ _ s)
  · exact updateRunStep_clean _ (lookupThenThrow_state _ _ _ s) fun row =>
      (createStepAttempt_uncaught _ _).bind fun _ => (Tx.Uncaught.write _).bind fun _ => .pure _

theorem claimStep_sound (workerID : String) (minted : may.mints claimID) :
    Sound lint may (claimStep stepID claimID workerID now) := by
  refine fun s => .of_clean (.refl s) (claimStep_clean _ _ _ _ s) fun row s' ok => ?_
  obtain ⟨_, _, _, _, _, claims, rfl, replaced, sameStep, number, claim,
    outcome, finishedAt, rfl⟩ := claimStep_ok _ _ _ ok
  exact .single (.claimed minted claims replaced sameStep number claim outcome finishedAt rfl)

end Transitions

theorem RunTransition.run_sound {t : RunTransition}
    (books : ∀ row : RunRow, row.SameBooks (t.set row)) (plain : t.event.runTotals = none)
    (ends : ∀ row : RunRow, t.guard row = true → row.status.ended = true →
      (t.set row).status.ended = true)
    (cancels : ∀ row : RunRow, t.guard row = true → (t.set row).status = .cancelling →
      row.status = .cancelling ∨ may.cancels) : Sound lint may t.run := by
  refine .intro ?_ ?_
  · intro s row s' ok
    obtain ⟨guarded, _, rfl⟩ := RunTransition.run_ok ok
    exact .single (.ran (books s.run) (ends s.run guarded) (cancels s.run guarded) plain)
  · intro s e s' failed _
    rw [(RunTransition.run_error failed).1]
    exact .refl s

theorem updateRun_recording {guard set event missed} (books : ∀ row : RunRow, row.SameBooks (set row))
    (plain : event.runTotals = none)
    (ends : ∀ row : RunRow, guard row = true → row.status.ended = true →
      (set row).status.ended = true)
    (cancels : ∀ row : RunRow, (set row).status ≠ .cancelling) (otherwise : Sound lint may missed) :
    Sound lint may (do
      match ← updateRun guard set with
      | some _ => appendEvent event
      | none => missed) := by
  intro s
  unfold Tx.EnsuresAt
  rw [bind_apply, updateRun_apply]
  by_cases guarded : guard s.run = true
  · simp only [guarded, ↓reduceIte]
    exact .single (.ran (books s.run) (ends s.run guarded) (absurd · (cancels s.run)) plain)
  · simp only [guarded, Bool.false_eq_true, ↓reduceIte]
    exact otherwise s

theorem RunRow.live_not_ended {row : RunRow} (live : row.live = true) :
    row.status.ended = false := by
  unfold RunRow.live at live
  cases status : row.status <;> simp_all [RunStatus.ended]

section Runs

variable (now : Time)

theorem succeedRun_sound : Sound lint may (succeedRun now) :=
  RunTransition.run_sound (fun _ => ⟨rfl, rfl, rfl, rfl, rfl, rfl, rfl, rfl⟩) rfl (fun _ _ _ => rfl)
    fun _ _ cancelling => nomatch cancelling

theorem failRun_sound : Sound lint may (failRun now) := by
  refine RunTransition.run_sound (fun _ => ⟨rfl, rfl, rfl, rfl, rfl, rfl, rfl, rfl⟩) rfl
    (fun row guarded ended => ?_) fun _ _ cancelling => nomatch cancelling
  simp only [Bool.and_eq_true] at guarded
  simp [RunRow.live_not_ended guarded.1] at ended

theorem failRunRollup_sound : Sound lint may (failRunRollup now) := by
  refine RunTransition.run_sound (fun _ => ⟨rfl, rfl, rfl, rfl, rfl, rfl, rfl, rfl⟩) rfl
    (fun row guarded ended => ?_) fun _ _ cancelling => nomatch cancelling
  simp only [Bool.and_eq_true] at guarded
  simp [RunRow.live_not_ended guarded.1.1] at ended

theorem resumeRun_sound : Sound lint may (resumeRun now) := by
  refine RunTransition.run_sound (fun _ => ⟨rfl, rfl, rfl, rfl, rfl, rfl, rfl, rfl⟩) rfl
    (fun row guarded ended => ?_) fun _ _ cancelling => nomatch cancelling
  simp [eq_of_beq guarded, RunStatus.ended] at ended

theorem parkRun_sound (reason : ParkReason) : Sound lint may (parkRun reason now) := by
  refine RunTransition.run_sound (fun _ => ⟨rfl, rfl, rfl, rfl, rfl, rfl, rfl, rfl⟩) rfl
    (fun row guarded ended => ?_) fun _ _ cancelling => nomatch cancelling
  simp [eq_of_beq guarded, RunStatus.ended] at ended

theorem unparkRun_sound : Sound lint may (unparkRun now) := by
  refine RunTransition.run_sound (fun _ => ⟨rfl, rfl, rfl, rfl, rfl, rfl, rfl, rfl⟩) rfl
    (fun row guarded ended => ?_) fun _ _ cancelling => nomatch cancelling
  simp [eq_of_beq guarded, RunStatus.ended] at ended

theorem cancelRun_sound (cancels : may.cancels) (reason : RunCancelReason) :
    Sound lint may (cancelRun reason now) :=
  RunTransition.run_sound (fun _ => ⟨rfl, rfl, rfl, rfl, rfl, rfl, rfl, rfl⟩) rfl (fun _ _ _ => rfl)
    fun _ _ _ => .inr cancels

theorem cancelRunRollup_sound : Sound lint may (cancelRunRollup now) :=
  RunTransition.run_sound (fun _ => ⟨rfl, rfl, rfl, rfl, rfl, rfl, rfl, rfl⟩) rfl (fun _ _ _ => rfl)
    fun _ _ cancelling => nomatch cancelling

theorem parkOverBudget_sound (status : RunStatus) : Sound lint may (parkOverBudget status) := by
  unfold parkOverBudget
  split
  · refine updateRun_recording (fun _ => ⟨rfl, rfl, rfl, rfl, rfl, rfl, rfl, rfl⟩) rfl ?_
      (fun _ cancelling => nomatch cancelling) (.throw _)
    intro row guarded ended
    simp [eq_of_beq guarded, RunStatus.ended] at ended
  · exact .pure _

theorem budgetParkStep_sound (stepID : String) (claimID : ClaimID) (payload : Json) :
    Sound lint may (budgetParkStep stepID claimID payload now) :=
  lockRun_sound.bind fun run =>
    (StepTransition.held_sound rfl (budgetRelease_moves stepID claimID now payload)
      fun _ _ => rfl).bind fun _ => (parkOverBudget_sound run.status).bind fun _ => .pure _

theorem setRunBudget_sound (budgetNanoUSD : Int) :
    Sound lint may (setRunBudget budgetNanoUSD now) := by
  refine (requireNow_sound _ _).bind fun _ => lockRun_sound.bind fun locked => ?_
  intro s
  unfold Tx.EnsuresAt
  rw [bind_apply, updateRun_apply]
  by_cases guarded : (!s.run.status.terminal) = true
  · simp only [guarded, ↓reduceIte]
    exact .single (.ran ⟨rfl, rfl, rfl, rfl, rfl, rfl, rfl, rfl⟩ id .inl rfl)
  · simp only [guarded, Bool.false_eq_true, ↓reduceIte]
    exact fun _ => .refl s

theorem recordModelDowngrade_sound (stepID : String) (claimID : ClaimID) (payload : Json) :
    Sound lint may (recordModelDowngrade stepID claimID payload now) := by
  refine (requireNow_sound _ _).bind fun _ => (getRunStep_sound _ _).bind fun row => ?_
  split
  · exact appendEvent_sound _ rfl
  · exact .throw _

theorem recordEvent_sound (op type stepID : String) (payload : Json) :
    Sound lint may (recordEvent op type stepID payload now) :=
  (requireNow_sound _ _).bind fun _ => appendEvent_sound _ rfl

theorem insertCostLedgerEntry_uncaught (op : String) (row : CostRow) :
    Tx.Uncaught StoreError.isRefusal (insertCostLedgerEntry op row) := by
  intro s e s' failed
  unfold insertCostLedgerEntry at failed
  split_ifs at failed <;> cases failed <;> rfl

theorem addRunCost_uncaught (op : String) (spent saved : Int) :
    Tx.Uncaught StoreError.isRefusal (addRunCost op spent saved) := by
  intro s e s' failed
  unfold addRunCost at failed
  dsimp only at failed
  split_ifs at failed <;> cases failed <;> rfl

theorem warnUnknownModel_sound (stepID : String) (warning : Option Json) :
    Sound lint may (warnUnknownModel stepID warning) := by
  cases warning with
  | some payload => exact appendEvent_sound _ rfl
  | none => exact .pure _

theorem warnUnknownModel_uncaught (stepID : String) (warning : Option Json) :
    Tx.Uncaught StoreError.isRefusal (warnUnknownModel stepID warning) := by
  cases warning with
  | some payload => exact .write _
  | none => exact .pure _

theorem applyAttemptCost_ok {args applied} (ok : applyAttemptCost args now s = (.ok applied, s')) :
    (0 ≤ args.costNanoUSD ∧ 0 ≤ args.savedNanoUSD) ∧
      (∀ other ∈ s.costs, other.key ≠ (args.row now).key) ∧
      warnUnknownModel args.stepID args.warning (s.charge (args.row now)) = (.ok (), s') := by
  have rest₁ := requireNow_bind_ok ok
  have rest₂ := requireArgument_bind_ok rest₁
  have rest₃ := requireArgument_bind_ok rest₂
  obtain ⟨_, _, inserted, rest₄⟩ := bind_ok rest₃
  obtain ⟨amounts, fresh, rfl⟩ := insertCostLedgerEntry_ok inserted
  obtain ⟨_, _, added, rest₅⟩ := bind_ok rest₄
  obtain ⟨rfl, rfl⟩ := addRunCost_ok added
  obtain ⟨_, _, announced, rest₆⟩ := bind_ok rest₅
  cases announced
  obtain ⟨_, _, warned, rest₇⟩ := bind_ok rest₆
  cases rest₇
  exact ⟨amounts, fresh, warned⟩

theorem applyAttemptCost_uncaught (args : AttemptCost) :
    Tx.Uncaught StoreError.isRefusal (applyAttemptCost args now) :=
  (requireNow_uncaught _ _).bind fun _ => (requireArgument_uncaught _ _ _).bind fun _ =>
    (requireArgument_uncaught _ _ _).bind fun _ => (insertCostLedgerEntry_uncaught _ _).bind fun _ =>
      (addRunCost_uncaught _ _ _).bind fun _ => (Tx.Uncaught.write _).bind fun _ =>
        (warnUnknownModel_uncaught _ _).bind fun _ => .pure _

theorem applyAttemptCost_sound (args : AttemptCost) (charges : may.charges (args.row now)) :
    Sound lint may (applyAttemptCost args now) := by
  refine fun s => .of_clean (.refl s) (.of_uncaught (applyAttemptCost_uncaught now args)) ?_
  intro applied s' ok
  obtain ⟨amounts, fresh, warned⟩ := applyAttemptCost_ok now ok
  exact Reaches.trans _ _ _ (.single (.charged amounts fresh charges))
    ((warnUnknownModel_sound _ _).of_ok warned)

theorem lockRunStatus_sound : Sound lint may (lockRunStatus now) :=
  (requireNow_sound _ _).bind fun _ => lockRun_sound.bind fun _ => .pure _

end Runs

variable {guard : ApprovalRow → Bool} {set : ApprovalRow → ApprovalRow}

theorem updateApproval_some {row} (ok : updateApproval guard set s = (.ok (some row), s')) :
    ∃ old approvals, guard old = true ∧ row = set old ∧
      Table.Replaced s.approvals approvals old row ∧ s' = { s with approvals } := by
  unfold updateApproval at ok
  split at ok
  · rename_i updated
    cases ok
    obtain ⟨old, meets, rfl, replaced⟩ := Table.updateFirst_some updated
    exact ⟨old, _, meets, rfl, replaced, rfl⟩
  · cases ok

theorem updateApproval_none (ok : updateApproval guard set s = (.ok none, s')) :
    s' = s ∧ ∀ row ∈ s.approvals, guard row = false := by
  unfold updateApproval at ok
  split at ok
  · cases ok
  · rename_i missed
    cases ok
    exact ⟨rfl, Table.updateFirst_none.mp missed⟩

theorem updateApproval_error {e : StoreError} : updateApproval guard set s ≠ (.error e, s') := by
  unfold updateApproval
  split <;> simp

theorem updateApproval_sound (gates : may.gates)
    (pending : ∀ row, guard row = true → row.isPending = true)
    (same : ∀ row, (set row).id = row.id ∧ (set row).stepID = row.stepID ∧
      (set row).attempt = row.attempt ∧ (set row).terms = row.terms) :
    Sound lint may (updateApproval guard set) := by
  refine .intro ?_ fun s e s' failed => absurd failed updateApproval_error
  intro s row s' ok
  cases row with
  | none =>
    rw [(updateApproval_none ok).1]
    exact .refl s
  | some row =>
    obtain ⟨old, _, meets, rfl, replaced, rfl⟩ := updateApproval_some ok
    obtain ⟨id, stepID, attempt, terms⟩ := same old
    exact .single (.reapproved gates (pending old meets) id stepID attempt terms replaced)

theorem getApproval_sound (op : String) (id : ApprovalID) : Sound lint may (getApproval op id) := by
  refine (Sound.read _).bind fun found => ?_
  cases found with
  | some row => exact .pure row
  | none => exact .throw _

variable {now : Time}

section Approvals

variable (now : Time)

theorem awaitHumanStep_ok {now stepID} {content : ApprovalContent}
    (ok : awaitHumanStep stepID claimID content now s = (.ok row, s')) :
    ∃ old steps, old.stepID = stepID ∧ heldBy claimID old = true ∧ row = awaitRow now old ∧
      Table.Replaced s.steps steps old row ∧ (∀ other ∈ s.approvals, other.id ≠ content.id) ∧
      (∀ other ∈ s.approvals, other.stepID = old.stepID → other.isPending = false) ∧
      s' = RunStore.record
        { s with steps, approvals := s.approvals ++ [content.row row now] }
        (.approvalRequested content.id stepID row.attemptCount content.title
          content.allowedDecisions content.allowEdit content.timeoutAt) := by
  have rest₁ := requireNow_bind_ok ok
  obtain ⟨written, _, updated, rest₂⟩ := bind_ok rest₁
  cases written with
  | none =>
    obtain ⟨_, _, _, refused⟩ := bind_ok rest₂
    cases refused
  | some new =>
    obtain ⟨old, steps, same, held, rfl, replaced, rfl⟩ := updateRunStep_some updated
    obtain ⟨_, _, inserted, rest₃⟩ := bind_ok rest₂
    unfold insertApproval at inserted
    split at inserted
    · cases inserted
    rename_i free
    cases inserted
    cases rest₃
    simp only [any_eq_true, Bool.or_eq_true, Bool.and_eq_true, beq_iff_eq, not_exists,
      not_and, not_or] at free
    refine ⟨old, steps, same, held, rfl, replaced, fun other mem => (free other mem).1,
      fun other mem sameStep => ?_, rfl⟩
    exact Bool.eq_false_iff.mpr ((free other mem).2 sameStep)

theorem awaitHumanStep_clean (stepID : String) (claimID : ClaimID) (content : ApprovalContent)
    (s : RunStore) : Tx.Clean StoreError.isRefusal (awaitHumanStep stepID claimID content now) s := by
  refine .bind_reading (requireNow_state _ _ s) fun _ _ => ?_
  refine updateRunStep_clean _ (lookupThenThrow_state _ _ _ s) fun row => ?_
  refine Tx.Uncaught.bind ?_ fun _ => (Tx.Uncaught.write _).bind fun _ => .pure _
  intro s₁ e s' failed
  unfold insertApproval at failed
  split at failed <;> cases failed
  rfl

theorem awaitHumanStep_sound (gates : may.gates) (opens : may.opens) (stepID : String)
    (claimID : ClaimID) (content : ApprovalContent) :
    Sound lint may (awaitHumanStep stepID claimID content now) := by
  refine fun s => .of_clean (.refl s) (awaitHumanStep_clean _ _ _ _ s) fun row s' ok => ?_
  obtain ⟨_, _, _, held, rfl, replaced, fresh, single, rfl⟩ := awaitHumanStep_ok ok
  exact .single (.awaited gates opens held replaced fresh single rfl)

theorem cancelAwaitingHumanStep_sound (gates : may.gates) (stepID reason : String) :
    Sound lint may (cancelAwaitingHumanStep stepID reason now) := by
  refine (requireNow_sound _ _).bind fun _ => (requireArgument_sound _ _ _).bind fun _ =>
    (StepTransition.waiting_sound gates rfl (cancelAwaitingHuman_moves stepID reason now)
      fun _ _ => rfl).bind fun step => ?_
  refine Sound.bind (updateApproval_sound gates ?_ fun _ => ⟨rfl, rfl, rfl, rfl⟩) fun cancelled => ?_
  · intro row guarded
    exact (Bool.and_eq_true_iff.mp guarded).2
  · cases cancelled with
    | none => exact .pure _
    | some approval => exact (appendEvent_sound _ rfl).bind fun _ => .pure _

theorem decideApproval_sound (gates : may.gates) (args : DecideApproval) {columns : Columns} :
    Sound lint may (decideApproval args now columns) := by
  refine (requireNow_sound _ _).bind fun _ => (requireArgument_sound _ _ _).bind fun _ =>
    (requireArgument_sound _ _ _).bind fun _ => ?_
  refine Sound.bind (updateApproval_sound gates ?_ fun _ => ⟨rfl, rfl, rfl, rfl⟩) fun decided => ?_
  · intro row guarded
    exact (Bool.and_eq_true_iff.mp guarded).2
  · cases decided with
    | none => exact (getApproval_sound _ _).bind fun _ => .throw _
    | some approval =>
      refine (appendEvent_sound _ ?_).bind fun _ => .pure _
      unfold DecideApproval.event
      split <;> rfl

theorem parkForTimeout_sound (status : RunStatus) : Sound lint may (parkForTimeout status now) := by
  unfold parkForTimeout
  split
  · exact .pure _
  · exact (parkRun_sound now _).bind fun _ => .pure _

theorem expireApprovalPark_sound (gates : may.gates) (args : ExpireApprovalPark) :
    Sound lint may (expireApprovalPark args now) := by
  refine (requireNow_sound _ _).bind fun _ => lockRun_sound.bind fun run => ?_
  refine Sound.bind (updateApproval_sound gates ?_ fun _ => ⟨rfl, rfl, rfl, rfl⟩) fun marked => ?_
  · intro row guarded
    exact (Bool.and_eq_true_iff.mp (Bool.and_eq_true_iff.mp guarded).1).2
  · cases marked with
    | none =>
      refine (getApproval_sound _ _).bind fun current => ?_
      split
      · exact .throw _
      · exact .throw _
    | some approval =>
      exact (parkForTimeout_sound now run.status).bind fun _ =>
        (appendEvent_sound _ rfl).bind fun _ => .pure _

end Approvals

theorem resolveEdge_sound (ordinal : Nat) (fired : Bool) (now : Time) :
    Sound lint may (resolveEdge ordinal fired now) := by
  refine fun s => .of_clean (.refl s) (.of_uncaught (resolveEdge_uncaught ordinal fired now))
    fun result s' ok => ?_
  rcases resolveEdge_ok ok with ⟨_, rfl, _⟩ |
    ⟨_, _, _, _, meets, replaced, into, owed, stepReplaced, rfl, _⟩
  · exact .refl _
  · exact .single (.resolved meets replaced into owed stepReplaced)

theorem addRunStepRemainingDeps_ok {stepID count u}
    (unique : UniqueSteps s) (ok : addRunStepRemainingDeps stepID count now s = (.ok u, s')) :
    (∃ row ∈ s.steps, row.stepID = stepID ∧ row.status = .pending) ∧ s' = { s with
        steps := s.steps.map fun row => if row.stepID = stepID then widen count now row else row } := by
  obtain ⟨written, _, updated, rest⟩ := bind_ok ok
  cases written with
  | none => cases rest
  | some new =>
    cases rest
    obtain ⟨old, _, rfl, pending, rfl, replaced, rfl⟩ := updateRunStep_some updated
    refine ⟨⟨old, replaced.old_mem, rfl, by simpa using pending⟩, ?_⟩
    rw [replaced.eq_map unique]
    congr 1
    refine map_congr_left fun row mem => ?_
    by_cases same : row.stepID = old.stepID
    · rw [if_pos same, if_pos same, Table.eq_of_key unique mem replaced.old_mem same]
    · rw [if_neg same, if_neg same]

theorem widenAll_ok {ids} {count : String → Nat} {u} (unique : UniqueSteps s) (distinct : ids.Nodup)
    (ok : Tx.forEach ids (fun id => addRunStepRemainingDeps id (count id) now) s = (.ok u, s')) :
    (∀ id ∈ ids, ∃ row ∈ s.steps, row.stepID = id ∧ row.status = .pending) ∧
      s' = { s with
        steps := s.steps.map fun row =>
          if row.stepID ∈ ids then widen (count row.stepID) now row else row } := by
  induction ids generalizing s with
  | nil =>
    cases ok
    simp
  | cons id rest ih =>
    obtain ⟨absent, distinct⟩ := nodup_cons.mp distinct
    obtain ⟨_, _, first, others⟩ := bind_ok ok
    obtain ⟨anchored, rfl⟩ := addRunStepRemainingDeps_ok unique first
    have keeps : ∀ row : StepRow,
        (if row.stepID = id then widen (count id) now row else row).stepID = row.stepID := by
      intro row
      split <;> rfl
    have unique₁ : UniqueSteps { s with
        steps := s.steps.map fun row => if row.stepID = id then widen (count id) now row else row } := by
      unfold UniqueSteps
      rw [map_map]
      exact (map_congr_left fun row _ => keeps row) ▸ unique
    obtain ⟨later, rfl⟩ := ih unique₁ distinct others
    refine ⟨?_, ?_⟩
    · intro other mem
      rcases mem_cons.mp mem with rfl | mem
      · exact anchored
      · obtain ⟨row, inside, same, pending⟩ := later other mem
        obtain ⟨row, original, rfl⟩ := mem_map.mp inside
        refine ⟨row, original, (keeps row).symm.trans same, ?_⟩
        split at pending <;> exact pending
    · congr 1
      rw [map_map]
      refine map_congr_left fun row _ => ?_
      simp only [Function.comp_apply, keeps, mem_cons]
      by_cases same : row.stepID = id
      · simp [same, absent]
      · simp [same]

theorem widened_nodup (args : ExpandRun) : args.widened.Nodup :=
  (perm_insertionSort _ _).nodup_iff.mpr (nodup_dedup _)

variable {args : ExpandRun}

theorem mem_widened {id} : id ∈ args.widened ↔ id ∉ args.deltaIDs ∧
      ∃ edge ∈ args.plan.edges, edge.isLoop = false ∧ edge.toStep = id := by
  simp only [ExpandRun.widened, mem_insertionSort, mem_dedup, mem_map,
    mem_filter, Bool.and_eq_true, Bool.not_eq_true', contains_eq_mem,
    decide_eq_false_iff_not]
  constructor
  · rintro ⟨edge, ⟨mem, normal, outside⟩, rfl⟩
    exact ⟨outside, edge, mem, normal, rfl⟩
  · rintro ⟨outside, edge, mem, normal, rfl⟩
    exact ⟨edge, ⟨mem, normal, outside⟩, rfl⟩

theorem newSteps_stepID (args : ExpandRun) (version : Int) (origin : StepRow) (now : Time) :
    (args.newSteps version origin now).map StepRow.stepID = args.deltaIDs := by
  rw [ExpandRun.newSteps, map_map]
  rfl

theorem splice_ok {origin} {row : RunRow} (ok : splice args s.run origin now s = (.ok row, s')) :
    ((s.steps ++ args.newSteps (s.run.graphVersion + 1) origin now).map StepRow.stepID).Nodup ∧
      ((s.edges ++ args.newEdges (s.run.graphVersion + 1) (nextOrdinal s)).map
        EdgeRow.ordinal).Nodup ∧
      (∀ id ∈ args.widened, ∃ row ∈ s.steps, row.stepID = id ∧ row.status = .pending) ∧
      s' = args.apply origin now s := by
  obtain ⟨_, _, inserted, rest₁⟩ := bind_ok ok
  unfold createStepBatch at inserted
  split at inserted
  on_goal 2 => cases inserted
  rename_i steps
  cases inserted
  have rest₂ := read_bind_ok rest₁
  obtain ⟨_, _, linked, rest₃⟩ := bind_ok rest₂
  unfold createEdgeBatch at linked
  split at linked
  on_goal 2 => cases linked
  rename_i edges
  cases linked
  obtain ⟨_, _, widens, rest₄⟩ := bind_ok rest₃
  obtain ⟨anchored, rfl⟩ := widenAll_ok (by exact steps) (widened_nodup args) widens
  obtain ⟨_, _, bumped, rest₅⟩ := bind_ok rest₄
  rw [updateRun_apply, if_pos (by simp)] at bumped
  cases bumped
  cases rest₅
  refine ⟨steps, edges, ?_, ?_⟩
  · intro id mem
    obtain ⟨row, inside, same, pending⟩ := anchored id mem
    rcases mem_append.mp inside with old | new
    · exact ⟨row, old, same, pending⟩
    · -- An injected step is never among the anchors.
      have delta : row.stepID ∈ args.deltaIDs := by
        rw [← newSteps_stepID args (s.run.graphVersion + 1) origin now]
        exact mem_map_of_mem new
      exact absurd (same ▸ delta) (mem_widened.mp mem).1
  · have fresh : (args.newSteps (s.run.graphVersion + 1) origin now).map (args.widenRow now) =
        args.newSteps (s.run.graphVersion + 1) origin now := by
      refine (map_congr_left fun row mem => ?_).trans (map_id _)
      have delta : row.stepID ∈ args.deltaIDs := by
        rw [← newSteps_stepID args (s.run.graphVersion + 1) origin now]
        exact mem_map_of_mem mem
      exact if_neg fun widened => (mem_widened.mp widened).1 delta
    have all : (s.steps ++ args.newSteps (s.run.graphVersion + 1) origin now).map
        (args.widenRow now) = (args.apply origin now s).steps := by
      rw [map_append, fresh]
      rfl
    exact congrArg (fun steps => { args.apply origin now s with steps }) all

theorem expandRun_ok {result : ExpandRunResult}
    (ok : expandRun lint args now s = (.ok result, s')) :
    ∃ origin event, args.Fits lint origin now s ∧ event.runTotals = none ∧
      (Tx.forEach args.readied (fun id => appendEvent (.stepReady id)) >>= fun _ =>
        Tx.forEach args.readied fun id => createOutbox id .stepReady)
          (RunStore.record (args.apply origin now s) event) = (.ok (), s') := by
  have rest₁ := requireNow_bind_ok ok
  have rest₂ := requireArgument_bind_ok rest₁
  have rest₃ := read_bind_ok rest₂
  split at rest₃
  · cases rest₃
  rename_i live
  obtain ⟨origin, _, found, rest₄⟩ := bind_ok rest₃
  obtain ⟨found, rfl⟩ := getRunStep_ok found
  obtain ⟨_, _, read, rest₅⟩ := bind_ok rest₄
  cases read
  dsimp only at rest₅
  split at rest₅
  · cases rest₅
  rename_i accepted
  obtain ⟨_, _, spliced, rest₆⟩ := bind_ok rest₅
  obtain ⟨steps, edges, anchored, rfl⟩ := splice_ok spliced
  generalize plain : Event.graphExpanded _ _ _ _ _ _ _ _ = event at rest₆
  obtain ⟨_, _, recorded, rest₇⟩ := bind_ok rest₆
  cases recorded
  refine ⟨origin, event, ⟨?_, found, by simpa using accepted, steps, edges, anchored⟩,
    by rw [← plain]; rfl, ?_⟩
  · unfold RunRow.live
    simp only [Bool.or_eq_true, beq_iff_eq]
    by_contra dead
    exact live ⟨fun running => dead (.inl running), fun parked => dead (.inr parked)⟩
  · obtain ⟨_, _, readied, rest₈⟩ := bind_ok rest₇
    obtain ⟨_, _, outboxed, rest₉⟩ := bind_ok rest₈
    cases rest₉
    rw [bind_of_ok readied]
    exact outboxed

theorem splice_uncaught (args : ExpandRun) (run : RunRow) (origin : StepRow) (now : Time) :
    Tx.Uncaught StoreError.isRefusal (splice args run origin now) := by
  refine Tx.Uncaught.bind ?_ fun _ => (Tx.Uncaught.read _).bind fun first =>
    Tx.Uncaught.bind ?_ fun _ => (Tx.Uncaught.forEach fun id => ?_).bind fun _ => ?_
  · intro s e s' failed
    unfold createStepBatch at failed
    split at failed <;> cases failed
    rfl
  · intro s e s' failed
    unfold createEdgeBatch at failed
    split at failed <;> cases failed
    rfl
  · refine (updateRunStep_uncaught _ _ _).bind fun written => ?_
    cases written with
    | some row => exact .pure ()
    | none => exact .throw rfl
  · refine Tx.Uncaught.bind ?_ fun written => ?_
    · intro s e s' failed
      rw [updateRun_apply] at failed
      split at failed <;> cases failed
    · cases written with
      | some row => exact .pure row
      | none => exact .throw rfl

theorem expandRun_clean (args : ExpandRun) (now : Time) (s : RunStore) :
    Tx.Clean StoreError.isRefusal (expandRun lint args now) s := by
  refine .bind_reading (requireNow_state _ _ s) fun _ _ => ?_
  refine .bind_reading (requireArgument_state _ _ _ s) fun _ _ => .bind_reading rfl fun run _ => ?_
  split
  · exact .of_state rfl
  refine .bind_reading (getRunStep_state _ _ s) fun origin _ => .bind_reading rfl fun input _ => ?_
  dsimp only
  split
  · exact .of_state rfl
  · refine .of_uncaught ((splice_uncaught _ _ _ _).bind fun _ => (Tx.Uncaught.write _).bind fun _ => ?_)
    exact (Tx.Uncaught.forEach fun _ => .write _).bind fun _ =>
      (Tx.Uncaught.forEach fun _ => .write _).bind fun _ => .pure _

theorem expandRun_sound (expands : may.expands) (sends : may.sends) (args : ExpandRun) (now : Time) :
    Sound lint may (expandRun lint args now) := by
  refine fun s => .of_clean (.refl s) (expandRun_clean _ _ s) fun result s' ok => ?_
  obtain ⟨_, _, fits, plain, rest⟩ := expandRun_ok ok
  have announces : Sound lint may
      (Tx.forEach args.readied (fun id => appendEvent (.stepReady id)) >>= fun _ =>
        Tx.forEach args.readied fun id => createOutbox id .stepReady) :=
    (Sound.forEach fun _ _ => appendEvent_sound _ rfl).bind fun _ =>
      .forEach fun _ _ => createOutbox_sound sends _ _
  exact Reaches.trans _ _ _ (.single (.expanded fits expands plain)) (announces.of_ok rest)

end Agentloom.Store
