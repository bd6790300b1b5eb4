import Agentloom.Engine.Control
import Agentloom.Engine.Decide

/-! A run under the engine: a history of actions, each one transaction. What an action reads before
its transaction is any earlier state of the run. -/

namespace Agentloom.Engine

open Transaction Store List

structure Environment where
  lint : Dag.PlanLint
  satisfies : Json → Json → Bool

inductive Action where
  | claim (stepID : String) (claimID : ClaimID) (workerID : String)
  | takeoverAndClaim (stepID : String) (holder claimID : ClaimID) (workerID : String)
  | succeed (args : Success)
  | fail (stepID : String) (claimID : ClaimID) (failure : Failure) (notes : List Note)
      (failureRoute : FailureRoute)
  | collect (args : Collected)
  | throttle (stepID : String) (claimID : ClaimID) (resource bucket retryAfter : String)
      (nextAttemptAt : Time)
  | budgetPark (stepID : String) (claimID : ClaimID) (payload : Json)
  | awaitHuman (stepID : String) (claimID : ClaimID) (content : ApprovalContent)
  | invalidate (stepID : String) (claimID : ClaimID) (failure : Failure) (notes : List Note)
      (validationRoute : ValidationRoute)
  | poison (stepID : String) (error payload : Option Json)
  | requeue (stepID : String)
  | cancel (reason : RunCancelReason)
  | enforceDeadline (payload : Json)
  | park (reason : ParkReason)
  | unpark
  | setBudget (budgetNanoUSD : Int)
  | decide (args : Decision) (seen : RunStore)
  | timeout (stepID : String) (output : Json) (evaluator : Evaluator) (seen later : RunStore)
  | healRunning (stepID : String) (claimID : ClaimID) (hasPendingOutbox : Bool)
  | healCancelling (stepID : String) (claimID : ClaimID) (seen : RunStore)
  | downgrade (stepID : String) (claimID : ClaimID) (payload : Json)
  | record (stepID : String) (entry : Note)
  | enqueue (stepID : String) (reason : OutboxReason)
  | drain (kept : OutboxRow → Bool)

def healScanned (stepID : String) (claimID : ClaimID) (seen : RunStore) (now : Time) :
    StoreTx Unit :=
  if seen.run.status = .cancelling then
    (Tx.dropping StoreError.isConflict (healCancellingStep stepID claimID now)).void
  else pure ()

def drainOutbox (kept : OutboxRow → Bool) : StoreTx Unit := Tx.write fun s =>
  { s with outbox := s.outbox.filter kept }

def Action.exec (env : Environment) (now : Time) : Action → StoreTx Unit
  | .claim stepID claimID workerID => (claimStep stepID claimID workerID now).void
  | .takeoverAndClaim stepID holder claimID workerID =>
    Engine.takeoverAndClaim stepID holder claimID workerID now
  | .succeed args => completeSuccess env.lint args now
  | .fail stepID claimID failure notes failureRoute =>
    completeFailure stepID claimID failure notes failureRoute now
  | .collect args => completeCollected args now
  | .throttle stepID claimID resource bucket retryAfter nextAttemptAt =>
    completeThrottle stepID claimID resource bucket retryAfter nextAttemptAt now
  | .budgetPark stepID claimID payload => completeBudgetPark stepID claimID payload now
  | .awaitHuman stepID claimID content => completeAwaitHuman stepID claimID content now
  | .invalidate stepID claimID failure notes validationRoute =>
    completeValidationFailure stepID claimID failure notes validationRoute now
  | .poison stepID error payload => handlePoison stepID error payload now
  | .requeue stepID => Engine.requeue stepID now
  | .cancel reason => cancelRunTx reason now
  | .enforceDeadline payload => Engine.enforceDeadline payload now
  | .park reason => (parkRun reason now).void
  | .unpark => Engine.unpark now
  | .setBudget budgetNanoUSD => (setRunBudget budgetNanoUSD now).void
  | .decide args seen => Engine.decide env.satisfies args seen now
  | .timeout stepID output evaluator seen later =>
    handleApprovalTimeout env.satisfies stepID output evaluator seen later now
  | .healRunning stepID claimID hasPendingOutbox =>
    healRunningStep stepID claimID hasPendingOutbox now
  | .healCancelling stepID claimID seen => healScanned stepID claimID seen now
  | .downgrade stepID claimID payload => recordModelDowngrade stepID claimID payload now
  | .record stepID entry => recordNote stepID now entry
  | .enqueue stepID reason => createOutbox stepID reason
  | .drain kept => drainOutbox kept

@[simp] def Action.reads : Action → List RunStore
  | .decide _ seen => [seen]
  | .timeout _ _ _ seen later => [seen, later]
  | .healCancelling _ _ seen => [seen]
  | _ => []

def act (env : Environment) (action : Action) (now : Time) (s : RunStore) : RunStore :=
  ((action.exec env now).commit s).2

/-- The states of a run under the engine, the current one first, where every action meets the
condition in the state it acts on. -/
inductive HistoryOf (definitionLint : Dag.DefinitionLint) (env : Environment)
    (meets : Action → Time → RunStore → Prop) : List RunStore → Prop
  | created {definition : Dag.Definition} {s : RunStore}
      (creation : Created definitionLint definition s) : HistoryOf definitionLint env meets [s]
  | acted {action : Action} {now : Time} {s : RunStore} {past : List RunStore}
      (history : HistoryOf definitionLint env meets (s :: past))
      (reads : ∀ seen ∈ action.reads, seen ∈ s :: past) (met : meets action now s) :
      HistoryOf definitionLint env meets (act env action now s :: s :: past)

abbrev History (definitionLint : Dag.DefinitionLint) (env : Environment) : List RunStore → Prop :=
  HistoryOf definitionLint env fun _ _ _ => True

section Soundness

variable {lint : Dag.PlanLint} {may : Permits} {now : Time}

theorem requireLiveRun_ok (ok : requireLiveRun now s = (.ok u, s')) :
    s.run.live = true ∧ s' = s := by
  have rest := lockRunStatus_bind_ok ok
  split at rest
  · rename_i live
    cases rest
    refine ⟨?_, rfl⟩
    simpa [RunRow.live] using live
  · cases rest

theorem attemptCancelRollup_sound : Sound lint may (attemptCancelRollup now) :=
  (cancelRunRollup_sound now).conflicts

theorem attemptRunRollup_sound : Sound lint may (attemptRunRollup now) := by
  refine (succeedRun_sound now).conflicts.bind fun succeeded => ?_
  cases succeeded with
  | some run => exact .pure _
  | none =>
    refine (failRunRollup_sound now).conflicts.bind fun failed => ?_
    cases failed with
    | some run => exact .pure _
    | none => exact attemptCancelRollup_sound

theorem react_soundAt (mem : UniqueSteps s → target ∈ s.steps) :
    Tx.EnsuresAt StoreError.isRefusal (Reaches lint may) (react target now) s := by
  unfold react
  split_ifs
  · exact Sound.pure _ s
  · refine (readyStep_soundAt now mem fun any => ?_).bind Reaches.trans fun _ _ _ => Sound.pure _ _
    simpa [isJoinAny] using any
  · exact (skipStep_sound _ _).bind (fun _ => (Sound.read _).bind fun _ => .pure _) s
  · exact Sound.pure _ s

theorem resolveVerdict_sound (verdict : EdgeVerdict) :
    Sound lint may (resolveVerdict verdict now) := by
  refine fun s => (resolveEdge_sound _ _ _ s).bind Reaches.trans fun result s₁ resolved => ?_
  rcases resolveEdge_ok resolved with ⟨absorbed, rfl, _⟩ |
    ⟨_, _, _, _, _, _, _, _, replaced, rfl, rfl⟩
  · rw [absorbed]
    exact Sound.pure _ _
  · exact react_soundAt fun _ => replaced.new_mem

theorem resolveVerdicts_sound (verdicts : List EdgeVerdict) (fan : FanOut) :
    Sound lint may (resolveVerdicts now verdicts fan) := by
  induction verdicts generalizing fan with
  | nil => exact .pure _
  | cons verdict rest ih => exact (resolveVerdict_sound verdict).bind fun _ => ih _

theorem fanOutFrom_sound (budget : Nat) (fan : FanOut) :
    Sound lint may (fanOutFrom now budget fan) := by
  induction budget generalizing fan with
  | zero =>
    unfold fanOutFrom
    split
    · exact .pure _
    · exact .throw _
    · contradiction
  | succ budget ih =>
    unfold fanOutFrom
    split
    · exact .pure _
    · contradiction
    · rename_i same _
      cases same
      exact (resolveVerdicts_sound _ _).bind fun _ => ih _

theorem fanOut_sound (seed : TerminalSource) : Sound lint may (fanOut seed now) :=
  (Sound.read _).bind fun _ => fanOutFrom_sound _ _

theorem route_sound (sends : may.sends) (source : TerminalSource) :
    Sound lint may (route source now) :=
  (fanOut_sound source).bind fun _ => .forEach fun _ _ => createOutbox_sound sends _ _

theorem routeAndRollup_sound (sends : may.sends) (source : Option TerminalSource) :
    Sound lint may (routeAndRollup source now) := by
  refine Sound.bind ?_ fun _ => attemptRunRollup_sound.void
  cases source with
  | some source => exact route_sound sends source
  | none => exact .pure _

theorem deadLetterDisposition_sound (onFailure : Dag.FailurePolicy) :
    Sound lint may (deadLetterDisposition onFailure now) := by
  cases onFailure with
  | failFast => exact (failRun_sound now).conflicts.bind fun _ => .pure _
  | continueIndependentBranches =>
    exact (Sound.read _).bind fun _ =>
      (Sound.forEach fun id _ => (cancelStep_sound id _ _).void).bind fun _ =>
        (failRunRollup_sound now).conflicts.bind fun _ => .pure _

def chargesOf (notes : List Note) : List AttemptCost :=
  notes.filterMap fun
    | .charge args => some args
    | .event .. => none

theorem mem_chargesOf : args ∈ chargesOf notes ↔ Note.charge args ∈ notes := by
  simp only [chargesOf, mem_filterMap]
  constructor
  · rintro ⟨note, mem, isCharge⟩
    cases note <;> cases isCharge
    exact mem
  · exact fun mem => ⟨.charge args, mem, rfl⟩

theorem recordNote_sound (stepID : String) (note : Note)
    (charges : ∀ args ∈ chargesOf [note], may.charges (args.row now)) :
    Sound lint may (recordNote stepID now note columns) := by
  cases note with
  | charge args =>
    exact (applyAttemptCost_sound now args (charges args (by simp [mem_chargesOf]))).void
  | event => exact (requireArgument_sound _ _ _).bind fun _ => recordEvent_sound _ _ _ _ _

structure Beside (s s' : RunStore) : Prop where
  steps : s'.steps = s.steps
  edges : s'.edges = s.edges
  attempts : s'.attempts = s.attempts
  approvals : s'.approvals = s.approvals
  deadLetters : s'.deadLetters = s.deadLetters
  outbox : s'.outbox = s.outbox
  status : s'.run.status = s.run.status
  onFailure : s'.run.onFailure = s.run.onFailure

theorem Beside.refl (s : RunStore) : Beside s s := ⟨rfl, rfl, rfl, rfl, rfl, rfl, rfl, rfl⟩

theorem Beside.trans (s s' s'' : RunStore) (first : Beside s s') (second : Beside s' s'') :
    Beside s s'' :=
  ⟨second.steps.trans first.steps, second.edges.trans first.edges,
    second.attempts.trans first.attempts, second.approvals.trans first.approvals,
    second.deadLetters.trans first.deadLetters, second.outbox.trans first.outbox,
    second.status.trans first.status, second.onFailure.trans first.onFailure⟩

theorem recordNote_beside (stepID : String) (note : Note) :
    Tx.Ensures StoreError.isRefusal Beside (recordNote stepID now note columns) := by
  cases note with
  | charge args =>
    refine Tx.Ensures.void fun s => .of_clean (.refl s)
      (.of_uncaught (applyAttemptCost_uncaught now args)) fun applied s' ok => ?_
    obtain ⟨_, _, warned⟩ := applyAttemptCost_ok now ok
    cases warning : args.warning <;> rw [warning] at warned <;> cases warned <;>
      exact ⟨rfl, rfl, rfl, rfl, rfl, rfl, rfl, rfl⟩
  | event op type payload =>
    refine fun s => .of_clean (.refl s) (.bind_reading (requireArgument_state _ _ _ s) fun _ _ =>
      .bind_reading (requireNow_state _ _ s) fun _ _ => .of_uncaught (.write _)) fun u s' ok => ?_
    have recorded := requireNow_bind_ok (requireArgument_bind_ok ok)
    cases recorded
    exact ⟨rfl, rfl, rfl, rfl, rfl, rfl, rfl, rfl⟩

theorem recordNotes_beside (stepID : String) (notes : List Note) :
    Tx.Ensures StoreError.isRefusal Beside (recordNotes stepID notes now columns) :=
  Tx.Ensures.forEach Beside.trans Beside.refl fun note _ => recordNote_beside stepID note

theorem recordNotes_sound (stepID : String) (notes : List Note)
    (charges : ∀ args ∈ chargesOf notes, may.charges (args.row now)) :
    Sound lint may (recordNotes stepID notes now columns) := by
  refine .forEach fun note mem => recordNote_sound stepID note fun args isCharge => ?_
  simp only [mem_chargesOf, mem_singleton] at isCharge
  exact charges args (mem_chargesOf.mpr (isCharge ▸ mem))

theorem terminalSource_sound (stepID : String) (stepType : Dag.StepType) (evaluator : Evaluator)
    (select : List EdgeRow → List EdgeVerdict → List EdgeVerdict) :
    Sound lint may (terminalSource stepID stepType evaluator select) := by
  refine (Sound.read _).bind fun edges => ?_
  split
  · exact .throw _
  · exact .pure _

theorem redispatch_sound (sends : may.sends) (reason : OutboxReason) :
    Sound lint may (redispatch reason) :=
  (Sound.read _).bind fun _ => .forEach fun _ _ => createOutbox_sound sends _ _

theorem sourceOfSuccess_sound (expands : may.expands) (sends : may.sends) (args : Success)
    (status : RunStatus) (charges : ∀ cost ∈ chargesOf args.loopNotes, may.charges (cost.row now)) :
    Sound lint may (sourceOfSuccess lint args status now) := by
  unfold sourceOfSuccess
  split
  · exact .pure _
  · refine Sound.bind ?_ fun _ => (recordNotes_sound _ _ charges).bind fun _ =>
      (terminalSource_sound _ _ _ _).bind fun _ => .pure _
    cases args.expansion with
    | some expansion => exact (expandRun_sound expands sends _ _).void
    | none => exact .pure _

theorem settleSuccess_sound (expands : may.expands) (sends : may.sends) (args : Success)
    (charges : ∀ cost ∈ chargesOf (args.notes ++ args.loopNotes), may.charges (cost.row now)) :
    Sound lint may (settleSuccess lint args now) := by
  have first : ∀ cost ∈ chargesOf args.notes, may.charges (cost.row now) := fun cost mem =>
    charges cost (mem_chargesOf.mpr (mem_append_left _ (mem_chargesOf.mp mem)))
  have second : ∀ cost ∈ chargesOf args.loopNotes, may.charges (cost.row now) := fun cost mem =>
    charges cost (mem_chargesOf.mpr (mem_append_right _ (mem_chargesOf.mp mem)))
  exact (lockRunStatus_sound now).bind fun status => (succeedStep_sound _ _ _ _).bind fun _ =>
    (recordNotes_sound _ _ first).bind fun _ =>
      sourceOfSuccess_sound expands sends args status second

theorem settleCancelled_sound (stepID : String) (claimID : ClaimID) (error : Option Json) :
    Sound lint may (settleCancelled stepID claimID error now) :=
  (cancelRunningStep_sound _ _ _ _ _).bind fun _ => attemptCancelRollup_sound.void

theorem unlessCancelling_sound (stepID : String) (claimID : ClaimID) (error : Option Json)
    (sound : Sound lint may otherwise) :
    Sound lint may (unlessCancelling stepID claimID error now otherwise) := by
  refine (lockRunStatus_sound now).bind fun status => ?_
  split
  · exact settleCancelled_sound _ _ _
  · exact sound

theorem buryStep_sound (stepID : String) (claimID : ClaimID)
    (source : DeadLetterSource) (failure : Failure) (notes : List Note)
    (charges : ∀ cost ∈ chargesOf notes, may.charges (cost.row now)) :
    Sound lint may (buryStep stepID claimID source failure notes now) :=
  (deadLetterStep_sound _ _ _ _ _).bind fun _ => (recordNotes_sound _ _ charges).bind fun _ =>
    lockRun_sound.bind fun _ => (deadLetterDisposition_sound _).void

theorem completeFailure_sound (stepID : String) (claimID : ClaimID)
    (failure : Failure) (notes : List Note) (failureRoute : FailureRoute)
    (charges : ∀ cost ∈ chargesOf notes, may.charges (cost.row now)) :
    Sound lint may (completeFailure stepID claimID failure notes failureRoute now) := by
  refine unlessCancelling_sound _ _ _ ?_
  cases failureRoute with
  | retry => exact (retryStep_sound _ _ _ _ _).bind fun _ => recordNotes_sound _ _ charges
  | bury => exact buryStep_sound _ _ _ _ _ charges

theorem settleCollected_sound (args : Collected)
    (charges : ∀ cost ∈ chargesOf args.notes, may.charges (cost.row now)) :
    Sound lint may (settleCollected args now) :=
  (collectFailStep_sound _ _ _ _ _).bind fun _ =>
    (recordNotes_sound _ _ charges).bind fun _ => terminalSource_sound _ _ _ _

theorem completeValidationFailure_sound (sends : may.sends) (stepID : String) (claimID : ClaimID)
    (failure : Failure) (notes : List Note) (validationRoute : ValidationRoute)
    (charges : ∀ cost ∈ chargesOf notes, may.charges (cost.row now)) :
    Sound lint may (completeValidationFailure stepID claimID failure notes validationRoute now) := by
  refine unlessCancelling_sound _ _ _ ?_
  cases validationRoute with
  | semanticRetry =>
    exact (semanticRetryStep_sound _ _ _ _).bind fun _ =>
      (createOutbox_sound sends _ _).bind fun _ => recordNotes_sound _ _ charges
  | bury => exact buryStep_sound _ _ _ _ _ charges

theorem handlePoison_sound (buries : may.buries stepID) (error payload : Option Json) :
    Sound lint may (handlePoison stepID error payload now) := by
  refine lockRun_sound.bind fun _ => (poisonDeadLetterStep_sound _ _ buries _ _).bind fun _ =>
    (deadLetterDisposition_sound _).bind fun disposed => ?_
  dsimp only
  unfold cancelRollupUnless
  split
  · exact .pure _
  · exact attemptCancelRollup_sound.void

theorem reopen_sound : Sound lint may (reopen now) := by
  refine lockRun_sound.bind fun run => ?_
  split
  · exact .throw _
  · exact .throw _
  · exact (resumeRun_sound now).void
  · exact .pure _

theorem requeue_sound (sends : may.sends) (stepID : String) :
    Sound lint may (Engine.requeue stepID now) :=
  (requeueStep_sound _ _).bind fun _ => reopen_sound.bind fun _ => (Sound.read _).bind fun _ =>
    (Sound.forEach fun id _ => (reviveStep_sound id _ _).void).bind fun _ => redispatch_sound sends _

theorem cancelUnclaimed_sound (gates : may.gates) (row : StepRow) :
    Sound lint may (cancelUnclaimed row now) := by
  unfold cancelUnclaimed
  split
  · exact (cancelStep_sound _ _ _).void
  · exact (cancelStep_sound _ _ _).void
  · exact (cancelStep_sound _ _ _).void
  · exact (cancelAwaitingHumanStep_sound now gates _ _).void
  · exact .pure _

theorem sweepUnclaimed_sound (gates : may.gates) : Sound lint may (sweepUnclaimed now) :=
  (Sound.read _).bind fun _ => (Sound.forEach fun row _ => cancelUnclaimed_sound gates row).bind
    fun _ => attemptCancelRollup_sound.void

theorem cancelRunTx_sound (gates : may.gates) (cancels : may.cancels) (reason : RunCancelReason) :
    Sound lint may (cancelRunTx reason now) :=
  (cancelRun_sound now cancels reason).bind fun _ => sweepUnclaimed_sound gates

theorem settleStep_sound (gates : may.gates) (step : StepRow) (args : Decision) :
    Sound lint may (settleStep step args now) := by
  unfold settleStep
  split
  · refine Sound.bind ?_ fun _ => .pure _
    exact lockRun_sound.bind fun _ => (deadLetterAwaitingHumanStep_sound _ _ gates _).bind fun _ =>
      (deadLetterDisposition_sound _).void
  · refine Sound.bind ?_ fun _ => .pure _
    exact (succeedAwaitingHumanStep_sound _ _ gates _).bind fun _ =>
      terminalSource_sound _ _ _ _

theorem settleDecision_sound (gates : may.gates) (approval : ApprovalRow) (step : StepRow)
    (args : Decision) : Sound lint may (settleDecision approval step args now) := by
  refine Sound.bind ?_ fun _ => (decideApproval_sound now gates _).bind fun _ =>
    settleStep_sound gates step args
  refine (lockRunStatus_sound now).bind fun status => ?_
  split
  · exact .pure _
  · exact .throw _

theorem routeDecided_sound (sends : may.sends) (source : Option TerminalSource) :
    Sound lint may (routeDecided source now) := by
  cases source with
  | some source => exact routeAndRollup_sound sends _
  | none => exact .pure _

theorem decide_sound (gates : may.gates) (sends : may.sends) (satisfies : Json → Json → Bool)
    (args : Decision) (seen : RunStore) : Sound lint may (Engine.decide satisfies args seen now) := by
  unfold Engine.decide
  split
  · exact .throw _
  · exact (settleDecision_sound gates _ _ _).bind fun source =>
      routeDecided_sound sends source

theorem handleApprovalTimeout_sound (gates : may.gates) (sends : may.sends)
    (satisfies : Json → Json → Bool) (stepID : String) (output : Json) (evaluator : Evaluator)
    (seen later : RunStore) :
    Sound lint may (handleApprovalTimeout satisfies stepID output evaluator seen later now) := by
  unfold handleApprovalTimeout
  split
  · exact .pure _
  split
  · exact (expireApprovalPark_sound now gates _).void
  · exact decide_sound gates sends _ _ _
  · exact decide_sound gates sends _ _ _

theorem isRefusal_of_isAlreadyReady (e : StoreError) (ready : isAlreadyReady e = true) :
    e.isRefusal = true := by
  cases e <;> first | rfl | cases ready

theorem healRunningStep_sound (sends : may.sends) (stepID : String) (claimID : ClaimID)
    (hasPendingOutbox : Bool) :
    Sound lint may (healRunningStep stepID claimID hasPendingOutbox now) := by
  refine (takeoverStep_sound _ _ _).conflicts.bind fun taken => ?_
  cases taken with
  | none => exact .pure _
  | some row =>
    dsimp only
    split
    · exact .pure _
    · exact createOutbox_sound sends _ _

theorem healScanned_sound (stepID : String) (claimID : ClaimID) (seen : RunStore) :
    Sound lint may (healScanned stepID claimID seen now) := by
  unfold healScanned
  split
  · refine Tx.Ensures.void (Sound.conflicts ?_)
    exact (takeoverStep_sound _ _ _).bind fun _ => (cancelStep_sound _ _ _).bind fun _ =>
      attemptCancelRollup_sound.void
  · exact .pure _

def Action.minted : Action → Option ClaimID
  | .claim _ claimID _ => some claimID
  | .takeoverAndClaim _ _ claimID _ => some claimID
  | _ => none

def Action.isGate : Action → Bool
  | .awaitHuman .. => true
  | .cancel _ => true
  | .enforceDeadline _ => true
  | .decide .. => true
  | .timeout .. => true
  | _ => false

def Action.opens : Action → Bool
  | .awaitHuman .. => true
  | _ => false

theorem Action.isGate_of_opens (action : Action) (opens : action.opens = true) :
    action.isGate = true := by
  cases action <;> first | rfl | cases opens

def Action.judges : Action → Bool
  | .fail .. => true
  | .collect _ => true
  | .invalidate .. => true
  | _ => false

def Action.charges : Action → List AttemptCost
  | .succeed args => chargesOf (args.notes ++ args.loopNotes)
  | .fail _ _ _ notes _ => chargesOf notes
  | .collect args => chargesOf args.notes
  | .invalidate _ _ _ notes _ => chargesOf notes
  | .record _ entry => chargesOf [entry]
  | _ => []

def Action.sends : Action → Bool
  | .succeed _ => true
  | .collect _ => true
  | .invalidate .. => true
  | .requeue _ => true
  | .unpark => true
  | .decide .. => true
  | .timeout .. => true
  | .healRunning .. => true
  | .enqueue .. => true
  | _ => false

def Action.cancels : Action → Bool
  | .cancel _ => true
  | .enforceDeadline _ => true
  | _ => false

structure Action.Permitted (may : Permits) (now : Time) (action : Action) : Prop where
  gates : action.isGate = true → may.gates := by exact fun _ => trivial
  opens : action.opens = true → may.opens := by exact fun _ => trivial
  charges : ∀ cost ∈ action.charges, may.charges (cost.row now) := by exact fun _ _ => trivial
  minted : ∀ claimID, action.minted = some claimID → may.mints claimID := by
    exact fun _ _ => trivial
  buries : ∀ stepID error payload, action = .poison stepID error payload → may.buries stepID := by
    exact fun _ _ _ _ => trivial
  sends : action.sends = true → may.sends := by exact fun _ => trivial
  cancels : action.cancels = true → may.cancels := by exact fun _ => trivial
  expands : ∀ args, action = .succeed args → may.expands := by exact fun _ _ => trivial

theorem Action.exec_sound {action : Action} (permitted : action.Permitted may now) :
    Sound env.lint may (action.exec env now) := by
  obtain ⟨gates, opens, charges, minted, buries, sends, cancels, expands⟩ := permitted
  cases action with
  | claim stepID claimID workerID => exact (claimStep_sound _ _ _ _ (minted claimID rfl)).void
  | takeoverAndClaim stepID holder claimID workerID =>
    exact Sound.bind (Tx.Ensures.dropping (takeoverStep_sound _ _ _) isRefusal_of_isAlreadyReady)
      fun _ => (claimStep_sound _ _ _ _ (minted claimID rfl)).void
  | succeed args =>
    exact (settleSuccess_sound (expands args rfl) (sends rfl) args charges).bind fun _ =>
      routeAndRollup_sound (sends rfl) _
  | fail => exact completeFailure_sound _ _ _ _ _ charges
  | collect args =>
    exact unlessCancelling_sound _ _ _ ((settleCollected_sound args charges).bind
      fun _ => routeAndRollup_sound (sends rfl) _)
  | throttle => exact unlessCancelling_sound _ _ _ (throttleStep_sound _ _ _ _ _ _ _).void
  | budgetPark => exact unlessCancelling_sound _ _ _ (budgetParkStep_sound _ _ _ _).void
  | awaitHuman =>
    exact unlessCancelling_sound _ _ _
      (awaitHumanStep_sound _ (gates rfl) (opens rfl) _ _ _).void
  | invalidate => exact completeValidationFailure_sound (sends rfl) _ _ _ _ _ charges
  | poison => exact handlePoison_sound (buries _ _ _ rfl) _ _
  | requeue => exact requeue_sound (sends rfl) _
  | cancel => exact cancelRunTx_sound (gates rfl) (cancels rfl) _
  | enforceDeadline =>
    refine (cancelRunTx_sound (gates rfl) (cancels rfl) _).conflicts.bind fun cancelled => ?_
    cases cancelled with
    | some _ => exact recordEvent_sound _ _ _ _ _
    | none => exact .pure _
  | park => exact (parkRun_sound _ _).void
  | unpark => exact (unparkRun_sound _).bind fun _ => redispatch_sound (sends rfl) _
  | setBudget => exact (setRunBudget_sound _ _).void
  | decide args seen => exact decide_sound (gates rfl) (sends rfl) _ _ _
  | timeout => exact handleApprovalTimeout_sound (gates rfl) (sends rfl) _ _ _ _ _ _
  | healRunning => exact healRunningStep_sound (sends rfl) _ _ _
  | healCancelling => apply healScanned_sound
  | downgrade => apply recordModelDowngrade_sound
  | record stepID entry => exact recordNote_sound stepID entry charges
  | enqueue => exact createOutbox_sound (sends rfl) _ _
  | drain kept => exact .write fun _ => .single (.enqueued _ (.inl (filter_subset_self _)))

end Soundness

section Histories

variable {definitionLint : Dag.DefinitionLint} {env : Environment}

theorem act_reaches (env : Environment) (action : Action) (now : Time) (s : RunStore) :
    Reaches env.lint .all s (act env action now s) :=
  Tx.Ensures.commit Reaches.refl (Action.exec_sound {}) s

theorem HistoryOf.mono (history : HistoryOf definitionLint env meets states)
    (weaker : ∀ action now s, meets action now s → meets' action now s) :
    HistoryOf definitionLint env meets' states := by
  induction history with
  | created creation => exact .created creation
  | acted _ reads met ih => exact .acted ih reads (weaker _ _ _ met)

theorem HistoryOf.invariant (history : HistoryOf definitionLint env meets states)
    (invariant : Invariant definitionLint env.lint .all holds) :
    ∀ s ∈ states, UniqueSteps s ∧ holds s := by
  induction history with
  | created creation =>
    intro s mem
    rw [mem_singleton.mp mem]
    exact invariant.created trivial creation
  | @acted action now s past _ _ _ ih =>
    intro other mem
    rcases mem_cons.mp mem with rfl | earlier
    · obtain ⟨unique, before⟩ := ih s mem_cons_self
      have chain := act_reaches env action now s unique
      exact ⟨uniqueSteps_of_chain chain unique, invariant.chain chain unique before⟩
    · exact ih other earlier

end Histories

end Agentloom.Engine
