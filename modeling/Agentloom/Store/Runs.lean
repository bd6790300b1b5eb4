import Agentloom.Dag.ExpansionCycles
import Agentloom.Store.Reaching

/-! A run is created from a validated definition and then changed by calls, each a transaction of
its own. What holds of the created rows and is kept by every effect holds after every history of
calls. -/

namespace Agentloom.Store

open Transaction Relation List

variable {lint : Dag.PlanLint}

inductive Fenced where
  | takeover
  | succeed (completion : Completion)
  | deadLetter (source : DeadLetterSource) (failure : Failure)
  | collectFail (failure : Failure) (output : Json)
  | cancelRunning (reason : String) (error : Option Json)
  | retry (failure : Failure) (nextAttemptAt : Time)
  | throttle (resource bucket retryAfter : String) (nextAttemptAt : Time)
  | semanticRetry (args : SemanticRetry)
  | budgetPark (payload : Json)
  | awaitHuman (content : ApprovalContent)
deriving DecidableEq, Repr

def Fenced.perform (stepID : String) (claimID : ClaimID) (now : Time) : Fenced → StoreTx StepRow
  | .takeover => takeoverStep stepID claimID now
  | .succeed completion => succeedStep stepID claimID completion now
  | .deadLetter source failure => deadLetterStep stepID claimID source failure now
  | .collectFail failure output => collectFailStep stepID claimID failure output now
  | .cancelRunning reason error => cancelRunningStep stepID claimID reason error now
  | .retry failure nextAttemptAt => retryStep stepID claimID failure nextAttemptAt now
  | .throttle resource bucket retryAfter nextAttemptAt =>
    throttleStep stepID claimID resource bucket retryAfter nextAttemptAt now
  | .semanticRetry args => semanticRetryStep stepID claimID args now
  | .budgetPark payload => budgetParkStep stepID claimID payload now
  | .awaitHuman content => awaitHumanStep stepID claimID content now

inductive Unfenced where
  | cancel (reason : String)
  | requeue
  | revive (reason : String)
  | ready (joinAny : Bool)
  | skip
  | poison (error payload : Option Json)
  | cancelAwaitingHuman (reason : String)
  | succeedAwaitingHuman (output : Json)
  | deadLetterAwaitingHuman (error : Option Json)
deriving DecidableEq, Repr

def Unfenced.perform (stepID : String) (now : Time) : Unfenced → StoreTx StepRow
  | .cancel reason => cancelStep stepID reason now
  | .requeue => requeueStep stepID now
  | .revive reason => reviveStep stepID reason now
  | .ready joinAny => readyStep stepID joinAny now
  | .skip => skipStep stepID now
  | .poison error payload => poisonDeadLetterStep stepID error payload now
  | .cancelAwaitingHuman reason => cancelAwaitingHumanStep stepID reason now
  | .succeedAwaitingHuman output => succeedAwaitingHumanStep stepID output now
  | .deadLetterAwaitingHuman error => deadLetterAwaitingHumanStep stepID error now

inductive RunMove where
  | succeed
  | fail
  | failRollup
  | resume
  | park (reason : ParkReason)
  | unpark
  | cancel (reason : RunCancelReason)
  | cancelRollup
  | setBudget (budgetNanoUSD : Int)
deriving DecidableEq, Repr

def RunMove.perform (now : Time) : RunMove → StoreTx RunRow
  | .succeed => succeedRun now
  | .fail => failRun now
  | .failRollup => failRunRollup now
  | .resume => resumeRun now
  | .park reason => parkRun reason now
  | .unpark => unparkRun now
  | .cancel reason => cancelRun reason now
  | .cancelRollup => cancelRunRollup now
  | .setBudget budgetNanoUSD => setRunBudget budgetNanoUSD now

inductive Transition where
  | claim (stepID : String) (claimID : ClaimID) (workerID : String)
  | fenced (stepID : String) (claimID : ClaimID) (transition : Fenced)
  | step (stepID : String) (transition : Unfenced)
  | run (move : RunMove)
  | decideApproval (args : DecideApproval)
  | expireApprovalPark (args : ExpireApprovalPark)
  | resolveEdge (ordinal : Nat) (fired : Bool)
  | expand (args : ExpandRun)
  | downgrade (stepID : String) (claimID : ClaimID) (payload : Json)
  | record (op type stepID : String) (payload : Json)
  | charge (args : AttemptCost)
  | enqueue (stepID : String) (reason : OutboxReason)
deriving DecidableEq, Repr

structure Call where
  transition : Transition
  now : Time
deriving DecidableEq, Repr

def Call.perform (lint : Dag.PlanLint) (call : Call) : StoreTx Unit :=
  match call.transition with
  | .claim stepID claimID workerID => (claimStep stepID claimID workerID call.now).void
  | .fenced stepID claimID transition => (transition.perform stepID claimID call.now).void
  | .step stepID transition => (transition.perform stepID call.now).void
  | .run move => (move.perform call.now).void
  | .decideApproval args => (decideApproval args call.now).void
  | .expireApprovalPark args => (expireApprovalPark args call.now).void
  | .resolveEdge ordinal fired => (resolveEdge ordinal fired call.now).void
  | .expand args => (expandRun lint args call.now).void
  | .downgrade stepID claimID payload => recordModelDowngrade stepID claimID payload call.now
  | .record op type stepID payload => recordEvent op type stepID payload call.now
  | .charge args => (applyAttemptCost args call.now).void
  | .enqueue stepID reason => createOutbox stepID reason

def Call.minted (call : Call) : Option ClaimID :=
  match call.transition with
  | .claim _ claimID _ => some claimID
  | _ => none

def advance (lint : Dag.PlanLint) (s : RunStore) (call : Call) : RunStore :=
  ((call.perform lint).commit s).2

def replay (lint : Dag.PlanLint) (s : RunStore) (calls : List Call) : RunStore :=
  calls.foldl (advance lint) s

@[simp] theorem replay_nil (lint : Dag.PlanLint) (s : RunStore) : replay lint s [] = s := rfl

@[simp] theorem replay_cons (lint : Dag.PlanLint) (s : RunStore) (call : Call) (calls : List Call) :
    replay lint s (call :: calls) = replay lint (advance lint s call) calls := rfl

theorem replay_append (lint : Dag.PlanLint) (s : RunStore) (calls later : List Call) :
    replay lint s (calls ++ later) = replay lint (replay lint s calls) later :=
  foldl_append

section Soundness

variable {mints : ClaimID → Prop}

theorem Fenced.perform_sound (stepID : String) (claimID : ClaimID) (now : Time) (t : Fenced) :
    Sound lint (.minting mints) (t.perform stepID claimID now) := by
  cases t with
  | takeover => apply takeoverStep_sound
  | succeed => apply succeedStep_sound
  | deadLetter => apply deadLetterStep_sound
  | collectFail => apply collectFailStep_sound
  | cancelRunning => apply cancelRunningStep_sound
  | retry => apply retryStep_sound
  | throttle => apply throttleStep_sound
  | semanticRetry => apply semanticRetryStep_sound
  | budgetPark => apply budgetParkStep_sound
  | awaitHuman => exact awaitHumanStep_sound now trivial trivial stepID claimID _

theorem Unfenced.perform_sound (stepID : String) (now : Time) (t : Unfenced) :
    Sound lint (.minting mints) (t.perform stepID now) := by
  cases t with
  | cancel => apply cancelStep_sound
  | requeue => apply requeueStep_sound
  | revive => apply reviveStep_sound
  | ready => exact readyStep_sound _ _ _ fun _ => trivial
  | skip => apply skipStep_sound
  | poison => exact poisonDeadLetterStep_sound _ _ trivial _ _
  | cancelAwaitingHuman => exact cancelAwaitingHumanStep_sound now trivial stepID _
  | succeedAwaitingHuman => exact succeedAwaitingHumanStep_sound stepID now trivial _
  | deadLetterAwaitingHuman => exact deadLetterAwaitingHumanStep_sound stepID now trivial _

theorem RunMove.perform_sound (now : Time) (move : RunMove) :
    Sound lint (.minting mints) (move.perform now) := by
  cases move with
  | succeed => apply succeedRun_sound
  | fail => apply failRun_sound
  | failRollup => apply failRunRollup_sound
  | resume => apply resumeRun_sound
  | park => apply parkRun_sound
  | unpark => apply unparkRun_sound
  | cancel => exact cancelRun_sound now trivial _
  | cancelRollup => apply cancelRunRollup_sound
  | setBudget => apply setRunBudget_sound

theorem Call.perform_sound (call : Call)
    (minted : ∀ claimID, call.minted = some claimID → mints claimID) :
    Sound lint (.minting mints) (call.perform lint) := by
  obtain ⟨transition, now⟩ := call
  cases transition with
  | claim stepID claimID workerID => exact (claimStep_sound _ _ _ _ (minted claimID rfl)).void
  | fenced stepID claimID t => exact (t.perform_sound stepID claimID now).void
  | step stepID t => exact (t.perform_sound stepID now).void
  | run move => exact (move.perform_sound now).void
  | decideApproval args => exact (decideApproval_sound now trivial args).void
  | expireApprovalPark args => exact (expireApprovalPark_sound now trivial args).void
  | resolveEdge ordinal fired => exact (resolveEdge_sound ordinal fired now).void
  | expand args => exact (expandRun_sound trivial trivial args now).void
  | downgrade => apply recordModelDowngrade_sound
  | record => apply recordEvent_sound
  | charge args => exact (applyAttemptCost_sound now args trivial).void
  | enqueue => exact createOutbox_sound trivial _ _

theorem advance_reaches (s : RunStore) (call : Call)
    (minted : ∀ claimID, call.minted = some claimID → mints claimID) :
    Reaches lint (.minting mints) s (advance lint s call) :=
  Tx.Ensures.commit Reaches.refl (call.perform_sound minted) s

theorem replay_reaches (s : RunStore) (calls : List Call)
    (minted : ∀ call ∈ calls, ∀ claimID, call.minted = some claimID → mints claimID) :
    Reaches lint (.minting mints) s (replay lint s calls) := by
  induction calls generalizing s with
  | nil => exact .refl s
  | cons call rest ih =>
    refine Reaches.trans _ _ _ (advance_reaches s call (minted call mem_cons_self)) ?_
    exact ih _ fun other mem => minted other (mem_cons_of_mem _ mem)

end Soundness

structure Founded (lint : Dag.DefinitionLint) (definition : Dag.Definition) (s : RunStore) : Prop where
  validated : Dag.validates lint definition = true
  planned : ∃ entry params budgetNanoUSD now, planInstantiation definition = .ok entry ∧
    s = initialStore definition entry params budgetNanoUSD now

def Created (lint : Dag.DefinitionLint) (definition : Dag.Definition) (s : RunStore) : Prop :=
  ∃ params budgetNanoUSD now, createRun lint definition params budgetNanoUSD now = .ok s

variable {definitionLint : Dag.DefinitionLint} {definition : Dag.Definition}

variable {may : Permits}

theorem announce_sound (sends : may.sends) (name : String) (stepsTotal : Nat)
    (entry : List String) : Sound lint may (announce name stepsTotal entry) :=
  (appendEvent_sound _ rfl).bind fun _ => (Sound.forEach fun _ _ => appendEvent_sound _ rfl).bind fun _ =>
    .forEach fun _ _ => createOutbox_sound sends _ _

theorem forEach_ok {α : Type} (items : List α) (body : α → StoreTx Unit)
    (each : ∀ item s, ∃ s', body item s = (.ok (), s')) (s : RunStore) :
    ∃ s', Tx.forEach items body s = (.ok (), s') := by
  induction items generalizing s with
  | nil => exact ⟨s, rfl⟩
  | cons item rest ih =>
    obtain ⟨middle, first⟩ := each item s
    obtain ⟨s', second⟩ := ih middle
    exact ⟨s', (Tx.bind_of_ok first).trans second⟩

theorem announce_ok (name : String) (stepsTotal : Nat) (entry : List String) (s : RunStore) :
    ∃ s', announce name stepsTotal entry s = (.ok (), s') := by
  obtain ⟨middle, events⟩ := forEach_ok entry (fun id => appendEvent (.stepReady id))
    (fun _ _ => ⟨_, rfl⟩) (s.record (.runCreated name stepsTotal))
  obtain ⟨s', outbox⟩ := forEach_ok entry (fun id => createOutbox id .stepReady)
    (fun _ _ => ⟨_, rfl⟩) middle
  refine ⟨s', ?_⟩
  unfold announce
  rw [Tx.bind_of_ok (show appendEvent _ s = (.ok (), _) from rfl), Tx.bind_of_ok events]
  exact outbox

variable {s : RunStore}

theorem Created.opened (created : Created definitionLint definition s) :
    Dag.validates definitionLint definition = true ∧ ∃ entry params budgetNanoUSD now,
      planInstantiation definition = .ok entry ∧
      announce definition.name definition.steps.length entry
        (initialStore definition entry params budgetNanoUSD now) = (.ok (), s) := by
  obtain ⟨params, budgetNanoUSD, now, ok⟩ := created
  unfold createRun at ok
  split at ok
  · cases ok
  split at ok
  · cases ok
  rename_i validated
  cases planned : planInstantiation definition with
  | error message =>
    rw [planned] at ok
    cases ok
  | ok entry =>
    rw [planned] at ok
    cases ok
    refine ⟨by simpa using validated, entry, params, budgetNanoUSD, now, rfl, ?_⟩
    obtain ⟨_, announced⟩ := announce_ok definition.name definition.steps.length entry
      (initialStore definition entry params budgetNanoUSD now)
    rw [announced]

theorem Created.announced (created : Created definitionLint definition s) :
    ∃ founding entry, Founded definitionLint definition founding ∧
      announce definition.name definition.steps.length entry founding = (.ok (), s) := by
  obtain ⟨validated, entry, params, budgetNanoUSD, now, planned, announced⟩ := created.opened
  exact ⟨_, entry, ⟨validated, entry, params, budgetNanoUSD, now, planned, rfl⟩, announced⟩

theorem mem_entry_iff {entry} (validated : Dag.validates definitionLint definition = true)
    (planned : planInstantiation definition = .ok entry) {id} :
    id ∈ entry ↔ ∃ step ∈ definition.steps, step.id = id ∧ inDegree definition.edges id = 0 := by
  have wellFormed := Dag.validates_wellFormed validated
  have built := Dag.newGraph_of_resolved wellFormed.unique wellFormed.ends
  rw [planInstantiation_eq built wellFormed.acyclic] at planned
  cases planned
  rw [mem_map]
  constructor
  · rintro ⟨step, listed, rfl⟩
    obtain ⟨mem, none⟩ := mem_filter.mp listed
    exact ⟨step, mem, rfl, by simpa using none⟩
  · rintro ⟨step, mem, rfl, none⟩
    exact ⟨step, mem_filter.mpr ⟨mem, by simpa using none⟩, rfl⟩

theorem Created.founded (created : Created definitionLint definition s) (lint : Dag.PlanLint)
    (may : Permits) (sends : may.sends) :
    ∃ founding, Founded definitionLint definition founding ∧ Reaches lint may founding s := by
  obtain ⟨founding, _, founded, announced⟩ := created.announced
  exact ⟨founding, founded, (announce_sound sends _ _ _).of_ok announced⟩

theorem initialSteps_stepID (entry : List String) (now : Time) :
    (initialSteps definition entry now).map StepRow.stepID = definition.stepIDs := by
  unfold initialSteps
  rw [List.map_map]
  rfl

theorem Founded.uniqueSteps (founded : Founded definitionLint definition s) : UniqueSteps s := by
  obtain ⟨_, _, _, _, _, rfl⟩ := founded.planned
  unfold UniqueSteps initialStore
  rw [initialSteps_stepID]
  exact (Dag.validates_wellFormed founded.validated).unique

structure Invariant (definitionLint : Dag.DefinitionLint) (lint : Dag.PlanLint)
    (may : Permits) (holds : RunStore → Prop) : Prop where
  founded : ∀ definition s, Founded definitionLint definition s → holds s
  kept : ∀ s s', Effect lint may s s' → UniqueSteps s → holds s → holds s'

variable {holds : RunStore → Prop}

theorem Invariant.chain (invariant : Invariant definitionLint lint may holds)
    (chain : ReflTransGen (Effect lint may) s s') (unique : UniqueSteps s) (start : holds s) :
    holds s' := by
  induction chain with
  | refl => exact start
  | tail first effect ih => exact invariant.kept _ _ effect (uniqueSteps_of_chain first unique) ih

theorem Invariant.created (invariant : Invariant definitionLint lint may holds)
    (sends : may.sends) (created : Created definitionLint definition s) :
    UniqueSteps s ∧ holds s := by
  obtain ⟨_, founded, reaches⟩ := created.founded lint may sends
  have chain := reaches founded.uniqueSteps
  exact ⟨uniqueSteps_of_chain chain founded.uniqueSteps,
    invariant.chain chain founded.uniqueSteps (invariant.founded _ _ founded)⟩

theorem Invariant.replay (invariant : Invariant definitionLint lint (.minting mints) holds)
    (created : Created definitionLint definition s) (calls : List Call)
    (minted : ∀ call ∈ calls, ∀ claimID, call.minted = some claimID → mints claimID) :
    UniqueSteps (replay lint s calls) ∧ holds (replay lint s calls) := by
  obtain ⟨unique, start⟩ := invariant.created trivial created
  have chain : ReflTransGen (Effect lint (.minting mints)) s (Store.replay lint s calls) :=
    replay_reaches s calls minted unique
  exact ⟨uniqueSteps_of_chain chain unique, invariant.chain chain unique start⟩

/-- The run of a definition as its creation leaves it, where `entry` are its first steps. -/
def opened (definition : Dag.Definition) (entry : List String) : RunStore :=
  (announce definition.name definition.steps.length entry
    (initialStore definition entry "" none 1)).2

/-! A run of three steps in a row, and the start of a history in which a late worker presents a claim
it has lost. -/

def plannedRun : RunStore := opened Dag.plannedDefinition ["p"]

theorem plannedRun_created : Created Dag.quietDefinitionLint Dag.plannedDefinition plannedRun :=
  ⟨"", none, 1, rfl⟩

def plannedCalls : List Call :=
  [{ transition := .claim "p" 7 "worker", now := 2 },
    { transition := .fenced "p" 7 .takeover, now := 3 },
    { transition := .claim "p" 8 "worker", now := 4 },
    { transition := .fenced "p" 7 (.succeed {}), now := 5 },
    { transition := .fenced "p" 8 (.succeed {}), now := 6 },
    { transition := .resolveEdge 0 true, now := 6 },
    { transition := .step "z" (.ready false), now := 6 }]

end Agentloom.Store
