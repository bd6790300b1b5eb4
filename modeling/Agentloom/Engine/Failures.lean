import Agentloom.Dag.Codec
import Agentloom.Dag.Policies
import Agentloom.Store.Budgets
import Agentloom.Engine.Runs

/-! How a worker judges a failed attempt: the policies of the step against the failures it counts,
under the lock of the run. -/

namespace Agentloom.Engine

open Transaction Store
open Dag.Authored (ErrorClass MapConfig ResolvedRetryPolicy RetryPolicy ValidationPolicy checkRetry
  decodeStepConfig effectiveMaxAttempts resolveRetryPolicy)

structure StepPolicies where
  retry : Option RetryPolicy := none
  validation : Option ValidationPolicy := none
  checked : ∃ duration spelling path, checkRetry duration spelling path retry = []

def StepPolicies.maxAttempts (policies : StepPolicies) : Int :=
  (resolveRetryPolicy policies.retry).maxAttempts

def StepPolicies.maxValidations (policies : StepPolicies) : Int :=
  effectiveMaxAttempts policies.validation

inductive FailureClass where
  | transient
  | permanent
  | timeout
deriving DecidableEq, Repr

def FailureClass.errorClass : FailureClass → ErrorClass
  | .transient => .transient
  | .permanent => .permanent
  | .timeout => .timeout

def FailureClass.outcome : FailureClass → AttemptOutcome
  | .transient => .transient
  | .permanent => .permanent
  | .timeout => .timeout

def StepPolicies.retries (policies : StepPolicies) (class_ : FailureClass) : Bool :=
  (resolveRetryPolicy policies.retry).retries class_.errorClass

def decodeMapConfig : Dag.StepConfig → Option MapConfig
  | .json text =>
    match JsonText.parse text with
    | none => none
    | some value =>
      match decodeStepConfig .map value "config" with
      | (config, []) => config
      | _ => none
  | _ => none

def collectsErrors (s : RunStore) (mapID : String) : Bool :=
  ((findStep s mapID).bind fun origin => decodeMapConfig origin.config).any fun config =>
    config.onItemFailure == .known .collectErrors

def mapOrigin (row : StepRow) : Option String :=
  if row.originKind = some .map then row.originStep else none

def isCollectErrorsInstance (stepID : String) (s : RunStore) : Bool :=
  ((findStep s stepID).bind mapOrigin).any (collectsErrors s)

def collectErrorMarker (class_ : FailureClass) : Json :=
  "\x7b\"map_item_failed\":true,\"class\":" ++ Dag.quote (Named.text class_.errorClass) ++ "\x7d"

inductive FailureVerdict where
  | retry
  | collect
  | bury (exhausted : Bool)
deriving DecidableEq, Repr

def terminalVerdict (collects exhausted : Bool) : FailureVerdict :=
  if collects then .collect else .bury exhausted

def StepPolicies.judgeFailure (policies : StepPolicies) (class_ : FailureClass) (collects : Bool)
    (prior : Nat) : FailureVerdict :=
  if policies.retries class_ then
    if prior + 1 ≥ policies.maxAttempts then terminalVerdict collects true else .retry
  else terminalVerdict collects false

structure FailedAttempt where
  stepID : String
  stepType : Dag.StepType
  claimID : ClaimID
  class_ : FailureClass
  error : Option Json := none
  usage : Option Json := none
  notes : List Note := []
  -- The due time of a retry, from the backoff of the policy.
  fireAt : Time
  -- The edge predicates over the marker of a collected step.
  evaluator : Evaluator := .ok fun _ => .ok true

namespace FailedAttempt

variable (args : FailedAttempt)

def failure : Failure := { outcome := args.class_.outcome, error := args.error, usage := args.usage }

def collected : Collected :=
  { stepID := args.stepID
    stepType := args.stepType
    claimID := args.claimID
    failure := args.failure
    marker := collectErrorMarker args.class_
    notes := args.notes
    evaluator := args.evaluator }

def action : FailureVerdict → Action
  | .retry => .fail args.stepID args.claimID args.failure args.notes (.retry args.fireAt)
  | .collect => .collect args.collected
  | .bury exhausted => .fail args.stepID args.claimID args.failure args.notes (.bury exhausted)

def settle (now : Time) : FailureVerdict → StoreTx Unit
  | .retry =>
    (FailureRoute.retry args.fireAt).settle args.stepID args.claimID args.failure args.notes now
  | .collect => do
      let source ← settleCollected args.collected now
      routeAndRollup (some source) now
  | .bury exhausted =>
    (FailureRoute.bury exhausted).settle args.stepID args.claimID args.failure args.notes now

end FailedAttempt

def failAttempt (policies : StepPolicies) (args : FailedAttempt) (now : Time) : StoreTx Unit := do
  let collects ← Tx.read (isCollectErrorsInstance args.stepID)
  unlessCancelling args.stepID args.claimID args.error now do
    let prior ← Tx.read (countCountedFailures args.stepID)
    args.settle now (policies.judgeFailure args.class_ collects prior)

def StepPolicies.failureVerdict (policies : StepPolicies) (args : FailedAttempt) (s : RunStore) :
    FailureVerdict :=
  policies.judgeFailure args.class_ (isCollectErrorsInstance args.stepID s)
    (countCountedFailures args.stepID s)

def failedAction (policies : StepPolicies) (args : FailedAttempt) (s : RunStore) : Action :=
  args.action (policies.failureVerdict args s)

structure RejectedOutput where
  stepID : String
  claimID : ClaimID
  error : Option Json := none
  usage : Option Json := none
  verdict : Option Json := none
  repair : Option Json := none
  notes : List Note := []
  -- The critique that the next attempt carries, and the error of an exhausted step, are read off
  -- the verdicts of the step.
  feedback : Option Json := none
  issueCount : Nat := 0
  exhaustedError : Option Json := none

def RejectedOutput.failure (args : RejectedOutput) : Failure :=
  { outcome := .validationFailed
    error := args.error
    usage := args.usage
    verdict := args.verdict
    repair := args.repair }

def StepPolicies.judgeValidation (policies : StepPolicies) (args : RejectedOutput) (prior : Nat) :
    ValidationRoute :=
  if prior + 1 < policies.maxValidations then
    .semanticRetry args.feedback (prior + 1) policies.maxValidations.toNat args.issueCount
  else .bury args.exhaustedError

def rejectOutput (policies : StepPolicies) (args : RejectedOutput) (now : Time) : StoreTx Unit :=
  unlessCancelling args.stepID args.claimID args.error now do
    let prior ← Tx.read (countValidationFailures args.stepID)
    (policies.judgeValidation args prior).settle args.stepID args.claimID args.failure args.notes now

def rejectedAction (policies : StepPolicies) (args : RejectedOutput) (s : RunStore) : Action :=
  .invalidate args.stepID args.claimID args.failure args.notes
    (policies.judgeValidation args (countValidationFailures args.stepID s))

section Actions

variable {env : Environment} {now : Time} {s : RunStore}

theorem unlessCancelling_read {α : Type} (f : RunStore → α) (next : α → StoreTx Unit) :
    unlessCancelling stepID claimID error now (Tx.read f >>= next) s =
      unlessCancelling stepID claimID error now (next (f s)) s := by
  unfold unlessCancelling
  rw [Tx.bind_apply, Tx.bind_apply]
  cases locked : lockRunStatus now s with
  | mk result s₁ =>
    cases result with
    | error e => rfl
    | ok status =>
      obtain ⟨rfl, rfl⟩ := lockRunStatus_ok locked
      dsimp only
      split <;> rfl

theorem failAttempt_eq (policies : StepPolicies) (args : FailedAttempt) :
    failAttempt policies args now s = (failedAction policies args s).exec env now s := by
  have read : failAttempt policies args now s =
      unlessCancelling args.stepID args.claimID args.error now
        (args.settle now (policies.failureVerdict args s)) s :=
    unlessCancelling_read (countCountedFailures args.stepID) fun prior => args.settle now
      (policies.judgeFailure args.class_ (isCollectErrorsInstance args.stepID s) prior)
  rw [read, failedAction]
  cases policies.failureVerdict args s <;> rfl

theorem rejectOutput_eq (policies : StepPolicies) (args : RejectedOutput) :
    rejectOutput policies args now s = (rejectedAction policies args s).exec env now s :=
  unlessCancelling_read (countValidationFailures args.stepID) fun prior =>
    (policies.judgeValidation args prior).settle args.stepID args.claimID args.failure args.notes now

end Actions

def Action.Judged (policies : String → StepPolicies) (s : RunStore) (action : Action) : Prop :=
  action.judges = true →
    (∃ args : FailedAttempt, action = failedAction (policies args.stepID) args s) ∨
      ∃ args : RejectedOutput, action = rejectedAction (policies args.stepID) args s

abbrev JudgedHistory (definitionLint : Dag.DefinitionLint) (env : Environment)
    (policies : String → StepPolicies) : List RunStore → Prop :=
  HistoryOf definitionLint env fun action _ s => action.Judged policies s

def retryEnvironment : Environment := ⟨Dag.quietPlanLint, fun _ _ => true⟩

def oneAttempt : StepPolicies :=
  { retry := some { maxAttempts := 1 }, checked := ⟨fun _ => .error "", fun _ => "", "", by decide⟩ }

abbrev OneAttempt : List RunStore → Prop :=
  JudgedHistory Dag.quietDefinitionLint retryEnvironment fun _ => oneAttempt

def rowOf (s : RunStore) (stepID : String) : StepRow :=
  (findStep s stepID).getD { stepID, stepType := .noop }

end Agentloom.Engine
