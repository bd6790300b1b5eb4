import Mathlib.Tactic.Common

/-! The vocabulary of event types. -/

namespace Agentloom.Event

inductive EventType where
  | runCreated
  | stepReady
  | stepClaimed
  | stepSucceeded
  | stepFailed
  | stepSkipped
  | stepReclaimed
  | stepRetryScheduled
  | stepThrottled
  | stepSemanticRetry
  | stepDeadLettered
  | stepCancelled
  | stepCollected
  | stepRequeued
  | stepRevived
  | runSucceeded
  | runFailed
  | runResumed
  | runParked
  | runUnparked
  | runCancelling
  | runCancelled
  | costUpdated
  | costUnknownModel
  | budgetExceeded
  | runBudgetUpdated
  | modelDowngraded
  | blackboardUpdated
  | contextAssembled
  | contextRevision
  | graphExpanded
  | loopExhausted
  | loopNoProgress
  | guardTripped
  | approvalRequested
  | approvalCancelled
  | approvalDecided
  | approvalExpired
  | approvalNotified
  | approvalNotificationFailed
deriving DecidableEq, Repr

def EventType.name : EventType → String
  | .runCreated => "run_created"
  | .stepReady => "step_ready"
  | .stepClaimed => "step_claimed"
  | .stepSucceeded => "step_succeeded"
  | .stepFailed => "step_failed"
  | .stepSkipped => "step_skipped"
  | .stepReclaimed => "step_reclaimed"
  | .stepRetryScheduled => "step_retry_scheduled"
  | .stepThrottled => "step_throttled"
  | .stepSemanticRetry => "step_semantic_retry_scheduled"
  | .stepDeadLettered => "step_dead_lettered"
  | .stepCancelled => "step_cancelled"
  | .stepCollected => "step_collected"
  | .stepRequeued => "step_requeued"
  | .stepRevived => "step_revived"
  | .runSucceeded => "run_succeeded"
  | .runFailed => "run_failed"
  | .runResumed => "run_resumed"
  | .runParked => "run_parked"
  | .runUnparked => "run_unparked"
  | .runCancelling => "run_cancelling"
  | .runCancelled => "run_cancelled"
  | .costUpdated => "cost_updated"
  | .costUnknownModel => "cost_unknown_model"
  | .budgetExceeded => "budget_exceeded"
  | .runBudgetUpdated => "run_budget_updated"
  | .modelDowngraded => "model_downgraded"
  | .blackboardUpdated => "blackboard_updated"
  | .contextAssembled => "context_assembled"
  | .contextRevision => "context_revision"
  | .graphExpanded => "graph_expanded"
  | .loopExhausted => "loop_exhausted"
  | .loopNoProgress => "loop_no_progress"
  | .guardTripped => "guard_tripped"
  | .approvalRequested => "approval_requested"
  | .approvalCancelled => "approval_cancelled"
  | .approvalDecided => "approval_decided"
  | .approvalExpired => "approval_expired"
  | .approvalNotified => "approval_notified"
  | .approvalNotificationFailed => "approval_notification_failed"

def catalog : List EventType :=
  [.runCreated, .stepReady, .stepClaimed, .stepSucceeded, .stepFailed, .stepSkipped, .stepReclaimed,
    .stepRetryScheduled, .stepThrottled, .stepSemanticRetry, .stepDeadLettered, .stepCancelled,
    .stepCollected, .stepRequeued, .stepRevived, .runSucceeded, .runFailed, .runResumed, .runParked,
    .runUnparked, .runCancelling, .runCancelled, .costUpdated, .costUnknownModel, .budgetExceeded,
    .runBudgetUpdated, .modelDowngraded, .blackboardUpdated, .contextAssembled, .contextRevision,
    .graphExpanded, .loopExhausted, .loopNoProgress, .guardTripped, .approvalRequested,
    .approvalCancelled, .approvalDecided, .approvalExpired, .approvalNotified,
    .approvalNotificationFailed]

def lookup (name : String) : Option EventType := catalog.find? fun type => type.name == name

def EventType.terminal : EventType → Bool
  | .runSucceeded | .runFailed | .runCancelled => true
  | _ => false

end Agentloom.Event
