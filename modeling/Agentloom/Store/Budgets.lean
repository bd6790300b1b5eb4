import Agentloom.Store.Rows

/-! The budgets of a step. How often a step failed is counted from its attempts, past the attempts
that its latest dead letter stands for. -/

namespace Agentloom.Store

inductive Budget where
  | transport
  | validation
deriving DecidableEq, Repr

def Budget.counts : Budget → AttemptOutcome → Bool
  | .transport, .transient => true
  | .transport, .timeout => true
  | .validation, .validationFailed => true
  | _, _ => false

def AttemptRow.spends (budget : Budget) (row : AttemptRow) : Bool := row.outcome.any budget.counts

def attemptsOf (s : RunStore) (stepID : String) : List AttemptRow :=
  s.attempts.filter fun row => row.stepID == stepID

def lettersOf (s : RunStore) (stepID : String) : List DeadLetterRow :=
  s.deadLetters.filter fun row => row.stepID == stepID

def deathsOf (s : RunStore) (stepID : String) : List Nat :=
  (lettersOf s stepID).map DeadLetterRow.attemptsAtDeath

def latest (deaths : List Nat) : Nat := deaths.foldr max 0

def countFailures (budget : Budget) (stepID : String) (s : RunStore) : Nat :=
  (attemptsOf s stepID).countP fun row =>
    row.spends budget && decide (latest (deathsOf s stepID) < row.attemptNo)

def countCountedFailures (stepID : String) (s : RunStore) : Nat := countFailures .transport stepID s

def countValidationFailures (stepID : String) (s : RunStore) : Nat :=
  countFailures .validation stepID s

end Agentloom.Store
