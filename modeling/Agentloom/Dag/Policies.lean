import Agentloom.Dag.ApprovalChecks
import Agentloom.Dag.Authored

/-! The retry and validation policies of a step: what an author may write, and the budgets that the
engine reads from it. -/

namespace Agentloom.Dag.Authored

open JsonText List

def maxRetryAttempts : Int := 100

def maxBackoffInitial : Int := 3600 * 1000000000

def maxBackoffCap : Int := 24 * 3600 * 1000000000

def maxBackoffMultiplier : Nat := 100

def unitsOfOne : Nat := 2 ^ floatDepth

def multiplierAllowed (multiplier : PlainFloat) : Bool :=
  multiplier.val.mantissa == 0 ||
    (!multiplier.val.negative && unitsOfOne ≤ multiplier.val.units &&
      multiplier.val.units ≤ maxBackoffMultiplier * unitsOfOne)

def checkRetryOn (path : String) (retryOn : List (Setting ErrorClass)) : List ErrorIssue :=
  retryOn.zipIdx.flatMap fun (entry, position) =>
    let path := path ++ ".retry_on[" ++ toString position ++ "]"
    if (retryOn.take position).contains entry then
      errorIf true .retryFieldInvalid path ("duplicate error class " ++ quote entry.text)
    else match entry with
      | .known .transient => []
      | .known .timeout => []
      | .known .validationFailed => errorIf true .retryFieldInvalid path
          (quote entry.text ++ " is not a transport retry class — configure semantic retries via " ++
            "the step's validation policy (ADR-013), not retry_on")
      | .known _ => errorIf true .retryFieldInvalid path
          (quote entry.text ++ " is never retryable")
      | _ => errorIf true .retryFieldInvalid path ("unknown error class " ++ quote entry.text)

section Checks

-- The duration parser, in nanoseconds, and the `%v` spelling of a float.
variable (duration : String → Except String Int) (spelling : PlainFloat → String)

def checkBackoffDuration (path text : String) (bound : Int) (boundText : String) :
    List ErrorIssue × Int :=
  if text = "" then (errorIf true .retryFieldRequired path "required field is missing", 0)
  else match duration text with
    | .error e => (errorIf true .retryFieldInvalid path ("not a Go duration string: " ++ e), 0)
    | .ok d =>
      if d ≤ 0 then
        (errorIf true .retryFieldInvalid path ("must be positive, got " ++ quote text), 0)
      else if d > bound then
        (errorIf true .retryFieldInvalid path
          ("must be at most " ++ boundText ++ ", got " ++ quote text), 0)
      else ([], d)

def checkBackoff (path : String) (backoff : BackoffSpec) : List ErrorIssue :=
  let initial := checkBackoffDuration duration (path ++ ".backoff.initial") backoff.initial
    maxBackoffInitial "1h0m0s"
  let ceiling := checkBackoffDuration duration (path ++ ".backoff.cap") backoff.cap
    maxBackoffCap "24h0m0s"
  initial.1 ++ ceiling.1 ++
    errorIf (initial.2 > 0 && ceiling.2 > 0 && ceiling.2 < initial.2) .retryFieldInvalid
      (path ++ ".backoff.cap")
      ("must be at least backoff.initial (" ++ backoff.initial ++ "), got " ++ backoff.cap) ++
    errorIf (!multiplierAllowed backoff.multiplier) .retryFieldInvalid
      (path ++ ".backoff.multiplier")
      ("must be between 1 and " ++ toString maxBackoffMultiplier ++ ", got " ++
        spelling backoff.multiplier)

def checkRetry (path : String) : Option RetryPolicy → List ErrorIssue
  | none => []
  | some policy =>
    let path := path ++ ".retry"
    errorIf (policy.maxAttempts.toInt < 0 || policy.maxAttempts.toInt > maxRetryAttempts)
        .retryFieldInvalid (path ++ ".max_attempts")
        ("must be between 1 and " ++ toString maxRetryAttempts ++ ", got " ++
          toString policy.maxAttempts.toInt) ++
      errorIf policy.jitter.isOther .retryFieldInvalid (path ++ ".jitter")
        ("unknown jitter mode " ++ quote policy.jitter.text) ++
      (policy.backoff.elim [] fun backoff => checkBackoff duration spelling path backoff) ++
      errorIf (policy.retryOn == some []) .retryFieldInvalid (path ++ ".retry_on")
        "must not be empty when present (omit the key for the engine default)" ++
      checkRetryOn path (policy.retryOn.getD [])

end Checks

structure ResolvedBackoff where
  initial : String
  cap : String
  multiplier : PlainFloat
deriving DecidableEq, Repr

structure ResolvedRetryPolicy where
  maxAttempts : Int
  backoff : ResolvedBackoff
  jitter : Setting JitterMode
  retryOn : List (Setting ErrorClass)
deriving DecidableEq, Repr

theorem defaultMultiplier_lt : 2 ^ 52 < 2 ^ 53 := by decide

def defaultMultiplier : PlainFloat :=
  ⟨⟨false, 2 ^ 52, 1023, defaultMultiplier_lt, by decide, .inr le_rfl⟩, fun _ => rfl⟩

def defaultRetryPolicy : ResolvedRetryPolicy :=
  { maxAttempts := 3
    backoff := ⟨"1s", "1m", defaultMultiplier⟩
    jitter := .known .full
    retryOn := [.known .transient, .known .timeout] }

def resolveBackoff (backoff : BackoffSpec) : ResolvedBackoff :=
  { initial := backoff.initial
    cap := backoff.cap
    multiplier := if backoff.multiplier.val.mantissa = 0 then defaultMultiplier
      else backoff.multiplier }

def resolveRetryPolicy : Option RetryPolicy → ResolvedRetryPolicy
  | none => defaultRetryPolicy
  | some policy =>
    { maxAttempts := if policy.maxAttempts = 0 then defaultRetryPolicy.maxAttempts
        else policy.maxAttempts.toInt
      backoff := policy.backoff.elim defaultRetryPolicy.backoff resolveBackoff
      jitter := if policy.jitter.isUnset then defaultRetryPolicy.jitter else policy.jitter
      retryOn := policy.retryOn.getD defaultRetryPolicy.retryOn }

def ResolvedRetryPolicy.retries (policy : ResolvedRetryPolicy) (class_ : ErrorClass) : Bool :=
  policy.retryOn.contains (.known class_)

def effectiveMaxAttempts : Option ValidationPolicy → Int
  | none => 1
  | some policy => if policy.maxAttempts.toInt ≤ 0 then 1 else policy.maxAttempts.toInt

end Agentloom.Dag.Authored
