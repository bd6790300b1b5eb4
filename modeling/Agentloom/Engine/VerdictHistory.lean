import Mathlib.Data.List.Sort
import Agentloom.Engine.Failures

/-! The evidence on the dead letter of a step whose outputs were rejected: how many of its attempts
were rejected in the current epoch, and the verdicts that rejected them. -/

namespace Agentloom.Engine

open Store List

structure VerdictHistoryEntry where
  attemptNo : Nat
  semanticAttempt : Nat
  verdict : Json
deriving DecidableEq, Repr

def listByStep (s : RunStore) (stepID : String) : List AttemptRow :=
  (attemptsOf s stepID).insertionSort fun a b => a.attemptNo ≤ b.attemptNo

/-- The rejected attempts that carry a verdict are numbered on from `semantic`, the current one last. -/
def collectVerdictHistory (currentAttemptNo : Nat) (currentVerdict : Json) (semantic : Nat) :
    List AttemptRow → List VerdictHistoryEntry
  | [] => [⟨currentAttemptNo, semantic + 1, currentVerdict⟩]
  | a :: attempts =>
    match a.outcome, a.verdict with
    | some .validationFailed, some verdict =>
      ⟨a.attemptNo, semantic + 1, verdict⟩ ::
        collectVerdictHistory currentAttemptNo currentVerdict (semantic + 1) attempts
    | _, _ => collectVerdictHistory currentAttemptNo currentVerdict semantic attempts

structure ExhaustedError where
  semanticAttempts : Nat
  verdictHistory : List VerdictHistoryEntry

def exhaustedError (step : StepRow) (verdict : Json) (s : RunStore) : ExhaustedError :=
  { semanticAttempts := countValidationFailures step.stepID s + 1
    verdictHistory := collectVerdictHistory step.attemptCount verdict 0 (listByStep s step.stepID) }

def numbered (row : AttemptRow) : Nat × Option Json := (row.attemptNo, row.verdict)

def rejected (attempts : List AttemptRow) : List (Nat × Option Json) :=
  (attempts.filter (AttemptRow.spends .validation)).map numbered

def baseline (stepID : String) (s : RunStore) : Nat := latest (deathsOf s stepID)

def epoch (step : StepRow) (verdict : Json) (s : RunStore) : List (Nat × Option Json) :=
  (rejected (listByStep s step.stepID)).filter (fun attempt => baseline step.stepID s < attempt.1) ++
    [(step.attemptCount, some verdict)]

def ExhaustedError.Exact (e : ExhaustedError) (attempts : List (Nat × Option Json)) : Prop :=
  e.verdictHistory.map (fun entry => (entry.attemptNo, some entry.verdict)) = attempts ∧
    e.verdictHistory.map VerdictHistoryEntry.semanticAttempt = range' 1 e.semanticAttempts

variable (number : Nat) (verdict : Json)

theorem spends_validation {row : AttemptRow} :
    row.spends .validation = true ↔ row.outcome = some .validationFailed := by
  unfold AttemptRow.spends
  cases row.outcome with
  | none => simp
  | some outcome => cases outcome <;> decide

theorem history_attempts (semantic : Nat) (attempts : List AttemptRow) :
    (collectVerdictHistory number verdict semantic attempts).map
      (fun entry => (entry.attemptNo, some entry.verdict)) =
        (rejected attempts).filter (·.2.isSome) ++ [(number, some verdict)] := by
  fun_induction collectVerdictHistory number verdict semantic attempts with
  | case1 => rfl
  | case2 semantic a attempts given found outcome ih =>
    have spends := spends_validation.mpr outcome
    simpa [rejected, numbered, spends, found] using ih
  | case3 semantic a attempts other ih =>
    rw [ih, rejected, rejected, filter_cons]
    split
    next spends =>
      have none : a.verdict = none := by
        cases given : a.verdict with
        | none => rfl
        | some verdict => exact (other verdict (spends_validation.mp spends) given).elim
      simp [numbered, none]
    next => rfl

theorem history_numbers (semantic : Nat) (attempts : List AttemptRow) :
    (collectVerdictHistory number verdict semantic attempts).map VerdictHistoryEntry.semanticAttempt =
      range' (semantic + 1) (collectVerdictHistory number verdict semantic attempts).length := by
  fun_induction collectVerdictHistory number verdict semantic attempts with
  | case1 => rfl
  | case2 semantic a attempts given found outcome ih => rw [map_cons, ih, length_cons, range'_succ]
  | case3 semantic a attempts other ih => exact ih

theorem filter_eq_filter_iff {α : Type} {p q : α → Bool} {l : List α} :
    l.filter p = l.filter q ↔ ∀ x ∈ l, (p x = true ↔ q x = true) := by
  refine ⟨fun same x mem => ?_, fun agree => filter_congr fun x mem => Bool.eq_iff_iff.mpr (agree x mem)⟩
  have both : x ∈ l.filter p ↔ x ∈ l.filter q := by rw [same]
  simpa [mem] using both

variable (step : StepRow) (s : RunStore)

theorem epoch_length : (epoch step verdict s).length = countValidationFailures step.stepID s + 1 := by
  have sorted := perm_insertionSort (fun a b : AttemptRow => a.attemptNo ≤ b.attemptNo)
    (attemptsOf s step.stepID)
  rw [epoch, length_append, length_singleton, ← countP_eq_length_filter, rejected, countP_map,
    countP_filter, listByStep, sorted.countP_eq]
  simp [countValidationFailures, countFailures, numbered, baseline, Bool.and_comm]
  rfl

/-- The history is that of the epoch as long as no attempt before it was rejected with a verdict. -/
theorem verdictHistory_exact_iff :
    (exhaustedError step verdict s).Exact (epoch step verdict s) ↔
      ∀ row ∈ attemptsOf s step.stepID, row.outcome = some .validationFailed →
        (row.verdict.isSome = true ↔ baseline step.stepID s < row.attemptNo) := by
  have attempts := history_attempts step.attemptCount verdict 0 (listByStep s step.stepID)
  have numbers := history_numbers step.attemptCount verdict 0 (listByStep s step.stepID)
  have first : (exhaustedError step verdict s).Exact (epoch step verdict s) ↔
      (rejected (listByStep s step.stepID)).filter (·.2.isSome) =
        (rejected (listByStep s step.stepID)).filter fun attempt =>
          baseline step.stepID s < attempt.1 := by
    constructor
    · rintro ⟨same, _⟩
      exact append_cancel_right (attempts.symm.trans same)
    · intro same
      have whole : _ = epoch step verdict s := attempts.trans (congrArg (· ++ _) same)
      have length := congrArg List.length whole
      rw [length_map, epoch_length] at length
      exact ⟨whole, numbers.trans (congrArg (range' 1) length)⟩
  rw [first, filter_eq_filter_iff, rejected, forall_mem_map]
  simp only [listByStep, numbered, spends_validation, mem_filter, mem_insertionSort, and_imp]
  grind

def plannedClaimed : RunStore := act retryEnvironment (.claim "p" 7 "worker") 2 plannedRun

def plannedRejection : RejectedOutput := { stepID := "p", claimID := 7, verdict := some "v" }

def plannedAgain : RunStore :=
  act retryEnvironment (.claim "p" 8 "worker") 5 (act retryEnvironment (.requeue "p") 4
    (act retryEnvironment (rejectedAction oneAttempt plannedRejection plannedClaimed) 3 plannedClaimed))

theorem verdictHistory_spans_epochs : (∃ past, OneAttempt (plannedAgain :: past)) ∧
    (exhaustedError (rowOf plannedAgain "p") "w" plannedAgain).semanticAttempts = 1 ∧
    (exhaustedError (rowOf plannedAgain "p") "w" plannedAgain).verdictHistory =
      [⟨1, 1, "v"⟩, ⟨2, 2, "w"⟩] ∧
    ¬ (exhaustedError (rowOf plannedAgain "p") "w" plannedAgain).Exact
      (epoch (rowOf plannedAgain "p") "w" plannedAgain) := by
  refine ⟨⟨_, .acted (.acted (.acted (.acted (.created plannedRun_created) (by simp) nofun)
    (by simp [rejectedAction]) fun _ => .inr ⟨plannedRejection, rfl⟩) (by simp) nofun) (by simp) nofun⟩,
    by decide +kernel, by decide +kernel, ?_⟩
  rintro ⟨same, _⟩
  revert same
  decide +kernel

end Agentloom.Engine
