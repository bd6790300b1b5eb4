import Mathlib.Algebra.Order.Ring.Unbundled.Rat
import Mathlib.Data.List.Perm.Basic
import Agentloom.Dag.Authored
import Agentloom.Library.Transaction

/-! The validation of an output. A chain asks its free validators first, then those that cost money,
and stops at the first that errs. A judge is a validator that calls a model; what the call billed is
reported with its verdict or with its error. -/

namespace Agentloom.Validate

open Transaction List Tx
open Dag.Authored (ErrorClass)

inductive Status where
  | pass
  | fail
  | skipped
  | error
deriving DecidableEq, Repr

structure ValidatorUsage where
  provider : String
  model : String
  inputTokens : Int64
  outputTokens : Int64
deriving DecidableEq, Repr

def ValidatorUsage.resource (usage : ValidatorUsage) : String := usage.provider ++ ":" ++ usage.model

structure Issue where
  validator : String := ""
  code : String
  path : String := ""
  message : String
deriving DecidableEq, Repr

def Issue.stamp (name : String) (issue : Issue) : Issue :=
  if issue.validator = "" then { issue with validator := name } else issue

structure ValidatorResult where
  name : String
  status : Status
  score : Option Rat := none
  issueCount : Nat := 0
  rationale : String := ""
  usage : Option ValidatorUsage := none
  error : String := ""
deriving DecidableEq, Repr

structure Verdict where
  status : Status
  score : Option Rat := none
  issues : List Issue := []
  results : List ValidatorResult := []
deriving DecidableEq, Repr

def Verdict.passed (verdict : Verdict) : Bool := verdict.status == .pass

def failVerdict (issues : List Issue) : Verdict := { status := .fail, issues }

structure ValidateError where
  class_ : ErrorClass
  usage : Option ValidatorUsage := none
deriving DecidableEq, Repr

structure Grade where
  score : Rat
  -- Trimmed and cut.
  rationale : String
deriving DecidableEq, Repr

/-- An answer of a provider to a judge: the grade is missing where the answer is malformed. -/
structure ChatResponse where
  provider : String
  served : String
  model : String := ""
  inputTokens : Int64
  outputTokens : Int64
  grade : Option Grade
deriving DecidableEq, Repr

def ChatResponse.usage (response : ChatResponse) : ValidatorUsage :=
  { provider := response.provider
    model := if response.model = "" then response.served else response.model
    inputTokens := response.inputTokens
    outputTokens := response.outputTokens }

def callJudge (replies : List (Option ChatResponse)) : Option ChatResponse := replies.findSome? id

def llmJudgeName : String := "llm_judge"

def applyOnError (skips : Bool) (msg : String) (billedUsage : Option ValidatorUsage) :
    Except ValidateError Verdict :=
  if skips then
    .ok
      { status := .pass
        results := [{ name := llmJudgeName, status := .error, usage := billedUsage, error := msg }] }
  else if billedUsage.isSome then .error { class_ := .permanent, usage := billedUsage }
  else .error { class_ := .transient }

/-- The verb "%.2f" on a number that is not negative: the nearer of two, the even one of a tie. -/
def twoDecimals (x : Rat) : String :=
  let low := (100 * x).floor.toNat
  let rest := 100 * x - low
  let hundredths := if 1 / 2 < rest ∨ (rest = 1 / 2 ∧ low % 2 = 1) then low + 1 else low
  toString (hundredths / 100) ++ "." ++ toString (hundredths / 10 % 10) ++ toString (hundredths % 10)

def judgeFailMessage (score threshold : Rat) (rationale : String) : String :=
  "score " ++ twoDecimals score ++ " is below the threshold " ++ twoDecimals threshold ++
    if rationale = "" then "" else ": " ++ rationale

def judge (skips : Bool) (threshold : Rat) (replies : List (Option ChatResponse)) :
    Except ValidateError Verdict :=
  match callJudge replies with
  | none => applyOnError skips "judge provider call failed" none
  | some response =>
    match response.grade with
    | none => applyOnError skips "judge produced a malformed answer" (some response.usage)
    | some ⟨score, rationale⟩ =>
      let result (status : Status) (issueCount : Nat) : ValidatorResult :=
        { name := llmJudgeName, status, score, issueCount, rationale, usage := some response.usage }
      if threshold ≤ score then .ok { status := .pass, score, results := [result .pass 0] }
      else
        .ok
          { status := .fail
            score
            issues :=
              [{ validator := llmJudgeName
                 code := "rubric_below_threshold"
                 message := judgeFailMessage score threshold rationale }]
            results := [result .fail 1] }

structure ChainEntry where
  name : String
  target : String := ""
  costBearing : Bool
  -- Whether the target names a value of the output.
  resolves : Bool := true
  reply : Except ValidateError Verdict

namespace ChainEntry

variable (entry : ChainEntry)

def targetNotFound : Issue :=
  { validator := entry.name
    code := "target_not_found"
    path := entry.target
    message := "validation target pointer did not resolve in the output" }

/-- A validator whose target does not resolve is not called: its entry fails. -/
def judged : Except ValidateError Verdict := do
  let verdict ← if entry.resolves then entry.reply else .ok (failVerdict [entry.targetNotFound])
  return { verdict with issues := verdict.issues.map (Issue.stamp entry.name) }

/-- What the chain keeps of a verdict: the details of a validator are those of its only result. -/
def result (verdict : Verdict) : ValidatorResult :=
  let result : ValidatorResult :=
    { name := entry.name
      status := verdict.status
      score := verdict.score
      issueCount := verdict.issues.length }
  match verdict.results with
  | [only] =>
    { result with
      status := if only.status = .error then .error else verdict.status
      rationale := only.rationale
      usage := only.usage
      error := only.error }
  | _ => result

def usage : Option ValidatorUsage :=
  match entry.judged with
  | .ok verdict => (entry.result verdict).usage
  | .error e => e.usage

end ChainEntry

def skippedResult (name : String) : ValidatorResult := { name, status := .skipped }

def minScorePtr : Option Rat → Option Rat → Option Rat
  | cur, none => cur
  | none, some next => some next
  | some cur, some next => if next < cur then some next else some cur

structure ChainState where
  results : List ValidatorResult
  -- The positions of the validators that were called.
  calls : List Nat := []
  failed : Bool := false
  cheapFailed : Bool := false
  score : Option Rat := none
  issues : List Issue := []

def inPass (costBearing : Bool) (entries : List ChainEntry) : List (ChainEntry × Nat) :=
  entries.zipIdx.filter fun item => item.1.costBearing == costBearing

/-- The authored order, taken twice: first the free validators, then the others. -/
def inPasses (entries : List ChainEntry) : List (ChainEntry × Nat) :=
  inPass false entries ++ inPass true entries

def runEntry (item : ChainEntry × Nat) : Tx ChainState ValidateError Unit := fun state =>
  let (entry, position) := item
  if entry.costBearing && state.cheapFailed then
    (.ok (), { state with results := state.results.set position (skippedResult entry.name) })
  else
    let calls := state.calls ++ if entry.resolves then [position] else []
    match entry.judged with
    | .error e => (.error e, { state with calls })
    | .ok verdict =>
      (.ok (),
        { calls
          results := state.results.set position (entry.result verdict)
          failed := state.failed || !verdict.passed
          cheapFailed := state.cheapFailed || (!verdict.passed && !entry.costBearing)
          score := minScorePtr state.score verdict.score
          issues := state.issues ++ if verdict.passed then [] else verdict.issues })

def chainStart (entries : List ChainEntry) : ChainState :=
  { results := entries.map fun _ => skippedResult "" }

def runPasses (entries : List ChainEntry) : Except ValidateError Unit × ChainState :=
  Tx.forEach (inPasses entries) runEntry (chainStart entries)

def called (entries : List ChainEntry) : List Nat := (runPasses entries).2.calls

def run (entries : List ChainEntry) : Except ValidateError Verdict :=
  match runPasses entries with
  | (.ok _, state) =>
    .ok
      { status := if state.failed then .fail else .pass
        score := state.score
        issues := state.issues
        results := state.results }
  | (.error e, _) => .error e

def askedFrom (cheapFailed : Bool) : List ChainEntry → List ChainEntry
  | [] => []
  | entry :: rest =>
    if entry.costBearing && cheapFailed then askedFrom cheapFailed rest
    else match entry.judged with
      | .error _ => [entry]
      | .ok verdict =>
        entry :: askedFrom (cheapFailed || (!verdict.passed && !entry.costBearing)) rest

def asked (entries : List ChainEntry) : List ChainEntry :=
  askedFrom false ((inPasses entries).map Prod.fst)

def billed (entries : List ChainEntry) : List ValidatorUsage :=
  (asked entries).filterMap ChainEntry.usage

def usages (results : List ValidatorResult) : List ValidatorUsage :=
  results.filterMap ValidatorResult.usage

theorem usages_set (inside : position < results.length)
    (fresh : ∀ old, results[position]? = some old → old.usage = none) :
    (usages (results.set position result)).Perm (result.usage.toList ++ usages results) := by
  induction results generalizing position with
  | nil => simp at inside
  | cons first rest ih =>
    cases position with
    | zero =>
      have none : first.usage = none := fresh first rfl
      cases used : result.usage <;> simp [usages, none, used]
    | succ position =>
      have later := ih (by simpa using inside) (by simpa using fresh)
      cases used : first.usage with
      | none => simpa [usages, used] using later
      | some usage =>
        simp only [usages, set_cons_succ, filterMap_cons, used] at later ⊢
        exact (later.cons usage).trans perm_middle.symm

structure Waiting (items : List (ChainEntry × Nat)) (state : ChainState) : Prop where
  distinct : (items.map Prod.snd).Nodup
  fresh : ∀ item ∈ items, ∃ old, state.results[item.2]? = some old ∧ old.usage = none

variable {items : List (ChainEntry × Nat)} {state state' : ChainState}

theorem Waiting.next (waiting : Waiting (item :: items) state)
    (results : state'.results = state.results.set item.2 result) : Waiting items state' := by
  obtain ⟨absent, distinct⟩ := nodup_cons.mp waiting.distinct
  refine ⟨distinct, fun other mem => ?_⟩
  obtain ⟨old, found, unused⟩ := waiting.fresh other (mem_cons_of_mem _ mem)
  have apart : item.2 ≠ other.2 := fun same => absent (same ▸ mem_map_of_mem mem)
  exact ⟨old, by rw [results, getElem?_set_ne apart, found], unused⟩

theorem Waiting.usages (waiting : Waiting (item :: items) state) (result : ValidatorResult) :
    (Validate.usages (state.results.set item.2 result)).Perm
      (result.usage.toList ++ Validate.usages state.results) := by
  obtain ⟨_, found, unused⟩ := waiting.fresh item mem_cons_self
  refine usages_set (List.getElem?_eq_some_iff.mp found).1 fun other isOther => ?_
  rw [found] at isOther
  rw [← Option.some.inj isOther, unused]

variable {e : ValidateError}

section Entry

variable {entry : ChainEntry} {position : Nat} {state : ChainState}

theorem runEntry_skips (skipped : (entry.costBearing && state.cheapFailed) = true) :
    runEntry (entry, position) state = (.ok (), { state with
      results := state.results.set position (skippedResult entry.name) }) := by
  simp only [runEntry, if_pos skipped]

variable (isAsked : ¬(entry.costBearing && state.cheapFailed) = true)

include isAsked

theorem runEntry_errs (judged : entry.judged = .error e) : runEntry (entry, position) state =
    (.error e,
      { state with calls := state.calls ++ if entry.resolves then [position] else [] }) := by
  simp only [runEntry, if_neg isAsked, judged]

theorem runEntry_asks (judged : entry.judged = .ok verdict) :
    runEntry (entry, position) state = (.ok (),
      { calls := state.calls ++ if entry.resolves then [position] else []
        results := state.results.set position (entry.result verdict)
        failed := state.failed || !verdict.passed
        cheapFailed := state.cheapFailed || (!verdict.passed && !entry.costBearing)
        score := minScorePtr state.score verdict.score
        issues := state.issues ++ if verdict.passed then [] else verdict.issues }) := by
  simp only [runEntry, if_neg isAsked, judged]

end Entry

theorem forEach_usages (waiting : Waiting items state)
    (ok : Tx.forEach items runEntry state = (.ok u, state')) :
    (usages state'.results).Perm (usages state.results ++
      (askedFrom state.cheapFailed (items.map Prod.fst)).filterMap ChainEntry.usage) := by
  induction items generalizing state with
  | nil =>
    cases ok
    simp [askedFrom]
  | cons item rest ih =>
    obtain ⟨entry, _⟩ := item
    simp only [map_cons, askedFrom]
    by_cases skipped : (entry.costBearing && state.cheapFailed) = true
    · have later := (bind_of_ok (runEntry_skips skipped)).symm.trans ok
      rw [if_pos skipped]
      exact (ih (waiting.next rfl) later).trans ((waiting.usages _).append_right _)
    · rw [if_neg skipped]
      cases judged : entry.judged with
      | error e =>
        have stops := (bind_of_error (runEntry_errs skipped judged)).symm.trans ok
        cases stops
      | ok verdict =>
        have later := (bind_of_ok (runEntry_asks skipped judged)).symm.trans ok
        refine (ih (waiting.next rfl) later).trans ?_
        have own : entry.usage = (entry.result verdict).usage := by rw [ChainEntry.usage, judged]
        have step := waiting.usages (entry.result verdict)
        simp only [filterMap_cons, own]
        cases used : (entry.result verdict).usage with
        | none =>
          rw [used] at step
          exact step.append_right _
        | some usage =>
          rw [used] at step
          exact (step.append_right _).trans perm_middle.symm

theorem inPasses_perm (entries : List ChainEntry) : (inPasses entries).Perm entries.zipIdx := by
  refine List.Perm.trans ?_ (filter_append_perm (fun item => !item.1.costBearing) _)
  simp [inPasses, inPass]

theorem positions_nodup {entries : List ChainEntry} (perm : items.Perm entries.zipIdx) :
    (items.map Prod.snd).Nodup := by
  rw [(perm.map Prod.snd).nodup_iff, zipIdx_map_snd]
  exact nodup_range'

theorem waiting_start (entries : List ChainEntry) :
    Waiting (inPasses entries) (chainStart entries) := by
  refine ⟨positions_nodup (inPasses_perm entries), fun item mem => ?_⟩
  have inside := mem_zipIdx ((inPasses_perm entries).mem_iff.mp mem)
  refine ⟨skippedResult "", ?_, rfl⟩
  simp only [chainStart, getElem?_map]
  rw [getElem?_eq_getElem (by omega)]
  rfl

theorem run_ok (ok : run entries = .ok verdict) :
    (usages verdict.results).Perm (billed entries) := by
  unfold run at ok
  split at ok
  · rename_i state ended
    cases ok
    have perm := forEach_usages (waiting_start entries) ended
    have none : usages (chainStart entries).results = [] := by
      simp [usages, chainStart, skippedResult]
    rwa [none, nil_append] at perm
  · cases ok

theorem forEach_error (failed : Tx.forEach items runEntry state = (.error e, state')) :
    ∃ earlier last, askedFrom state.cheapFailed (items.map Prod.fst) = earlier ++ [last] ∧
      last.judged = .error e := by
  induction items generalizing state with
  | nil => cases failed
  | cons item rest ih =>
    obtain ⟨entry, _⟩ := item
    simp only [map_cons, askedFrom]
    by_cases skipped : (entry.costBearing && state.cheapFailed) = true
    · have later := (bind_of_ok (runEntry_skips skipped)).symm.trans failed
      have stopped := ih later
      rw [if_pos skipped]
      exact stopped
    · rw [if_neg skipped]
      cases judged : entry.judged with
      | error e' =>
        have stops := (bind_of_error (runEntry_errs skipped judged)).symm.trans failed
        cases stops
        exact ⟨[], entry, rfl, judged⟩
      | ok verdict =>
        have later := (bind_of_ok (runEntry_asks skipped judged)).symm.trans failed
        obtain ⟨earlier, last, isAsked, errs⟩ := ih later
        exact ⟨entry :: earlier, last, congrArg (entry :: ·) isAsked, errs⟩

theorem run_error (failed : run entries = .error e) :
    billed entries = (asked entries).dropLast.filterMap ChainEntry.usage ++ e.usage.toList := by
  unfold run at failed
  split at failed
  · cases failed
  · rename_i stopped
    cases failed
    obtain ⟨earlier, last, isAsked, errs⟩ := forEach_error stopped
    have whole : asked entries = earlier ++ [last] := isAsked
    have own : last.usage = e.usage := by rw [ChainEntry.usage, errs]
    rw [billed, whole, dropLast_concat, filterMap_append]
    cases used : e.usage <;> simp [own, used]

end Agentloom.Validate
