import Agentloom.Engine.Pricing

/-! The metering of finished attempts. A worker settles an attempt in one of several ways; each of
them hands other charges to the transaction, and the metrics are recorded after the commit. -/

namespace Agentloom.Engine

open Transaction Store List

variable {now : Time} {s s' : RunStore}
open Cost (Catalog)
open Validate (ChainEntry Issue ValidateError ValidatorUsage Verdict)

def runChain (chain : List ChainEntry) : Except ValidateError (Option Verdict) :=
  if chain.isEmpty then .ok none else (Validate.run chain).map some

def validatorErrorClass (e : ValidateError) : FailureClass :=
  if e.class_ = .permanent then .permanent else .transient

def expansionVerdict (base : Option Verdict) (issues : List Issue) : Verdict :=
  { status := .fail
    score := base.bind Verdict.score
    issues
    results := base.elim [] Verdict.results ++
      [{ name := "expansion", status := .fail, issueCount := issues.length }] }

structure Attempted where
  step : ClaimedStep
  -- The chains over cached outputs that were not served after all.
  unserved : List (List ChainEntry) := []
  out : Output
  -- The class of the executor's error.
  failed : Option FailureClass := none
  chain : List ChainEntry := []

def Attempted.billed (attempted : Attempted) : List ValidatorUsage :=
  attempted.unserved.flatMap Validate.billed ++
    if attempted.failed.isSome then [] else Validate.billed attempted.chain

structure Attempted.Accepts (attempted : Attempted) (verdict : Option Verdict) : Prop where
  ran : attempted.failed = none
  judged : runChain attempted.chain = .ok verdict
  passes : verdict.all Verdict.passed = true

structure Report where
  op : String
  type : String
  payload : Json

def Report.note (report : Report) : Note := .event report.op report.type report.payload

structure SuccessDetails where
  completion : Completion
  writes : List Report := []
  expansion : Option Expansion := none
  loops : List Report := []
  evaluator : Evaluator := .ok fun _ => .ok true

def SuccessDetails.args (details : SuccessDetails) (step : ClaimedStep) (charges : Charges) : Success :=
  { stepID := step.stepID
    stepType := step.stepType
    claimID := step.claimID
    completion := details.completion
    notes := charges.all.map Note.charge ++ details.writes.map Report.note
    expansion := details.expansion
    loopNotes := details.loops.map Report.note
    evaluator := details.evaluator }

structure FailureDetails where
  class_ : FailureClass
  error : Option Json := none
  usage : Option Json := none
  fireAt : Time
  evaluator : Evaluator := .ok fun _ => .ok true

def FailureDetails.args (details : FailureDetails) (step : ClaimedStep) (charges : Charges) :
    FailedAttempt :=
  { stepID := step.stepID
    stepType := step.stepType
    claimID := step.claimID
    class_ := details.class_
    error := details.error
    usage := details.usage
    notes := charges.all.map Note.charge
    fireAt := details.fireAt
    evaluator := details.evaluator }

structure RejectionDetails where
  error : Option Json := none
  usage : Option Json := none
  verdict : Option Json := none
  repair : Option Json := none
  feedback : Option Json := none
  issueCount : Nat := 0
  exhaustedError : Option Json := none

def RejectionDetails.args (details : RejectionDetails) (step : ClaimedStep) (charges : Charges) :
    RejectedOutput :=
  { stepID := step.stepID
    claimID := step.claimID
    error := details.error
    usage := details.usage
    verdict := details.verdict
    repair := details.repair
    notes := charges.all.map Note.charge
    feedback := details.feedback
    issueCount := details.issueCount
    exhaustedError := details.exhaustedError }

inductive Settling where
  | success (charges : Charges) (details : SuccessDetails)
  | failure (charges : Charges) (details : FailureDetails)
  | rejection (charges : Charges) (details : RejectionDetails)

namespace Settling

def charges : Settling → Charges
  | .success charges _ => charges
  | .failure charges _ => charges
  | .rejection charges _ => charges

def succeeds : Settling → Bool
  | .success _ _ => true
  | _ => false

variable (lint : Dag.PlanLint) (policies : StepPolicies) (step : ClaimedStep) (now : Time)

def exec : Settling → StoreTx Unit
  | .success charges details => completeSuccess lint (details.args step charges) now
  | .failure charges details => failAttempt policies (details.args step charges) now
  | .rejection charges details => rejectOutput policies (details.args step charges) now

def metrics (s : RunStore) : Settling → List CostMetric
  | .success charges _ => recordCosts charges.all now
  | .failure charges _ =>
    if s.run.status = .cancelling then [] else recordCosts charges.all now
  | .rejection charges _ =>
    -- The productive charge is recorded even where the step was only cancelled.
    recordCosts charges.productive.toList now ++
      if s.run.status = .cancelling then [] else recordCosts charges.overheads now

end Settling

inductive Way where
  | executorFailed
  | validationErred
  | outputRejected
  | planUndecodable
  | planningFailed
  | succeeded
  | planRefused
  | expansionRefused
  | edgesFailed
deriving DecidableEq, Repr

section Ways

variable (lint : Dag.PlanLint) (pricing : Option Catalog) (attempted : Attempted)

def Attempted.success (verdict : Option Verdict) (details : SuccessDetails) (now : Time) : Settling :=
  .success (judgedCharges pricing attempted.step now attempted.out verdict)
    { details with
      completion := { details.completion with
        output := attempted.out.data
        usage := attempted.out.usage.map Usage.json
        repair := attempted.out.repair } }

def Attempted.failure (out : Output) (class_ : FailureClass) (erred : Option ValidatorUsage)
    (details : FailureDetails) (now : Time) : Settling :=
  .failure (failedCharges pricing attempted.step now out erred)
    { details with class_, usage := out.usage.map Usage.json }

def Attempted.rejection (verdict : Verdict) (details : RejectionDetails) (now : Time) : Settling :=
  .rejection (judgedCharges pricing attempted.step now attempted.out (some verdict))
    { details with
      usage := attempted.out.usage.map Usage.json
      repair := attempted.out.repair }

def Attempted.RolledBack (verdict : Option Verdict) (details : SuccessDetails) (e : StoreError) :
    Prop :=
  attempted.Accepts verdict ∧ ∃ policies now s s',
    (attempted.success pricing verdict details now).exec lint policies attempted.step now s =
      (.error e, s')

inductive Takes (now : Time) : Way → Settling → Prop
  | executorFailed {class_ : FailureClass} (details : FailureDetails)
      (failed : attempted.failed = some class_) :
      Takes now .executorFailed (attempted.failure pricing attempted.out class_ none details now)
  | validationErred {e : ValidateError} (details : FailureDetails)
      (ran : attempted.failed = none) (erred : runChain attempted.chain = .error e) :
      Takes now .validationErred
        (attempted.failure pricing attempted.out (validatorErrorClass e) e.usage details now)
  | outputRejected {verdict : Verdict} (details : RejectionDetails)
      (ran : attempted.failed = none) (judged : runChain attempted.chain = .ok (some verdict))
      (fails : verdict.passed = false) :
      Takes now .outputRejected (attempted.rejection pricing verdict details now)
  | planUndecodable {verdict : Option Verdict} {issues : List Issue} (details : RejectionDetails)
      (accepts : attempted.Accepts verdict) (planner : attempted.step.stepType = .planner) :
      Takes now .planUndecodable
        (attempted.rejection pricing (expansionVerdict verdict issues) details now)
  -- Items that are no list, a loop that gave up or does not evaluate, a write that does not resolve.
  | planningFailed {verdict : Option Verdict} (details : FailureDetails)
      (accepts : attempted.Accepts verdict) :
      Takes now .planningFailed
        (attempted.failure pricing attempted.out .permanent none details now)
  | succeeded {verdict : Option Verdict} (details : SuccessDetails)
      (accepts : attempted.Accepts verdict) :
      Takes now .succeeded (attempted.success pricing verdict details now)
  | planRefused {verdict : Option Verdict} {tried : SuccessDetails}
      {expansion : Dag.ExpansionVerdict} {issues : List Issue} (details : RejectionDetails)
      (rolledBack : attempted.RolledBack lint pricing verdict tried (.expansionRejected expansion))
      (planner : tried.expansion.map Expansion.kind = some .planner)
      (fixable : expansion.capExceeded = false) :
      Takes now .planRefused (attempted.rejection pricing (expansionVerdict verdict issues) details now)
  | expansionRefused {verdict : Option Verdict} {tried : SuccessDetails}
      {expansion : Dag.ExpansionVerdict} (details : FailureDetails)
      (rolledBack : attempted.RolledBack lint pricing verdict tried (.expansionRejected expansion))
      (hopeless : tried.expansion.map Expansion.kind ≠ some .planner ∨
        expansion.capExceeded = true) :
      Takes now .expansionRefused
        (attempted.failure pricing attempted.out .permanent none details now)
  -- The failure of an edge predicate is settled without the output.
  | edgesFailed {verdict : Option Verdict} {tried : SuccessDetails} {msg : String}
      (details : FailureDetails)
      (rolledBack : attempted.RolledBack lint pricing verdict tried (.engine "plan edges" msg)) :
      Takes now .edgesFailed (attempted.failure pricing {} .permanent none details now)

def Attempted.lost (way : Way) : List ValidatorUsage :=
  attempted.unserved.flatMap Validate.billed ++
    match way with
    | .validationErred => (Validate.asked attempted.chain).dropLast.filterMap ChainEntry.usage
    | .planningFailed | .expansionRefused | .edgesFailed => Validate.billed attempted.chain
    | _ => []

def Way.Kept (way : Way) (s : RunStore) : Prop :=
  match way with
  | .succeeded => True
  | .edgesFailed => False
  | _ => s.run.status ≠ .cancelling

end Ways

def rowBill (row : CostRow) : Bill := (row.resource, row.usage)

/-- The ledger has exactly one productive row and one overhead row for each call that was billed, and
the metrics are those of the new rows. -/
def Accounted (productive : CostRow) (billed : List ValidatorUsage) (metrics : List CostMetric)
    (s s' : RunStore) : Prop :=
  ∃ rows overheads : List CostRow, s'.costs = s.costs ++ rows ∧
    rows.Perm (productive :: overheads) ∧ productive.overhead = false ∧
    (∀ row ∈ overheads, row.overhead = true) ∧
    (overheads.map rowBill).Perm (billed.map usageBill) ∧
    metrics.Perm (rows.flatMap recordCost)

variable {settling : Settling}

section Written

variable {env : Environment} {policies : StepPolicies} {step : ClaimedStep}

theorem chargesOf_charges (charges : List AttemptCost) (reports : List Report) :
    chargesOf (charges.map Note.charge ++ reports.map Report.note) = charges := by
  induction charges with
  | nil =>
    induction reports with
    | nil => rfl
    | cons report rest ih => exact ih
  | cons charge rest ih => exact congrArg (charge :: ·) ih

def Settling.action (policies : StepPolicies) (step : ClaimedStep) (s : RunStore) : Settling → Action
  | .success charges details => .succeed (details.args step charges)
  | .failure charges details => failedAction policies (details.args step charges) s
  | .rejection charges details => rejectedAction policies (details.args step charges) s

theorem Settling.exec_eq (settling : Settling) : settling.exec env.lint policies step now s =
      (settling.action policies step s).exec env now s := by
  cases settling with
  | success charges details => rfl
  | failure charges details => exact failAttempt_eq policies _
  | rejection charges details => exact rejectOutput_eq policies _

theorem Settling.settlement (policies : StepPolicies) (step : ClaimedStep) (s : RunStore)
    (settling : Settling) :
    ∃ notes, (settling.action policies step s).settlement =
        some ⟨step.stepID, step.claimID, notes⟩ ∧ chargesOf notes = settling.charges.all ∧
      (settling.action policies step s).Loops ∧
      (settling.action policies step s).isSuccess = settling.succeeds := by
  have plain : ∀ charges : List AttemptCost, chargesOf (charges.map Note.charge) = charges := by
    intro charges
    simpa using chargesOf_charges charges []
  cases settling with
  | success charges details =>
    exact ⟨_, rfl, chargesOf_charges _ _, chargesOf_charges [] details.loops, rfl⟩
  | failure charges details =>
    refine ⟨_, ?_, plain charges.all, ?_, ?_⟩
    all_goals
      simp only [Settling.action, failedAction]
      cases policies.failureVerdict (details.args step charges) s
    all_goals first | rfl | exact trivial
  | rejection charges details => exact ⟨_, rfl, plain charges.all, trivial, rfl⟩

def Settling.written (s : RunStore) (settling : Settling) : List AttemptCost :=
  if s.run.status = .cancelling ∧ settling.succeeds = false then [] else settling.charges.all

theorem Settling.costs (unique : UniqueSteps s)
    (ok : settling.exec env.lint policies step now s = (.ok u, s')) :
    s'.costs = s.costs ++ (settling.written s).map (AttemptCost.row · now) := by
  rw [Settling.exec_eq] at ok
  obtain ⟨_, settles, charges, loops, succeeds⟩ :=
    settling.settlement policies step s
  unfold Settling.written
  rcases exec_booked settles loops ok with ⟨⟨cancelling, failed⟩, reaches⟩ | ⟨live, _, _, _, booked⟩
  · rw [if_pos ⟨cancelling, succeeds ▸ failed⟩, Reaches.costs_kept reaches unique]
    simp
  · have kept : ¬(s.run.status = .cancelling ∧ settling.succeeds = false) := by
      rintro ⟨cancelling, failed⟩
      rcases live with live | succeeded
      · exact live cancelling
      · rw [succeeds, failed] at succeeded
        cases succeeded
    rw [if_neg kept, booked.costs unique, charges]

end Written

def reported (verdict : Option Verdict) : List ValidatorUsage :=
  verdict.elim [] fun verdict => Validate.usages verdict.results

theorem runChain_ok (judged : runChain chain = .ok verdict) :
    (reported verdict).Perm (Validate.billed chain) := by
  cases chain with
  | nil =>
    cases judged
    exact .nil
  | cons entry rest =>
    cases ran : Validate.run (entry :: rest) with
    | error e =>
      rw [runChain, ran] at judged
      cases judged
    | ok found =>
      rw [runChain, ran] at judged
      cases judged
      exact Validate.run_ok ran

theorem runChain_error (erred : runChain chain = .error e) : Validate.billed chain =
      (Validate.asked chain).dropLast.filterMap ChainEntry.usage ++ e.usage.toList := by
  cases chain with
  | nil => cases erred
  | cons entry rest =>
    cases ran : Validate.run (entry :: rest) with
    | ok verdict =>
      rw [runChain, ran] at erred
      cases erred
    | error e' =>
      rw [runChain, ran] at erred
      cases erred
      exact Validate.run_error ran

theorem reported_expansionVerdict (base : Option Verdict) (issues : List Issue) :
    reported (some (expansionVerdict base issues)) = reported base := by
  cases base <;> simp [reported, expansionVerdict, Validate.usages]

structure Handed (catalog : Catalog) (attempted : Attempted) (now : Time) (way : Way)
    (settling : Settling) : Prop where
  succeeds : settling.succeeds = (way == .succeeded)
  dropped : way = .edgesFailed → settling.charges.all = []
  productive : way ≠ .edgesFailed →
    settling.charges.productive = priceAttempt (some catalog) attempted.step now attempted.out
  overheads : ∀ charge ∈ settling.charges.overheads, charge.overhead = true
  bills : ∃ kept, (settling.charges.overheads.map chargeBill).Perm (kept.map usageBill) ∧
    attempted.billed.Perm (attempted.lost way ++ kept)

variable {way : Way}

section Handing

variable {lint : Dag.PlanLint} {catalog : Catalog} (backed : catalog.fallback.isSome = true)
  {attempted : Attempted}

include backed

theorem judged_handed
    (succeeds : settling.succeeds = (way == .succeeded)) (keeps : way ≠ .edgesFailed)
    (charges : settling.charges = judgedCharges (some catalog) attempted.step now attempted.out verdict)
    (ran : attempted.failed = none)
    (whole : (reported verdict).Perm (Validate.billed attempted.chain))
    (lost : attempted.lost way = attempted.unserved.flatMap Validate.billed) :
    Handed catalog attempted now way settling := by
  obtain ⟨bills, overheads⟩ : (priceOverheads (some catalog) attempted.step now verdict).map
      chargeBill = (reported verdict).map usageBill ∧
      ∀ charge ∈ priceOverheads (some catalog) attempted.step now verdict,
        charge.overhead = true := by
    cases verdict with
    | none => exact ⟨rfl, nofun⟩
    | some verdict => exact priceResults_backed backed attempted.step now 0 verdict.results
  refine ⟨succeeds, fun drops => absurd drops keeps, fun _ => by rw [charges]; rfl, ?_,
    reported verdict, ?_, ?_⟩
  · rw [charges]
    exact overheads
  · rw [charges]
    exact .of_eq bills
  · rw [lost, Attempted.billed, ran]
    exact whole.symm.append_left _

theorem failed_handed (erred : Option ValidatorUsage)
    (succeeds : settling.succeeds = (way == .succeeded)) (keeps : way ≠ .edgesFailed)
    (charges : settling.charges = failedCharges (some catalog) attempted.step now attempted.out erred)
    (whole : attempted.billed = attempted.lost way ++ erred.toList) :
    Handed catalog attempted now way settling := by
  refine ⟨succeeds, fun drops => absurd drops keeps, fun _ => by rw [charges]; rfl, ?_,
    erred.toList, ?_, .of_eq whole⟩
  all_goals
    rw [charges]
    cases erred with
    | none => simp [failedCharges]
    | some used =>
      obtain ⟨_, priced, overhead, bill⟩ :=
        priceOverhead_backed backed attempted.step now judgeErrorEntry used
      simp [failedCharges, priced, overhead, bill]

theorem Takes.handed (takes : Takes lint (some catalog) attempted now way settling) :
    Handed catalog attempted now way settling := by
  have unlost : attempted.unserved.flatMap Validate.billed ++ [] =
      attempted.unserved.flatMap Validate.billed := append_nil _
  cases takes with
  | executorFailed details failed =>
    refine failed_handed backed none rfl nofun rfl ?_
    simp [Attempted.billed, Attempted.lost, failed]
  | validationErred details ran erred =>
    refine failed_handed backed _ rfl nofun rfl ?_
    simp [Attempted.billed, Attempted.lost, ran, runChain_error erred]
  | outputRejected details ran judged fails =>
    exact judged_handed backed rfl nofun rfl ran (runChain_ok judged) unlost
  | planUndecodable details accepts planner =>
    refine judged_handed backed rfl nofun rfl accepts.ran ?_ unlost
    rw [reported_expansionVerdict]
    exact runChain_ok accepts.judged
  | planningFailed details accepts =>
    refine failed_handed backed none rfl nofun rfl ?_
    simp [Attempted.billed, Attempted.lost, accepts.ran]
  | succeeded details accepts =>
    exact judged_handed backed rfl nofun rfl accepts.ran (runChain_ok accepts.judged) unlost
  | planRefused details rolledBack planner fixable =>
    refine judged_handed backed rfl nofun rfl rolledBack.1.ran ?_ unlost
    rw [reported_expansionVerdict]
    exact runChain_ok rolledBack.1.judged
  | expansionRefused details rolledBack hopeless =>
    refine failed_handed backed none rfl nofun rfl ?_
    simp [Attempted.billed, Attempted.lost, rolledBack.1.ran]
  | edgesFailed details rolledBack =>
    refine ⟨rfl, fun _ => rfl, fun keeps => absurd rfl keeps, nofun, [], .nil, ?_⟩
    simp [Attempted.billed, Attempted.lost, rolledBack.1.ran]

end Handing

section Accounts

variable {billed : List ValidatorUsage} {metrics : List CostMetric}

theorem not_accounted (same : s'.costs = s.costs) : ¬Accounted row billed metrics s s' := by
  rintro ⟨rows, _, costs, perm, _⟩
  have none : rows = [] := by simpa [same] using costs
  rw [none] at perm
  exact cons_ne_nil _ _ (nil_perm.mp perm)

theorem accounted_iff
    (costs : s'.costs = s.costs ++ (productive :: overheads).map (AttemptCost.row · now))
    (plain : productive.overhead = false) (flagged : ∀ charge ∈ overheads, charge.overhead = true)
    (recorded : metrics = recordCosts (productive :: overheads) now)
    (bills : (overheads.map chargeBill).Perm (kept.map usageBill))
    (whole : billed.Perm (lost ++ kept)) :
    Accounted (productive.row now) billed metrics s s' ↔ lost = [] := by
  have rowBills : (overheads.map (AttemptCost.row · now)).map rowBill = overheads.map chargeBill := by
    rw [map_map]
    rfl
  constructor
  · rintro ⟨rows, _, isRows, perm, _, _, paid, _⟩
    have same : rows = (productive :: overheads).map (AttemptCost.row · now) :=
      append_cancel_left (isRows.symm.trans costs)
    rw [same, map_cons] at perm
    have count := ((perm.cons_inv.map rowBill).trans paid).length_eq
    have kepts := bills.length_eq
    have wholes := whole.length_eq
    simp only [length_map, length_append] at count kepts wholes
    exact length_eq_zero_iff.mp (by omega)
  · rintro rfl
    refine ⟨_, _, costs, .refl _, plain, ?_, ?_, ?_⟩
    · intro row mem
      obtain ⟨charge, listed, rfl⟩ := mem_map.mp mem
      exact flagged charge listed
    · rw [rowBills]
      exact bills.trans (whole.map usageBill).symm
    · rw [recorded]
      rfl

end Accounts

theorem Way.kept_iff :
    way.Kept s ↔ way ≠ .edgesFailed ∧ (way ≠ .succeeded → s.run.status ≠ .cancelling) := by
  cases way <;> simp [Way.Kept]

theorem Settling.metrics_kept (settling : Settling) (now : Time)
    (kept : ¬(s.run.status = .cancelling ∧ settling.succeeds = false)) :
    settling.metrics now s = recordCosts settling.charges.all now := by
  cases settling with
  | success charges details => rfl
  | failure charges details => exact if_neg fun cancelling => kept ⟨cancelling, rfl⟩
  | rejection charges details =>
    rw [Settling.metrics, if_neg fun cancelling => kept ⟨cancelling, rfl⟩]
    simp [recordCosts, Charges.all, Settling.charges]

/-- In every history, a settlement that commits accounts for its attempt exactly when no judge billed
something that the worker does not hand over, the failure is not that of an edge predicate, and the
run is not cancelling where the attempt does not succeed. -/
theorem settlement_accounted_iff (definitionLint : Dag.DefinitionLint) (env : Environment)
    (states : List RunStore) (history : History definitionLint env states) (s : RunStore)
    (reached : s ∈ states) (catalog : Catalog) (backed : catalog.fallback.isSome = true)
    (attempted : Attempted) (now : Time) (productive : AttemptCost)
    (priced : priceAttempt (some catalog) attempted.step now attempted.out = some productive)
    (way : Way) (settling : Settling)
    (takes : Takes env.lint (some catalog) attempted now way settling) (policies : StepPolicies)
    (s' : RunStore)
    (commits : settling.exec env.lint policies attempted.step now s = (.ok (), s')) :
    Accounted (productive.row now) attempted.billed (settling.metrics now s) s s' ↔
      attempted.lost way = [] ∧ way.Kept s := by
  have unique := (history.invariant (wired_invariant definitionLint env.lint .all) s reached).1
  have costs := Settling.costs unique commits
  have handed := takes.handed backed
  by_cases drops : way = .edgesFailed
  · subst drops
    refine ⟨fun accounted => ?_, fun kept => kept.2.elim⟩
    have empty : settling.written s = [] := by
      rw [Settling.written, handed.dropped rfl, ite_self]
    rw [empty, map_nil, append_nil] at costs
    exact absurd accounted (not_accounted costs)
  · by_cases quiet : s.run.status = .cancelling ∧ settling.succeeds = false
    · have fails : way ≠ .succeeded := by
        rintro rfl
        exact Bool.noConfusion (handed.succeeds.symm.trans quiet.2)
      rw [Settling.written, if_pos quiet, map_nil, append_nil] at costs
      refine ⟨fun accounted => absurd accounted (not_accounted costs), fun kept => ?_⟩
      exact absurd quiet.1 ((Way.kept_iff.mp kept.2).2 fails)
    · have kept : way.Kept s := by
        refine Way.kept_iff.mpr ⟨drops, fun fails cancelling => quiet ⟨cancelling, ?_⟩⟩
        simpa [handed.succeeds] using fails
      have charges : settling.charges.all = productive :: settling.charges.overheads := by
        rw [Charges.all, handed.productive drops, priced]
        rfl
      rw [Settling.written, if_neg quiet, charges] at costs
      have recorded := settling.metrics_kept now quiet
      rw [charges] at recorded
      obtain ⟨_, bills, whole⟩ := handed.bills
      rw [accounted_iff costs (priceAttempt_some priced).2.2 handed.overheads recorded bills whole]
      exact (and_iff_left kept).symm

/-! A scored output: its judge bills, and the predicate on the only out-edge may fail to evaluate. -/

def predicateDefinition : Dag.Definition :=
  { steps := [{ id := "a", type := .llm }, { id := "b", type := .noop }]
    edges := [{ fromStep := "a", toStep := "b", when := "output.score > 1" }] }

def predicateRun : RunStore := opened predicateDefinition ["a"]

theorem predicateRun_created : Created Dag.quietDefinitionLint predicateDefinition predicateRun :=
  ⟨"", none, 1, rfl⟩

def predicateClaimed : RunStore := act retryEnvironment (.claim "a" 1 "worker") 2 predicateRun

theorem predicateClaimed_history :
    History Dag.quietDefinitionLint retryEnvironment [predicateClaimed, predicateRun] :=
  .acted (.created predicateRun_created) (by simp) trivial

def freeCatalog : Catalog :=
  { models := fun _ => []
    tools := fun _ => []
    fallback := some ⟨JsonText.JsonType.zero .plainFloat, JsonText.JsonType.zero .plainFloat⟩ }

def gradedEntry : ChainEntry :=
  { name := "llm_judge"
    costBearing := true
    reply := Validate.judge false 1
      [some
        { provider := "mock", served := "j", inputTokens := 3, outputTokens := 1
          grade := some ⟨1, "complete"⟩ }] }

def scoredAttempt : Attempted :=
  { step := ⟨"a", .llm, 1, 1⟩
    out := { data := "\x7b\x7d", usage := some ⟨7, 2, false⟩, resource := "mock:m" }
    chain := [gradedEntry] }

def scoredVerdict : Verdict :=
  { status := .pass
    score := some 1
    results :=
      [{ name := "llm_judge", status := .pass, score := some 1, rationale := "complete"
         usage := some ⟨"mock", "j", 3, 1⟩ }] }

theorem scoredAttempt_accepts : scoredAttempt.Accepts (some scoredVerdict) := ⟨rfl, rfl, rfl⟩

def scoredCharge : AttemptCost :=
  { stepID := "a"
    attempt := 1
    resource := "mock:m"
    usage := some (Usage.json ⟨7, 2, false⟩)
    rate := "\x7b\"input_per_mtok\":0,\"output_per_mtok\":0\x7d"
    rateSource := "fallback"
    warning := some (unknownModelPayload "mock:m"
      ⟨JsonText.JsonType.zero .plainFloat, JsonText.JsonType.zero .plainFloat⟩) }

theorem scoredAttempt_priced : priceAttempt (some freeCatalog) scoredAttempt.step 3 scoredAttempt.out =
    some scoredCharge := by
  decide +kernel

def scoredDetails (evaluator : Evaluator) : SuccessDetails := { completion := {}, evaluator }

def scoredSuccess (evaluator : Evaluator) : Settling :=
  scoredAttempt.success (some freeCatalog) (some scoredVerdict) (scoredDetails evaluator) 3

def settledBy (settling : Settling) : Except StoreError Unit × RunStore :=
  settling.exec retryEnvironment.lint oneAttempt scoredAttempt.step 3 predicateClaimed

theorem settledBy_eq (isResult : (settledBy settling).1 = result) :
    settling.exec retryEnvironment.lint oneAttempt scoredAttempt.step 3 predicateClaimed =
      (result, (settledBy settling).2) := by
  rw [← isResult]
  rfl

theorem scoredAttempt_accounted : Accounted (scoredCharge.row 3) scoredAttempt.billed
      ((scoredSuccess (.ok fun _ => .ok true)).metrics 3 predicateClaimed) predicateClaimed
      (settledBy (scoredSuccess (.ok fun _ => .ok true))).2 := by
  have commits : (settledBy (scoredSuccess (.ok fun _ => .ok true))).1 = .ok () := by decide +kernel
  exact (settlement_accounted_iff Dag.quietDefinitionLint retryEnvironment
    [predicateClaimed, predicateRun] predicateClaimed_history predicateClaimed mem_cons_self
    freeCatalog rfl scoredAttempt 3 scoredCharge scoredAttempt_priced .succeeded
    (scoredSuccess (.ok fun _ => .ok true))
      (.succeeded (scoredDetails _) scoredAttempt_accepts) oneAttempt _
    (settledBy_eq commits)).mpr ⟨rfl, trivial⟩

def unevaluated : Settling :=
  scoredAttempt.failure (some freeCatalog) {} .permanent none { class_ := .permanent, fireAt := 3 } 3

/-- The predicate does not evaluate: the step is buried, and neither the call of its model nor that of
its judge is charged. -/
theorem predicate_failure_unaccounted :
    History Dag.quietDefinitionLint retryEnvironment [predicateClaimed, predicateRun] ∧
      priceAttempt (some freeCatalog) scoredAttempt.step 3 scoredAttempt.out = some scoredCharge ∧
      Takes retryEnvironment.lint (some freeCatalog) scoredAttempt 3 .edgesFailed unevaluated ∧
      (settledBy unevaluated).1 = .ok () ∧ (settledBy unevaluated).2.costs = [] ∧
      scoredAttempt.billed = [⟨"mock", "j", 3, 1⟩] ∧
      ¬Accounted (scoredCharge.row 3) scoredAttempt.billed (unevaluated.metrics 3 predicateClaimed)
        predicateClaimed (settledBy unevaluated).2 := by
  have fails : (settledBy (scoredSuccess (.ok fun _ => .error "no such key: score"))).1 =
      .error (.engine "plan edges" "no such key: score") := by
    decide +kernel
  have rolledBack : scoredAttempt.RolledBack retryEnvironment.lint (some freeCatalog)
      (some scoredVerdict) (scoredDetails (.ok fun _ => .error "no such key: score"))
      (.engine "plan edges" "no such key: score") :=
    ⟨scoredAttempt_accepts, oneAttempt, 3, predicateClaimed, _, settledBy_eq fails⟩
  have unbooked : (settledBy unevaluated).2.costs = [] := by decide +kernel
  exact ⟨predicateClaimed_history, scoredAttempt_priced, .edgesFailed _ rolledBack,
    by decide +kernel, unbooked, by decide +kernel,
    not_accounted (unbooked.trans (by decide +kernel))⟩

end Agentloom.Engine
