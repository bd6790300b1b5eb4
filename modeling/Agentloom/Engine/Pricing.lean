import Mathlib.Data.List.Basic
import Agentloom.Cost.Catalog
import Agentloom.Engine.Charges
import Agentloom.Validate.Chain

/-! The prices of an attempt. A worker prices what its executor reported, and what the judges of the
output billed, before the transaction that settles the attempt; the same rows feed the metrics. -/

namespace Agentloom.Engine

open Transaction Store JsonText
open Cost (Catalog)
open Validate (ValidatorResult ValidatorUsage Verdict)

structure Usage where
  inputTokens : Int64
  outputTokens : Int64
  cacheHit : Bool := false
deriving DecidableEq, Repr

def usage : JsonType Usage :=
  .via (.struct
    (.cons "input_tokens" false .int
    (.cons "output_tokens" false .int
    (.cons "cache_hit" true .bool
    .nil))))
    (fun (inputTokens, outputTokens, cacheHit, _) => ⟨inputTokens, outputTokens, cacheHit⟩)
    (fun x => (x.inputTokens, x.outputTokens, x.cacheHit, ()))

def Usage.json (used : Usage) : Json := (usage.marshal used).text

structure Output where
  data : Json := ""
  usage : Option Usage := none
  resource : String := ""
  repair : Option Json := none
deriving DecidableEq, Repr

structure ClaimedStep where
  stepID : String
  stepType : Dag.StepType
  claimID : ClaimID
  attempt : Nat
deriving DecidableEq, Repr

def toolPrefix : String := "tool:"

def toolRateSnapshot : JsonType Int64 :=
  .via (.struct (.cons "per_call_nano_usd" false .int .nil)) (fun (nano, _) => nano)
    (fun nano => (nano, ())) (fun _ => rfl) (fun _ => rfl)

def unknownModelPayload (model : String) (fallback : Cost.Rate) : Json :=
  (Cost.unknownModelWarning.marshal ⟨model, fallback⟩).text

section Prices

-- No catalog: the cost ledger is disabled.
variable (pricing : Option Catalog) (step : ClaimedStep) (now : Time)

def priceTool (out : Output) (cacheHit : Bool) : Option AttemptCost :=
  (pricing.bind fun catalog => catalog.toolPrice out.resource now).map fun nano =>
    { stepID := step.stepID
      attempt := step.attempt
      resource := out.resource
      rate := (toolRateSnapshot.marshal nano).text
      rateSource := Cost.Source.exact.text
      cacheHit
      costNanoUSD := if cacheHit then 0 else nano.toInt
      savedNanoUSD := if cacheHit then nano.toInt else 0 }

def priceCall (out : Output) (used : Usage) : Option AttemptCost :=
  (pricing.bind fun catalog => catalog.priceModel out.resource now .estimate).map fun priced =>
    let amount := (Cost.cost used.inputTokens used.outputTokens priced.rate).toInt
    { stepID := step.stepID
      attempt := step.attempt
      resource := out.resource
      usage := some used.json
      rate := (Cost.rate.marshal priced.rate).text
      rateSource := priced.source.text
      cacheHit := used.cacheHit
      costNanoUSD := if used.cacheHit then 0 else amount
      savedNanoUSD := if used.cacheHit then amount else 0
      -- A call that was served from the cache has warned when it was made.
      warning := if priced.fallback && !used.cacheHit then
          some (unknownModelPayload out.resource priced.rate)
        else none }

def priceAttempt (out : Output) : Option AttemptCost :=
  if out.resource = "" then none
  else if toolPrefix.toList.isPrefixOf out.resource.toList then
    priceTool pricing step now out (out.usage.any Usage.cacheHit)
  else out.usage.bind (priceCall pricing step now out)

def priceOverhead (entry : String) (used : ValidatorUsage) : Option AttemptCost :=
  (pricing.bind fun catalog => catalog.priceModel used.resource now .estimate).map fun priced =>
    { stepID := step.stepID
      attempt := step.attempt
      entry
      resource := used.resource
      usage := some (Usage.json ⟨used.inputTokens, used.outputTokens, false⟩)
      rate := (Cost.rate.marshal priced.rate).text
      rateSource := priced.source.text
      overhead := true
      costNanoUSD := (Cost.cost used.inputTokens used.outputTokens priced.rate).toInt
      warning := if priced.fallback then some (unknownModelPayload used.resource priced.rate)
        else none }

def priceResult (position : Nat) (result : ValidatorResult) : Option AttemptCost :=
  result.usage.bind fun used =>
    if used.resource = "" then none
    else priceOverhead pricing step now (judgeEntry position) used

def priceResults (start : Nat) (results : List ValidatorResult) : List AttemptCost :=
  (results.zipIdx start).filterMap fun item => priceResult pricing step now item.2 item.1

def priceOverheads (verdict : Option Verdict) : List AttemptCost :=
  verdict.elim [] fun verdict => priceResults pricing step now 0 verdict.results

structure Charges where
  productive : Option AttemptCost
  overheads : List AttemptCost := []

def Charges.all (charges : Charges) : List AttemptCost :=
  charges.productive.toList ++ charges.overheads

def judgedCharges (out : Output) (verdict : Option Verdict) : Charges :=
  { productive := priceAttempt pricing step now out
    overheads := priceOverheads pricing step now verdict }

def failedCharges (out : Output) (erred : Option ValidatorUsage) : Charges :=
  { productive := priceAttempt pricing step now out
    overheads := (erred.bind (priceOverhead pricing step now judgeErrorEntry)).toList }

end Prices

inductive CostMetric where
  | saved (resource : String) (nanoUSD : Int)
  | spent (resource : String) (nanoUSD : Int)
  | tokens (resource : String) (inputTokens outputTokens : Int64)
deriving DecidableEq, Repr

def decodeUsage (text : Json) : Option Usage :=
  (parse text).bind fun value =>
    match usage.unmarshal value usage.zero with
    | (used, none) => some used
    | (_, some _) => none

def tokenMetrics (row : CostRow) : List CostMetric :=
  match row.usage.bind decodeUsage with
  | some used => [.tokens row.resource used.inputTokens used.outputTokens]
  | none => []

def recordCost (row : CostRow) : List CostMetric :=
  if row.cacheHit then [.saved row.resource row.savedNanoUSD]
  else .spent row.resource row.costNanoUSD :: tokenMetrics row

def recordCosts (charges : List AttemptCost) (now : Time) : List CostMetric :=
  (charges.map (AttemptCost.row · now)).flatMap recordCost

abbrev Bill := String × Option Json

def chargeBill (charge : AttemptCost) : Bill := (charge.resource, charge.usage)

def usageBill (used : ValidatorUsage) : Bill :=
  (used.resource, some (Usage.json ⟨used.inputTokens, used.outputTokens, false⟩))

theorem resource_ne (used : ValidatorUsage) : used.resource ≠ "" := by
  intro empty
  have characters := congrArg String.toList empty
  simp [ValidatorUsage.resource, String.toList_append] at characters

theorem priceResults_cons (pricing : Option Catalog) (step : ClaimedStep) (now : Time) (start : Nat)
    (result : ValidatorResult) (rest : List ValidatorResult) :
    priceResults pricing step now start (result :: rest) =
      (priceResult pricing step now start result).toList ++
        priceResults pricing step now (start + 1) rest := by
  unfold priceResults
  rw [List.zipIdx_cons, List.filterMap_cons]
  cases priceResult pricing step now start result <;> rfl

section Bills

variable {catalog : Catalog} (backed : catalog.fallback.isSome = true) (step : ClaimedStep) (now : Time)

include backed

theorem priceOverhead_backed (entry : String) (used : ValidatorUsage) :
    ∃ charge, priceOverhead (some catalog) step now entry used = some charge ∧
      charge.overhead = true ∧ chargeBill charge = usageBill used := by
  have estimated : (catalog.priceModel used.resource now .estimate).isSome = true :=
    catalog.priceModel_estimate backed
  obtain ⟨_, isPriced⟩ := Option.isSome_iff_exists.mp estimated
  unfold priceOverhead
  rw [Option.bind_some, isPriced]
  exact ⟨_, rfl, rfl, rfl⟩

theorem priceResults_backed (start : Nat) (results : List ValidatorResult) :
    (priceResults (some catalog) step now start results).map chargeBill =
        (Validate.usages results).map usageBill ∧
      ∀ charge ∈ priceResults (some catalog) step now start results, charge.overhead = true := by
  induction results generalizing start with
  | nil => exact ⟨rfl, nofun⟩
  | cons result rest ih =>
    obtain ⟨bills, overheads⟩ := ih (start + 1)
    rw [priceResults_cons]
    cases reported : result.usage with
    | none =>
      have unpriced : priceResult (some catalog) step now start result = none := by
        simp [priceResult, reported]
      rw [unpriced]
      refine ⟨?_, overheads⟩
      simpa [Validate.usages, reported] using bills
    | some used =>
      obtain ⟨charge, priced, overhead, bill⟩ :=
        priceOverhead_backed backed step now (judgeEntry start) used
      have first : priceResult (some catalog) step now start result = some charge := by
        rw [priceResult, reported, Option.bind_some, if_neg (resource_ne used), priced]
      rw [first]
      refine ⟨?_, ?_⟩
      · simpa [Validate.usages, reported, bill] using bills
      · simpa [overhead] using overheads

end Bills

def ClaimedStep.Owns (step : ClaimedStep) (charge : AttemptCost) : Prop :=
  charge.stepID = step.stepID ∧ charge.attempt = step.attempt

section Entries

variable {pricing : Option Catalog} {step : ClaimedStep} {now : Time}

theorem priceAttempt_some (priced : priceAttempt pricing step now out = some charge) :
    step.Owns charge ∧ charge.entry = "" ∧ charge.overhead = false := by
  unfold priceAttempt at priced
  split_ifs at priced
  · obtain ⟨_, _, rfl⟩ := Option.map_eq_some_iff.mp priced
    exact ⟨⟨rfl, rfl⟩, rfl, rfl⟩
  · obtain ⟨_, _, called⟩ := Option.bind_eq_some_iff.mp priced
    obtain ⟨_, _, rfl⟩ := Option.map_eq_some_iff.mp called
    exact ⟨⟨rfl, rfl⟩, rfl, rfl⟩

end Entries

end Agentloom.Engine
