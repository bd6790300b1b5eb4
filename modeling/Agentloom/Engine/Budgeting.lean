import Agentloom.Engine.Pricing

/-! The budget check of a claim. Before an executor that costs money runs, its estimate is held
against the budget of the run and the caps of the step; a claim that does not fit, or whose run nears
its budget, goes to a fallback model, parks the run or fails the step. -/

namespace Agentloom.Engine

open JsonText Store List
open Cost (Catalog)

structure CostEstimate where
  resource : String
  inputTokens : Int64 := 0
  maxTokens : Int64 := 0
deriving DecidableEq, Repr

structure ModelFallback where
  model : String
  atBudgetFraction : Option PlainFloat := none
deriving DecidableEq, Repr

/-- Only the errors of these hooks that are told apart are kept: there are none. -/
structure ModelDowngrader (χ : Type) where
  modelFallbacks : χ → Option (String × List ModelFallback)
  withModel : χ → String → Option χ

structure ClaimOrigin where
  budgetNanoUSD : Option Int64
  spentNanoUSD : Int64
  failsOverBudget : Bool := false
deriving DecidableEq, Repr

structure StepBudget where
  maxUSD : Option PlainFloat := none
  maxTokens : Int64 := 0
deriving DecidableEq, Repr

inductive BudgetLimit where
  | run
  | stepUSD
deriving DecidableEq, Repr

structure BudgetExceededEvent where
  resource : String
  limit : BudgetLimit
  spentNanoUSD : Int64 := 0
  estimateNanoUSD : Int64 := 0
  projectedNanoUSD : Int64 := 0
  budgetNanoUSD : Int64 := 0
deriving DecidableEq, Repr

inductive DowngradeTrigger where
  | threshold
  | projection
deriving DecidableEq, Repr

structure ModelDowngradedEvent where
  fromModel : String
  toModel : String
  fromResource : String
  toResource : String
  trigger : DowngradeTrigger
  spentNanoUSD : Int64
  budgetNanoUSD : Int64
  fromEstimateNanoUSD : Int64
  toEstimateNanoUSD : Int64
  thresholdFraction : PlainFloat := .zero
  limit : Option BudgetLimit := none
deriving DecidableEq, Repr

structure StepCap where
  prior : Int64
  cap : Int64
deriving DecidableEq, Repr

structure DowngradeCandidate where
  tier : ModelFallback
  resource : String := ""
  nano : Int64 := 0
  priceable : Bool := false
  fits : Bool := false
  thresholdMet : Bool := false
deriving DecidableEq, Repr

def DowngradeCandidate.usable (candidate : DowngradeCandidate) : Bool :=
  candidate.priceable && candidate.fits

/-- The deepest tier whose threshold is met, if it is usable, else the first usable one. -/
def chooseDowngrade (cands : List DowngradeCandidate) (primaryFits : Bool) :
    Option (DowngradeCandidate × DowngradeTrigger) :=
  match cands.reverse.find? DowngradeCandidate.thresholdMet with
  | some deepest =>
    if deepest.usable then some (deepest, .threshold)
    else (cands.find? DowngradeCandidate.usable).map fun first => (first, .threshold)
  | none =>
    if primaryFits then none
    else (cands.find? DowngradeCandidate.usable).map fun first => (first, .projection)

def floatOfInt64 (n : Int64) : Option Float64 := Float64.ofRatio (n < 0) n.toInt.natAbs 1

def signedUnits (x : Float64) : Int := if x.negative then -x.units else x.units

def fractionReached (spent budget : Int64) (fraction : PlainFloat) : Bool :=
  match floatOfInt64 spent, floatOfInt64 budget with
  | some a, some b => (Float64.ofRatio (a.negative != b.negative) a.units b.units).any fun quotient =>
      signedUnits fraction.val ≤ signedUnits quotient
  | _, _ => false

/-- A claim of a cost-bearing step, with the hooks of its executor over its rendered configuration.
The recorded cost is the sum in the ledger, which may turn out unreadable. -/
structure BudgetClaim (χ : Type) where
  pricing : Option Catalog
  policy : Cost.UnknownModelPolicy
  now : Time
  config : χ
  costEstimate : Option (χ → Option CostEstimate)
  downgrader : Option (ModelDowngrader χ)
  origin : ClaimOrigin
  stepBudget : Except String (Option StepBudget)
  recordedNanoUSD : Int64
  ledgerError : Option String := none
  recordError : Option String := none

section Check

variable {χ : Type} (claim : BudgetClaim χ)

namespace BudgetClaim

/-- None where the model is unknown and the policy is to fail, or there is no rate to fall back to:
the catalog has no other error. -/
def estimateNanoUSD (est : CostEstimate) : Option Int64 :=
  claim.pricing.bind fun catalog =>
    if toolPrefix.toList.isPrefixOf est.resource.toList then
      some ((catalog.toolPrice est.resource claim.now).getD 0)
    else (catalog.priceModel est.resource claim.now claim.policy).map fun priced =>
      Cost.cost est.inputTokens est.maxTokens priced.rate

def fits (cap : Option StepCap) (nano : Int64) : Bool :=
  !(claim.origin.budgetNanoUSD.any fun budget => claim.origin.spentNanoUSD + nano > budget) &&
    !(cap.any fun cap => cap.prior + nano > cap.cap)

def priceOf (config : χ) : Option (String × Int64) := do
  let estimator ← claim.costEstimate
  let est ← estimator config
  if est.resource = "" then none
  else (claim.estimateNanoUSD est).map fun nano => (est.resource, nano)

def thresholdMet (tier : ModelFallback) : Bool :=
  claim.origin.budgetNanoUSD.any fun budget => budget > 0 &&
    tier.atBudgetFraction.any (fractionReached claim.origin.spentNanoUSD budget)

def candidate (dg : ModelDowngrader χ) (cap : Option StepCap) (tier : ModelFallback) :
    DowngradeCandidate :=
  match (dg.withModel claim.config tier.model).bind claim.priceOf with
  | some (resource, nano) =>
    { tier, resource, nano, priceable := true, fits := claim.fits cap nano
      thresholdMet := claim.thresholdMet tier }
  | none => { tier, thresholdMet := claim.thresholdMet tier }

def downgradedEvent (current : String) (est : CostEstimate) (primaryNano : Int64)
    (target : DowngradeCandidate) (trigger : DowngradeTrigger) : ModelDowngradedEvent :=
  { fromModel := current
    toModel := target.tier.model
    fromResource := est.resource
    toResource := target.resource
    trigger
    spentNanoUSD := claim.origin.spentNanoUSD
    budgetNanoUSD := claim.origin.budgetNanoUSD.getD 0
    fromEstimateNanoUSD := primaryNano
    toEstimateNanoUSD := target.nano
    thresholdFraction := if trigger = .threshold then target.tier.atBudgetFraction.getD .zero else .zero
    limit := if trigger = .projection then
        some (if claim.origin.budgetNanoUSD.isSome then .run else .stepUSD)
      else none }

def selectDowngrade (dg : ModelDowngrader χ) (est : CostEstimate) (cap : Option StepCap) :
    Option (χ × ModelDowngradedEvent) := do
  let (current, chain) ← dg.modelFallbacks claim.config
  let primaryNano ← claim.estimateNanoUSD est
  let (target, trigger) ← chooseDowngrade (chain.map (claim.candidate dg cap))
    (claim.fits cap primaryNano)
  let raw ← dg.withModel claim.config target.tier.model
  some (raw, claim.downgradedEvent current est primaryNano target trigger)

end BudgetClaim

inductive BudgetDecision where
  | proceed
  | park (event : BudgetExceededEvent)
  | fail (reason : String) (event : BudgetExceededEvent)
deriving DecidableEq, Repr

/-- An amount in dollars; the remainder of a negative one is written without its sign. -/
def nanoStr (nano : Int64) : String :=
  let digits := toString (nano % 1000000000).toInt.natAbs
  "$" ++ toString (nano / 1000000000).toInt ++ "." ++
    String.ofList (List.replicate (9 - digits.length) '0') ++ digits

namespace BudgetClaim

def budgetDecide (est : CostEstimate) (cap : Option StepCap) : BudgetDecision :=
  match claim.estimateNanoUSD est with
  | none => .fail ("budget_exceeded: model " ++ Dag.quote est.resource ++
      " is not in the pricing catalog and the unknown-model policy is fail-closed")
      { resource := est.resource, limit := .run }
  | some nano =>
    match cap.filter fun cap => cap.prior + nano > cap.cap with
    | some cap => .fail ("budget_exceeded: step projected spend " ++ nanoStr (cap.prior + nano) ++
        " exceeds step max_usd " ++ nanoStr cap.cap)
        { resource := est.resource, limit := .stepUSD, spentNanoUSD := cap.prior
          estimateNanoUSD := nano, projectedNanoUSD := cap.prior + nano, budgetNanoUSD := cap.cap }
    | none =>
      let projected := claim.origin.spentNanoUSD + nano
      match claim.origin.budgetNanoUSD.filter fun budget => nano > 0 && projected > budget with
      | none => .proceed
      | some budget =>
        let event : BudgetExceededEvent :=
          { resource := est.resource, limit := .run, spentNanoUSD := claim.origin.spentNanoUSD
            estimateNanoUSD := nano, projectedNanoUSD := projected, budgetNanoUSD := budget }
        if claim.origin.failsOverBudget then
          .fail ("budget_exceeded: projected run spend " ++ nanoStr projected ++ " exceeds budget " ++
            nanoStr budget) event
        else .park event

end BudgetClaim

/-- The results of the check: the claim is handled by a park or a failure, it is left because its
downgrade was not recorded, or it is not handled, perhaps with a new configuration or an error. -/
inductive BudgetResult (χ : Type) where
  | parks (event : BudgetExceededEvent)
  | fails (reason : String)
  | leaves (error : String)
  | unhandled (newConfig : Option χ) (error : Option String)

namespace BudgetClaim

def decideResult (est : CostEstimate) (cap : Option StepCap) : BudgetResult χ :=
  match claim.budgetDecide est cap with
  | .proceed => .unhandled none none
  | .park event => .parks event
  | .fail reason _ => .fails reason

def checkEstimate (est : CostEstimate) (cap : Option StepCap) : BudgetResult χ :=
  match claim.downgrader.bind fun dg => claim.selectDowngrade dg est cap with
  | some (newConfig, _) =>
    match claim.recordError with
    | some error => .leaves error
    | none => .unhandled (some newConfig) none
  | none => claim.decideResult est cap

def checkCaps (est : CostEstimate) (stepBudget : Option StepBudget) : BudgetResult χ :=
  let projected := est.inputTokens + est.maxTokens
  match stepBudget.filter fun budget => budget.maxTokens > 0 && projected > budget.maxTokens with
  | some budget => .fails ("budget_exceeded: projected " ++ toString projected.toInt ++
      " tokens exceeds step max_tokens " ++ toString budget.maxTokens.toInt)
  | none =>
    match stepBudget.bind StepBudget.maxUSD, claim.ledgerError with
    | none, _ => claim.checkEstimate est none
    | some _, some error => .unhandled none (some error)
    | some usd, none => claim.checkEstimate est (some ⟨claim.recordedNanoUSD, Cost.usdToNano usd⟩)

def budgetCheck : BudgetResult χ :=
  match claim.pricing, claim.costEstimate, claim.stepBudget with
  | none, _, _ => .unhandled none none
  | some _, none, _ => .unhandled none none
  | some _, some _, .error error => .fails ("corrupt budget policy: " ++ error)
  | some _, some estimator, .ok stepBudget =>
    if claim.origin.budgetNanoUSD = none ∧ stepBudget = none then .unhandled none none
    else match estimator claim.config with
      | none => .unhandled none none
      | some est =>
        if est.resource = "" then .unhandled none none else claim.checkCaps est stepBudget

end BudgetClaim

/-- The configuration a claim is executed with. An error of the check that does not come with the
claim handled is dropped. -/
def BudgetResult.executes (config : χ) : BudgetResult χ → Option χ
  | .unhandled newConfig _ => some (newConfig.getD config)
  | _ => none

def BudgetResult.refuses : BudgetResult χ → Bool
  | .parks _ | .fails _ => true
  | _ => false

end Check

theorem lt_add_iff {a b c : Int64} (low : -9223372036854775808 ≤ a.toInt + b.toInt)
    (high : a.toInt + b.toInt < 9223372036854775808) : c < a + b ↔ c.toInt < a.toInt + b.toInt := by
  rw [Int64.lt_iff_toInt_lt, Int64.toInt_add,
    Int.bmod_eq_of_le (by simpa using low) (by simpa using high)]

namespace BudgetClaim

variable {χ : Type} (claim : BudgetClaim χ)

def stepCap : Option Int64 :=
  match claim.stepBudget with
  | .ok stepBudget => (stepBudget.bind StepBudget.maxUSD).map Cost.usdToNano
  | .error _ => none

def fallbackPrices : List Int64 :=
  match claim.downgrader with
  | none => []
  | some dg => ((dg.modelFallbacks claim.config).map Prod.snd).toList.flatten.filterMap fun tier =>
      ((dg.withModel claim.config tier.model).bind claim.priceOf).map Prod.snd

def Within (nano : Int64) : Prop :=
  (∀ budget ∈ claim.origin.budgetNanoUSD,
    nano = 0 ∨ claim.origin.spentNanoUSD.toInt + nano.toInt ≤ budget.toInt) ∧
  ∀ cap ∈ claim.stepCap, claim.recordedNanoUSD.toInt + nano.toInt ≤ cap.toInt

structure Estimated (est : CostEstimate) (stepBudget : Option StepBudget) : Prop where
  priced : claim.pricing.isSome = true
  estimated : (claim.costEstimate.bind fun estimator => estimator claim.config) = some est
  resource : est.resource ≠ ""
  decoded : claim.stepBudget = .ok stepBudget
  limited : ¬ (claim.origin.budgetNanoUSD = none ∧ stepBudget = none)

def TokensFit (est : CostEstimate) (stepBudget : Option StepBudget) : Prop :=
  ∀ budget ∈ stepBudget, 0 < budget.maxTokens →
    est.inputTokens.toInt + est.maxTokens.toInt ≤ budget.maxTokens.toInt

/-- The prices that are held against the limits: if the tokens fit and the ledger need not or can be
read, that of the configured model and, if there is one, those of its fallbacks. -/
def Compared (est : CostEstimate) (stepBudget : Option StepBudget) (nano : Int64) : Prop :=
  TokensFit est stepBudget ∧ ¬ (claim.stepCap.isSome ∧ claim.ledgerError.isSome) ∧
    ∃ primary, claim.estimateNanoUSD est = some primary ∧ (nano = primary ∨ nano ∈ claim.fallbackPrices)

/-- A price is not negative where there is a run budget, and its sums with what the limits are held
against do not leave the machine integers; without a limit no sum is formed. -/
structure Summed (nano : Int64) : Prop where
  run : claim.origin.budgetNanoUSD.isSome = true →
    0 ≤ nano.toInt ∧ claim.origin.spentNanoUSD.toInt + nano.toInt < 9223372036854775808
  step : claim.stepCap.isSome = true →
    -9223372036854775808 ≤ claim.recordedNanoUSD.toInt + nano.toInt ∧
      claim.recordedNanoUSD.toInt + nano.toInt < 9223372036854775808

/-- No sum that the check holds against a limit leaves the machine integers. -/
structure InRange (est : CostEstimate) (stepBudget : Option StepBudget) : Prop where
  tokens : ∀ budget ∈ stepBudget, 0 < budget.maxTokens →
    -9223372036854775808 ≤ est.inputTokens.toInt + est.maxTokens.toInt ∧
      est.inputTokens.toInt + est.maxTokens.toInt < 9223372036854775808
  prices : ∀ nano, claim.Compared est stepBudget nano → claim.Summed nano

variable {claim} {est : CostEstimate} {stepBudget : Option StepBudget}

theorem budgetCheck_eq (estimated : claim.Estimated est stepBudget) :
    claim.budgetCheck = claim.checkCaps est stepBudget := by
  obtain ⟨_, priced⟩ := Option.isSome_iff_exists.mp estimated.priced
  obtain ⟨_, hook, given⟩ := Option.bind_eq_some_iff.mp estimated.estimated
  simp [budgetCheck, priced, hook, given, estimated.decoded, estimated.limited, estimated.resource]

theorem priceOf_config (estimated : claim.Estimated est stepBudget) :
    claim.priceOf claim.config = (claim.estimateNanoUSD est).map fun nano => (est.resource, nano) := by
  obtain ⟨_, hook, given⟩ := Option.bind_eq_some_iff.mp estimated.estimated
  simp [priceOf, hook, given, estimated.resource]

variable (claim) in
def capNow : Option StepCap := claim.stepCap.map (StepCap.mk claim.recordedNanoUSD)

theorem checkCaps_over (range : claim.InRange est stepBudget)
    (exceed : ¬ TokensFit est stepBudget) : ∃ reason, claim.checkCaps est stepBudget = .fails reason := by
  simp only [TokensFit, not_forall, Int.not_le] at exceed
  obtain ⟨_, given, capped, exceeds⟩ := exceed
  obtain ⟨low, high⟩ := range.tokens _ given capped
  have wraps := (lt_add_iff low high).mpr exceeds
  rw [Option.mem_def] at given
  simp [checkCaps, given, capped, wraps, Option.filter]

theorem checkCaps_within (decoded : claim.stepBudget = .ok stepBudget)
    (range : claim.InRange est stepBudget) (fit : TokensFit est stepBudget) :
    claim.checkCaps est stepBudget =
      match claim.ledgerError, claim.stepCap with
      | some error, some _ => .unhandled none (some error)
      | _, _ => claim.checkEstimate est claim.capNow := by
  have none : (stepBudget.filter fun budget =>
      budget.maxTokens > 0 && est.inputTokens + est.maxTokens > budget.maxTokens) = none := by
    rw [Option.filter_eq_none_iff]
    intro budget given exceed
    simp only [gt_iff_lt, Bool.and_eq_true, decide_eq_true_eq] at exceed
    obtain ⟨low, high⟩ := range.tokens budget given exceed.1
    have exceeds := (lt_add_iff low high).mp exceed.2
    have bound := fit budget given exceed.1
    omega
  unfold checkCaps capNow stepCap
  simp only [none, decoded]
  cases stepBudget.bind StepBudget.maxUSD <;> cases claim.ledgerError <;> rfl

theorem Summed.over_run {nano : Int64} (sums : claim.Summed nano)
    (given : claim.origin.budgetNanoUSD = some budget) : budget < claim.origin.spentNanoUSD + nano ↔
      budget.toInt < claim.origin.spentNanoUSD.toInt + nano.toInt := by
  obtain ⟨least, high⟩ := sums.run (by simp [given])
  have low := claim.origin.spentNanoUSD.le_toInt
  exact lt_add_iff (by omega) high

theorem Summed.over_step {nano : Int64} (sums : claim.Summed nano) (given : claim.stepCap = some cap) :
    cap < claim.recordedNanoUSD + nano ↔ cap.toInt < claim.recordedNanoUSD.toInt + nano.toInt := by
  obtain ⟨low, high⟩ := sums.step (by simp [given])
  exact lt_add_iff low high

theorem fits_iff {nano : Int64} (sums : claim.Summed nano) :
    claim.fits claim.capNow nano = true ↔ (∀ budget ∈ claim.origin.budgetNanoUSD,
        claim.origin.spentNanoUSD.toInt + nano.toInt ≤ budget.toInt) ∧
      ∀ cap ∈ claim.stepCap, claim.recordedNanoUSD.toInt + nano.toInt ≤ cap.toInt := by
  unfold fits capNow
  cases run : claim.origin.budgetNanoUSD <;> cases step : claim.stepCap <;>
    simp [sums.over_run, sums.over_step, run, step]

end BudgetClaim

theorem chooseDowngrade_some (chosen : chooseDowngrade cands fits = some (target, trigger)) :
    target ∈ cands ∧ target.usable = true ∧
      (fits = false ∨ ∃ deepest ∈ cands, deepest.thresholdMet = true) := by
  unfold chooseDowngrade at chosen
  split at chosen
  · rename_i deepest met
    have member := mem_reverse.mp (mem_of_find?_eq_some met)
    have reached : ∃ deepest ∈ cands, deepest.thresholdMet = true :=
      ⟨deepest, member, find?_some met⟩
    split at chosen
    · rename_i usable
      cases chosen
      exact ⟨member, usable, .inr reached⟩
    · obtain ⟨first, found, same⟩ := Option.map_eq_some_iff.mp chosen
      cases same
      exact ⟨mem_of_find?_eq_some found, find?_some found, .inr reached⟩
  · split at chosen
    · cases chosen
    · rename_i unfit
      obtain ⟨_, found, same⟩ := Option.map_eq_some_iff.mp chosen
      cases same
      exact ⟨mem_of_find?_eq_some found, find?_some found, .inl (by simpa using unfit)⟩

theorem chooseDowngrade_none (none : chooseDowngrade cands false = none) :
    ∀ candidate ∈ cands, candidate.usable = false := by
  have absent : cands.find? DowngradeCandidate.usable = Option.none := by
    unfold chooseDowngrade at none
    split at none
    · split at none
      · cases none
      · simpa using none
    · simpa using none
  intro candidate mem
  simpa using find?_eq_none.mp absent candidate mem

namespace BudgetClaim

variable {χ : Type} {claim : BudgetClaim χ} {est : CostEstimate} {stepBudget : Option StepBudget}
  {dg : ModelDowngrader χ} {cap : Option StepCap} {tier : ModelFallback}

theorem usable_iff : (claim.candidate dg cap tier).usable = true ↔ ∃ resource nano,
    (dg.withModel claim.config tier.model).bind claim.priceOf = some (resource, nano) ∧
      claim.fits cap nano = true ∧ (claim.candidate dg cap tier).nano = nano := by
  unfold candidate
  rcases (dg.withModel claim.config tier.model).bind claim.priceOf with - | ⟨_, _⟩ <;>
    simp [DowngradeCandidate.usable]

theorem mem_fallbackPrices (hook : claim.downgrader = some dg)
      (fallbacks : dg.modelFallbacks claim.config = some (current, chain)) :
    nano ∈ claim.fallbackPrices ↔ ∃ tier ∈ chain, ∃ resource,
      (dg.withModel claim.config tier.model).bind claim.priceOf = some (resource, nano) := by
  simp only [fallbackPrices, hook, fallbacks, Option.map_some, Option.toList_some, flatten_cons,
    flatten_nil, append_nil, mem_filterMap, Option.map_eq_some_iff, Prod.exists,
    exists_eq_right]

theorem candidate_tier : (claim.candidate dg cap tier).tier = tier := by
  unfold candidate
  split <;> rfl

theorem selectDowngrade_some {config event}
    (selected : claim.selectDowngrade dg est cap = some (config, event)) :
    ∃ current chain nano, dg.modelFallbacks claim.config = some (current, chain) ∧
      claim.estimateNanoUSD est = some nano ∧ ∃ tier ∈ chain, ∃ resource other trigger,
        chooseDowngrade (chain.map (claim.candidate dg cap)) (claim.fits cap nano) =
          some (claim.candidate dg cap tier, trigger) ∧
        (claim.candidate dg cap tier).nano = other ∧ claim.fits cap other = true ∧
        dg.withModel claim.config tier.model = some config ∧
        claim.priceOf config = some (resource, other) := by
  simp only [selectDowngrade, Option.bind_eq_bind, Option.bind_eq_some_iff, Prod.exists] at selected
  obtain ⟨current, chain, fallbacks, nano, priced, _, trigger, chosen, _, renders, same⟩ := selected
  obtain ⟨mem, usable, -⟩ := chooseDowngrade_some chosen
  obtain ⟨tier, inChain, rfl⟩ := mem_map.mp mem
  obtain ⟨resource, other, price, fits, isNano⟩ := usable_iff.mp usable
  rw [candidate_tier] at renders
  rw [renders] at price
  cases same
  exact ⟨current, chain, nano, fallbacks, priced, tier, inChain, resource, other, trigger, chosen,
    isNano, fits, renders, price⟩

theorem selectDowngrade_price {config event} (hook : claim.downgrader = some dg)
    (selected : claim.selectDowngrade dg est cap = some (config, event)) :
    ∃ resource, ∃ nano ∈ claim.fallbackPrices, claim.priceOf config = some (resource, nano) ∧
      claim.fits cap nano = true ∧ ∃ primary, claim.estimateNanoUSD est = some primary := by
  obtain ⟨_, _, primary, fallbacks, priced, tier, inChain, resource, nano, _, -, -, fits, renders,
    price⟩ := selectDowngrade_some selected
  have mem : nano ∈ claim.fallbackPrices :=
    (mem_fallbackPrices hook fallbacks).mpr ⟨tier, inChain, resource, by simp [renders, price]⟩
  exact ⟨resource, nano, mem, price, fits, primary, priced⟩

theorem no_downgrade_iff {nano} (hook : claim.downgrader = some dg)
    (priced : claim.estimateNanoUSD est = some nano) (unfit : claim.fits cap nano = false) :
    claim.selectDowngrade dg est cap = none ↔
      ∀ other ∈ claim.fallbackPrices, claim.fits cap other = false := by
  constructor
  · intro unselected other mem
    rcases fallbacks : dg.modelFallbacks claim.config with - | ⟨_, chain⟩
    · simp [fallbackPrices, hook, fallbacks] at mem
    obtain ⟨tier, inChain, resource, price⟩ := (mem_fallbackPrices hook fallbacks).mp mem
    obtain ⟨_, renders, -⟩ := Option.bind_eq_some_iff.mp price
    have unchosen : chooseDowngrade (chain.map (claim.candidate dg cap)) false = none := by
      rw [Option.eq_none_iff_forall_ne_some]
      rintro ⟨_, _⟩ chosen
      obtain ⟨found, usable, -⟩ := chooseDowngrade_some chosen
      obtain ⟨_, -, rfl⟩ := mem_map.mp found
      obtain ⟨_, _, chosenPrice, -⟩ := usable_iff.mp usable
      obtain ⟨_, chosenRenders, -⟩ := Option.bind_eq_some_iff.mp chosenPrice
      simp [selectDowngrade, fallbacks, priced, unfit, chosen, candidate_tier,
        chosenRenders] at unselected
    have unusable := chooseDowngrade_none unchosen _ (mem_map_of_mem inChain)
    by_contra fits
    have usable :=
      usable_iff.mpr ⟨resource, other, price, by simpa using fits, by simp [candidate, price]⟩
    exact absurd usable (by simp [unusable])
  · intro unfits
    rw [Option.eq_none_iff_forall_ne_some]
    rintro ⟨_, _⟩ selected
    obtain ⟨_, other, mem, -, fits, -⟩ := selectDowngrade_price hook selected
    exact absurd fits (by simp [unfits other mem])

theorem within_iff {nano : Int64} (sums : claim.Summed nano) :
    claim.Within nano ↔ (claim.capNow.filter fun cap => cap.prior + nano > cap.cap) = none ∧
      (claim.origin.budgetNanoUSD.filter fun budget =>
        nano > 0 && claim.origin.spentNanoUSD + nano > budget) = none := by
  have positive : claim.origin.budgetNanoUSD.isSome = true → ((0 : Int64) < nano ↔ ¬ nano = 0) := by
    intro limited
    have least := (sums.run limited).1
    rw [Int64.lt_iff_toInt_lt, ← Int64.toInt_inj]
    simp only [Int64.toInt_zero]
    omega
  unfold Within capNow
  rw [and_comm]
  cases step : claim.stepCap <;> cases run : claim.origin.budgetNanoUSD <;>
    simp [sums.over_run, sums.over_step, positive, or_iff_not_imp_left, run, step, -Int64.not_lt]

theorem decideResult_within (priced : claim.estimateNanoUSD est = some nano)
    (sums : claim.Summed nano) :
    (claim.Within nano → claim.decideResult est claim.capNow = .unhandled none none) ∧
      (¬ claim.Within nano → (claim.decideResult est claim.capNow).refuses = true) := by
  unfold decideResult budgetDecide
  rw [within_iff sums, priced]
  rcases step : claim.capNow.filter fun cap => cap.prior + nano > cap.cap with - | cap
  · rcases run : claim.origin.budgetNanoUSD.filter fun budget =>
      nano > 0 && claim.origin.spentNanoUSD + nano > budget with - | budget
    · simp [step, run]
    · cases claim.origin.failsOverBudget <;> simp [step, run, BudgetResult.refuses]
  · simp [step, BudgetResult.refuses]

theorem within_of_fits (sums : claim.Summed nano)
    (fits : claim.fits claim.capNow nano = true) : claim.Within nano := by
  obtain ⟨runs, steps⟩ := (fits_iff sums).mp fits
  exact ⟨fun budget given => .inr (runs budget given), steps⟩

section Compares

variable (sums : ∀ nano, (∃ primary, claim.estimateNanoUSD est = some primary ∧
  (nano = primary ∨ nano ∈ claim.fallbackPrices)) → claim.Summed nano)
include sums

theorem checkEstimate_spends (estimated : claim.Estimated est stepBudget) {config}
    (goes : (claim.checkEstimate est claim.capNow).executes claim.config = some config) :
    ∃ resource nano, claim.priceOf config = some (resource, nano) ∧ claim.Within nano := by
  unfold checkEstimate at goes
  split at goes
  · rename_i newConfig event selected
    obtain ⟨_, hook, selected⟩ := Option.bind_eq_some_iff.mp selected
    obtain ⟨resource, nano, mem, price, fits, primary, priced⟩ := selectDowngrade_price hook selected
    have same : newConfig = config := by
      cases recorded : claim.recordError with
      | none => simpa [recorded, BudgetResult.executes] using goes
      | some error => simp [recorded, BudgetResult.executes] at goes
    exact ⟨resource, nano, same ▸ price, within_of_fits (sums nano ⟨primary, priced, .inr mem⟩) fits⟩
  · cases priced : claim.estimateNanoUSD est with
    | none => simp [decideResult, budgetDecide, priced, BudgetResult.executes] at goes
    | some nano =>
      obtain ⟨proceeds, refuses⟩ := decideResult_within priced (sums nano ⟨nano, priced, .inl rfl⟩)
      by_cases within : claim.Within nano
      · rw [proceeds within] at goes
        cases goes
        exact ⟨est.resource, nano, by simp [priceOf_config estimated, priced], within⟩
      · have refused := refuses within
        revert goes refused
        cases claim.decideResult est claim.capNow <;> simp [BudgetResult.executes, BudgetResult.refuses]

theorem checkEstimate_refuses (priced : claim.estimateNanoUSD est = some nano) :
    (claim.checkEstimate est claim.capNow).refuses = true ↔ ¬ claim.Within nano ∧
      ∀ other ∈ claim.fallbackPrices, claim.fits claim.capNow other = false := by
  have primary := sums nano ⟨nano, priced, .inl rfl⟩
  obtain ⟨proceeds, refuses⟩ := decideResult_within priced primary
  have unfit (beyond : ¬ claim.Within nano) : claim.fits claim.capNow nano = false := by
    by_contra fits
    exact beyond (within_of_fits primary (by simpa using fits))
  have unselected (beyond : ¬ claim.Within nano) :
      (claim.downgrader.bind fun dg => claim.selectDowngrade dg est claim.capNow) = none ↔
        ∀ other ∈ claim.fallbackPrices, claim.fits claim.capNow other = false := by
    cases hook : claim.downgrader with
    | none => simp [fallbackPrices, hook]
    | some dg => exact no_downgrade_iff hook priced (unfit beyond)
  unfold checkEstimate
  constructor
  · intro refused
    split at refused
    · cases recorded : claim.recordError <;> simp [recorded, BudgetResult.refuses] at refused
    · rename_i none
      have beyond : ¬ claim.Within nano := fun within => by
        simp [proceeds within, BudgetResult.refuses] at refused
      exact ⟨beyond, (unselected beyond).mp none⟩
  · rintro ⟨beyond, unfits⟩
    rw [(unselected beyond).mpr unfits]
    exact refuses beyond

end Compares

variable (claim est stepBudget) in
/-- What the check promises: a claim that goes on is priced within the limits, and one whose tokens
fit is refused only if neither its model nor any fallback is. -/
structure Kept : Prop where
  spends : ∀ config, claim.budgetCheck.executes claim.config = some config →
    ∃ resource nano, claim.priceOf config = some (resource, nano) ∧ claim.Within nano
  refuses : ∀ nano, claim.estimateNanoUSD est = some nano → TokensFit est stepBudget →
    claim.budgetCheck.refuses = true →
    ¬ claim.Within nano ∧ ∀ other ∈ claim.fallbackPrices, ¬ claim.Within other

variable (claim est stepBudget) in
/-- A claim whose tokens fit is within the limits if the ledger of its capped step is unreadable, and
otherwise, beyond the limits in a run that has overspent, has no free fallback within them. -/
def Covered : Prop :=
  TokensFit est stepBudget →
    if claim.stepCap.isSome ∧ claim.ledgerError.isSome then
      ∃ nano, claim.estimateNanoUSD est = some nano ∧ claim.Within nano
    else ∀ nano, claim.estimateNanoUSD est = some nano → ¬ claim.Within nano →
      (∃ budget ∈ claim.origin.budgetNanoUSD, budget.toInt < claim.origin.spentNanoUSD.toInt) →
      (0 : Int64) ∈ claim.fallbackPrices → ¬ claim.Within 0

theorem fits_of_within (sums : claim.Summed nano) (within : claim.Within nano)
    (unfit : claim.fits claim.capNow nano = false) : nano = 0 ∧
      ∃ budget ∈ claim.origin.budgetNanoUSD, budget.toInt < claim.origin.spentNanoUSD.toInt := by
  have beyond := mt (fits_iff sums).mpr (by simp [unfit])
  simp only [not_and_or, not_forall, Int.not_le] at beyond
  obtain ⟨budget, given, exceed⟩ | ⟨cap, given, exceed⟩ := beyond
  · have zero := (within.1 budget given).resolve_right (by omega)
    subst zero
    exact ⟨rfl, budget, given, by simpa using exceed⟩
  · exact absurd (within.2 cap given) (by omega)

theorem kept_iff_covered (estimated : claim.Estimated est stepBudget)
    (range : claim.InRange est stepBudget) :
    claim.Kept est stepBudget ↔ claim.Covered est stepBudget := by
  by_cases fit : TokensFit est stepBudget
  case neg =>
    obtain ⟨_, exceed⟩ := checkCaps_over range fit
    rw [← budgetCheck_eq estimated] at exceed
    exact ⟨fun _ fits => absurd fits fit, fun _ =>
      ⟨by simp [exceed, BudgetResult.executes], fun _ _ fits => absurd fits fit⟩⟩
  have checks := (budgetCheck_eq estimated).trans (checkCaps_within estimated.decoded range fit)
  unfold Covered
  rw [forall_prop_of_true fit]
  split_ifs with unread
  · obtain ⟨⟨cap, capped⟩, error, fails⟩ :=
      unread.imp Option.isSome_iff_exists.mp Option.isSome_iff_exists.mp
    simp only [capped, fails] at checks
    have price := priceOf_config estimated
    constructor
    · intro kept
      obtain ⟨_, nano, priced, within⟩ :=
        kept.spends claim.config (by simp [checks, BudgetResult.executes])
      obtain ⟨_, isNano, same⟩ := Option.map_eq_some_iff.mp (price ▸ priced)
      cases same
      exact ⟨nano, isNano, within⟩
    · rintro ⟨nano, priced, within⟩
      refine ⟨fun config goes => ?_, by simp [checks, BudgetResult.refuses]⟩
      rw [checks] at goes
      cases goes
      exact ⟨est.resource, nano, by simp [price, priced], within⟩
  · have sums nano compared := range.prices nano ⟨fit, unread, compared⟩
    replace checks : claim.budgetCheck = claim.checkEstimate est claim.capNow := by
      rw [checks]
      split
      · rename_i error cap fails capped
        exact absurd (by simp [fails, capped]) unread
      · rfl
    constructor
    · intro kept nano priced beyond overspent free
      obtain ⟨budget, given, _⟩ := overspent
      refine (kept.refuses nano priced fit ?_).2 0 free
      rw [checks, checkEstimate_refuses sums priced]
      refine ⟨beyond, fun other member => ?_⟩
      by_contra fits
      have summed := sums other ⟨nano, priced, .inr member⟩
      have bound := ((fits_iff summed).mp (by simpa using fits)).1 budget given
      have least := (summed.run (Option.isSome_of_mem given)).1
      omega
    · intro covered
      refine ⟨fun config goes => checkEstimate_spends sums estimated (checks ▸ goes), ?_⟩
      intro nano priced _ refused
      obtain ⟨beyond, unfits⟩ := (checkEstimate_refuses sums priced).mp (checks ▸ refused)
      refine ⟨beyond, fun other member within => ?_⟩
      obtain ⟨rfl, overspent⟩ :=
        fits_of_within (sums other ⟨nano, priced, .inr member⟩) within (unfits other member)
      exact covered nano priced beyond overspent member within

variable (claim est) in
/-- The price of the configured model, which has no priced fallback, takes the spend of a run with a
budget out of the machine integers. -/
structure Overflows : Prop where
  alone : claim.fallbackPrices = []
  limited : ∃ budget ∈ claim.origin.budgetNanoUSD, 0 ≤ budget.toInt
  leaves : ∃ nano, claim.estimateNanoUSD est = some nano ∧
    9223372036854775808 ≤ claim.origin.spentNanoUSD.toInt + nano.toInt

theorem Overflows.not_kept (overflows : claim.Overflows est) (estimated : claim.Estimated est none) :
    ¬ claim.Kept est none := by
  obtain ⟨alone, ⟨budget, given, least⟩, nano, priced, leaves⟩ := overflows
  have spent := claim.origin.spentNanoUSD.toInt_lt
  have most := nano.toInt_lt
  -- The sum comes out negative, so it is within every budget.
  have negative : claim.origin.spentNanoUSD + nano ≤ budget := by
    rw [Int64.le_iff_toInt_le, Int64.toInt_add, Int.bmod_def]
    omega
  have unselected : (claim.downgrader.bind fun dg => claim.selectDowngrade dg est none) = none := by
    rw [Option.eq_none_iff_forall_ne_some]
    rintro ⟨_, _⟩ selected
    obtain ⟨_, hook, selected⟩ := Option.bind_eq_some_iff.mp selected
    obtain ⟨_, _, mem, -⟩ := selectDowngrade_price hook selected
    simp [alone] at mem
  have goes : claim.budgetCheck = .unhandled none none := by
    rw [budgetCheck_eq estimated]
    simp [checkCaps, checkEstimate, unselected, decideResult, budgetDecide, priced,
      Option.mem_def.mp given, Option.filter, Int64.not_lt.mpr negative]
  intro kept
  obtain ⟨_, _, same, within⟩ := kept.spends claim.config (by simp [goes, BudgetResult.executes])
  rw [priceOf_config estimated, priced] at same
  cases same
  obtain rfl | bound := within.1 budget given
  · simp only [Int64.toInt_zero] at leaves
    omega
  · have := budget.toInt_lt
    omega

end BudgetClaim

section Chain

variable (test : DowngradeCandidate → Bool) (cands : List DowngradeCandidate)
  (target : DowngradeCandidate)

def FirstWith : Prop :=
  test target = true ∧ ∃ front back, cands = front ++ target :: back ∧
    ∀ earlier ∈ front, test earlier = false

def LastWith : Prop :=
  test target = true ∧ ∃ front back, cands = front ++ target :: back ∧
    ∀ later ∈ back, test later = false

variable {test cands target}

theorem find_first_iff : cands.find? test = some target ↔ FirstWith test cands target := by
  simp [FirstWith, find?_eq_some_iff_append]

theorem find_last_iff : cands.reverse.find? test = some target ↔ LastWith test cands target := by
  rw [find_first_iff, FirstWith, LastWith, and_congr_right_iff]
  intro _
  constructor
  · rintro ⟨front, back, split, tests⟩
    exact ⟨back.reverse, front.reverse, by simpa using congrArg reverse split, by simpa using tests⟩
  · rintro ⟨front, back, rfl, tests⟩
    exact ⟨back.reverse, front.reverse, by simp, by simpa using tests⟩

end Chain

/-- The tiers of the chain that can be chosen cost less than the configured model: the deepest whose
threshold is met, if it is usable, and the first usable one, if the deepest is not usable or if no
threshold is met and the configured model does not fit. -/
structure Cheapens (cands : List DowngradeCandidate) (primaryFits : Bool) (nano : Int64) : Prop where
  deepest : ∀ target, LastWith DowngradeCandidate.thresholdMet cands target → target.usable = true →
    target.nano < nano
  first : ∀ target, FirstWith DowngradeCandidate.usable cands target →
    ((∃ deepest, LastWith DowngradeCandidate.thresholdMet cands deepest ∧ deepest.usable = false) ∨
      primaryFits = false ∧ ∀ candidate ∈ cands, candidate.thresholdMet = false) → target.nano < nano

theorem chooseDowngrade_cheapens :
    (∀ target trigger, chooseDowngrade cands primaryFits = some (target, trigger) → target.nano < nano) ↔
      Cheapens cands primaryFits nano := by
  have unmet : cands.reverse.find? DowngradeCandidate.thresholdMet = none ↔
      ∀ candidate ∈ cands, candidate.thresholdMet = false := by simp
  unfold chooseDowngrade
  constructor
  · intro cheaper
    refine ⟨fun target last usable => ?_, fun target first left => ?_⟩
    · rw [find_last_iff.mpr last] at cheaper
      exact cheaper target .threshold (by simp [usable])
    · rw [find_first_iff.mpr first] at cheaper
      obtain ⟨deepest, last, unusable⟩ | ⟨unfit, none⟩ := left
      · rw [find_last_iff.mpr last] at cheaper
        exact cheaper target .threshold (by simp [unusable])
      · rw [unmet.mpr none] at cheaper
        exact cheaper target .projection (by simp [unfit])
  · rintro ⟨deepest, first⟩ target trigger chosen
    cases last : cands.reverse.find? DowngradeCandidate.thresholdMet with
    | none =>
      simp only [last, Option.ite_none_left_eq_some, Option.map_eq_some_iff, Prod.mk.injEq] at chosen
      obtain ⟨unfit, _, found, rfl, -⟩ := chosen
      exact first _ (find_first_iff.mp found) (.inr ⟨by simpa using unfit, unmet.mp last⟩)
    | some tier =>
      have isLast := find_last_iff.mp last
      simp only [last] at chosen
      split at chosen
      · rename_i usable
        cases chosen
        exact deepest _ isLast usable
      · rename_i unusable
        obtain ⟨_, found, same⟩ := Option.map_eq_some_iff.mp chosen
        cases same
        exact first _ (find_first_iff.mp found) (.inl ⟨_, isLast, by simpa using unusable⟩)

namespace BudgetClaim

variable {χ : Type} {claim : BudgetClaim χ} {est : CostEstimate}

theorem fallback_cheaper_iff {dg : ModelDowngrader χ} {current : String} {chain : List ModelFallback}
    {nano : Int64} (fallbacks : dg.modelFallbacks claim.config = some (current, chain))
    (priced : claim.estimateNanoUSD est = some nano) (cap : Option StepCap) :
    (∀ config event, claim.selectDowngrade dg est cap = some (config, event) →
      ∃ resource other, claim.priceOf config = some (resource, other) ∧ other < nano) ↔
      Cheapens (chain.map (claim.candidate dg cap)) (claim.fits cap nano) nano := by
  rw [← chooseDowngrade_cheapens]
  constructor
  · intro cheaper target trigger chosen
    obtain ⟨member, usable, -⟩ := chooseDowngrade_some chosen
    obtain ⟨tier, _, rfl⟩ := mem_map.mp member
    obtain ⟨resource, other, price, -, isNano⟩ := usable_iff.mp usable
    obtain ⟨raw, renders, rawPrice⟩ := Option.bind_eq_some_iff.mp price
    have selected : claim.selectDowngrade dg est cap = some (raw,
        claim.downgradedEvent current est nano (claim.candidate dg cap tier) trigger) := by
      simp [selectDowngrade, fallbacks, priced, chosen, candidate_tier, renders]
    obtain ⟨_, _, same, _⟩ := cheaper raw _ selected
    cases rawPrice.symm.trans same
    rwa [isNano]
  · intro cheaper config event selected
    obtain ⟨_, _, _, sameChain, sameNano, _, -, resource, other, trigger, chosen, isNano, -, -, price⟩ :=
      selectDowngrade_some selected
    cases fallbacks.symm.trans sameChain
    cases priced.symm.trans sameNano
    exact ⟨resource, other, price, isNano ▸ cheaper _ trigger chosen⟩

end BudgetClaim

def oneDollar : PlainFloat := ((Float64.ofRatio false 1 1).map PlainFloat.ofFloat).getD .zero

def mockCatalog : Catalog :=
  { models := fun name => if name = "mock:dear" then [⟨0, ⟨oneDollar, oneDollar⟩⟩] else []
    tools := fun _ => []
    fallback := some ⟨.zero, .zero⟩ }

def mockEstimate (model : String) : CostEstimate :=
  { resource := "mock:" ++ model, inputTokens := 1000000 }

def mockClaim (config : String) (chain : List ModelFallback) (origin : ClaimOrigin)
    (stepBudget : Option StepBudget) : BudgetClaim String :=
  { pricing := some mockCatalog
    policy := .estimate
    now := 1
    config
    costEstimate := some fun model => some (mockEstimate model)
    downgrader := some
      { modelFallbacks := fun model => some (model, chain)
        withModel := fun _ model => some model }
    origin
    stepBudget := .ok stepBudget
    recordedNanoUSD := 0 }

def unreadClaim : BudgetClaim String :=
  { mockClaim "dear" [] ⟨none, 0, false⟩ (some { maxUSD := some .zero }) with
    ledgerError := some "timeout" }

def overspentClaim : BudgetClaim String := mockClaim "dear" [{ model := "free" }] ⟨some 1, 2, false⟩ none

def wrappedClaim : BudgetClaim String := mockClaim "dear" [] ⟨some 1, Int64.maxValue, false⟩ none

def modestClaim : BudgetClaim String :=
  mockClaim "dear" [{ model := "free" }] ⟨some 2000000000, 1, false⟩ none

theorem modestClaim_inRange : modestClaim.InRange (mockEstimate "dear") none where
  tokens := by simp
  prices := by
    have isDear : modestClaim.estimateNanoUSD (mockEstimate "dear") = some 1000000000 := by
      decide +kernel
    have fallback : modestClaim.fallbackPrices = [0] := by decide +kernel
    rintro nano ⟨-, -, primary, priced, rfl | mem⟩
    · cases isDear.symm.trans priced
      exact ⟨by decide, by decide⟩
    · cases mem_singleton.mp (fallback ▸ mem)
      exact ⟨by decide, by decide⟩

def halfway : PlainFloat := ((Float64.ofRatio false 1 2).map PlainFloat.ofFloat).getD .zero

def dearerChain : List ModelFallback := [{ model := "dear", atBudgetFraction := some halfway }]

def halfSpentClaim : BudgetClaim String :=
  mockClaim "free" dearerChain ⟨some 4000000000, 2000000000, false⟩ none

theorem free_model_left : halfSpentClaim.budgetCheck.executes "free" = some "dear" ∧
    halfSpentClaim.priceOf "free" = some ("mock:free", 0) ∧
    halfSpentClaim.priceOf "dear" = some ("mock:dear", 1000000000) := by
  decide +kernel

def dearHalfSpentClaim : BudgetClaim String :=
  mockClaim "dear" [{ model := "free", atBudgetFraction := some halfway }]
    ⟨some 4000000000, 2000000000, false⟩ none

theorem free_fallback_cheaper : ∃ dg current chain nano,
    dg.modelFallbacks dearHalfSpentClaim.config = some (current, chain) ∧
    dearHalfSpentClaim.estimateNanoUSD (mockEstimate "dear") = some nano ∧
    ∀ config event,
      dearHalfSpentClaim.selectDowngrade dg (mockEstimate "dear") none = some (config, event) →
      ∃ resource other, dearHalfSpentClaim.priceOf config = some (resource, other) ∧ other < nano := by
  have priced : dearHalfSpentClaim.estimateNanoUSD (mockEstimate "dear") = some 1000000000 := by
    decide +kernel
  refine ⟨⟨fun model => some (model, [{ model := "free", atBudgetFraction := some halfway }]),
    fun _ model => some model⟩, _, _, _, rfl, priced,
    (BudgetClaim.fallback_cheaper_iff rfl priced none).mpr ⟨?_, ?_⟩⟩
  all_goals
    rintro target ⟨-, front, _, split, -⟩ -
    have member := split ▸ mem_append_right front mem_cons_self
    cases mem_singleton.mp member
    decide +kernel

end Agentloom.Engine
