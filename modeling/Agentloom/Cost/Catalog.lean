import Agentloom.Library.JsonType
import Agentloom.Store.Rows

/-! Prices. A catalog maps resource names to rates with the dates from which they hold; money is in
whole nano-dollars, computed in machine integers. -/

namespace Agentloom.Cost

open JsonText Store

structure Rate where
  inputPerMTok : PlainFloat
  outputPerMTok : PlainFloat
deriving DecidableEq, Repr

def rate : JsonType Rate :=
  .via (.struct
    (.cons "input_per_mtok" false .plainFloat
    (.cons "output_per_mtok" false .plainFloat
    .nil)))
    (fun (inputPerMTok, outputPerMTok, _) => ⟨inputPerMTok, outputPerMTok⟩)
    (fun x => (x.inputPerMTok, x.outputPerMTok, ()))

structure UnknownModelWarning where
  model : String
  fallback : Rate
deriving DecidableEq, Repr

def unknownModelWarning : JsonType UnknownModelWarning :=
  .via (.struct
    (.cons "model" false .string
    (.cons "fallback" false rate
    .nil)))
    (fun (model, fallback, _) => ⟨model, fallback⟩)
    (fun x => (x.model, x.fallback, ()))

def nanoPerUSD : Nat := 1000000000

def tokensPerMTok : Int64 := 1000000

def isPositive (x : PlainFloat) : Bool := !x.val.negative && x.val.mantissa != 0

/-- The whole number nearest to a float, halves away from zero. A number that is too large for a
machine integer is converted as the processor does it. -/
def roundToInt64 (x : Float64) : Int64 :=
  let whole := (2 * x.units + 2 ^ floatDepth) / 2 ^ (floatDepth + 1)
  if whole < 2 ^ 63 then Int64.ofNat whole else Int64.minValue

def usdToNano (usd : PlainFloat) : Int64 :=
  if !isPositive usd then 0
  else match Float64.ofRatio false (usd.val.units * nanoPerUSD) (2 ^ floatDepth) with
    | some product => roundToInt64 product
    | none => Int64.minValue

def component (tokens : Int64) (usdPerMTok : PlainFloat) : Int64 :=
  if tokens ≤ 0 || !isPositive usdPerMTok then 0
  else (tokens * usdToNano usdPerMTok + tokensPerMTok / 2) / tokensPerMTok

def cost (inputTokens outputTokens : Int64) (rate : Rate) : Int64 :=
  component inputTokens rate.inputPerMTok + component outputTokens rate.outputPerMTok

inductive Source where
  | exact
  | wildcard
  | fallback
deriving DecidableEq, Repr

def Source.text : Source → String
  | .exact => "exact"
  | .wildcard => "wildcard"
  | .fallback => "fallback"

inductive UnknownModelPolicy where
  | estimate
  | fail
deriving DecidableEq, Repr

structure Dated (α : Type) where
  effectiveFrom : Time
  entry : α

/-- The entries of a name are kept newest first. -/
structure Catalog where
  models : String → List (Dated Rate)
  tools : String → List (Dated PlainFloat)
  fallback : Option Rate

def selectEntry {α : Type} (entries : List (Dated α)) (now : Time) : Option α :=
  (entries.find? fun dated => dated.effectiveFrom ≤ now).map Dated.entry

/-- The entry for all models of a provider, which is the part of the name before the first colon. -/
def wildcardOf (name : String) : Option String :=
  if name.toList.contains ':' then
    some (String.ofList (name.toList.takeWhile (· ≠ ':')) ++ ":*")
  else none

structure Priced where
  rate : Rate
  source : Source
  fallback : Bool := false
deriving DecidableEq, Repr

namespace Catalog

variable (catalog : Catalog)

def lookup (name : String) (now : Time) : Option (Rate × Source) :=
  match selectEntry (catalog.models name) now with
  | some rate => some (rate, .exact)
  | none => (wildcardOf name).bind fun wildcard =>
    (selectEntry (catalog.models wildcard) now).map fun rate => (rate, .wildcard)

def priceModel (name : String) (now : Time) (policy : UnknownModelPolicy) : Option Priced :=
  match catalog.lookup name now, policy with
  | some (rate, source), _ => some { rate, source }
  | none, .fail => none
  | none, .estimate => catalog.fallback.map fun rate => { rate, source := .fallback, fallback := true }

def toolPrice (name : String) (now : Time) : Option Int64 :=
  (selectEntry (catalog.tools name) now).map usdToNano

theorem priceModel_estimate (backed : catalog.fallback.isSome = true) :
    (catalog.priceModel name now .estimate).isSome = true := by
  unfold priceModel
  cases catalog.lookup name now with
  | some found => rfl
  | none => simpa using backed

end Catalog

end Agentloom.Cost
