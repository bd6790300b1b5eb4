import Mathlib.Data.Nat.Log
import Mathlib.Tactic.Ring
import Agentloom.Library.JsonData

/-! Binary64 numbers as JSON programs hold them: a literal is rounded to the nearest number, ties to
even, and a number is written with the fewest digits that read back as the same number. -/

namespace Agentloom

open JsonText

/-- The smallest positive number is two to the power of minus this depth. -/
@[irreducible] def floatDepth : Nat := 1074

/-- A finite number: the mantissa counts units of two to the power of the exponent, less the
depth. -/
structure Float64 where
  negative : Bool
  mantissa : Nat
  exponent : Nat
  mantissa_lt : mantissa < 2 ^ 53
  exponent_le : exponent ≤ 2045
  normal : exponent = 0 ∨ 2 ^ 52 ≤ mantissa
deriving DecidableEq, Repr

namespace Float64

def exponentOf (quotient : Nat) : Nat := quotient.log2 - 52

theorem div_exponentOf_lt (quotient : Nat) : quotient / 2 ^ exponentOf quotient < 2 ^ 53 := by
  rw [Nat.div_lt_iff_lt_mul (Nat.two_pow_pos _), ← Nat.pow_add]
  refine lt_of_lt_of_le Nat.lt_log2_self (Nat.pow_le_pow_right (by decide) ?_)
  unfold exponentOf
  omega

theorem le_div_exponentOf (large : exponentOf quotient ≠ 0) :
    2 ^ 52 ≤ quotient / 2 ^ exponentOf quotient := by
  have positive : quotient ≠ 0 := by
    rintro rfl
    exact large (by simp [exponentOf])
  rw [Nat.le_div_iff_mul_le (Nat.two_pow_pos _), ← Nat.pow_add]
  refine le_trans (Nat.pow_le_pow_right (by decide) ?_) (Nat.log2_self_le positive)
  unfold exponentOf at large ⊢
  omega

/-- A mantissa that was rounded up to the next power of two moves to the next exponent. -/
def pack (negative : Bool) (mantissa exponent : Nat) (bound : mantissa ≤ 2 ^ 53)
    (normal : exponent = 0 ∨ 2 ^ 52 ≤ mantissa) : Option Float64 :=
  if carried : mantissa = 2 ^ 53 then
    if small : exponent + 1 ≤ 2045 then
      some ⟨negative, 2 ^ 52, exponent + 1, by decide, small, .inr le_rfl⟩
    else none
  else if small : exponent ≤ 2045 then
    some ⟨negative, mantissa, exponent, by omega, small, normal⟩
  else none

def roundsUp (low rest unit : Nat) : Bool := unit < 2 * rest || (2 * rest == unit && low % 2 == 1)

theorem rounded_le (up : Bool) (bound : low < 2 ^ 53) : (if up then low + 1 else low) ≤ 2 ^ 53 := by
  split <;> omega

theorem le_rounded (up : Bool) (bound : 2 ^ 52 ≤ low) : 2 ^ 52 ≤ if up then low + 1 else low := by
  split <;> omega

/-- The number nearest to a ratio, none when it is too large. -/
def ofRatio (negative : Bool) (num den : Nat) : Option Float64 :=
  let scaled := num * 2 ^ floatDepth
  let exponent := exponentOf (scaled / den)
  let low := scaled / den / 2 ^ exponent
  let rest := scaled - low * (den * 2 ^ exponent)
  pack negative (if roundsUp low rest (den * 2 ^ exponent) then low + 1 else low) exponent
    (rounded_le _ (div_exponentOf_lt (scaled / den)))
    (or_iff_not_imp_left.mpr fun large => le_rounded _ (le_div_exponentOf large))

def exponentValue : Option Exponent → Int
  | none => 0
  | some exponent =>
    let size := digitsValue (exponent.first :: exponent.rest)
    if exponent.sign = some true then -size else size

def ofLit (lit : NumberLit) : Option Float64 :=
  let power := exponentValue lit.exponent - lit.fraction.length
  ofRatio lit.negative (digitsValue (lit.first :: (lit.whole ++ lit.fraction)) * 10 ^ power.toNat)
    (10 ^ (-power).toNat)

def units (x : Float64) : Nat := x.mantissa * 2 ^ x.exponent

def zeros (count : Nat) : List Digit := List.replicate count 0

/-- From which exponents on one is written, and whether it has two digits at least. -/
structure Layout where
  least : Int := -6
  most : Int := 21
  padded : Bool := false

def Layout.general : Layout := { least := -4, most := 6, padded := true }

def Layout.exponentDigits (layout : Layout) (size : Nat) : List Digit :=
  match decimalDigits size with
  | [digit] => if layout.padded then [0, digit] else [digit]
  | digits => digits

/-- The digits of a whole number with the decimal point moved: plain for moderate sizes, with an
exponent otherwise. -/
def spell (layout : Layout) (negative : Bool) (whole : Nat) (power : Int) : NumberLit :=
  match spelled : decimalDigits whole with
  | [] => { negative, first := 0, leading := no_leading_zero }
  | first :: rest =>
    let point : Int := rest.length + 1 + power
    if point - 1 < layout.least ∨ layout.most ≤ point - 1 then
      match layout.exponentDigits (point - 1).natAbs with
      | [] => { negative, first, fraction := rest, leading := no_leading first }
      | top :: others =>
        { negative
          first
          leading := no_leading first
          fraction := rest
          exponent := some { sign := some (point - 1 < 0), first := top, rest := others } }
    else if 0 < point then
      { negative
        first
        whole := (rest ++ zeros power.toNat).take (point.toNat - 1)
        leading := fun zero => absurd zero (decimalDigits_leading spelled)
        fraction := rest.drop (point.toNat - 1) }
    else
      { negative, first := 0, leading := no_leading_zero
        fraction := zeros (-point).toNat ++ first :: rest }

def decimalPoint (x : Float64) : Int :=
  (Nat.log 10 (x.units * 10 ^ 324 / 2 ^ floatDepth) : Int) - 323

def spellings (x : Float64) (layout : Layout) (digits : Nat) : List NumberLit :=
  let power := x.decimalPoint - digits
  let num := x.units * 10 ^ (-power).toNat
  let den := 2 ^ floatDepth * 10 ^ power.toNat
  let low := spell layout x.negative (num / den) power
  let high :=
    if num / den + 1 = 10 ^ digits then spell layout x.negative 1 x.decimalPoint
    else spell layout x.negative (num / den + 1) power
  if 2 * (num % den) ≤ den then [low, high] else [high, low]

def expansion (x : Float64) : NumberLit :=
  .ofNat x.negative (x.units * 5 ^ floatDepth)
    (some { sign := some true, first := 1, rest := [0, 7, 4] })

def shortest (x : Float64) (layout : Layout) : Option NumberLit :=
  ((List.range' 1 17).flatMap (x.spellings layout)).find? fun lit => ofLit lit == some x

def lit (x : Float64) (layout : Layout := {}) : NumberLit :=
  if x.mantissa = 0 then { negative := x.negative, first := 0, leading := no_leading_zero }
  else (x.shortest layout).getD x.expansion

theorem exponentOf_units (x : Float64) : exponentOf x.units = x.exponent := by
  rw [exponentOf, units]
  by_cases zero : x.mantissa = 0
  · have flat : x.exponent = 0 := by
      rcases x.normal with flat | large
      · exact flat
      · omega
    simp [zero, flat]
  · have log : (x.mantissa * 2 ^ x.exponent).log2 = x.mantissa.log2 + x.exponent := by
      rw [Nat.log2_eq_iff (Nat.mul_ne_zero zero (Nat.two_pow_pos _).ne'), Nat.add_right_comm,
        Nat.pow_add, Nat.pow_add]
      exact ⟨Nat.mul_le_mul_right _ (Nat.log2_self_le zero),
        Nat.mul_lt_mul_of_pos_right Nat.lt_log2_self (Nat.two_pow_pos _)⟩
    have upper : x.mantissa.log2 < 53 := (Nat.log2_lt zero).mpr x.mantissa_lt
    rcases x.normal with flat | large
    · omega
    · have lower : 52 ≤ x.mantissa.log2 := (Nat.le_log2 zero).mpr large
      omega

theorem ofRatio_exact (x : Float64) (positive : 0 < den)
    (exact : num * 2 ^ floatDepth = den * x.units) : ofRatio x.negative num den = some x := by
  have quotient : den * x.units / den = x.units := Nat.mul_div_cancel_left _ positive
  have low : x.units / 2 ^ x.exponent = x.mantissa :=
    Nat.mul_div_cancel _ (Nat.two_pow_pos _)
  have rest : den * x.units - x.mantissa * (den * 2 ^ x.exponent) = 0 := by
    rw [units, Nat.mul_left_comm, Nat.sub_self]
  have unit : 0 < den * 2 ^ x.exponent := Nat.mul_pos positive (Nat.two_pow_pos _)
  have kept : roundsUp x.mantissa 0 (den * 2 ^ x.exponent) = false := by
    simp [roundsUp, Nat.ne_of_lt unit]
  simp only [ofRatio, exact, quotient, exponentOf_units, low, rest, kept, Bool.false_eq_true,
    if_false]
  rw [pack, dif_neg (Nat.ne_of_lt x.mantissa_lt), dif_pos x.exponent_le]

theorem ofLit_expansion (x : Float64) : ofLit x.expansion = some x := by
  have power : exponentValue (some ⟨false, some true, 1, [0, 7, 4]⟩) - ([] : List Digit).length
      = -(floatDepth : Int) := by decide +kernel
  simp only [ofLit, expansion, NumberLit.ofNat_fraction, NumberLit.ofNat_exponent,
    NumberLit.ofNat_negative, List.append_nil, NumberLit.digitsValue_ofNat, power, Int.neg_neg,
    Int.toNat_natCast, Int.toNat_neg_natCast, Nat.pow_zero, Nat.mul_one]
  apply ofRatio_exact x (Nat.pow_pos (by decide))
  rw [Nat.mul_assoc, ← Nat.mul_pow, Nat.mul_comm]

theorem ofLit_zero (x : Float64) (zero : x.mantissa = 0) :
    ofLit { negative := x.negative, first := 0 } = some x := by
  have value : digitsValue [0] = 0 := rfl
  have power : exponentValue none - ([] : List Digit).length = 0 := rfl
  simp only [ofLit, List.append_nil, value, power, Nat.zero_mul]
  apply ofRatio_exact x (Nat.pow_pos (by decide))
  rw [units, zero, Nat.zero_mul, Nat.zero_mul, Nat.mul_zero]

theorem ofLit_shortest {x lit} (found : shortest x layout = some lit) : ofLit lit = some x := by
  have read : (ofLit lit == some x) = true := by
    exact List.find?_some (p := fun lit => ofLit lit == some x) found
  simpa using read

theorem ofLit_lit (x : Float64) {layout : Layout} : ofLit (x.lit layout) = some x := by
  rw [lit]
  split
  · rename_i zero
    exact ofLit_zero x zero
  · cases found : x.shortest layout with
    | none => rw [Option.getD_none, ofLit_expansion]
    | some lit => rw [Option.getD_some, ofLit_shortest found]

theorem lit_inj {x y : Float64} {layout : Layout} (same : x.lit layout = y.lit layout) : x = y :=
  Option.some.inj (by rw [← x.ofLit_lit, same, y.ofLit_lit])

end Float64

end Agentloom
