import Mathlib.Data.List.Dedup
import Mathlib.Data.List.Sort
import Mathlib.Data.String.Basic
import Agentloom.Library.Json

/-! What a program stores in a JSON text and reads back: strings, integers, and the members of an
object as a map from names. -/

namespace Agentloom.JsonText

open List

def hexChar (n : Fin 16) : Char := Char.ofNat (if n.val < 10 then 48 + n.val else 87 + n.val)

theorem hexValue_hexChar : ∀ n : Fin 16, hexValue (hexChar n) = some n := by decide

def hexDigit (n : Nat) : HexDigit :=
  ⟨hexChar (Fin.ofNat 16 n), by rw [hexValue_hexChar, Option.isSome_some]⟩

@[simp] theorem hexDigit_value (n : Nat) : (hexDigit n).value = n % 16 := by
  rw [HexDigit.value, hexDigit, hexValue_hexChar, Option.getD_some, Fin.val_ofNat]

def unicodePiece (code : Nat) : Piece :=
  .unicode (hexDigit (code / 4096)) (hexDigit (code / 256)) (hexDigit (code / 16)) (hexDigit code)

/-- The line separators are written as escapes although a string may hold them. -/
def isSeparator (c : Char) : Bool := c.toNat = 0x2028 || c.toNat = 0x2029

def quoteChar (c : Char) : Piece :=
  match SimpleEscape.ofValue c with
  | some escape => .simple escape
  | none =>
    if plain : isPlain c = true ∧ isSeparator c = false then .plain ⟨c, plain.1⟩
    else unicodePiece c.toNat

def quote (text : String) : StringLit := text.toList.map quoteChar

variable {c : Char}

theorem SimpleEscape.ofValue_eq_some (found : ofValue c = some escape) : escape.value = c := by
  simpa using find?_some found

theorem SimpleEscape.ofValue_eq_none (missing : ofValue c = none) : c ≠ '"' ∧ c ≠ '\\' := by
  refine ⟨?_, ?_⟩ <;> rintro rfl <;> exact absurd missing (by decide)

theorem code_of_escaped (missing : SimpleEscape.ofValue c = none)
    (escaped : ¬(isPlain c = true ∧ isSeparator c = false)) :
    c.toNat < 0x20 ∨ c.toNat = 0x2028 ∨ c.toNat = 0x2029 := by
  obtain ⟨notQuote, notBackslash⟩ := SimpleEscape.ofValue_eq_none missing
  by_contra other
  push Not at other
  obtain ⟨high, notLine, notParagraph⟩ := other
  exact escaped ⟨by simp [isPlain, notQuote, notBackslash, high],
    by simp [isSeparator, notLine, notParagraph]⟩

theorem unescape_unicodePiece (low : code < 0xD800) (rest : StringLit) :
    unescape (unicodePiece code :: rest) = Char.ofNat code :: unescape rest := by
  have unit : codeUnit (hexDigit (code / 4096)) (hexDigit (code / 256)) (hexDigit (code / 16))
      (hexDigit code) = code := by
    simp only [codeUnit, hexDigit_value]
    omega
  have single : unitChar code = Char.ofNat code := by
    simp [unitChar, isSurrogate, Nat.not_le.mpr low]
  match rest with
  | [] => simp [unescape, unicodePiece, unit, single]
  | .plain c :: rest => simp [unescape, unicodePiece, unit, single]
  | .simple escape :: rest => simp [unescape, unicodePiece, unit, single]
  | .unicode e f g h :: rest =>
    have alone : isSurrogatePair code (codeUnit e f g h) = false := by
      simp [isSurrogatePair, Nat.not_le.mpr low]
    simp [unescape, unicodePiece, unit, single, alone]

theorem unescape_quoteChar (c : Char) (rest : StringLit) :
    unescape (quoteChar c :: rest) = c :: unescape rest := by
  rw [quoteChar]
  cases found : SimpleEscape.ofValue c with
  | some escape => simp [unescape, SimpleEscape.ofValue_eq_some found]
  | none =>
    by_cases plain : isPlain c = true ∧ isSeparator c = false
    · simp [plain, unescape]
    · have code := code_of_escaped found plain
      simp only [dif_neg plain]
      rw [unescape_unicodePiece (by omega), Char.ofNat_toNat]

theorem unescape_quote (text : String) : unescape (quote text) = text.toList := by
  rw [quote]
  induction text.toList with
  | nil => rfl
  | cons c rest ih => rw [map_cons, unescape_quoteChar, ih]

@[simp] theorem text_quote (text : String) : StringLit.text (quote text) = text := by
  rw [StringLit.text, unescape_quote, String.ofList_toList]

def decimalDigits (n : Nat) : List Digit := (Nat.digits 10 n).reverse.map (Fin.ofNat 10)

def digitsValue (digits : List Digit) : Nat :=
  digits.foldl (fun total digit => 10 * total + digit.val) 0

theorem digitsValue_eq_ofDigits (digits : List Digit) :
    digitsValue digits = Nat.ofDigits 10 (digits.map Fin.val).reverse := by
  rw [digitsValue, Nat.ofDigits_eq_foldr, foldr_reverse, foldl_map]
  congr 1
  funext total digit
  simp [Nat.add_comm]

theorem digitsValue_decimalDigits (n : Nat) : digitsValue (decimalDigits n) = n := by
  have each : ∀ digit ∈ (Nat.digits 10 n).reverse, (Fin.ofNat 10 digit).val = digit := by
    intro digit mem
    exact Nat.mod_eq_of_lt (Nat.digits_lt_base (by decide) (mem_reverse.mp mem))
  rw [digitsValue_eq_ofDigits, decimalDigits, map_map,
    map_congr_left (g := id) (by simpa using each), map_id, reverse_reverse,
    Nat.ofDigits_digits]

theorem decimalDigits_leading (spelled : decimalDigits n = first :: whole) : first ≠ 0 := by
  have positive : n ≠ 0 := by
    rintro rfl
    simp [decimalDigits] at spelled
  have last := Nat.getLast_digit_ne_zero 10 positive
  have small := Nat.digits_lt_base (by decide : 1 < 10)
    (getLast_mem (Nat.digits_ne_nil_iff_ne_zero.mpr positive))
  obtain ⟨digit, _, split, read, _⟩ := map_eq_cons_iff.mp spelled
  have top : (Nat.digits 10 n).getLast (Nat.digits_ne_nil_iff_ne_zero.mpr positive) = digit := by
    rw [getLast_eq_head_reverse]
    simp [split]
  rw [top] at last small
  intro zero
  rw [← read] at zero
  exact last (by simpa [Nat.mod_eq_of_lt small] using congrArg Fin.val zero)

def NumberLit.ofNat (negative : Bool) (n : Nat) (exponent : Option Exponent) : NumberLit :=
  match spelled : decimalDigits n with
  | [] => { negative, first := 0, exponent }
  | first :: whole =>
    { negative
      first
      whole
      leading := fun zero => absurd zero (decimalDigits_leading spelled)
      exponent }

theorem NumberLit.digitsValue_ofNat (negative : Bool) (n : Nat) (exponent : Option Exponent) :
    digitsValue ((NumberLit.ofNat negative n exponent).first ::
      (NumberLit.ofNat negative n exponent).whole) = n := by
  have value := digitsValue_decimalDigits n
  rw [NumberLit.ofNat]
  split
  · rename_i spelled
    rw [spelled] at value
    exact value
  · rename_i spelled
    rw [spelled] at value
    exact value

@[simp] theorem NumberLit.ofNat_negative (negative : Bool) (n : Nat)
    (exponent : Option Exponent) : (NumberLit.ofNat negative n exponent).negative = negative := by
  rw [NumberLit.ofNat]
  split <;> rfl

@[simp] theorem NumberLit.ofNat_fraction (negative : Bool) (n : Nat)
    (exponent : Option Exponent) : (NumberLit.ofNat negative n exponent).fraction = [] := by
  rw [NumberLit.ofNat]
  split <;> rfl

@[simp] theorem NumberLit.ofNat_exponent (negative : Bool) (n : Nat)
    (exponent : Option Exponent) : (NumberLit.ofNat negative n exponent).exponent = exponent := by
  rw [NumberLit.ofNat]
  split <;> rfl

def NumberLit.ofInt (n : Int) : NumberLit := .ofNat (n < 0) n.natAbs none

def NumberLit.toInt? (lit : NumberLit) : Option Int :=
  if lit.fraction.isEmpty && lit.exponent.isNone then
    let size := digitsValue (lit.first :: lit.whole)
    some (if lit.negative then -size else size)
  else none

theorem NumberLit.toInt?_ofInt (n : Int) : (NumberLit.ofInt n).toInt? = some n := by
  simp only [NumberLit.toInt?, NumberLit.ofInt, NumberLit.digitsValue_ofNat,
    NumberLit.ofNat_negative, NumberLit.ofNat_fraction, NumberLit.ofNat_exponent,
    isEmpty_nil, Option.isNone_none, Bool.and_self, if_true, decide_eq_true_eq]
  congr 1
  split <;> omega

def NumberLit.ofInt64 (n : Int64) : NumberLit := .ofInt n.toInt

def NumberLit.toInt64? (lit : NumberLit) : Option Int64 :=
  lit.toInt?.bind fun n => if -2 ^ 63 ≤ n ∧ n < 2 ^ 63 then some (Int64.ofInt n) else none

theorem NumberLit.toInt64?_ofInt64 (n : Int64) : (NumberLit.ofInt64 n).toInt64? = some n := by
  rw [NumberLit.toInt64?, NumberLit.ofInt64, NumberLit.toInt?_ofInt, Option.bind_some,
    if_pos ⟨n.le_toInt, n.toInt_lt⟩, Int64.ofInt_toInt]

abbrev Members := List (StringLit × JsonValue)

variable {members : Members} {key : String} {value : JsonValue} {name : StringLit}

namespace Members

def get (members : Members) (key : String) : Option JsonValue :=
  ((members.filter fun member => StringLit.text member.1 = key).getLast?).map Prod.snd

def keys (members : Members) : List String := members.map fun member => StringLit.text member.1

def sortedKeys (members : Members) : List String :=
  (keys members).dedup.insertionSort (· ≤ ·)

@[simp] theorem get_nil (key : String) : get [] key = none := rfl

theorem mem_keys_of_get (found : get members key = some value) : key ∈ keys members := by
  obtain ⟨mem, last, _⟩ := Option.map_eq_some_iff.mp found
  obtain ⟨present, named⟩ := mem_filter.mp (mem_of_getLast? last)
  exact mem_map.mpr ⟨mem, present, by simpa using named⟩

theorem get_eq_none (absent : key ∉ keys members) : get members key = none := by
  cases found : get members key with
  | none => rfl
  | some value => exact absurd (mem_keys_of_get found) absent

theorem mem_of_get (found : get members key = some value) :
    ∃ name, (name, value) ∈ members ∧ StringLit.text name = key := by
  obtain ⟨mem, last, rfl⟩ := Option.map_eq_some_iff.mp found
  obtain ⟨present, named⟩ := mem_filter.mp (mem_of_getLast? last)
  exact ⟨mem.1, present, by simpa using named⟩

theorem get_append_of_notMem (absent : key ∉ keys second) :
    get (first ++ second) key = get first key := by
  have none : (second.filter fun mem => StringLit.text mem.1 = key) = [] := by
    rw [filter_eq_nil_iff]
    intro mem present named
    exact absent (mem_map.mpr ⟨mem, present, by simpa using named⟩)
  rw [get, filter_append, none, append_nil, get]

theorem get_cons_of_ne (other : StringLit.text name ≠ key) :
    get ((name, value) :: members) key = get members key := by
  rw [get, filter_cons_of_neg (by simpa using other), get]

theorem get_cons_of_eq (same : StringLit.text name = key) (absent : key ∉ keys members) :
    get ((name, value) :: members) key = some value := by
  have none : (members.filter fun mem => StringLit.text mem.1 = key) = [] := by
    rw [filter_eq_nil_iff]
    intro mem present named
    exact absent (mem_map.mpr ⟨mem, present, by simpa using named⟩)
  rw [get, filter_cons_of_pos (by simpa using same), none]
  rfl

theorem get_of_mem (distinct : (keys members).Nodup) (mem : (name, value) ∈ members) :
    get members (StringLit.text name) = some value := by
  induction members with
  | nil => cases mem
  | cons first members ih =>
    obtain ⟨fresh, rest⟩ := nodup_cons.mp distinct
    rcases mem_cons.mp mem with rfl | later
    · exact get_cons_of_eq rfl fresh
    · have here : StringLit.text name ∈ keys members := mem_map.mpr ⟨_, later, rfl⟩
      have other : StringLit.text first.1 ≠ StringLit.text name := by
        intro same
        rw [← same] at here
        exact fresh here
      rw [get_cons_of_ne other, ih rest later]

theorem mem_sortedKeys : key ∈ sortedKeys members ↔ key ∈ keys members := by
  rw [sortedKeys, mem_insertionSort, mem_dedup]

theorem sortedKeys_pairwise (members : Members) : (sortedKeys members).Pairwise (· < ·) := by
  have sorted := pairwise_insertionSort (· ≤ ·) (keys members).dedup
  have distinct : (sortedKeys members).Nodup :=
    (perm_insertionSort _ _).nodup_iff.mpr (nodup_dedup _)
  exact (sorted.and distinct).imp fun bound => lt_of_le_of_ne bound.1 bound.2

theorem sortedKeys_of_pairwise (ordered : (keys members).Pairwise (· < ·)) :
    sortedKeys members = keys members := by
  have distinct : (keys members).Nodup := ordered.imp ne_of_lt
  rw [sortedKeys, dedup_eq_self.mpr distinct]
  exact (ordered.imp le_of_lt).insertionSort_eq

end Members

end Agentloom.JsonText
