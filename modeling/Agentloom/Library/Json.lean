import Mathlib.Data.Nat.Digits.Defs
import Mathlib.Data.Nat.Digits.Lemmas
import Mathlib.Tactic.Common
import Mathlib.Tactic.FinCases

/-! JSON texts. A value keeps the spelling of its strings and numbers and the order of its members,
and drops the white space between its tokens. -/

namespace Agentloom.JsonText

abbrev Digit := Fin 10

instance digitBase : NeZero 10 := ⟨by decide⟩

instance hexBase : NeZero 16 := ⟨by decide⟩

def digitChar (digit : Digit) : Char := Char.ofNat (48 + digit.val)

def digitOf (c : Char) : Option Digit :=
  if bound : 48 ≤ c.toNat ∧ c.toNat ≤ 57 then some ⟨c.toNat - 48, by omega⟩ else none

def takeDigits : List Char → List Digit × List Char
  | [] => ([], [])
  | c :: rest =>
    match digitOf c with
    | some digit => (digit :: (takeDigits rest).1, (takeDigits rest).2)
    | none => ([], c :: rest)

structure Exponent where
  upper : Bool := false
  sign : Option Bool := none
  first : Digit
  rest : List Digit := []
deriving DecidableEq, Repr

/-- A number as it is spelled. The whole part has no leading zero: a leading digit that is zero
stands alone. -/
structure NumberLit where
  negative : Bool := false
  first : Digit
  whole : List Digit := []
  leading : first = 0 → whole = [] := by intro; first | rfl | contradiction
  fraction : List Digit := []
  exponent : Option Exponent := none
deriving DecidableEq, Repr

theorem no_leading (first : Digit) : first = 0 → ([] : List Digit) = [] := fun _ => rfl

theorem no_leading_zero : (0 : Digit) = 0 → ([] : List Digit) = [] := no_leading 0

def signChars : Option Bool → List Char
  | none => []
  | some false => ['+']
  | some true => ['-']

def Exponent.chars (exponent : Exponent) : List Char :=
  (if exponent.upper then 'E' else 'e') ::
    (signChars exponent.sign ++ digitChar exponent.first :: exponent.rest.map digitChar)

def fractionChars : List Digit → List Char
  | [] => []
  | digits => '.' :: digits.map digitChar

def exponentChars : Option Exponent → List Char
  | none => []
  | some exponent => exponent.chars

namespace NumberLit

def chars (lit : NumberLit) : List Char :=
  (if lit.negative then ['-'] else []) ++ digitChar lit.first :: lit.whole.map digitChar ++
    fractionChars lit.fraction ++ exponentChars lit.exponent

def text (lit : NumberLit) : String := String.ofList lit.chars

end NumberLit

def scanFraction : List Char → Option (List Digit × List Char)
  | '.' :: rest =>
    match takeDigits rest with
    | ([], _) => none
    | (digits, rest) => some (digits, rest)
  | rest => some ([], rest)

def scanSign : List Char → Option Bool × List Char
  | '+' :: rest => (some false, rest)
  | '-' :: rest => (some true, rest)
  | rest => (none, rest)

def scanExponentDigits (upper : Bool) (cs : List Char) : Option (Option Exponent × List Char) :=
  match scanSign cs with
  | (sign, rest) =>
    match takeDigits rest with
    | ([], _) => none
    | (first :: digits, rest) => some (some ⟨upper, sign, first, digits⟩, rest)

def scanExponent : List Char → Option (Option Exponent × List Char)
  | 'e' :: rest => scanExponentDigits false rest
  | 'E' :: rest => scanExponentDigits true rest
  | rest => some (none, rest)

def scanWhole (cs : List Char) :
    Option ({ part : Digit × List Digit // part.1 = 0 → part.2 = [] } × List Char) :=
  match takeDigits cs with
  | ([], _) => none
  | (first :: whole, rest) =>
    if leading : first = 0 → whole = [] then some (⟨(first, whole), leading⟩, rest) else none

def scanUnsigned (negative : Bool) (cs : List Char) : Option (NumberLit × List Char) := do
  let (part, rest) ← scanWhole cs
  let (fraction, rest) ← scanFraction rest
  let (exponent, rest) ← scanExponent rest
  some (⟨negative, part.val.1, part.val.2, part.property, fraction, exponent⟩, rest)

def scanNumber : List Char → Option (NumberLit × List Char)
  | '-' :: rest => scanUnsigned true rest
  | rest => scanUnsigned false rest

inductive SimpleEscape where
  | quote
  | backslash
  | slash
  | backspace
  | formFeed
  | lineFeed
  | carriageReturn
  | tab
deriving DecidableEq, Repr

namespace SimpleEscape

def letter : SimpleEscape → Char
  | quote => '"'
  | backslash => '\\'
  | slash => '/'
  | backspace => 'b'
  | formFeed => 'f'
  | lineFeed => 'n'
  | carriageReturn => 'r'
  | tab => 't'

def value : SimpleEscape → Char
  | quote => '"'
  | backslash => '\\'
  | slash => '/'
  | backspace => '\x08'
  | formFeed => '\x0c'
  | lineFeed => '\n'
  | carriageReturn => '\r'
  | tab => '\t'

def all : List SimpleEscape :=
  [quote, backslash, slash, backspace, formFeed, lineFeed, carriageReturn, tab]

def ofLetter (c : Char) : Option SimpleEscape := all.find? fun escape => escape.letter == c

def ofValue (c : Char) : Option SimpleEscape :=
  (all.erase slash).find? fun escape => escape.value == c

end SimpleEscape

def hexValue (c : Char) : Option (Fin 16) :=
  if low : 48 ≤ c.toNat ∧ c.toNat ≤ 57 then some ⟨c.toNat - 48, by omega⟩
  else if lower : 97 ≤ c.toNat ∧ c.toNat ≤ 102 then some ⟨c.toNat - 87, by omega⟩
  else if upper : 65 ≤ c.toNat ∧ c.toNat ≤ 70 then some ⟨c.toNat - 55, by omega⟩
  else none

abbrev HexDigit := { c : Char // (hexValue c).isSome = true }

def HexDigit.value (digit : HexDigit) : Nat := ((hexValue digit.val).getD 0).val

def isPlain (c : Char) : Bool := c ≠ '"' && c ≠ '\\' && 32 ≤ c.toNat

inductive Piece where
  | plain (c : { c : Char // isPlain c = true })
  | simple (escape : SimpleEscape)
  | unicode (a b c d : HexDigit)
deriving DecidableEq, Repr

abbrev StringLit := List Piece

def Piece.chars : Piece → List Char
  | plain c => [c.val]
  | simple escape => ['\\', escape.letter]
  | unicode a b c d => ['\\', 'u', a.val, b.val, c.val, d.val]

def StringLit.body (lit : StringLit) : List Char := lit.flatMap Piece.chars

def codeUnit (a b c d : HexDigit) : Nat :=
  a.value * 4096 + b.value * 256 + c.value * 16 + d.value

def isSurrogate (unit : Nat) : Bool := 0xD800 ≤ unit && unit < 0xE000

def isSurrogatePair (high low : Nat) : Bool :=
  0xD800 ≤ high && high < 0xDC00 && 0xDC00 ≤ low && low < 0xE000

def surrogatePair (high low : Nat) : Char :=
  Char.ofNat ((high - 0xD800) * 1024 + (low - 0xDC00) + 0x10000)

/-- The character of one code unit; a lone surrogate reads as the replacement character. -/
def unitChar (unit : Nat) : Char :=
  if isSurrogate unit then Char.ofNat 0xFFFD else Char.ofNat unit

def unescape : StringLit → List Char
  | [] => []
  | .plain c :: rest => c.val :: unescape rest
  | .simple escape :: rest => escape.value :: unescape rest
  | .unicode a b c d :: .unicode e f g h :: rest =>
    if isSurrogatePair (codeUnit a b c d) (codeUnit e f g h) then
      surrogatePair (codeUnit a b c d) (codeUnit e f g h) :: unescape rest
    else unitChar (codeUnit a b c d) :: unescape (.unicode e f g h :: rest)
  | .unicode a b c d :: rest => unitChar (codeUnit a b c d) :: unescape rest

def StringLit.text (lit : StringLit) : String := String.ofList (unescape lit)

def scanString : List Char → Option (StringLit × List Char)
  | '"' :: rest => some ([], rest)
  | '\\' :: 'u' :: a :: b :: c :: d :: rest =>
    if hex : (hexValue a).isSome ∧ (hexValue b).isSome ∧ (hexValue c).isSome ∧
        (hexValue d).isSome then
      (scanString rest).map fun (lit, rest) =>
        (.unicode ⟨a, hex.1⟩ ⟨b, hex.2.1⟩ ⟨c, hex.2.2.1⟩ ⟨d, hex.2.2.2⟩ :: lit, rest)
    else none
  | '\\' :: c :: rest =>
    match SimpleEscape.ofLetter c with
    | some escape => (scanString rest).map fun (lit, rest) => (.simple escape :: lit, rest)
    | none => none
  | c :: rest =>
    if plain : isPlain c = true then
      (scanString rest).map fun (lit, rest) => (.plain ⟨c, plain⟩ :: lit, rest)
    else none
  | [] => none

inductive JsonValue where
  | null
  | bool (value : Bool)
  | number (lit : NumberLit)
  | string (lit : StringLit)
  | array (items : List JsonValue)
  | object (members : List (StringLit × JsonValue))
deriving Repr

mutual

def JsonValue.chars : JsonValue → List Char
  | .null => ['n', 'u', 'l', 'l']
  | .bool true => ['t', 'r', 'u', 'e']
  | .bool false => ['f', 'a', 'l', 's', 'e']
  | .number lit => lit.chars
  | .string lit => '"' :: (StringLit.body lit ++ ['"'])
  | .array [] => ['[', ']']
  | .array (item :: items) => '[' :: (item.chars ++ itemsChars items)
  | .object [] => ['\x7b', '\x7d']
  | .object ((key, value) :: members) =>
    '\x7b' :: '"' :: (StringLit.body key ++ '"' :: ':' :: (value.chars ++ membersChars members))

def itemsChars : List JsonValue → List Char
  | [] => [']']
  | item :: items => ',' :: (item.chars ++ itemsChars items)

def membersChars : List (StringLit × JsonValue) → List Char
  | [] => ['\x7d']
  | (key, value) :: members =>
    ',' :: '"' :: (StringLit.body key ++ '"' :: ':' :: (value.chars ++ membersChars members))

end

def JsonValue.text (value : JsonValue) : String := String.ofList value.chars

def isWs (c : Char) : Bool := c == ' ' || c == '\t' || c == '\n' || c == '\r'

def skipWs (cs : List Char) : List Char := cs.dropWhile isWs

def scanName (cs : List Char) : Option (StringLit × List Char) :=
  match skipWs cs with
  | '"' :: rest =>
    match scanString rest with
    | some (key, rest) =>
      match skipWs rest with
      | ':' :: rest => some (key, rest)
      | _ => none
    | none => none
  | _ => none

mutual

def parseValue : Nat → List Char → Option (JsonValue × List Char)
  | 0, _ => none
  | budget + 1, cs =>
    match skipWs cs with
    | 'n' :: 'u' :: 'l' :: 'l' :: rest => some (.null, rest)
    | 't' :: 'r' :: 'u' :: 'e' :: rest => some (.bool true, rest)
    | 'f' :: 'a' :: 'l' :: 's' :: 'e' :: rest => some (.bool false, rest)
    | '"' :: rest => (scanString rest).map fun (lit, rest) => (.string lit, rest)
    | '[' :: rest =>
      match skipWs rest with
      | ']' :: rest => some (.array [], rest)
      | rest => do
          let (item, rest) ← parseValue budget rest
          let (items, rest) ← parseItems budget rest
          some (.array (item :: items), rest)
    | '\x7b' :: rest =>
      match skipWs rest with
      | '\x7d' :: rest => some (.object [], rest)
      | rest => do
          let (key, rest) ← scanName rest
          let (value, rest) ← parseValue budget rest
          let (members, rest) ← parseMembers budget rest
          some (.object ((key, value) :: members), rest)
    | rest => (scanNumber rest).map fun (lit, rest) => (.number lit, rest)

def parseItems : Nat → List Char → Option (List JsonValue × List Char)
  | 0, _ => none
  | budget + 1, cs =>
    match skipWs cs with
    | ']' :: rest => some ([], rest)
    | ',' :: rest => do
        let (item, rest) ← parseValue budget rest
        let (items, rest) ← parseItems budget rest
        some (item :: items, rest)
    | _ => none

def parseMembers : Nat → List Char → Option (List (StringLit × JsonValue) × List Char)
  | 0, _ => none
  | budget + 1, cs =>
    match skipWs cs with
    | '\x7d' :: rest => some ([], rest)
    | ',' :: rest => do
        let (key, rest) ← scanName rest
        let (value, rest) ← parseValue budget rest
        let (members, rest) ← parseMembers budget rest
        some ((key, value) :: members, rest)
    | _ => none

end

def parse (text : String) : Option JsonValue :=
  match parseValue (text.toList.length + 1) text.toList with
  | some (value, rest) => if (skipWs rest).isEmpty then some value else none
  | none => none

open List

@[simp] theorem digitOf_digitChar (digit : Digit) : digitOf (digitChar digit) = some digit := by
  revert digit
  decide

def EndsNumber (rest : List Char) : Prop :=
  ∀ c after, rest = c :: after → digitOf c = none ∧ c ≠ '.' ∧ c ≠ 'e' ∧ c ≠ 'E'

def NoDigit (rest : List Char) : Prop := ∀ c after, rest = c :: after → digitOf c = none

variable {c : Char} {after : List Char}

theorem NoDigit.cons (other : digitOf c = none) : NoDigit (c :: after) := by
  intro d rest same
  cases same
  exact other

variable {rest : List Char}

theorem EndsNumber.noDigit (ends : EndsNumber rest) : NoDigit rest :=
  fun c after same => (ends c after same).1

theorem EndsNumber.cons (stop : digitOf c = none ∧ c ≠ '.' ∧ c ≠ 'e' ∧ c ≠ 'E') :
    EndsNumber (c :: after) := by
  intro d rest same
  cases same
  exact stop

theorem takeDigits_append (digits : List Digit) (stop : NoDigit rest) :
    takeDigits (digits.map digitChar ++ rest) = (digits, rest) := by
  induction digits with
  | nil =>
    cases rest with
    | nil => rfl
    | cons c after => simp [takeDigits, stop c after rfl]
  | cons digit digits ih => simp [takeDigits, ih]

theorem fractionChars_noDigit (fraction : List Digit) (exponent : Option Exponent)
    (ends : EndsNumber rest) :
    NoDigit (fractionChars fraction ++ (exponentChars exponent ++ rest)) := by
  cases fraction with
  | cons digit digits => exact .cons (by decide)
  | nil =>
    cases exponent with
    | none => exact ends.noDigit
    | some exponent =>
      cases upper : exponent.upper <;>
        simp only [fractionChars, exponentChars, Exponent.chars, upper, nil_append,
          cons_append] <;> exact .cons (by decide)

theorem scanFraction_append (fraction : List Digit) (stop : NoDigit rest)
    (undotted : ∀ after, rest ≠ '.' :: after) :
    scanFraction (fractionChars fraction ++ rest) = some (fraction, rest) := by
  cases fraction with
  | cons digit digits =>
    have taken := takeDigits_append (digit :: digits) stop
    simp only [fractionChars, cons_append, scanFraction]
    rw [map_cons, cons_append] at taken
    simp only [map_cons, cons_append, taken]
  | nil =>
    simp only [fractionChars, nil_append]
    unfold scanFraction
    split
    · exact absurd rfl (undotted _)
    · rfl

theorem scanSign_append (sign : Option Bool) (digit : Digit) (rest : List Char) :
    scanSign (signChars sign ++ digitChar digit :: rest) = (sign, digitChar digit :: rest) := by
  have plain : digitChar digit ≠ '+' ∧ digitChar digit ≠ '-' := by
    revert digit
    decide
  match sign with
  | none =>
    unfold scanSign
    split
    · rename_i same
      exact absurd (cons.inj same).1 plain.1
    · rename_i same
      exact absurd (cons.inj same).1 plain.2
    · rfl
  | some false => rfl
  | some true => rfl

theorem scanExponentDigits_append (exponent : Exponent) (stop : NoDigit rest) :
    scanExponentDigits exponent.upper (signChars exponent.sign ++
      (digitChar exponent.first :: (exponent.rest.map digitChar ++ rest))) =
        some (some exponent, rest) := by
  have taken := takeDigits_append (exponent.first :: exponent.rest) stop
  rw [map_cons, cons_append] at taken
  simp only [scanExponentDigits, scanSign_append, taken]

theorem scanExponent_append (exponent : Option Exponent) (ends : EndsNumber rest) :
    scanExponent (exponentChars exponent ++ rest) = some (exponent, rest) := by
  cases exponent with
  | none =>
    simp only [exponentChars, nil_append]
    unfold scanExponent
    split
    · exact absurd rfl (ends _ _ rfl).2.2.1
    · exact absurd rfl (ends _ _ rfl).2.2.2
    · rfl
  | some exponent =>
    have scanned := scanExponentDigits_append exponent ends.noDigit
    cases upper : exponent.upper <;> rw [upper] at scanned <;>
      simpa [exponentChars, Exponent.chars, upper, scanExponent] using scanned

theorem exponentChars_undotted (exponent : Option Exponent) (ends : EndsNumber rest) :
    ∀ after, exponentChars exponent ++ rest ≠ '.' :: after := by
  intro after same
  cases exponent with
  | none => exact (ends _ _ same).2.1 rfl
  | some exponent =>
    have head := (cons.inj same).1
    cases upper : exponent.upper <;> simp [upper] at head

theorem scanWhole_append (lit : NumberLit) (stop : NoDigit rest) :
    scanWhole (digitChar lit.first :: (lit.whole.map digitChar ++ rest)) =
      some (⟨(lit.first, lit.whole), lit.leading⟩, rest) := by
  have taken := takeDigits_append (lit.first :: lit.whole) stop
  rw [map_cons, cons_append] at taken
  simp only [scanWhole, taken]
  exact dif_pos lit.leading

theorem scanUnsigned_append (lit : NumberLit) (ends : EndsNumber rest) :
    scanUnsigned lit.negative (digitChar lit.first :: (lit.whole.map digitChar ++
      (fractionChars lit.fraction ++ (exponentChars lit.exponent ++ rest)))) =
        some (lit, rest) := by
  have tail : NoDigit (exponentChars lit.exponent ++ rest) := fractionChars_noDigit [] _ ends
  simp only [scanUnsigned, scanWhole_append lit (fractionChars_noDigit _ _ ends), bind, Option.bind,
    scanFraction_append lit.fraction tail (exponentChars_undotted _ ends),
    scanExponent_append lit.exponent ends]

theorem scanNumber_append (lit : NumberLit) (ends : EndsNumber rest) :
    scanNumber (lit.chars ++ rest) = some (lit, rest) := by
  have scanned := scanUnsigned_append lit ends
  have plain : digitChar lit.first ≠ '-' := by
    generalize lit.first = first
    revert first
    decide
  simp only [NumberLit.chars, append_assoc, cons_append]
  cases negative : lit.negative with
  | true =>
    rw [negative] at scanned
    simpa [scanNumber] using scanned
  | false =>
    rw [negative] at scanned
    unfold scanNumber
    split
    · rename_i same
      exact absurd (cons.inj same).1 plain
    · exact scanned

theorem scanString_piece (piece : Piece) (rest : List Char) : scanString (piece.chars ++ rest) =
      (scanString rest).map fun (lit, after) => (piece :: lit, after) := by
  cases piece with
  | plain c =>
    obtain ⟨c, plain⟩ := c
    have shape := plain
    simp only [isPlain, ne_eq, decide_not, Bool.and_eq_true, Bool.not_eq_true',
      decide_eq_false_iff_not] at shape
    rw [scanString.eq_def]
    split
    · rename_i same
      exact absurd (cons.inj same).1 shape.1.1
    · rename_i same
      exact absurd (cons.inj same).1 shape.1.2
    · rename_i same
      exact absurd (cons.inj same).1 shape.1.2
    · rename_i same
      cases same
      exact dif_pos plain
    · contradiction
  | simple escape =>
    cases escape <;>
      simp [Piece.chars, SimpleEscape.letter, scanString, SimpleEscape.ofLetter,
        SimpleEscape.all]
  | unicode a b c d =>
    simp [Piece.chars, scanString, a.property, b.property, c.property, d.property]

theorem scanString_append (lit : StringLit) (rest : List Char) :
    scanString (StringLit.body lit ++ '"' :: rest) = some (lit, rest) := by
  induction lit with
  | nil => rfl
  | cons piece lit ih =>
    have spelled : StringLit.body (piece :: lit) = piece.chars ++ StringLit.body lit := rfl
    rw [spelled, append_assoc, scanString_piece, ih]
    rfl

theorem skipWs_of_head (visible : isWs c = false) : skipWs (c :: rest) = c :: rest := by
  simp [skipWs, visible]

theorem scanName_append (key : StringLit) (rest : List Char) :
    scanName ('"' :: (StringLit.body key ++ '"' :: ':' :: rest)) = some (key, rest) := by
  simp (disch := decide) only [scanName, skipWs_of_head, scanString_append]

structure Opens (c : Char) : Prop where
  visible : isWs c = false
  bracket : c ≠ ']'
  brace : c ≠ '\x7d'

theorem NumberLit.chars_head (lit : NumberLit) :
    ∃ c rest, lit.chars = c :: rest ∧ (c = '-' ∨ ∃ digit, c = digitChar digit) := by
  cases negative : lit.negative with
  | true =>
    simp only [NumberLit.chars, negative, if_true, cons_append, nil_append]
    exact ⟨_, _, rfl, .inl rfl⟩
  | false =>
    simp only [NumberLit.chars, negative, Bool.false_eq_true, if_false, nil_append]
    exact ⟨_, _, rfl, .inr ⟨_, rfl⟩⟩

theorem opens_of_number (spelled : c = '-' ∨ ∃ digit, c = digitChar digit) : Opens c := by
  rcases spelled with rfl | ⟨digit, rfl⟩
  · exact ⟨by decide, by decide, by decide⟩
  · revert digit
    have each : ∀ digit : Digit, isWs (digitChar digit) = false ∧ digitChar digit ≠ ']' ∧
        digitChar digit ≠ '\x7d' := by decide
    exact fun digit => ⟨(each digit).1, (each digit).2.1, (each digit).2.2⟩

theorem JsonValue.chars_head (value : JsonValue) :
    ∃ c rest, value.chars = c :: rest ∧ Opens c := by
  match value with
  | .null => exact ⟨_, _, JsonValue.chars.eq_1, by decide, by decide, by decide⟩
  | .bool true => exact ⟨_, _, JsonValue.chars.eq_2, by decide, by decide, by decide⟩
  | .bool false => exact ⟨_, _, JsonValue.chars.eq_3, by decide, by decide, by decide⟩
  | .number lit =>
    obtain ⟨c, rest, spelled, first⟩ := lit.chars_head
    exact ⟨c, rest, by rw [JsonValue.chars, spelled], opens_of_number first⟩
  | .string _ | .array [] | .array (_ :: _) | .object [] | .object (_ :: _) =>
    exact ⟨_, _, by rw [JsonValue.chars], by decide, by decide, by decide⟩

theorem parseValue_number (lit : NumberLit) (budget : Nat) (ends : EndsNumber rest) :
    parseValue (budget + 1) (lit.chars ++ rest) = some (.number lit, rest) := by
  have scanned := scanNumber_append lit ends
  obtain ⟨c, after, spelled, first⟩ := lit.chars_head
  rw [spelled, cons_append] at scanned ⊢
  have scans : parseValue (budget + 1) (c :: (after ++ rest)) =
      (scanNumber (c :: (after ++ rest))).map fun (lit, rest) => (.number lit, rest) := by
    obtain rfl | ⟨digit, rfl⟩ := first
    · rfl
    · fin_cases digit <;> rfl
  rw [scans, scanned]
  rfl

theorem itemsChars_ends (items : List JsonValue) (rest : List Char) :
    EndsNumber (itemsChars items ++ rest) := by
  cases items <;> exact .cons (by decide)

theorem membersChars_ends (members : List (StringLit × JsonValue)) (rest : List Char) :
    EndsNumber (membersChars members ++ rest) := by
  cases members <;> exact .cons (by decide)

mutual

theorem parseValue_chars : ∀ (value : JsonValue) (budget : Nat) (rest : List Char),
    value.chars.length ≤ budget → EndsNumber rest →
      parseValue budget (value.chars ++ rest) = some (value, rest)
  | value, 0, _, short, _ => by
    obtain ⟨_, _, spelled, _⟩ := value.chars_head
    simp [spelled] at short
  | .null, budget + 1, rest, _, _ => rfl
  | .bool true, budget + 1, rest, _, _ => rfl
  | .bool false, budget + 1, rest, _, _ => rfl
  | .number lit, budget + 1, rest, _, ends => parseValue_number lit budget ends
  | .string lit, budget + 1, rest, _, _ => by
    simp (disch := decide) [JsonValue.chars, parseValue, skipWs_of_head, scanString_append]
  | .array [], budget + 1, rest, _, _ => rfl
  | .array (item :: items), budget + 1, rest, short, _ => by
    simp only [JsonValue.chars, length_cons, length_append] at short
    have first := parseValue_chars item budget (itemsChars items ++ rest) (by omega)
      (itemsChars_ends items rest)
    have others := parseItems_chars items budget rest (by omega)
    obtain ⟨c, _, spelled, opens⟩ := item.chars_head
    rw [spelled, cons_append] at first
    simp (disch := decide) only [JsonValue.chars, cons_append, append_assoc, parseValue,
      skipWs_of_head, spelled, skipWs_of_head opens.visible]
    split
    · rename_i same
      exact absurd (cons.inj same).1 opens.bracket
    · simp only [first, others, bind, Option.bind]
  | .object [], budget + 1, rest, _, _ => rfl
  | .object ((key, value) :: members), budget + 1, rest, short, _ => by
    simp only [JsonValue.chars, length_cons, length_append] at short
    have first := parseValue_chars value budget (membersChars members ++ rest) (by omega)
      (membersChars_ends members rest)
    have others := parseMembers_chars members budget rest (by omega)
    simp (disch := decide) only [JsonValue.chars, cons_append, append_assoc, parseValue,
      skipWs_of_head]
    split
    · rename_i same
      exact absurd (cons.inj same).1 (by decide)
    · simp only [scanName_append, first, others, bind, Option.bind]

theorem parseItems_chars : ∀ (items : List JsonValue) (budget : Nat) (rest : List Char),
    (itemsChars items).length ≤ budget →
      parseItems budget (itemsChars items ++ rest) = some (items, rest)
  | [], 0, _, short => by simp [itemsChars] at short
  | [], budget + 1, rest, _ => rfl
  | item :: items, 0, _, short => by simp [itemsChars] at short
  | item :: items, budget + 1, rest, short => by
    simp only [itemsChars, length_cons, length_append] at short
    have first := parseValue_chars item budget (itemsChars items ++ rest) (by omega)
      (itemsChars_ends items rest)
    have others := parseItems_chars items budget rest (by omega)
    simp (disch := decide) only [itemsChars, cons_append, append_assoc, parseItems,
      skipWs_of_head, first, others, bind, Option.bind]

theorem parseMembers_chars : ∀ (members : List (StringLit × JsonValue)) (budget : Nat)
    (rest : List Char), (membersChars members).length ≤ budget →
      parseMembers budget (membersChars members ++ rest) = some (members, rest)
  | [], 0, _, short => by simp [membersChars] at short
  | [], budget + 1, rest, _ => rfl
  | (key, value) :: members, 0, _, short => by simp [membersChars] at short
  | (key, value) :: members, budget + 1, rest, short => by
    simp only [membersChars, length_cons, length_append] at short
    have first := parseValue_chars value budget (membersChars members ++ rest) (by omega)
      (membersChars_ends members rest)
    have others := parseMembers_chars members budget rest (by omega)
    simp (disch := decide) only [membersChars, cons_append, append_assoc, parseMembers,
      skipWs_of_head, scanName_append, first, others, bind, Option.bind]

end

theorem EndsNumber.nil : EndsNumber [] := by
  intro c after same
  cases same

theorem parse_text (value : JsonValue) : parse value.text = some value := by
  have read := parseValue_chars value (value.chars.length + 1) [] (by omega) .nil
  rw [append_nil] at read
  simp [parse, JsonValue.text, read, skipWs]

theorem JsonValue.text_injective {a b : JsonValue} (same : a.text = b.text) : a = b :=
  Option.some.inj (by rw [← parse_text a, same, parse_text b])

instance : DecidableEq JsonValue := fun a b =>
  decidable_of_iff (a.text = b.text) ⟨JsonValue.text_injective, congrArg JsonValue.text⟩

end Agentloom.JsonText
