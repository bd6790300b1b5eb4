import Agentloom.Library.Json

/-! Where a value stands in a text. What the parser reads off the front of a text is a piece of it,
and that piece is read the same way in front of any other rest. -/

namespace Agentloom.JsonText

open List

variable {c : Char}

theorem digitChar_of_digitOf (read : digitOf c = some digit) : digitChar digit = c := by
  rw [digitOf] at read
  split at read
  · rename_i bound
    cases read
    rw [digitChar, Nat.add_sub_cancel' bound.1, Char.ofNat_toNat]
  · cases read

theorem takeDigits_sound (cs : List Char) :
    cs = (takeDigits cs).1.map digitChar ++ (takeDigits cs).2 := by
  induction cs with
  | nil => rfl
  | cons c cs ih =>
    rw [takeDigits]
    cases read : digitOf c with
    | some digit =>
      simp only [map_cons, cons_append, digitChar_of_digitOf read]
      rw [← ih]
    | none => rfl

variable {cs rest after : List Char}

theorem scanFraction_sound (scanned : scanFraction cs = some (fraction, rest)) :
    cs = fractionChars fraction ++ rest := by
  rw [scanFraction.eq_def] at scanned
  split at scanned
  · rename_i after
    have taken := takeDigits_sound after
    split at scanned
    · cases scanned
    · rename_i digits left filled same
      rw [same] at taken
      cases scanned
      cases fraction with
      | nil => exact absurd rfl filled
      | cons digit digits =>
        rw [taken]
        rfl
  · cases scanned
    rfl

theorem scanSign_sound (cs : List Char) : cs = signChars (scanSign cs).1 ++ (scanSign cs).2 := by
  rw [scanSign.eq_def]
  split <;> rfl

theorem scanExponentDigits_sound (scanned : scanExponentDigits upper cs = some (exponent, rest)) :
    (if upper then 'E' else 'e') :: cs = exponentChars exponent ++ rest := by
  have signed := scanSign_sound cs
  have taken := takeDigits_sound (scanSign cs).2
  simp only [scanExponentDigits] at scanned
  generalize scanSign cs = parts at signed taken scanned
  split at scanned
  · cases scanned
  · rename_i first digits left same
    rw [same] at taken
    cases scanned
    rw [signed, taken]
    simp [exponentChars, Exponent.chars]

theorem scanExponent_sound (scanned : scanExponent cs = some (exponent, rest)) :
    cs = exponentChars exponent ++ rest := by
  rw [scanExponent.eq_def] at scanned
  split at scanned
  · exact scanExponentDigits_sound scanned
  · exact scanExponentDigits_sound scanned
  · cases scanned
    rfl

theorem scanWhole_sound {part : { part : Digit × List Digit // part.1 = 0 → part.2 = [] }}
    (scanned : scanWhole cs = some (part, rest)) :
    cs = digitChar part.val.1 :: (part.val.2.map digitChar ++ rest) := by
  have taken := takeDigits_sound cs
  rw [scanWhole] at scanned
  split at scanned
  · cases scanned
  · rename_i first whole left same
    rw [same] at taken
    split at scanned
    · cases scanned
      exact taken
    · cases scanned

theorem scanned_bind {α β : Type} {first : Option (α × List Char)} {next : α × List Char → Option β}
    {found : β} (read : first >>= next = some found) :
    ∃ x rest, first = some (x, rest) ∧ next (x, rest) = some found := by
  obtain ⟨⟨x, rest⟩, scanned, read⟩ := Option.bind_eq_some_iff.mp read
  exact ⟨x, rest, scanned, read⟩

theorem scanUnsigned_sound (scanned : scanUnsigned negative cs = some (lit, rest)) :
    (if negative then ['-'] else []) ++ cs = lit.chars ++ rest := by
  obtain ⟨_, _, whole, scanned⟩ := scanned_bind scanned
  obtain ⟨_, _, fractional, scanned⟩ := scanned_bind scanned
  obtain ⟨_, _, powered, scanned⟩ := scanned_bind scanned
  cases scanned
  rw [scanWhole_sound whole, scanFraction_sound fractional, scanExponent_sound powered]
  simp [NumberLit.chars]

theorem scanNumber_sound (scanned : scanNumber cs = some (lit, rest)) : cs = lit.chars ++ rest := by
  rw [scanNumber.eq_def] at scanned
  split at scanned
  · exact scanUnsigned_sound scanned
  · exact scanUnsigned_sound scanned

theorem SimpleEscape.letter_of_ofLetter (found : ofLetter c = some escape) : escape.letter = c := by
  simpa using find?_some found

theorem scanString_sound (cs : List Char) : ∀ {lit : StringLit} {rest : List Char},
    scanString cs = some (lit, rest) → cs = StringLit.body lit ++ '"' :: rest := by
  fun_induction scanString cs with
  | case1 => rintro lit rest ⟨⟩; rfl
  | case2 a b c d after hex ih =>
    intro lit rest scanned
    obtain ⟨⟨tail, left⟩, read, same⟩ := Option.map_eq_some_iff.mp scanned
    cases same
    rw [ih read]
    rfl
  | case3 => intro lit rest scanned; cases scanned
  | case4 c after _ escape found ih =>
    intro lit rest scanned
    obtain ⟨⟨tail, left⟩, read, same⟩ := Option.map_eq_some_iff.mp scanned
    cases same
    rw [ih read, ← SimpleEscape.letter_of_ofLetter found]
    rfl
  | case5 => intro lit rest scanned; cases scanned
  | case6 c after _ _ _ plain ih =>
    intro lit rest scanned
    obtain ⟨⟨_, _⟩, read, same⟩ := Option.map_eq_some_iff.mp scanned
    cases same
    rw [ih read]
    rfl
  | case7 => intro lit rest scanned; cases scanned
  | case8 => intro lit rest scanned; cases scanned

theorem skipWs_split (cs : List Char) :
    ∃ blank, cs = blank ++ skipWs cs ∧ ∀ rest, skipWs (blank ++ rest) = skipWs rest := by
  induction cs with
  | nil => exact ⟨[], rfl, fun _ => rfl⟩
  | cons c cs ih =>
    cases white : isWs c with
    | false => exact ⟨[], by simp [skipWs, white], fun _ => rfl⟩
    | true =>
      obtain ⟨blank, split, skips⟩ := ih
      have skipped : ∀ rest, skipWs (c :: rest) = skipWs rest := by simp [skipWs, white]
      refine ⟨c :: blank, ?_, fun rest => ?_⟩
      · rw [skipped, cons_append, ← split]
      · rw [cons_append, skipped, skips]

theorem skipWs_eq (found : skipWs cs = c :: after) :
    ∃ blank, cs = blank ++ c :: after ∧ isWs c = false ∧
      ∀ rest, skipWs (blank ++ c :: rest) = c :: rest := by
  obtain ⟨blank, split, skips⟩ := skipWs_split cs
  have visible : isWs c = false := by
    have head := head?_dropWhile_not isWs cs
    rw [← skipWs, found] at head
    simpa using head
  rw [found] at split
  exact ⟨blank, split, visible, fun rest => by rw [skips, skipWs_of_head visible]⟩

@[simp] theorem skipWs_skipWs (cs : List Char) : skipWs (skipWs cs) = skipWs cs := by
  cases found : skipWs cs with
  | nil => rfl
  | cons c after =>
    obtain ⟨_, _, visible, _⟩ := skipWs_eq found
    exact skipWs_of_head visible

def ReadsName (key : StringLit) (piece : List Char) : Prop :=
  ∀ rest, scanName (piece ++ rest) = some (key, rest)

def ReadsValue (value : JsonValue) (piece : List Char) : Prop :=
  ∀ budget rest, piece.length ≤ budget → EndsNumber rest →
    parseValue budget (piece ++ rest) = some (value, rest)

def ReadsItems (items : List JsonValue) (piece : List Char) : Prop :=
  ∀ budget rest, piece.length ≤ budget → parseItems budget (piece ++ rest) = some (items, rest)

def ReadsMembers (members : List (StringLit × JsonValue)) (piece : List Char) : Prop :=
  ∀ budget rest, piece.length ≤ budget → parseMembers budget (piece ++ rest) = some (members, rest)

theorem isWs_ends (white : isWs c = true) : digitOf c = none ∧ c ≠ '.' ∧ c ≠ 'e' ∧ c ≠ 'E' := by
  simp only [isWs, Bool.or_eq_true, beq_iff_eq] at white
  rcases white with ((rfl | rfl) | rfl) | rfl <;> decide

theorem endsNumber_blank (skips : ∀ rest, skipWs (blank ++ rest) = skipWs rest)
    (ends : EndsNumber after) : EndsNumber (blank ++ after) := by
  cases blank with
  | nil => exact ends
  | cons first blank =>
    refine .cons (isWs_ends ?_)
    by_contra visible
    have kept := skips []
    rw [append_nil, skipWs_of_head (by simpa using visible)] at kept
    cases kept

theorem scanName_piece (scanned : scanName cs = some (key, rest)) :
    ∃ piece, cs = piece ++ rest ∧ piece ≠ [] ∧ ReadsName key piece := by
  rw [scanName] at scanned
  split at scanned
  · rename_i after opened
    split at scanned
    · rename_i name left read
      split at scanned
      · rename_i closed
        cases scanned
        obtain ⟨blank, split, _, skips⟩ := skipWs_eq opened
        obtain ⟨gap, gapSplit, _, gapSkips⟩ := skipWs_eq closed
        refine ⟨blank ++ '"' :: (StringLit.body key ++ '"' :: (gap ++ [':'])), ?_, by simp, ?_⟩
        · rw [split, scanString_sound after read, gapSplit]
          simp
        · intro other
          simp only [append_assoc, cons_append, nil_append, scanName, skips,
            scanString_append, gapSkips]
      · cases scanned
    · cases scanned
  · cases scanned

/-- What each parser takes off the front of a text it reads the same before any other rest. -/
structure Pieces (budget : Nat) : Prop where
  value : ∀ cs value rest, parseValue budget cs = some (value, rest) →
    ∃ piece, cs = piece ++ rest ∧ piece ≠ [] ∧ ReadsValue value piece
  items : ∀ cs items rest, parseItems budget cs = some (items, rest) →
    ∃ piece, cs = piece ++ rest ∧ (∀ rest, EndsNumber (piece ++ rest)) ∧ ReadsItems items piece
  members : ∀ cs members rest, parseMembers budget cs = some (members, rest) →
    ∃ piece, cs = piece ++ rest ∧ (∀ rest, EndsNumber (piece ++ rest)) ∧
      ReadsMembers members piece

variable {budget : Nat}

theorem budget_pos {piece : List Char} (filled : piece ≠ []) (bound : piece.length ≤ budget) :
    ∃ less, budget = less + 1 :=
  ⟨budget - 1, by have := length_pos_iff.mpr filled; omega⟩

theorem after_blank {kind : List Char → Prop}
    (kept : ∀ blank piece, (∀ rest, skipWs (blank ++ rest) = skipWs rest) → kind piece →
      kind (blank ++ piece)) (visible : ∃ piece, skipWs cs = piece ++ rest ∧ kind piece) :
    ∃ piece, cs = piece ++ rest ∧ kind piece := by
  obtain ⟨blank, split, skips⟩ := skipWs_split cs
  obtain ⟨piece, shape, isKind⟩ := visible
  exact ⟨blank ++ piece, by rw [append_assoc, ← shape, ← split], kept blank piece skips isKind⟩

theorem reads_after_blank {α : Type} {parse : Nat → List Char → Option (α × List Char)} {found : α}
    {piece : List Char} (ignores : ∀ cs, parse budget (skipWs cs) = parse budget cs)
    (skips : ∀ rest, skipWs (blank ++ rest) = skipWs rest) (bound : (blank ++ piece).length ≤ budget)
    (reads : piece.length ≤ budget → parse budget (piece ++ rest) = some (found, rest)) :
    parse budget ((blank ++ piece) ++ rest) = some (found, rest) := by
  rw [append_assoc, ← ignores, skips, ignores]
  exact reads (by simp at bound; omega)

variable {value : JsonValue}

theorem spelled_piece (value : JsonValue) (shape : cs = value.chars ++ rest) :
    ∃ piece, cs = piece ++ rest ∧ piece ≠ [] ∧ ReadsValue value piece := by
  refine ⟨value.chars, shape, ?_, parseValue_chars value⟩
  obtain ⟨_, _, spelled, _⟩ := value.chars_head
  simp [spelled]

theorem value_piece (inner : Pieces budget)
    (read : parseValue (budget + 1) cs = some (value, rest)) :
    ∃ piece, cs = piece ++ rest ∧ piece ≠ [] ∧ ReadsValue value piece := by
  refine after_blank (fun blank piece skips ⟨filled, reads⟩ => ⟨by simp [filled], fun budget other bound
    ends => reads_after_blank (fun cs => by cases budget <;> simp [parseValue]) skips bound
      fun short => reads budget other short ends⟩) ?_
  rw [parseValue] at read
  split at read
  · cases read
    exact spelled_piece .null ‹_›
  · cases read
    exact spelled_piece (.bool true) ‹_›
  · cases read
    exact spelled_piece (.bool false) ‹_›
  · rename_i after opened
    obtain ⟨⟨lit, _⟩, scanned, same⟩ := Option.map_eq_some_iff.mp read
    cases same
    apply spelled_piece (.string lit)
    simp [opened, JsonValue.chars, scanString_sound after scanned]
  · rename_i after opened
    split at read
    · rename_i closed
      cases read
      obtain ⟨gap, gapSplit, _, gapSkips⟩ := skipWs_eq closed
      refine ⟨'[' :: (gap ++ [']']), by simp [opened, gapSplit], by simp, fun budget other bound _ => ?_⟩
      obtain ⟨less, rfl⟩ := budget_pos (by simp) bound
      simp (disch := decide) only [cons_append, append_assoc, nil_append, parseValue,
        skipWs_of_head, gapSkips]
    · rename_i unclosed
      obtain ⟨_, _, first, read⟩ := scanned_bind read
      obtain ⟨_, _, others, read⟩ := scanned_bind read
      cases read
      obtain ⟨piece, pieceSplit, filled, reads⟩ := inner.value _ _ _ first
      obtain ⟨tail, rfl, tailEnds, tailReads⟩ := inner.items _ _ _ others
      obtain ⟨c, piece, rfl⟩ := exists_cons_of_ne_nil filled
      obtain ⟨gap, gapSplit, _, gapSkips⟩ := skipWs_eq pieceSplit
      refine ⟨'[' :: (gap ++ (c :: piece ++ tail)), by simp [opened, gapSplit], by simp,
        fun budget other bound _ => ?_⟩
      obtain ⟨less, rfl⟩ := budget_pos (by simp) bound
      simp only [length_cons, length_append] at bound
      have again := reads less (tail ++ other) (by simp; omega) (tailEnds other)
      have rest := tailReads less other (by omega)
      rw [cons_append] at again
      simp (disch := decide) only [append_assoc, cons_append, parseValue, skipWs_of_head,
        gapSkips]
      split
      · rename_i same
        cases same
        exact absurd pieceSplit (unclosed _)
      · simp only [again, rest, bind, Option.bind]
  · rename_i after opened
    split at read
    · rename_i closed
      cases read
      obtain ⟨gap, gapSplit, _, gapSkips⟩ := skipWs_eq closed
      refine ⟨'\x7b' :: (gap ++ ['\x7d']), by simp [opened, gapSplit], by simp,
        fun budget other bound _ => ?_⟩
      obtain ⟨less, rfl⟩ := budget_pos (by simp) bound
      simp (disch := decide) only [cons_append, append_assoc, nil_append, parseValue,
        skipWs_of_head, gapSkips]
    · rename_i unclosed
      obtain ⟨_, _, named, read⟩ := scanned_bind read
      obtain ⟨_, _, first, read⟩ := scanned_bind read
      obtain ⟨_, _, others, read⟩ := scanned_bind read
      cases read
      obtain ⟨name, nameSplit, filled, nameReads⟩ := scanName_piece named
      obtain ⟨piece, rfl, _, reads⟩ := inner.value _ _ _ first
      obtain ⟨tail, rfl, tailEnds, tailReads⟩ := inner.members _ _ _ others
      obtain ⟨c, name, rfl⟩ := exists_cons_of_ne_nil filled
      obtain ⟨gap, gapSplit, _, gapSkips⟩ := skipWs_eq nameSplit
      refine ⟨'\x7b' :: (gap ++ (c :: name ++ (piece ++ tail))), by simp [opened, gapSplit], by simp,
        fun budget other bound _ => ?_⟩
      obtain ⟨less, rfl⟩ := budget_pos (by simp) bound
      simp only [length_cons, length_append] at bound
      have scanned := nameReads (piece ++ (tail ++ other))
      have again := reads less (tail ++ other) (by omega) (tailEnds other)
      have rest := tailReads less other (by omega)
      rw [cons_append] at scanned
      simp (disch := decide) only [append_assoc, cons_append, parseValue, skipWs_of_head,
        gapSkips]
      split
      · rename_i same
        cases same
        exact absurd nameSplit (unclosed _)
      · simp only [scanned, again, rest, bind, Option.bind]
  · obtain ⟨⟨lit, _⟩, scanned, same⟩ := Option.map_eq_some_iff.mp read
    cases same
    exact spelled_piece (.number lit) (scanNumber_sound scanned)

theorem items_piece (inner : Pieces budget) {items : List JsonValue}
    (read : parseItems (budget + 1) cs = some (items, rest)) :
    ∃ piece, cs = piece ++ rest ∧ (∀ rest, EndsNumber (piece ++ rest)) ∧ ReadsItems items piece := by
  refine after_blank (fun blank piece skips ⟨ends, reads⟩ => ⟨fun other => append_assoc blank _ _ ▸
    endsNumber_blank skips (ends other), fun budget other bound => reads_after_blank
      (fun cs => by cases budget <;> simp [parseItems]) skips bound (reads budget other)⟩) ?_
  rw [parseItems] at read
  split at read
  · cases read
    exact ⟨_, ‹_›, itemsChars_ends [], parseItems_chars []⟩
  · rename_i after opened
    obtain ⟨_, _, first, read⟩ := scanned_bind read
    obtain ⟨_, _, others, read⟩ := scanned_bind read
    cases read
    obtain ⟨piece, rfl, _, reads⟩ := inner.value _ _ _ first
    obtain ⟨tail, rfl, tailEnds, tailReads⟩ := inner.items _ _ _ others
    refine ⟨',' :: (piece ++ tail), by simp [opened], fun _ => .cons (by decide),
      fun budget other bound => ?_⟩
    obtain ⟨less, rfl⟩ := budget_pos (by simp) bound
    simp only [length_cons, length_append] at bound
    have again := reads less (tail ++ other) (by omega) (tailEnds other)
    have rest := tailReads less other (by omega)
    simp (disch := decide) only [append_assoc, cons_append, parseItems, skipWs_of_head, again,
      rest, bind, Option.bind]
  · cases read

theorem members_piece (inner : Pieces budget) {members : List (StringLit × JsonValue)}
    (read : parseMembers (budget + 1) cs = some (members, rest)) :
    ∃ piece, cs = piece ++ rest ∧ (∀ rest, EndsNumber (piece ++ rest)) ∧
      ReadsMembers members piece := by
  refine after_blank (fun blank piece skips ⟨ends, reads⟩ => ⟨fun other => append_assoc blank _ _ ▸
    endsNumber_blank skips (ends other), fun budget other bound => reads_after_blank
      (fun cs => by cases budget <;> simp [parseMembers]) skips bound (reads budget other)⟩) ?_
  rw [parseMembers] at read
  split at read
  · cases read
    exact ⟨_, ‹_›, membersChars_ends [], parseMembers_chars []⟩
  · rename_i after opened
    obtain ⟨_, _, named, read⟩ := scanned_bind read
    obtain ⟨_, _, first, read⟩ := scanned_bind read
    obtain ⟨_, _, others, read⟩ := scanned_bind read
    cases read
    obtain ⟨name, rfl, _, nameReads⟩ := scanName_piece named
    obtain ⟨piece, rfl, _, reads⟩ := inner.value _ _ _ first
    obtain ⟨tail, rfl, tailEnds, tailReads⟩ := inner.members _ _ _ others
    refine ⟨',' :: (name ++ (piece ++ tail)), by simp [opened], fun _ => .cons (by decide),
      fun budget other bound => ?_⟩
    obtain ⟨less, rfl⟩ := budget_pos (by simp) bound
    simp only [length_cons, length_append] at bound
    have scanned := nameReads (piece ++ (tail ++ other))
    have again := reads less (tail ++ other) (by omega) (tailEnds other)
    have rest := tailReads less other (by omega)
    simp (disch := decide) only [append_assoc, cons_append, parseMembers, skipWs_of_head,
      scanned, again, rest, bind, Option.bind]
  · cases read

theorem pieces (budget : Nat) : Pieces budget := by
  induction budget with
  | zero =>
    exact ⟨fun _ _ _ read => by simp [parseValue] at read,
      fun _ _ _ read => by simp [parseItems] at read,
      fun _ _ _ read => by simp [parseMembers] at read⟩
  | succ budget inner =>
    exact ⟨fun _ _ _ => value_piece inner, fun _ _ _ => items_piece inner,
      fun _ _ _ => members_piece inner⟩

structure RawValue where
  json : JsonValue
  chars : List Char
deriving DecidableEq, Repr

def parseRaw (budget : Nat) (cs : List Char) : Option (RawValue × List Char) :=
  (parseValue budget (skipWs cs)).map fun (json, rest) =>
    (⟨json, (skipWs cs).take ((skipWs cs).length - rest.length)⟩, rest)

def parseRawMembers : Nat → List Char → Option (List (StringLit × RawValue) × List Char)
  | 0, _ => none
  | budget + 1, cs =>
    match skipWs cs with
    | '\x7d' :: rest => some ([], rest)
    | ',' :: rest => do
        let (key, rest) ← scanName rest
        let (value, rest) ← parseRaw budget rest
        let (members, rest) ← parseRawMembers budget rest
        some ((key, value) :: members, rest)
    | _ => none

def parseRawFirst (budget : Nat) (cs : List Char) :
    Option (List (StringLit × RawValue) × List Char) :=
  match skipWs cs with
  | '\x7d' :: rest => some ([], rest)
  | rest => do
      let (key, rest) ← scanName rest
      let (value, rest) ← parseRaw budget rest
      let (members, rest) ← parseRawMembers budget rest
      some ((key, value) :: members, rest)

def parseRawObject (text : String) : Option (List (StringLit × RawValue)) :=
  match skipWs text.toList with
  | '\x7b' :: rest =>
    match parseRawFirst text.toList.length rest with
    | some (members, rest) => if (skipWs rest).isEmpty then some members else none
    | none => none
  | _ => none

structure Spells (value : JsonValue) (chars : List Char) : Prop where
  reads : ReadsValue value chars
  starts : ∃ c rest, chars = c :: rest ∧ isWs c = false

theorem JsonValue.spells (value : JsonValue) : Spells value value.chars := by
  obtain ⟨c, rest, shape, opens⟩ := value.chars_head
  exact ⟨fun budget rest bound ends => parseValue_chars value budget rest bound ends,
    c, rest, shape, opens.visible⟩

theorem Spells.parse (spells : Spells value chars) : parse (String.ofList chars) = some value := by
  have read := spells.reads (chars.length + 1) [] (by omega) .nil
  rw [append_nil] at read
  simp [JsonText.parse, read, skipWs]

theorem parseRaw_append (spells : Spells value chars) (budget : Nat)
    (bound : chars.length ≤ budget) (ends : EndsNumber rest) :
    parseRaw budget (chars ++ rest) = some (⟨value, chars⟩, rest) := by
  have read := spells.reads budget rest bound ends
  obtain ⟨c, tail, rfl, visible⟩ := spells.starts
  rw [cons_append] at read ⊢
  have count : (c :: (tail ++ rest)).length - rest.length = (c :: tail).length := by
    simp only [length_cons, length_append]
    omega
  simp only [parseRaw, skipWs_of_head visible, read, Option.map_some, count]
  rw [← cons_append, take_left]

theorem parseRaw_spells (read : parseRaw budget cs = some (raw, rest)) :
    Spells raw.json raw.chars := by
  obtain ⟨⟨_, _⟩, parsed, same⟩ := Option.map_eq_some_iff.mp read
  obtain ⟨piece, split, filled, _⟩ := (pieces budget).value _ _ _ parsed
  cases same
  have taken : (skipWs cs).take ((skipWs cs).length - rest.length) = piece := by
    rw [split]
    simp
  obtain ⟨c, tail, rfl⟩ := exists_cons_of_ne_nil filled
  obtain ⟨_, _, visible, _⟩ := skipWs_eq split
  exact ⟨by rwa [taken], c, tail, taken, visible⟩

theorem parseRawMembers_spells :
    ∀ {cs rest : List Char}
    {members : List (StringLit × RawValue)}, parseRawMembers budget cs = some (members, rest) →
      ∀ mem ∈ members, Spells mem.2.json mem.2.chars := by
  induction budget with
  | zero => intro cs rest members read; simp [parseRawMembers] at read
  | succ budget ih =>
    intro cs rest members read
    rw [parseRawMembers] at read
    split at read
    · cases read
      simp
    · obtain ⟨_, _, _, read⟩ := scanned_bind read
      obtain ⟨_, _, first, read⟩ := scanned_bind read
      obtain ⟨_, _, tail, read⟩ := scanned_bind read
      cases read
      intro mem present
      rcases mem_cons.mp present with rfl | present
      · exact parseRaw_spells first
      · exact ih tail mem present
    · cases read

variable {members : List (StringLit × RawValue)}

theorem parseRawObject_spells {text : String} (read : parseRawObject text = some members) :
    ∀ mem ∈ members, Spells mem.2.json mem.2.chars := by
  rw [parseRawObject] at read
  split at read
  · split at read
    · rename_i found
      split at read
      · cases read
        rw [parseRawFirst] at found
        split at found
        · cases found
          simp
        · obtain ⟨_, _, _, found⟩ := scanned_bind found
          obtain ⟨_, _, first, found⟩ := scanned_bind found
          obtain ⟨_, _, tail, found⟩ := scanned_bind found
          cases found
          intro mem present
          rcases mem_cons.mp present with rfl | present
          · exact parseRaw_spells first
          · exact parseRawMembers_spells tail mem present
      · cases read
    · cases read
  · cases read

def textMembersChars : List (StringLit × List Char) → List Char
  | [] => ['\x7d']
  | (key, text) :: members =>
    ',' :: '"' :: (StringLit.body key ++ '"' :: ':' :: (text ++ textMembersChars members))

def textObjectChars : List (StringLit × List Char) → List Char
  | [] => ['\x7b', '\x7d']
  | (key, text) :: members =>
    '\x7b' :: '"' :: (StringLit.body key ++ '"' :: ':' :: (text ++ textMembersChars members))

def RawValue.member (member : StringLit × RawValue) : StringLit × List Char :=
  (member.1, member.2.chars)

theorem textMembersChars_ends (members : List (StringLit × List Char)) (rest : List Char) :
    EndsNumber (textMembersChars members ++ rest) := by
  cases members <;> exact .cons (by decide)

theorem parseRawMembers_chars (spelled : ∀ mem ∈ members, Spells mem.2.json mem.2.chars) :
    ∀ (budget : Nat) (rest : List Char),
      (textMembersChars (members.map RawValue.member)).length ≤ budget →
      parseRawMembers budget (textMembersChars (members.map RawValue.member) ++ rest) =
        some (members, rest) := by
  induction members with
  | nil =>
    intro budget rest bound
    obtain ⟨less, rfl⟩ := budget_pos (by simp [textMembersChars]) bound
    rfl
  | cons mem members ih =>
    intro budget rest bound
    obtain ⟨less, rfl⟩ := budget_pos (by simp [textMembersChars, RawValue.member]) bound
    simp only [map_cons, RawValue.member, textMembersChars, length_cons,
      length_append] at bound
    have first := parseRaw_append (spelled mem (by simp)) less (by omega)
      (textMembersChars_ends (members.map RawValue.member) rest)
    have others := ih (fun other present => spelled other (by simp [present]))
      less rest (by omega)
    simp (disch := decide) only [map_cons, RawValue.member, textMembersChars, cons_append, append_assoc,
      parseRawMembers, skipWs_of_head, scanName_append] at first others ⊢
    simp only [first, others, bind, Option.bind]

theorem parseRawFirst_chars (spelled : ∀ other ∈ mem :: members, Spells other.2.json other.2.chars)
    (bound : (textObjectChars ((mem :: members).map RawValue.member)).length ≤ budget) :
    parseRawFirst budget ('"' :: (StringLit.body mem.1 ++ '"' :: ':' ::
      (mem.2.chars ++ textMembersChars (members.map RawValue.member)))) =
        some (mem :: members, []) := by
  simp only [map_cons, RawValue.member, textObjectChars, length_cons,
    length_append] at bound
  have first := parseRaw_append (spelled mem (by simp)) budget (by omega)
    (textMembersChars_ends (members.map RawValue.member) [])
  have others := parseRawMembers_chars
    (fun other present => spelled other (mem_cons_of_mem _ present))
    budget [] (by omega)
  rw [append_nil] at first others
  simp (disch := decide) only [parseRawFirst, skipWs_of_head]
  split
  · rename_i same
    exact absurd (cons.inj same).1 (by decide)
  · simp only [scanName_append, first, others, bind, Option.bind]

theorem parseRawObject_chars (spelled : ∀ mem ∈ members, Spells mem.2.json mem.2.chars) :
    parseRawObject (String.ofList (textObjectChars (members.map RawValue.member))) =
      some members := by
  cases members with
  | nil => decide
  | cons mem members =>
    have read := parseRawFirst_chars spelled le_rfl
    simp only [parseRawObject, String.toList_ofList]
    generalize (textObjectChars ((mem :: members).map RawValue.member)).length = budget
      at read
    simp (disch := decide) only [map_cons, RawValue.member, textObjectChars, skipWs_of_head] at read ⊢
    simp only [read]
    rfl

end Agentloom.JsonText
