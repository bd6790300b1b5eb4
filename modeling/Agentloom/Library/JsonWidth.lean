import Agentloom.Library.JsonSpan
import Agentloom.Library.JsonType

/-! How many bytes a written value takes, counted on the value itself. -/

namespace Agentloom.JsonText

open List

def byteCount (cs : List Char) : Nat := (cs.map Char.utf8Size).sum

@[simp] theorem byteCount_nil : byteCount [] = 0 := rfl

@[simp] theorem byteCount_cons (c : Char) (cs : List Char) :
    byteCount (c :: cs) = c.utf8Size + byteCount cs := by
  simp [byteCount]

@[simp] theorem byteCount_append (first second : List Char) :
    byteCount (first ++ second) = byteCount first + byteCount second := by
  simp [byteCount]

def charWidth (c : Char) : Nat :=
  match SimpleEscape.ofValue c with
  | some _ => 2
  | none => if isPlain c = true ∧ isSeparator c = false then c.utf8Size else 6

def quotedWidth (text : String) : Nat := (text.toList.map charWidth).sum + 2

theorem hexChar_utf8Size : ∀ n : Fin 16, (hexChar n).utf8Size = 1 := by decide

theorem letter_utf8Size (escape : SimpleEscape) : escape.letter.utf8Size = 1 := by
  cases escape <;> decide

theorem byteCount_quoteChar (c : Char) : byteCount (quoteChar c).chars = charWidth c := by
  have backslash : ('\\' : Char).utf8Size = 1 := by decide
  have u : ('u' : Char).utf8Size = 1 := by decide
  rw [quoteChar, charWidth]
  cases SimpleEscape.ofValue c with
  | some escape => simp [Piece.chars, letter_utf8Size, backslash]
  | none =>
    by_cases plain : isPlain c = true ∧ isSeparator c = false
    · simp [plain, Piece.chars]
    · simp [plain, unicodePiece, Piece.chars, hexDigit, hexChar_utf8Size, backslash, u]

theorem byteCount_quote (text : String) :
    byteCount (StringLit.body (quote text)) + 2 = quotedWidth text := by
  rw [quotedWidth, quote]
  congr 1
  induction text.toList with
  | nil => rfl
  | cons c cs ih =>
    rw [map_cons, map_cons, sum_cons, ← ih, ← byteCount_quoteChar]
    exact byteCount_append _ _

def enclosedWidth (widths : List Nat) : Nat := widths.sum + (widths.length - 1) + 2

theorem byteCount_items (items : List JsonValue) : byteCount (itemsChars items) =
      (items.map fun item => byteCount item.chars).sum + items.length + 1 := by
  have comma : (',' : Char).utf8Size = 1 := by decide
  have bracket : (']' : Char).utf8Size = 1 := by decide
  induction items with
  | nil => simp [itemsChars, bracket]
  | cons item items ih =>
    simp only [itemsChars, byteCount_cons, byteCount_append, ih, comma, map_cons,
      sum_cons, length_cons]
    omega

theorem byteCount_array (items : List JsonValue) : byteCount (JsonValue.array items).chars =
      enclosedWidth (items.map fun item => byteCount item.chars) := by
  have opening : ('[' : Char).utf8Size = 1 := by decide
  cases items with
  | nil => rfl
  | cons item items =>
    simp only [JsonValue.chars, byteCount_cons, byteCount_append, byteCount_items, opening,
      enclosedWidth, map_cons, sum_cons, length_cons, length_map]
    omega

def textWidth (member : StringLit × List Char) : Nat :=
  byteCount (StringLit.body member.1) + 3 + byteCount member.2

theorem byteCount_textMembers (members : List (StringLit × List Char)) :
    byteCount (textMembersChars members) = (members.map textWidth).sum + members.length + 1 := by
  have comma : (',' : Char).utf8Size = 1 := by decide
  have brace : ('\x7d' : Char).utf8Size = 1 := by decide
  have colon : (':' : Char).utf8Size = 1 := by decide
  have quotes : ('"' : Char).utf8Size = 1 := by decide
  induction members with
  | nil => simp [textMembersChars, brace]
  | cons mem members ih =>
    simp only [textMembersChars, byteCount_cons, byteCount_append, ih, comma, colon, quotes,
      map_cons, sum_cons, length_cons, textWidth]
    omega

theorem byteCount_textObject (members : List (StringLit × List Char)) :
    byteCount (textObjectChars members) = enclosedWidth (members.map textWidth) := by
  have opening : ('\x7b' : Char).utf8Size = 1 := by decide
  have colon : (':' : Char).utf8Size = 1 := by decide
  have quotes : ('"' : Char).utf8Size = 1 := by decide
  cases members with
  | nil => rfl
  | cons mem members =>
    simp only [textObjectChars, byteCount_cons, byteCount_append, byteCount_textMembers, opening,
      colon, quotes, enclosedWidth, map_cons, sum_cons, length_cons,
      length_map, textWidth]
    omega

def memberText (member : StringLit × JsonValue) : StringLit × List Char :=
  (member.1, member.2.chars)

theorem textMembersChars_memberText (members : List (StringLit × JsonValue)) :
    textMembersChars (members.map memberText) = membersChars members := by
  induction members with
  | nil => simp [textMembersChars, membersChars]
  | cons mem members ih =>
    rw [map_cons, memberText, textMembersChars, membersChars, ih]

theorem textObjectChars_memberText (members : List (StringLit × JsonValue)) :
    textObjectChars (members.map memberText) = (JsonValue.object members).chars := by
  cases members with
  | nil => simp [textObjectChars, JsonValue.chars]
  | cons mem members =>
    rw [map_cons, memberText, textObjectChars, textMembersChars_memberText, JsonValue.chars]

def memberWidth (member : StringLit × JsonValue) : Nat := textWidth (memberText member)

theorem byteCount_object (members : List (StringLit × JsonValue)) :
    byteCount (JsonValue.object members).chars = enclosedWidth (members.map memberWidth) := by
  rw [← textObjectChars_memberText, byteCount_textObject, map_map]
  rfl

mutual

def JsonType.width : {α : Type} → JsonType α → α → Nat
  | _, .string, text => quotedWidth text
  | _, .int, n => byteCount (NumberLit.ofInt64 n).chars
  | _, .bool, b => if b then 4 else 5
  | _, .float, x => byteCount x.lit.chars
  | _, .plainFloat, x => byteCount x.val.lit.chars
  | _, .raw, payload =>
    match payload with
    | some value => byteCount value.chars
    | none => 4
  | _, .pointer element, target =>
    match target with
    | some value => element.width value
    | none => 4
  | _, .list element, items => enclosedWidth (items.map element.width)
  | _, .slice element, items =>
    match items with
    | some items => enclosedWidth (items.map element.width)
    | none => 4
  | _, .struct fields, value => enclosedWidth (fields.widths value)
  | _, .via inner _ unwrap _ _, value => inner.width (unwrap value)

def JsonFields.widths : {α : Type} → JsonFields α → α → List Nat
  | _, .nil, _ => []
  | _, .cons name omitEmpty field rest, value =>
    if omitEmpty && field.isEmpty value.1 then rest.widths value.2
    else (quotedWidth name + 1 + field.width value.1) :: rest.widths value.2

end

mutual

theorem JsonType.byteCount_marshal : ∀ {α : Type} (type : JsonType α) (value : α),
    byteCount (type.marshal value).chars = type.width value
  | _, .string, text => by
    have quotes : ('"' : Char).utf8Size = 1 := by decide
    have body := byteCount_quote text
    simp only [JsonType.marshal, JsonValue.chars, JsonType.width, byteCount_cons,
      byteCount_append, byteCount_nil, quotes]
    omega
  | _, .int, n => by rw [JsonType.marshal, JsonValue.chars, JsonType.width]
  | _, .bool, true => rfl
  | _, .bool, false => rfl
  | _, .float, x => by rw [JsonType.marshal, JsonValue.chars, JsonType.width]
  | _, .plainFloat, x => by rw [JsonType.marshal, JsonValue.chars, JsonType.width]
  | _, .raw, none => rfl
  | _, .raw, some value => rfl
  | _, .pointer element, none => rfl
  | _, .pointer element, some value => by
    simpa [JsonType.marshal, JsonType.width] using element.byteCount_marshal value
  | _, .list element, items => by
    simp [JsonType.marshal, JsonType.width, byteCount_array, Function.comp_def,
      element.byteCount_marshal]
  | _, .slice element, none => rfl
  | _, .slice element, some items => by
    simp [JsonType.marshal, JsonType.width, byteCount_array, Function.comp_def,
      element.byteCount_marshal]
  | _, .struct fields, value => by
    rw [JsonType.marshal, byteCount_object, fields.memberWidths value, JsonType.width]
  | _, .via inner _ unwrap _ _, value => by
    rw [JsonType.marshal, JsonType.width, inner.byteCount_marshal]

theorem JsonFields.memberWidths : ∀ {α : Type} (fields : JsonFields α) (value : α),
    (fields.marshal value).map memberWidth = fields.widths value
  | _, .nil, _ => rfl
  | _, .cons name omitEmpty field rest, value => by
    have tail := rest.memberWidths value.2
    have head := field.byteCount_marshal value.1
    have quoted := byteCount_quote name
    rw [JsonFields.marshal, JsonFields.widths]
    split
    · exact tail
    · rw [map_cons, tail, memberWidth, textWidth, memberText, head, ← quoted]

end

def fieldWidth (name : String) (width : Nat) : Nat := quotedWidth name + 1 + width

def JsonType.fieldWidths {α : Type} (type : JsonType α) (name : String) (omitEmpty : Bool)
    (value : α) : List Nat :=
  if omitEmpty && type.isEmpty value then [] else [fieldWidth name (type.width value)]

theorem JsonFields.widths_nil (value : Unit) : JsonFields.nil.widths value = [] := rfl

theorem JsonFields.widths_cons {α β : Type} (name : String) (omitEmpty : Bool) (field : JsonType α)
    (rest : JsonFields β) (first : α) (others : β) :
    (JsonFields.cons name omitEmpty field rest).widths (first, others) =
      field.fieldWidths name omitEmpty first ++ rest.widths others := by
  rw [JsonFields.widths, JsonType.fieldWidths]
  split <;> rfl

theorem JsonType.raw_fieldWidths (name : String) (value : JsonValue) :
    JsonType.raw.fieldWidths name true (some value) = [fieldWidth name (byteCount value.chars)] := by
  simp [JsonType.fieldWidths, JsonType.isEmpty, JsonType.width]

end Agentloom.JsonText
