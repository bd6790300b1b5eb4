import Agentloom.Library.Float64

/-! Documents as a program holds them after reading a JSON text: an object is a map, of which the last
member of a name counts, and a number is rounded to binary64. Their texts tell them apart. -/

namespace Agentloom.JsonText

open List

/-- The members of an object are in the order of their names. -/
inductive Document where
  | null
  | bool (value : Bool)
  | number (value : Float64)
  | string (text : String)
  | array (items : List Document)
  | object (members : List (String × Document))

def putMember {α : Type} (members : List (String × α)) (member : String × α) : List (String × α) :=
  match members with
  | [] => [member]
  | other :: rest =>
    if member.1 < other.1 then member :: other :: rest
    else if member.1 = other.1 then member :: rest
    else other :: putMember rest member

mutual

/-- None where a number is too large, be it in a member that a later one replaces. -/
def JsonValue.document : JsonValue → Option Document
  | .null => some .null
  | .bool value => some (.bool value)
  | .number lit => (Float64.ofLit lit).map .number
  | .string lit => some (.string (StringLit.text lit))
  | .array items => (documents items).map .array
  | .object members => (memberDocuments members).map fun read => .object (read.foldl putMember [])

def documents : List JsonValue → Option (List Document)
  | [] => some []
  | item :: items => do return (← item.document) :: (← documents items)

def memberDocuments : List (StringLit × JsonValue) → Option (List (String × Document))
  | [] => some []
  | (name, value) :: members => do
    return (StringLit.text name, ← value.document) :: (← memberDocuments members)

end

/-- The brackets of markup are written as escapes although a string may hold them. -/
def markupChar (c : Char) : Piece :=
  if c ∈ ['<', '>', '&'] then unicodePiece c.toNat else quoteChar c

def markupQuote (text : String) : StringLit := text.toList.map markupChar

mutual

def Document.json : Document → JsonValue
  | .null => .null
  | .bool value => .bool value
  | .number value => .number value.lit
  | .string text => .string (markupQuote text)
  | .array items => .array (documentsJson items)
  | .object members => .object (membersJson members)

def documentsJson : List Document → List JsonValue
  | [] => []
  | item :: items => item.json :: documentsJson items

def membersJson : List (String × Document) → List (StringLit × JsonValue)
  | [] => []
  | (name, value) :: members => (markupQuote name, value.json) :: membersJson members

end

theorem unescape_markupChar (c : Char) (rest : StringLit) :
    unescape (markupChar c :: rest) = c :: unescape rest := by
  unfold markupChar
  split
  · rename_i markup
    have low : c.toNat < 0xD800 := by
      simp only [mem_cons, not_mem_nil, or_false] at markup
      obtain rfl | rfl | rfl := markup <;> decide
    rw [unescape_unicodePiece low, Char.ofNat_toNat]
  · exact unescape_quoteChar c rest

theorem text_markupQuote (text : String) : StringLit.text (markupQuote text) = text := by
  have read : unescape (markupQuote text) = text.toList := by
    rw [markupQuote]
    induction text.toList with
    | nil => rfl
    | cons c rest ih => rw [map_cons, unescape_markupChar, ih]
  rw [StringLit.text, read, String.ofList_toList]

theorem markupQuote_inj {text text' : String} (same : markupQuote text = markupQuote text') :
    text = text' := by
  rw [← text_markupQuote text, same, text_markupQuote]

mutual

theorem Document.json_inj : ∀ {a b : Document}, a.json = b.json → a = b
  | .null, b, same => by cases b <;> simp_all [Document.json]
  | .bool _, b, same => by cases b <;> simp_all [Document.json]
  | .number x, b, same => by
    cases b with
    | number y => rw [Float64.lit_inj (JsonValue.number.inj same)]
    | _ => simp [Document.json] at same
  | .string text, b, same => by
    cases b with
    | string text' => rw [markupQuote_inj (JsonValue.string.inj same)]
    | _ => simp [Document.json] at same
  | .array items, b, same => by
    cases b with
    | array items' => rw [documentsJson_inj (JsonValue.array.inj same)]
    | _ => simp [Document.json] at same
  | .object members, b, same => by
    cases b with
    | object members' => rw [membersJson_inj (JsonValue.object.inj same)]
    | _ => simp [Document.json] at same

theorem documentsJson_inj : ∀ {a b : List Document}, documentsJson a = documentsJson b → a = b
  | [], [], _ => rfl
  | item :: items, item' :: items', same => by
    obtain ⟨first, rest⟩ := cons.inj same
    rw [Document.json_inj first, documentsJson_inj rest]

theorem membersJson_inj : ∀ {a b : List (String × Document)}, membersJson a = membersJson b → a = b
  | [], [], _ => rfl
  | (name, value) :: members, (name', value') :: members', same => by
    obtain ⟨first, rest⟩ := cons.inj same
    obtain ⟨names, values⟩ := Prod.mk.inj first
    rw [markupQuote_inj names, Document.json_inj values, membersJson_inj rest]

end

theorem Document.text_inj {a b : Document} (same : a.json.text = b.json.text) : a = b :=
  Document.json_inj (JsonValue.text_injective same)

theorem NumberLit.text_inj {a b : NumberLit} (same : a.text = b.text) : a = b :=
  JsonValue.number.inj (JsonValue.text_injective same)

end Agentloom.JsonText
