import Agentloom.Library.JsonType

/-! Settings that are written as one of a closed set of texts: not given, one of the set, or a text
outside the set, which is kept so that it can be reported. -/

namespace Agentloom

open JsonText List

class Named (α : Type) where
  all : List α
  text : α → String
  complete : ∀ a, a ∈ all := by intro a; cases a <;> decide
  injective : ∀ a b, text a = text b → a = b := by intro a b; cases a <;> cases b <;> decide
  filled : ∀ a, text a ≠ "" := by intro a; cases a <;> decide

inductive Setting (α : Type) [Named α] where
  | unset
  | known (value : α)
  | other (text : { text : String // text ≠ "" ∧ ∀ a : α, Named.text a ≠ text })
deriving Repr

instance (α : Type) [Named α] : Inhabited (Setting α) := ⟨.unset⟩

namespace Setting

variable {α : Type} [Named α]

def text : Setting α → String
  | unset => ""
  | known value => Named.text value
  | other text => text.val

def ofText (source : String) : Setting α :=
  if empty : source = "" then unset
  else
    match found : (Named.all : List α).find? fun a => Named.text a = source with
    | some value => known value
    | none => other ⟨source, empty, fun a named =>
      absurd named (by simpa using List.find?_eq_none.mp found a (Named.complete a))⟩

theorem text_ofText (source : String) : (ofText source : Setting α).text = source := by
  rw [ofText]
  split
  · rename_i empty
    exact empty.symm
  · split
    · rename_i found
      simpa [text] using find?_some found
    · rfl

theorem ofText_text (setting : Setting α) : ofText setting.text = setting := by
  cases setting with
  | unset => rfl
  | known value =>
    change ofText (Named.text value) = _
    rw [ofText, dif_neg (Named.filled value)]
    split
    · rename_i read found
      have named : Named.text read = Named.text value := by simpa using find?_some found
      rw [Named.injective _ _ named]
    · rename_i missing
      have unlisted := find?_eq_none.mp missing value (Named.complete value)
      simp at unlisted
  | other text =>
    change ofText text.val = _
    rw [ofText, dif_neg text.property.1]
    split
    · rename_i found
      exact absurd (by simpa using find?_some found) (text.property.2 _)
    · rfl

instance : DecidableEq (Setting α) := fun a b =>
  decidable_of_iff (a.text = b.text)
    ⟨fun same => by rw [← ofText_text a, same, ofText_text], congrArg text⟩

def isOther : Setting α → Bool
  | other _ => true
  | _ => false

def isUnset : Setting α → Bool
  | unset => true
  | _ => false

end Setting

def JsonText.JsonType.setting (α : Type) [Named α] : JsonType (Setting α) :=
  .via .string Setting.ofText Setting.text Setting.ofText_text Setting.text_ofText

end Agentloom
