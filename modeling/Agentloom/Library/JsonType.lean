import Agentloom.Library.Float64

/-! Typed values and their JSON text, by a description of the type. A description says how a value
of its Lean type is read into a variable of a program, and how it is written: records by their named
fields, optional values by pointers, payloads that stay JSON. -/

namespace Agentloom.JsonText

open List

abbrev PlainFloat := { x : Float64 // x.mantissa = 0 → x.negative = false }

def Float64.zero : Float64 := ⟨false, 0, 0, by decide, by decide, .inl rfl⟩

def PlainFloat.zero : PlainFloat := ⟨Float64.zero, fun _ => rfl⟩

def PlainFloat.ofFloat (x : Float64) : PlainFloat :=
  if signed : x.mantissa = 0 → x.negative = false then ⟨x, signed⟩ else PlainFloat.zero

mutual

/-- The JSON form of a Lean type. A `list` is a slice of which only the elements are read, a
`slice` one whose absence is told from its emptiness. -/
inductive JsonType : Type → Type 1
  | string : JsonType String
  | int : JsonType Int64
  | bool : JsonType Bool
  | float : JsonType Float64
  | plainFloat : JsonType PlainFloat
  | raw : JsonType (Option JsonValue)
  | pointer {α : Type} (element : JsonType α) : JsonType (Option α)
  | list {α : Type} (element : JsonType α) : JsonType (List α)
  | slice {α : Type} (element : JsonType α) : JsonType (Option (List α))
  | struct {α : Type} (fields : JsonFields α) : JsonType α
  | via {α β : Type} (inner : JsonType β) (wrap : β → α) (unwrap : α → β)
      (wrap_unwrap : ∀ a, wrap (unwrap a) = a := by exact fun _ => rfl)
      (unwrap_wrap : ∀ b, unwrap (wrap b) = b := by exact fun _ => rfl) : JsonType α

inductive JsonFields : Type → Type 1
  | nil : JsonFields Unit
  | cons {α β : Type} (name : String) (omitEmpty : Bool) (field : JsonType α)
      (rest : JsonFields β) : JsonFields (α × β)

end

structure Mismatch where
  field : List String := []
  expected : String
  found : String
deriving DecidableEq, Repr

def Mismatch.under (name : String) (mismatch : Mismatch) : Mismatch :=
  { mismatch with field := name :: mismatch.field }

def JsonValue.kind : JsonValue → String
  | .null => "null"
  | .bool _ => "bool"
  | .number _ => "number"
  | .string _ => "string"
  | .array _ => "array"
  | .object _ => "object"

def foldChar (c : Char) : Char :=
  if c.toNat = 0x212A then 'k' else if c.toNat = 0x017F then 's' else c.toLower

def foldName (key : String) : String := String.ofList (key.toList.map foldChar)

mutual

def JsonType.zero : {α : Type} → JsonType α → α
  | _, .string => ""
  | _, .int => 0
  | _, .bool => false
  | _, .float => Float64.zero
  | _, .plainFloat => PlainFloat.zero
  | _, .raw => none
  | _, .pointer _ => none
  | _, .list _ => []
  | _, .slice _ => none
  | _, .struct fields => fields.zero
  | _, .via inner wrap _ _ _ => wrap inner.zero

def JsonFields.zero : {α : Type} → JsonFields α → α
  | _, .nil => ()
  | _, .cons _ _ field rest => (field.zero, rest.zero)

end

def refuse {α : Type} (old : α) (expected : String) (value : JsonValue) : α × Option Mismatch :=
  match value with
  | .null => (old, none)
  | other => (old, some { expected, found := other.kind })

def readNumber {α β : Type} (read : NumberLit → Option α) (keep : α → β) (expected : String)
    (lit : NumberLit) (old : β) : β × Option Mismatch :=
  match read lit with
  | some value => (keep value, none)
  | none => (old, some { expected, found := "number " ++ lit.text })

def readItems {α : Type} (read : JsonValue → α × Option Mismatch) (items : List JsonValue) :
    List α × Option Mismatch :=
  (items.map fun item => (read item).1, items.findSome? fun item => (read item).2)

def readMembers {α : Type} (store : String → JsonValue → α → α × Option Mismatch) :
    Members → α → α × Option Mismatch
  | [], old => (old, none)
  | (key, value) :: members, old =>
    let stored := store (StringLit.text key) value old
    let read := readMembers store members stored.1
    (read.1, stored.2.or read.2)

mutual

/-- Reading into a variable that may already hold a value; the absent value leaves it as it is. -/
def JsonType.unmarshal : {α : Type} → JsonType α → JsonValue → α → α × Option Mismatch
  | _, .string, value, old =>
    match value with
    | .string lit => (StringLit.text lit, none)
    | other => refuse old "string" other
  | _, .int, value, old =>
    match value with
    | .number lit => readNumber NumberLit.toInt64? id "integer" lit old
    | other => refuse old "integer" other
  | _, .bool, value, old =>
    match value with
    | .bool b => (b, none)
    | other => refuse old "boolean" other
  | _, .float, value, old =>
    match value with
    | .number lit => readNumber Float64.ofLit id "number" lit old
    | other => refuse old "number" other
  | _, .plainFloat, value, old =>
    match value with
    | .number lit => readNumber Float64.ofLit PlainFloat.ofFloat "number" lit old
    | other => refuse old "number" other
  | _, .raw, value, _ => (some value, none)
  | _, .pointer element, value, old =>
    match value with
    | .null => (none, none)
    | other =>
      let read := element.unmarshal other (old.getD element.zero)
      (some read.1, read.2)
  | _, .list element, value, old =>
    match value with
    | .null => ([], none)
    | .array items => readItems (fun item => element.unmarshal item element.zero) items
    | other => refuse old "array" other
  | _, .slice element, value, old =>
    match value with
    | .null => (none, none)
    | .array items =>
      let read := readItems (fun item => element.unmarshal item element.zero) items
      (some read.1, read.2)
    | other => refuse old "array" other
  | _, .struct fields, value, old =>
    match value with
    | .object members => readMembers fields.store members old
    | other => refuse old "object" other
  | _, .via inner wrap unwrap _ _, value, old =>
    let read := inner.unmarshal value (unwrap old)
    (wrap read.1, read.2)

def JsonFields.store : {α : Type} → JsonFields α → String → JsonValue → α → α × Option Mismatch
  | _, .nil, _, _, old => (old, none)
  | _, .cons name _ field rest, key, value, old =>
    if foldName key = name then
      let read := field.unmarshal value old.1
      ((read.1, old.2), read.2.map (Mismatch.under name))
    else
      let stored := rest.store key value old.2
      ((old.1, stored.1), stored.2)

end

structure PathError where
  path : String
  msg : String
deriving DecidableEq, Repr

mutual

/-- The member names that have no field, with the path of each. -/
def JsonType.unknownFields : {α : Type} → JsonType α → String → JsonValue → List PathError
  | _, .struct fields, path, value =>
    match value with
    | .object members =>
      (Members.sortedKeys members).flatMap fun key =>
        match Members.get members key with
        | some value => fields.unknownAt path key value
        | none => []
    | _ => []
  | _, .list element, path, value =>
    match value with
    | .array items => items.zipIdx.flatMap fun (item, i) =>
      element.unknownFields (path ++ "[" ++ toString i ++ "]") item
    | _ => []
  | _, .slice element, path, value =>
    match value with
    | .array items => items.zipIdx.flatMap fun (item, i) =>
      element.unknownFields (path ++ "[" ++ toString i ++ "]") item
    | _ => []
  | _, .pointer element, path, value => element.unknownFields path value
  | _, .via inner _ _ _ _, path, value => inner.unknownFields path value
  | _, _, _, _ => []

def JsonFields.unknownAt : {α : Type} → JsonFields α → String → String → JsonValue →
    List PathError
  | _, .nil, path, key, _ => [{ path := path ++ "." ++ key, msg := "unknown field" }]
  | _, .cons name _ field rest, path, key, value =>
    if key = name then field.unknownFields (path ++ "." ++ key) value
    else rest.unknownAt path key value

end

def JsonType.isEmpty : {α : Type} → JsonType α → α → Bool
  | _, .string, text => text == ""
  | _, .int, n => n == 0
  | _, .bool, b => !b
  | _, .float, x => x.mantissa == 0
  | _, .plainFloat, x => x.val.mantissa == 0
  | _, .raw, payload => payload.isNone
  | _, .pointer _, target => target.isNone
  | _, .list _, items => items.isEmpty
  | _, .slice _, items => (items.getD []).isEmpty
  | _, .struct _, _ => false
  | _, .via inner _ unwrap _ _, value => inner.isEmpty (unwrap value)

mutual

def JsonType.marshal : {α : Type} → JsonType α → α → JsonValue
  | _, .string, text => .string (quote text)
  | _, .int, n => .number (.ofInt64 n)
  | _, .bool, b => .bool b
  | _, .float, x => .number x.lit
  | _, .plainFloat, x => .number x.val.lit
  | _, .raw, payload => payload.getD .null
  | _, .pointer element, target =>
    match target with
    | some value => element.marshal value
    | none => .null
  | _, .list element, items => .array (items.map element.marshal)
  | _, .slice element, items =>
    match items with
    | some items => .array (items.map element.marshal)
    | none => .null
  | _, .struct fields, value => .object (fields.marshal value)
  | _, .via inner _ unwrap _ _, value => inner.marshal (unwrap value)

def JsonFields.marshal : {α : Type} → JsonFields α → α → Members
  | _, .nil, _ => []
  | _, .cons name omitEmpty field rest, value =>
    if omitEmpty && field.isEmpty value.1 then rest.marshal value.2
    else (quote name, field.marshal value.1) :: rest.marshal value.2

end

mutual

def JsonType.normal : {α : Type} → JsonType α → α → α
  | _, .pointer element, target => target.map element.normal
  | _, .list element, items => items.map element.normal
  | _, .slice element, items => items.map fun items => items.map element.normal
  | _, .struct fields, value => fields.normal value
  | _, .via inner wrap unwrap _ _, value => wrap (inner.normal (unwrap value))
  | _, .string, value => value
  | _, .int, value => value
  | _, .bool, value => value
  | _, .float, value => value
  | _, .plainFloat, value => value
  | _, .raw, value => value

def JsonFields.normal : {α : Type} → JsonFields α → α → α
  | _, .nil, value => value
  | _, .cons _ omitEmpty field rest, value =>
    (if omitEmpty && field.isEmpty value.1 then field.zero else field.normal value.1,
      rest.normal value.2)

end

def JsonType.solid : {α : Type} → JsonType α → Bool
  | _, .raw => false
  | _, .pointer _ => false
  | _, .slice _ => false
  | _, .via inner _ _ _ _ => inner.solid
  | _, _ => true

def JsonFields.names : {α : Type} → JsonFields α → List String
  | _, .nil => []
  | _, .cons name _ _ rest => name :: rest.names

mutual

/-- Names are distinct and in lower case, and the absent value is written for an empty field only
when the field is left out. -/
def JsonType.sound : {α : Type} → JsonType α → Bool
  | _, .pointer element => element.solid && element.sound
  | _, .list element => element.solid && element.sound
  | _, .slice element => element.solid && element.sound
  | _, .struct fields => fields.sound
  | _, .via inner _ _ _ _ => inner.sound
  | _, _ => true

def JsonFields.sound : {α : Type} → JsonFields α → Bool
  | _, .nil => true
  | _, .cons name omitEmpty field rest =>
    (foldName name == name) && !rest.names.contains name && (omitEmpty || field.solid) &&
      field.sound && rest.sound

end

theorem readItems_map {α : Type} {read write}
    {keep : α → α} (each : ∀ a, read (write a) = (keep a, none)) (items : List α) :
    readItems read (items.map write) = (items.map keep, none) := by
  simp [readItems, each, Function.comp_def]

theorem JsonFields.mem_names_of_marshal : ∀ {α : Type} (fields : JsonFields α) (value : α),
    ∀ mem ∈ fields.marshal value, StringLit.text mem.1 ∈ fields.names
  | _, .nil, _ => by simp [JsonFields.marshal]
  | _, .cons name omitEmpty field rest, value => by
    intro mem present
    rw [JsonFields.marshal] at present
    split at present
    · exact mem_cons_of_mem _ (mem_names_of_marshal rest value.2 mem present)
    · rcases mem_cons.mp present with rfl | present
      · simp [JsonFields.names]
      · exact mem_cons_of_mem _ (mem_names_of_marshal rest value.2 mem present)

variable {name : String} {omitEmpty : Bool}

theorem JsonFields.sound_cons {α β : Type} {field : JsonType α} {rest : JsonFields β}
    (sound : (JsonFields.cons name omitEmpty field rest).sound = true) :
    foldName name = name ∧ name ∉ rest.names ∧ (omitEmpty = true ∨ field.solid = true) ∧
      field.sound = true ∧ rest.sound = true := by
  simpa [JsonFields.sound, and_assoc] using sound

theorem JsonFields.foldName_of_mem : ∀ {α : Type} (fields : JsonFields α), fields.sound = true →
    ∀ name ∈ fields.names, foldName name = name
  | _, .nil, _ => by simp [JsonFields.names]
  | _, .cons name _ field rest, sound => by
    obtain ⟨folded, _, _, _, restSound⟩ := JsonFields.sound_cons sound
    intro other present
    rcases mem_cons.mp present with rfl | present
    · exact folded
    · exact foldName_of_mem rest restSound other present

theorem JsonFields.store_self {α β : Type} (omitEmpty : Bool) (field : JsonType α)
    (rest : JsonFields β) (same : foldName key = name) (value : JsonValue) (first : α) (second : β) :
    (JsonFields.cons name omitEmpty field rest).store key value (first, second) =
      (((field.unmarshal value first).1, second),
        (field.unmarshal value first).2.map (Mismatch.under name)) := by
  rw [JsonFields.store, if_pos same]

theorem JsonFields.store_other {α β : Type} {key field rest} (other : foldName key ≠ name)
    (value : JsonValue) (first : α) (second : β) :
    (JsonFields.cons name omitEmpty field rest).store key value (first, second) =
      ((first, (rest.store key value second).1), (rest.store key value second).2) := by
  rw [JsonFields.store, if_neg other]

theorem readMembers_rest {α β : Type} {field rest members}
    (other : ∀ mem ∈ members, foldName (StringLit.text mem.1) ≠ name) (first : α) (second : β) :
    readMembers (JsonFields.cons name omitEmpty field rest).store members (first, second) =
      ((first, (readMembers rest.store members second).1),
        (readMembers rest.store members second).2) := by
  induction members generalizing second with
  | nil => rfl
  | cons mem members ih =>
    have here := other mem (by simp)
    have there := fun next present => other next (mem_cons_of_mem _ present)
    simp only [readMembers, JsonFields.store_other here, ih there]

theorem JsonFields.rest_names_ne {α β : Type} {field : JsonType α} {rest : JsonFields β}
    (sound : (JsonFields.cons name omitEmpty field rest).sound = true) (value : β) :
    ∀ mem ∈ rest.marshal value, foldName (StringLit.text mem.1) ≠ name := by
  obtain ⟨_, fresh, _, _, restSound⟩ := JsonFields.sound_cons sound
  intro mem present same
  have named := rest.mem_names_of_marshal value mem present
  rw [rest.foldName_of_mem restSound _ named] at same
  exact fresh (same ▸ named)

theorem plainFloat_ofFloat (x : PlainFloat) : PlainFloat.ofFloat x.val = x := by
  rw [PlainFloat.ofFloat, dif_pos x.property]

theorem readNumber_some {α β : Type} {read : NumberLit → Option α} {lit : NumberLit} {value : α}
    (found : read lit = some value) (keep : α → β) (expected : String) (old : β) :
    readNumber read keep expected lit old = (keep value, none) := by
  rw [readNumber, found]

theorem JsonType.unmarshal_int (n old : Int64) :
    JsonType.int.unmarshal (JsonType.int.marshal n) old = (n, none) := by
  rw [JsonType.marshal, JsonType.unmarshal, readNumber_some (NumberLit.toInt64?_ofInt64 n), id]

theorem JsonType.unmarshal_float (x old : Float64) :
    JsonType.float.unmarshal (JsonType.float.marshal x) old = (x, none) := by
  rw [JsonType.marshal, JsonType.unmarshal, readNumber_some (Float64.ofLit_lit x), id]

theorem JsonType.unmarshal_plainFloat (x old : PlainFloat) :
    JsonType.plainFloat.unmarshal (JsonType.plainFloat.marshal x) old = (x, none) := by
  rw [JsonType.marshal, JsonType.unmarshal, readNumber_some (Float64.ofLit_lit x.val),
    plainFloat_ofFloat]

theorem JsonType.marshal_ne_null : ∀ {α : Type} (type : JsonType α) (value : α),
    type.solid = true → type.marshal value ≠ .null
  | _, .string, _, _ => by simp [JsonType.marshal]
  | _, .int, _, _ => by simp [JsonType.marshal]
  | _, .bool, _, _ => by simp [JsonType.marshal]
  | _, .float, _, _ => by simp [JsonType.marshal]
  | _, .plainFloat, _, _ => by simp [JsonType.marshal]
  | _, .list _, _, _ => by simp [JsonType.marshal]
  | _, .struct _, _, _ => by simp [JsonType.marshal]
  | _, .via inner _ unwrap _ _, value, solid => by
    exact marshal_ne_null inner (unwrap value) (by simpa [JsonType.solid] using solid)

mutual

theorem JsonType.unmarshal_marshal : ∀ {α : Type} (type : JsonType α) (value : α),
    type.sound = true → type.solid = true ∨ type.isEmpty value = false →
      type.unmarshal (type.marshal value) type.zero = (type.normal value, none)
  | _, .string, text, _, _ => by
    simp [JsonType.marshal, JsonType.unmarshal, JsonType.normal]
  | _, .int, n, _, _ => JsonType.unmarshal_int n _
  | _, .bool, b, _, _ => by
    simp [JsonType.marshal, JsonType.unmarshal, JsonType.normal]
  | _, .float, x, _, _ => JsonType.unmarshal_float x _
  | _, .plainFloat, x, _, _ => JsonType.unmarshal_plainFloat x _
  | _, .raw, payload, _, filled => by
    cases payload with
    | none => simp [JsonType.solid, JsonType.isEmpty] at filled
    | some value => simp [JsonType.marshal, JsonType.unmarshal, JsonType.normal]
  | _, .pointer element, target, sound, filled => by
    cases target with
    | none => simp [JsonType.solid, JsonType.isEmpty] at filled
    | some value =>
      simp only [JsonType.sound, Bool.and_eq_true] at sound
      have inner := element.unmarshal_marshal value sound.2 (.inl sound.1)
      have present := element.marshal_ne_null value sound.1
      simp only [JsonType.marshal, JsonType.unmarshal, JsonType.normal, JsonType.zero,
        Option.getD_none, Option.map_some, inner]
  | _, .list element, items, sound, _ => by
    simp only [JsonType.sound, Bool.and_eq_true] at sound
    have each := fun value => element.unmarshal_marshal value sound.2 (.inl sound.1)
    exact readItems_map each items
  | _, .slice element, items, sound, filled => by
    cases items with
    | none => simp [JsonType.solid, JsonType.isEmpty] at filled
    | some items =>
      simp only [JsonType.sound, Bool.and_eq_true] at sound
      have each := fun value => element.unmarshal_marshal value sound.2 (.inl sound.1)
      have read : readItems (fun item => element.unmarshal item element.zero)
          (items.map element.marshal) = (items.map element.normal, none) :=
        readItems_map each items
      simp only [JsonType.marshal, JsonType.unmarshal, JsonType.normal, read, Option.map_some]
  | _, .struct fields, value, sound, _ => by
    exact fields.readMembers_marshal value (by simpa [JsonType.sound] using sound)
  | _, .via inner wrap unwrap wrap_unwrap unwrap_wrap, value, sound, filled => by
    have back := inner.unmarshal_marshal (unwrap value)
      (by simpa [JsonType.sound] using sound)
      (by simpa [JsonType.solid, JsonType.isEmpty] using filled)
    simp only [JsonType.marshal, JsonType.unmarshal, JsonType.normal, JsonType.zero,
      unwrap_wrap, back]

theorem JsonFields.readMembers_marshal : ∀ {α : Type} (fields : JsonFields α) (value : α),
    fields.sound = true →
      readMembers fields.store (fields.marshal value) fields.zero = (fields.normal value, none)
  | _, .nil, _, _ => rfl
  | _, .cons name omitEmpty field rest, value, sound => by
    obtain ⟨folded, _, kept, fieldSound, restSound⟩ := JsonFields.sound_cons sound
    have others := JsonFields.rest_names_ne sound value.2
    have tail := rest.readMembers_marshal value.2 restSound
    rw [JsonFields.marshal, JsonFields.zero]
    cases skipped : omitEmpty && field.isEmpty value.1 with
    | true =>
      simp only [if_true, readMembers_rest others, tail, JsonFields.normal, skipped]
    | false =>
      have head := field.unmarshal_marshal value.1 fieldSound (by
        cases omitEmpty with
        | true => exact .inr (by simpa using skipped)
        | false => exact .inl (by simpa using kept))
      have stored := JsonFields.store_self omitEmpty field rest folded (field.marshal value.1)
        field.zero rest.zero
      simp only [Bool.false_eq_true, if_false, readMembers, text_quote, stored, head,
        Option.map_none, Option.none_or, readMembers_rest others, tail, JsonFields.normal,
        skipped]

end

theorem JsonFields.get_marshal_cons {α β : Type} {field rest}
    (fresh : name ∉ rest.names) (first : α) (second : β) (key : String) :
    Members.get ((JsonFields.cons name omitEmpty field rest).marshal (first, second)) key =
      if name = key then
        if omitEmpty && field.isEmpty first then none else some (field.marshal first)
      else Members.get (rest.marshal second) key := by
  have absent : name ∉ Members.keys (rest.marshal second) := by
    intro mem
    obtain ⟨entry, present, named⟩ := mem_map.mp mem
    exact fresh (named ▸ rest.mem_names_of_marshal second entry present)
  rw [JsonFields.marshal]
  by_cases same : name = key
  · subst same
    rw [if_pos rfl]
    split
    · exact Members.get_eq_none absent
    · exact Members.get_cons_of_eq (text_quote name) absent
  · rw [if_neg same]
    split
    · rfl
    · exact Members.get_cons_of_ne (by rwa [text_quote])

def JsonType.record : {α : Type} → JsonType α → Bool
  | _, .struct _ => true
  | _, .via inner _ _ _ _ => inner.record
  | _, _ => false

theorem JsonType.marshal_record : ∀ {α : Type} (type : JsonType α) (value : α),
    type.record = true → ∃ members, type.marshal value = .object members
  | _, .struct fields, value, _ => ⟨_, by rw [JsonType.marshal]⟩
  | _, .via inner _ unwrap _ _, value, record => by
    exact marshal_record inner (unwrap value) (by simpa [JsonType.record] using record)

theorem JsonType.solid_of_record : ∀ {α : Type} (type : JsonType α), type.record = true →
    type.solid = true
  | _, .struct _, _ => rfl
  | _, .via inner _ _ _ _, record => by
    exact solid_of_record inner (by simpa [JsonType.record] using record)

theorem JsonType.unknownFields_null : ∀ {α : Type} (type : JsonType α) (path : String),
    type.unknownFields path .null = []
  | _, .string, _ => rfl
  | _, .int, _ => rfl
  | _, .bool, _ => rfl
  | _, .float, _ => rfl
  | _, .plainFloat, _ => rfl
  | _, .raw, _ => rfl
  | _, .pointer element, path => by
    exact unknownFields_null element path
  | _, .list _, _ => rfl
  | _, .slice _, _ => rfl
  | _, .struct _, _ => rfl
  | _, .via inner _ _ _ _, path => by
    exact unknownFields_null inner path

theorem flatMap_zipIdx_map {α β : Type} {items : List α} {write : α → JsonValue}
    {check : JsonValue × Nat → List β} (each : ∀ a i, check (write a, i) = []) :
    (items.map write).zipIdx.flatMap check = [] := by
  rw [flatMap_eq_nil_iff]
  rintro ⟨_, i⟩ mem
  obtain ⟨_, same⟩ := mem_zipIdx' mem
  rw [same, getElem_map]
  exact each _ i

mutual

theorem JsonType.unknownFields_marshal : ∀ {α : Type} (type : JsonType α) (value : α)
    (path : String), type.sound = true → type.unknownFields path (type.marshal value) = []
  | _, .string, _, _, _ => rfl
  | _, .int, _, _, _ => rfl
  | _, .bool, _, _, _ => rfl
  | _, .float, _, _, _ => rfl
  | _, .plainFloat, _, _, _ => rfl
  | _, .raw, _, _, _ => rfl
  | _, .pointer element, target, path, sound => by
    cases target with
    | none => exact element.unknownFields_null path
    | some value =>
      simp only [JsonType.sound, Bool.and_eq_true] at sound
      exact element.unknownFields_marshal value path sound.2
  | _, .list element, items, path, sound => by
    simp only [JsonType.sound, Bool.and_eq_true] at sound
    exact flatMap_zipIdx_map fun value _ => element.unknownFields_marshal value _ sound.2
  | _, .slice element, items, path, sound => by
    simp only [JsonType.sound, Bool.and_eq_true] at sound
    cases items with
    | none => rfl
    | some items =>
      exact flatMap_zipIdx_map fun value _ => element.unknownFields_marshal value _ sound.2
  | _, .struct fields, value, path, sound => by
    simp only [JsonType.unknownFields, JsonType.marshal]
    rw [flatMap_eq_nil_iff]
    intro key _
    cases found : Members.get (fields.marshal value) key with
    | none => rfl
    | some read =>
      obtain ⟨_, mem, rfl⟩ := Members.mem_of_get found
      exact fields.unknownAt_marshal value path (by simpa [JsonType.sound] using sound) _ mem
  | _, .via inner _ unwrap _ _, value, path, sound => by
    exact inner.unknownFields_marshal (unwrap value) path (by simpa [JsonType.sound] using sound)

theorem JsonFields.unknownAt_marshal : ∀ {α : Type} (fields : JsonFields α) (value : α)
    (path : String), fields.sound = true → ∀ mem ∈ fields.marshal value,
      fields.unknownAt path (StringLit.text mem.1) mem.2 = []
  | _, .nil, _, _, _ => by simp [JsonFields.marshal]
  | _, .cons name omitEmpty field rest, value, path, sound => by
    obtain ⟨_, fresh, _, fieldSound, restSound⟩ := JsonFields.sound_cons sound
    have later : ∀ mem ∈ rest.marshal value.2,
        (JsonFields.cons name omitEmpty field rest).unknownAt path (StringLit.text mem.1)
          mem.2 = [] := by
      intro mem present
      have other : StringLit.text mem.1 ≠ name := by
        intro same
        exact fresh (same ▸ rest.mem_names_of_marshal value.2 mem present)
      rw [JsonFields.unknownAt, if_neg other]
      exact rest.unknownAt_marshal value.2 path restSound mem present
    intro mem present
    rw [JsonFields.marshal] at present
    split at present
    · exact later mem present
    · rcases mem_cons.mp present with rfl | present
      · simp only [JsonFields.unknownAt, text_quote, if_true]
        exact field.unknownFields_marshal value.1 _ fieldSound
      · exact later mem present

end

def JsonType.tight : {α : Type} → JsonType α → Bool
  | _, .float => false
  | _, .slice _ => false
  | _, .via inner _ _ _ _ => inner.tight
  | _, _ => true

theorem JsonType.eq_zero_of_isEmpty : ∀ {α : Type} (type : JsonType α) {value : α},
    type.tight = true → type.isEmpty value = true → value = type.zero
  | _, .string, _, _, empty => by simpa [JsonType.isEmpty, JsonType.zero] using empty
  | _, .int, _, _, empty => by simpa [JsonType.isEmpty, JsonType.zero] using empty
  | _, .bool, _, _, empty => by simpa [JsonType.isEmpty, JsonType.zero] using empty
  | _, .plainFloat, ⟨⟨negative, mantissa, exponent, _, _, normal⟩, signless⟩, _, empty => by
    obtain rfl : mantissa = 0 := by simpa [JsonType.isEmpty] using empty
    obtain rfl : negative = false := signless rfl
    obtain rfl : exponent = 0 := normal.resolve_right (by decide)
    rfl
  | _, .raw, _, _, empty => by simpa [JsonType.isEmpty, JsonType.zero] using empty
  | _, .pointer _, _, _, empty => by simpa [JsonType.isEmpty, JsonType.zero] using empty
  | _, .list _, _, _, empty => by simpa [JsonType.isEmpty, JsonType.zero] using empty
  | _, .struct _, _, _, empty => by simp [JsonType.isEmpty] at empty
  | _, .via inner wrap unwrap wrap_unwrap _, value, tight, empty => by
    have zero := eq_zero_of_isEmpty inner (by simpa [JsonType.tight] using tight)
      (by simpa [JsonType.isEmpty] using empty)
    rw [JsonType.zero, ← zero, wrap_unwrap]

mutual

def JsonType.exact : {α : Type} → JsonType α → Bool
  | _, .pointer element => element.exact
  | _, .list element => element.exact
  | _, .slice element => element.exact
  | _, .struct fields => fields.exact
  | _, .via inner _ _ _ _ => inner.exact
  | _, _ => true

def JsonFields.exact : {α : Type} → JsonFields α → Bool
  | _, .nil => true
  | _, .cons _ omitEmpty field rest => (!omitEmpty || field.tight) && field.exact && rest.exact

end

theorem JsonFields.normal_cons_of_tight {α β : Type} {field rest}
    (tight : field.tight = true) {first : α} (kept : field.normal first = first) (second : β) :
    (JsonFields.cons name omitEmpty field rest).normal (first, second) =
      (first, rest.normal second) := by
  rw [JsonFields.normal, kept]
  congr 1
  split
  · rename_i skipped
    exact (field.eq_zero_of_isEmpty tight (Bool.and_eq_true_iff.mp skipped).2).symm
  · rfl

mutual

theorem JsonType.normal_eq : ∀ {α : Type} (type : JsonType α) (value : α),
    type.exact = true → type.normal value = value
  | _, .string, _, _ => rfl
  | _, .int, _, _ => rfl
  | _, .bool, _, _ => rfl
  | _, .float, _, _ => rfl
  | _, .plainFloat, _, _ => rfl
  | _, .raw, _, _ => rfl
  | _, .pointer element, target, exact => by
    have each := fun value => element.normal_eq value (by simpa [JsonType.exact] using exact)
    cases target <;> simp [JsonType.normal, each]
  | _, .list element, items, exact => by
    have each : element.normal = id :=
      funext fun value => element.normal_eq value (by simpa [JsonType.exact] using exact)
    simp [JsonType.normal, each]
  | _, .slice element, items, exact => by
    have each : element.normal = id :=
      funext fun value => element.normal_eq value (by simpa [JsonType.exact] using exact)
    cases items <;> simp [JsonType.normal, each]
  | _, .struct fields, value, exact =>
    fields.normal_eq value (by simpa [JsonType.exact] using exact)
  | _, .via inner wrap unwrap wrap_unwrap _, value, exact => by
    rw [JsonType.normal, inner.normal_eq _ (by simpa [JsonType.exact] using exact), wrap_unwrap]

theorem JsonFields.normal_eq : ∀ {α : Type} (fields : JsonFields α) (value : α),
    fields.exact = true → fields.normal value = value
  | _, .nil, _, _ => rfl
  | _, .cons _ omitEmpty field rest, (first, second), exact => by
    simp only [JsonFields.exact, Bool.and_eq_true, Bool.or_eq_true, Bool.not_eq_true'] at exact
    obtain ⟨⟨tight, fieldExact⟩, restExact⟩ := exact
    rw [JsonFields.normal, field.normal_eq first fieldExact, rest.normal_eq second restExact]
    congr 1
    split
    · rename_i skipped
      obtain ⟨omitted, empty⟩ := Bool.and_eq_true_iff.mp skipped
      have kept := tight.resolve_left (by simp [omitted])
      exact (field.eq_zero_of_isEmpty kept empty).symm
    · rfl

end

end Agentloom.JsonText
