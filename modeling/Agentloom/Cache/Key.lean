import Agentloom.Dag.Authored
import Agentloom.Library.Framing
import Agentloom.Library.JsonDocument
import Agentloom.Library.Outcome

/-! The content keys of the response cache. Everything that bears on a response is a component of the
key, and the components are framed by their lengths, so equal keys mean the same request. -/

namespace Agentloom.Cache

open Framing Outcome Dag Dag.Authored List JsonText

/-- A Go string or byte slice: its length is an int. -/
abbrev Bytes := Sized UInt8 (2 ^ 63)

def utf8 (text : String) : List UInt8 := text.toByteArray.data.toList

/-- Every byte that is not part of a character reads as U+FFFD. -/
def runes : Nat → List UInt8 → List Char
  | 0, _ => []
  | _, [] => []
  | budget + 1, bytes =>
    match ByteArray.utf8DecodeChar? ⟨(bytes.take 4).toArray⟩ 0 with
    | some c => c :: runes budget (bytes.drop c.utf8Size)
    | none => '\uFFFD' :: runes budget (bytes.drop 1)

inductive JSONError where
  | malformed
  | numberOutOfRange
deriving DecidableEq

inductive KeyError where
  | unusable (message : String)
  | unknownScope (scope : String)
  | canonicalizing (part : String) (cause : JSONError)
  | outOfMemory
deriving DecidableEq

def unmarshal (raw : Bytes) : Except JSONError Document :=
  match parse (String.ofList (runes raw.val.length raw.val)) with
  | none => .error .malformed
  | some json => json.document.elim (.error .numberOutOfRange) .ok

def canonicalJSON (raw : Bytes) : Except JSONError String :=
  if raw.val.isEmpty then .ok "null" else (unmarshal raw).map fun v => v.json.text

def sized (text : String) : Except KeyError Bytes :=
  if fits : (utf8 text).length < 2 ^ 63 then .ok ⟨utf8 text, fits⟩ else .error .outOfMemory

def canonicalizing (part : String) (raw : Bytes) : Except KeyError Bytes := do
  sized (← (canonicalJSON raw).mapError (.canonicalizing part))

/-- A float64, all NaNs being one. -/
inductive Double where
  | finite (x : Float64)
  | infinite (negative : Bool)
  | nan

def itoa (n : Int64) : String := (NumberLit.ofInt64 n).text

def formatFloat : Double → String
  | .finite x => (x.lit .general).text
  | .infinite false => "+Inf"
  | .infinite true => "-Inf"
  | .nan => "NaN"

def noTemperature : String := "none"

def temperatureText (temperature : Option Double) : String :=
  temperature.elim noTemperature formatFloat

@[ext] structure PluginRef where
  kind : Bytes
  name : Bytes
  version : Bytes

def PluginRef.empty (r : PluginRef) : Bool := r.name.val.isEmpty || r.version.val.isEmpty

structure LLMRequest where
  model : Bytes
  system : Bytes
  temperature : Option Double
  maxTokens : Int64
  messages : Bytes
  tools : Bytes
  outputFormat : Bytes

inductive Request where
  | llm (r : LLMRequest)
  | tool (input : Bytes)
  | retrieve (query : Bytes) (topK : Int64)

structure KeyInput where
  schemaVersion : Int64
  executor : PluginRef
  plugin : PluginRef
  scope : Setting CacheScope
  runID : Bytes
  request : Option Request

def keySchemaVersion : Int64 := 1

namespace KeyInput

variable (input : KeyInput)

def effectiveScope : Setting CacheScope :=
  match input.scope with
  | .unset => .known .global
  | scope => scope

def sharing : Except KeyError (CacheScope × Bytes) :=
  match input.effectiveScope with
  | .known .global => return (.global, ⟨[], by decide⟩)
  | .known .run =>
    if input.runID.val.isEmpty then throw (.unusable "cache: run-scoped key requires a run id")
    else return (.run, input.runID)
  | scope => throw (.unknownScope scope.text)

end KeyInput

def scopeBytes (scope : CacheScope) : Bytes :=
  ⟨(Named.text scope).toUTF8.data.toList, by cases scope <;> decide⟩

def llmComponents (r : LLMRequest) : Except KeyError (List Bytes) := do
  let temp ← sized (temperatureText r.temperature)
  let msgs ← canonicalizing "messages" r.messages
  let tools ← canonicalizing "tools" r.tools
  let comps := [r.model, r.system, temp, ← sized (itoa r.maxTokens), msgs, tools]
  -- the last component stands only for a step that declares a format
  if r.outputFormat.val.isEmpty then return comps
  else return comps ++ [← canonicalizing "output_format" r.outputFormat]

def components : Request → Except KeyError (List Bytes)
  | .llm r => llmComponents r
  | .tool input => return [← canonicalizing "tool input" input]
  | .retrieve query topK => return [query, ← sized (itoa topK)]

/-- `sum` is the SHA-256 sum as hex digits. -/
def hashComponents (sum : List UInt8 → Digest) (comps : List Bytes) : Digest :=
  sum (frames lengthMark64 comps)

def header (input : KeyInput) (sharing : CacheScope × Bytes) : Except KeyError (List Bytes) :=
  return [← sized (itoa keySchemaVersion), ← sized (itoa input.schemaVersion), scopeBytes sharing.1,
    sharing.2, input.executor.kind, input.executor.name, input.executor.version, input.plugin.kind,
    input.plugin.name, input.plugin.version]

def key (sum : List UInt8 → Digest) (input : KeyInput) : Except KeyError Digest :=
  if input.executor.empty then
    throw (.unusable "cache: key input has no executor plugin identity")
  else if input.plugin.empty then
    throw (.unusable "cache: key input has no plugin identity")
  else
    match input.request with
    | none => throw (.unusable "cache: key input has no request body")
    | some request => do
      let sharing ← input.sharing
      let body ← components request
      return hashComponents sum ((← header input sharing) ++ body)

/-- What a raw text stands for; no text counts as null. -/
def Holds (raw : Bytes) (document : Document) : Prop :=
  if raw.val.isEmpty then document = .null else unmarshal raw = .ok document

def SameJSON (raw raw' : Bytes) : Prop := ∃ document, Holds raw document ∧ Holds raw' document

def Agrees : Request → Request → Prop
  | .llm r, .llm r' =>
    r.model = r'.model ∧ r.system = r'.system ∧ r.temperature = r'.temperature ∧
      r.maxTokens = r'.maxTokens ∧ SameJSON r.messages r'.messages ∧
      SameJSON r.tools r'.tools ∧ SameJSON r.outputFormat r'.outputFormat
  | .tool input, .tool input' => SameJSON input input'
  | .retrieve query topK, .retrieve query' topK' => query = query' ∧ topK = topK'
  | _, _ => False

structure SameEntry (input input' : KeyInput) : Prop where
  schemaVersion : input.schemaVersion = input'.schemaVersion
  executor : input.executor = input'.executor
  plugin : input.plugin = input'.plugin
  scope : input.effectiveScope = input'.effectiveScope
  runID : input.effectiveScope = .known .run → input.runID = input'.runID
  request : ∃ request request', input.request = some request ∧ input'.request = some request' ∧
    Agrees request request'

theorem utf8_inj {text text' : String} (same : utf8 text = utf8 text') : text = text' :=
  String.toByteArray_inj.mp (ByteArray.ext (Array.toList_inj.mp same))

theorem sized_ok (ok : sized text = .ok bytes) : utf8 text = bytes.val := by
  unfold sized at ok
  split at ok <;> cases ok
  rfl

theorem sized_inj (ok : sized text = .ok bytes) (ok' : sized text' = .ok bytes) : text = text' :=
  utf8_inj ((sized_ok ok).trans (sized_ok ok').symm)

theorem canonicalJSON_ok (ok : canonicalJSON raw = .ok text) :
    ∃ document, Holds raw document ∧ text = document.json.text := by
  unfold canonicalJSON at ok
  unfold Holds
  split
  · rename_i absent
    rw [if_pos absent] at ok
    cases ok
    exact ⟨.null, rfl, rfl⟩
  · rename_i present
    rw [if_neg present] at ok
    cases read : unmarshal raw with
    | error cause => simp [read, Except.map] at ok
    | ok document => exact ⟨document, rfl, by simpa [read, Except.map] using ok.symm⟩

theorem canonicalizing_inj (ok : canonicalizing part raw = .ok bytes)
    (ok' : canonicalizing part' raw' = .ok bytes) : SameJSON raw raw' := by
  obtain ⟨text, read, ok⟩ := bind_ok ok
  obtain ⟨text', read', ok'⟩ := bind_ok ok'
  obtain ⟨document, holds, rfl⟩ := canonicalJSON_ok (mapError_ok read)
  obtain ⟨document', holds', rfl⟩ := canonicalJSON_ok (mapError_ok read')
  rw [Document.text_inj (sized_inj ok ok')] at holds
  exact ⟨document', holds, holds'⟩

theorem itoa_inj (same : itoa m = itoa n) : m = n :=
  Option.some.inj (by rw [← NumberLit.toInt64?_ofInt64, NumberLit.text_inj same,
    NumberLit.toInt64?_ofInt64])

/-- What does not parse is not the spelling of a finite number. -/
theorem lit_text_ne (lit : NumberLit) (unparsed : parse text = none) : lit.text ≠ text := by
  rintro rfl
  have read : parse lit.text = some (.number lit) := parse_text (.number lit)
  simp [read] at unparsed

theorem formatFloat_ne (number : Double) : formatFloat number ≠ noTemperature := by
  cases number with
  | finite x => exact lit_text_ne _ (by decide)
  | infinite negative => cases negative <;> decide
  | nan => decide

theorem formatFloat_inj {x y : Double} (same : formatFloat x = formatFloat y) : x = y := by
  cases x with
  | finite x =>
    cases y with
    | finite y => rw [Float64.lit_inj (NumberLit.text_inj same)]
    | infinite negative => cases negative <;> exact absurd same (lit_text_ne _ (by decide))
    | nan => exact absurd same (lit_text_ne _ (by decide))
  | infinite negative =>
    cases y with
    | finite y => cases negative <;> exact absurd same.symm (lit_text_ne _ (by decide))
    | infinite negative' => cases negative <;> cases negative' <;> simp_all [formatFloat]
    | nan => cases negative <;> simp [formatFloat] at same
  | nan =>
    cases y with
    | finite y => exact absurd same.symm (lit_text_ne _ (by decide))
    | infinite negative => cases negative <;> simp [formatFloat] at same
    | nan => rfl

theorem temperatureText_inj {t t' : Option Double} (same : temperatureText t = temperatureText t') :
    t = t' := by
  cases t with
  | none =>
    cases t' with
    | none => rfl
    | some number' => exact absurd same.symm (formatFloat_ne number')
  | some number =>
    cases t' with
    | none => exact absurd same (formatFloat_ne number)
    | some number' => exact congrArg some (formatFloat_inj same)

theorem llmComponents_ok (ok : llmComponents r = .ok body) :
    ∃ temp tokens msgs tools format, sized (temperatureText r.temperature) = .ok temp ∧
      sized (itoa r.maxTokens) = .ok tokens ∧ canonicalizing "messages" r.messages = .ok msgs ∧
      canonicalizing "tools" r.tools = .ok tools ∧
      (r.outputFormat.val.isEmpty = false →
        canonicalizing "output_format" r.outputFormat = .ok format) ∧
      body = [r.model, r.system, temp, tokens, msgs, tools] ++
        if r.outputFormat.val.isEmpty then [] else [format] := by
  obtain ⟨temp, written, ok⟩ := bind_ok ok
  obtain ⟨msgs, readMsgs, ok⟩ := bind_ok ok
  obtain ⟨tools, readTools, ok⟩ := bind_ok ok
  obtain ⟨tokens, counted, ok⟩ := bind_ok ok
  by_cases absent : r.outputFormat.val.isEmpty = true
  · rw [if_pos absent] at ok
    cases ok
    exact ⟨temp, tokens, msgs, tools, msgs, written, counted, readMsgs, readTools,
      by simp [absent], by simp [absent]⟩
  · rw [if_neg absent] at ok
    obtain ⟨format, readFormat, ok⟩ := bind_ok ok
    cases ok
    exact ⟨temp, tokens, msgs, tools, format, written, counted, readMsgs, readTools,
      fun _ => readFormat, by simp [absent]⟩

/-- The number of components tells the kinds of request apart, and a declared format from none. -/
theorem agrees_of_components (ok : components request = .ok body)
    (ok' : components request' = .ok body) : Agrees request request' := by
  cases request with
  | llm r =>
    obtain ⟨_, _, _, _, format, temp, tokens, msgs, tools, isFormat, rfl⟩ := llmComponents_ok ok
    cases request' with
    | llm r' =>
      obtain ⟨_, _, _, _, format', temp', tokens', msgs', tools', isFormat', same⟩ :=
        llmComponents_ok ok'
      simp only [cons_append, nil_append, cons.injEq] at same
      obtain ⟨model, system, rfl, rfl, rfl, rfl, formats⟩ := same
      refine ⟨model, system, temperatureText_inj (sized_inj temp temp'),
        itoa_inj (sized_inj tokens tokens'), canonicalizing_inj msgs msgs',
        canonicalizing_inj tools tools', ?_⟩
      cases absent : r.outputFormat.val.isEmpty <;> cases absent' : r'.outputFormat.val.isEmpty <;>
        simp only [absent, absent', Bool.false_eq_true, if_true, if_false, cons.injEq, and_true,
          reduceCtorEq] at formats
      · subst formats
        exact canonicalizing_inj (isFormat absent) (isFormat' absent')
      · exact ⟨.null, by simp [Holds, absent], by simp [Holds, absent']⟩
    | tool input' =>
      obtain ⟨_, _, ok'⟩ := bind_ok ok'
      cases ok'
    | retrieve query' topK' =>
      obtain ⟨_, _, ok'⟩ := bind_ok ok'
      simp [pure, Except.pure] at ok'
  | tool input =>
    obtain ⟨_, read, ok⟩ := bind_ok ok
    cases ok
    cases request' with
    | llm r' =>
      obtain ⟨_, _, _, _, _, _, _, _, _, _, same⟩ := llmComponents_ok ok'
      cases same
    | tool input' =>
      obtain ⟨_, read', ok'⟩ := bind_ok ok'
      cases ok'
      exact canonicalizing_inj read read'
    | retrieve query' topK' =>
      obtain ⟨_, _, ok'⟩ := bind_ok ok'
      cases ok'
  | retrieve query topK =>
    obtain ⟨_, counted, ok⟩ := bind_ok ok
    cases ok
    cases request' with
    | llm r' =>
      obtain ⟨_, _, _, _, _, _, _, _, _, _, same⟩ := llmComponents_ok ok'
      simp at same
    | tool input' =>
      obtain ⟨_, _, ok'⟩ := bind_ok ok'
      cases ok'
    | retrieve query' topK' =>
      obtain ⟨_, counted', ok'⟩ := bind_ok ok'
      cases ok'
      exact ⟨rfl, itoa_inj (sized_inj counted counted')⟩

theorem sharing_ok (ok : KeyInput.sharing input = .ok sharing) :
    input.effectiveScope = .known sharing.1 ∧ (sharing.1 = .run → sharing.2 = input.runID) := by
  unfold KeyInput.sharing at ok
  split at ok
  · cases ok
    exact ⟨‹_›, nofun⟩
  · split at ok
    · cases ok
    · cases ok
      exact ⟨‹_›, fun _ => rfl⟩
  · cases ok

theorem key_ok {sum : List UInt8 → Digest} (ok : key sum input = .ok digest) :
    ∃ request sharing body heading, input.request = some request ∧ input.sharing = .ok sharing ∧
      components request = .ok body ∧ header input sharing = .ok heading ∧
      hashComponents sum (heading ++ body) = digest := by
  unfold key at ok
  split at ok
  · cases ok
  split at ok
  · cases ok
  split at ok
  · cases ok
  · rename_i request present
    obtain ⟨sharing, shared, ok⟩ := bind_ok ok
    obtain ⟨body, read, ok⟩ := bind_ok ok
    obtain ⟨heading, headed, ok⟩ := bind_ok ok
    exact ⟨request, sharing, body, heading, present, shared, read, headed, Except.ok.inj ok⟩

theorem header_ok (ok : header input sharing = .ok heading) :
    ∃ built version, sized (itoa input.schemaVersion) = .ok version ∧
      heading = [built, version, scopeBytes sharing.1, sharing.2, input.executor.kind,
        input.executor.name, input.executor.version, input.plugin.kind, input.plugin.name,
        input.plugin.version] := by
  obtain ⟨built, _, ok⟩ := bind_ok ok
  obtain ⟨version, counted, ok⟩ := bind_ok ok
  exact ⟨built, version, counted, (Except.ok.inj ok).symm⟩

theorem equal_keys_same_entry {sum : List UInt8 → Digest} (injective : Function.Injective sum)
    {input input' : KeyInput} {digest} (ok : key sum input = .ok digest)
    (ok' : key sum input' = .ok digest) : SameEntry input input' := by
  obtain ⟨request, sharing, body, _, present, shared, read, headed, rfl⟩ := key_ok ok
  obtain ⟨request', sharing', body', _, present', shared', read', headed', same⟩ := key_ok ok'
  obtain ⟨_, _, counted, rfl⟩ := header_ok headed
  obtain ⟨_, _, counted', rfl⟩ := header_ok headed'
  have framed := frames_injective _ (injective same)
  simp only [cons_append, nil_append, cons.injEq] at framed
  obtain ⟨-, rfl, scope, runID, kind, name, number, kind', name', number', rfl⟩ := framed
  obtain ⟨isScope, ofRun⟩ := sharing_ok shared
  obtain ⟨isScope', ofRun'⟩ := sharing_ok shared'
  have scopes : sharing'.1 = sharing.1 := by
    revert scope
    cases sharing'.1 <;> cases sharing.1 <;> decide
  exact {
    schemaVersion := itoa_inj (sized_inj counted counted')
    executor := .symm (PluginRef.ext kind name number)
    plugin := .symm (PluginRef.ext kind' name' number')
    scope := by rw [isScope, isScope', scopes]
    runID := by
      intro isRun
      have run : sharing.1 = .run := Setting.known.inj (isScope.symm.trans isRun)
      rw [← ofRun run, ← ofRun' (scopes.trans run), runID]
    request := ⟨request, request', present, present', agrees_of_components read read'⟩ }

def bytesOf (text : String) : Bytes := ⟨(utf8 text).take 1000, by simp⟩

def chatKey (scope : Setting CacheScope) (messages format : String) : KeyInput :=
  let ref := ⟨bytesOf "llm", bytesOf "mock", bytesOf "1"⟩
  { schemaVersion := 1
    executor := ref
    plugin := ref
    scope
    runID := bytesOf "r"
    request := some (.llm
      { model := bytesOf "m"
        system := bytesOf ""
        temperature := (Float64.ofRatio false 1 2).map .finite
        maxTokens := 100
        messages := bytesOf messages
        tools := bytesOf ""
        outputFormat := bytesOf format }) }

def plainChat : KeyInput :=
  chatKey .unset "[\x7b\"role\":\"user\",\"n\":1e2\x7d]" "\x7b\"a\":\"<\"\x7d"

/-- The same up to the order of the members, the spelling of numbers and letters, and blanks. -/
def respelledChat : KeyInput :=
  chatKey (.known .global) " [ \x7b\"n\": 7, \"n\": 100.0, \"role\": \"us\\u0065r\"\x7d ]"
    "\x7b\"a\":\"\\u003c\"\x7d"

theorem respelled_same_entry : SameEntry plainChat respelledChat := by
  have same : key id plainChat = key id respelledChat := by decide +kernel
  have keyed : (key id plainChat).isOk = true := by decide +kernel
  cases ok : key id plainChat with
  | error error =>
    rw [ok] at keyed
    cases keyed
  | ok digest => exact equal_keys_same_entry Function.injective_id ok (same ▸ ok)

end Agentloom.Cache
