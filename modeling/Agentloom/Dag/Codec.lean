import Agentloom.Dag.Authored
import Agentloom.Library.JsonWidth

/-! Decoding and encoding a definition document. The decoder reports every problem it finds with
the path of the offending value; the encoder writes the canonical text. -/

namespace Agentloom.Dag.Authored

open JsonText

abbrev Reading (α : Type) := α × List PathError

def jsonTypeOf : JsonValue → String
  | .null => "null"
  | .bool _ => "boolean"
  | .number _ => "number"
  | .string _ => "string"
  | .array _ => "array"
  | .object _ => "object"

def expected (kind : String) (value : JsonValue) (path : String) : List PathError :=
  [{ path, msg := "expected " ++ kind ++ ", got " ++ jsonTypeOf value }]

def missing (path : String) : List PathError := [{ path, msg := "required field is missing" }]

def decodeString (value : JsonValue) (path : String) : Reading String :=
  match value with
  | .string lit => (StringLit.text lit, [])
  | other => ("", expected "string" other path)

def decodeNumber {α : Type} (read : NumberLit → Option α) (kind : String) (value : JsonValue)
    (path : String) : Reading (Option α) :=
  match value with
  | .number lit =>
    match read lit with
    | some x => (some x, [])
    | none => (none, [{ path, msg := "expected " ++ kind ++ ", got " ++ lit.text }])
  | other => (none, expected kind other path)

def decodeFloat (value : JsonValue) (path : String) : Reading (Option Float64) :=
  decodeNumber Float64.ofLit "number" value path

def decodeInt (value : JsonValue) (path : String) : Reading (Option Int64) :=
  decodeNumber NumberLit.toInt64? "integer" value path

def decodeObjectMap (value : JsonValue) (path : String) : Reading (Option Members) :=
  match value with
  | .object members => (some members, [])
  | other => (none, expected "object" other path)

def decodeArray (value : JsonValue) (path : String) : Reading (Option (List JsonValue)) :=
  match value with
  | .array items => (some items, [])
  | other => (none, expected "array" other path)

def optional {α : Type} (members : Members) (key : String) (absent : α)
    (decode : JsonValue → Reading α) : Reading α :=
  match Members.get members key with
  | some value => decode value
  | none => (absent, [])

def required {α : Type} (members : Members) (key path : String) (absent : α)
    (decode : JsonValue → Reading α) : Reading α :=
  match Members.get members key with
  | some value => decode value
  | none => (absent, missing path)

def unknownKeys (members : Members) (known : List String) (render : String → String) :
    List PathError :=
  (Members.sortedKeys members).flatMap fun key =>
    if known.contains key then [] else [{ path := render key, msg := "unknown field" }]

def joinEnum (α : Type) [Named α] : String :=
  ", ".intercalate ((Named.all : List α).map Named.text)

def unknownSetting {α : Type} [Named α] (label : String) (setting : Setting α) (path : String) :
    List PathError :=
  [{ path
     msg := "unknown " ++ label ++ " " ++ quote setting.text ++ " (expected one of: " ++
       joinEnum α ++ ")" }]

def checkSetting {α : Type} [Named α] (label : String) (setting : Setting α) (path : String) :
    List PathError :=
  match setting with
  | .other _ => unknownSetting label setting path
  | _ => []

/-- Elements of a list have to be of the closed set, an empty text included. -/
def checkMembership {α : Type} [Named α] (label : String) (settings : List (Setting α))
    (path : String) : List PathError :=
  settings.zipIdx.flatMap fun (setting, i) =>
    match setting with
    | .known _ => []
    | _ => unknownSetting label setting (path ++ "[" ++ toString i ++ "]")

def decodeSetting {α : Type} [Named α] (label : String) (value : JsonValue) (path : String) :
    Reading (Setting α) :=
  match value with
  | .string lit =>
    let setting := Setting.ofText (StringLit.text lit)
    (setting, match setting with
      | .known _ => []
      | _ => unknownSetting label setting path)
  | other => (.unset, expected "string" other path)

def addUnmarshalErr (path : String) (mismatch : Mismatch) : PathError :=
  { path := if mismatch.field.isEmpty then path else path ++ "." ++ ".".intercalate mismatch.field
    msg := "expected " ++ mismatch.expected ++ ", got " ++ mismatch.found }

def strictUnmarshal {α : Type} (type : JsonType α) (value : JsonValue) (path : String) :
    Reading α :=
  match value with
  | .object members =>
    let read := type.unmarshal (.object members) type.zero
    (read.1, type.unknownFields path (.object members) ++
      (read.2.map (addUnmarshalErr path)).toList)
  | other => (type.zero, expected "object" other path)

def checkContextEnums (context : ContextSpec) (path : String) : List PathError :=
  (context.sources.zipIdx.flatMap fun (source, i) =>
    checkSetting "context source kind" source.kind
        (path ++ ".sources[" ++ toString i ++ "].kind") ++
      checkSetting "missing-source policy" source.onMissing
        (path ++ ".sources[" ++ toString i ++ "].on_missing")) ++
    context.compaction.zipIdx.flatMap fun (strategy, i) =>
      checkSetting "compaction strategy" strategy.strategy
        (path ++ ".compaction[" ++ toString i ++ "].strategy")

def checkCacheEnums (cache : CachePolicy) (path : String) : List PathError :=
  checkSetting "cache mode" cache.mode (path ++ ".mode") ++
    checkSetting "cache scope" cache.scope (path ++ ".scope")

def checkRetryEnums (retry : RetryPolicy) (path : String) : List PathError :=
  checkSetting "jitter mode" retry.jitter (path ++ ".jitter") ++
    checkMembership "error class" (retry.retryOn.getD []) (path ++ ".retry_on")

def decodeBlock {α : Type} (type : JsonType α) (check : α → String → List PathError)
    (value : JsonValue) (path : String) : Reading α :=
  let read := strictUnmarshal type value path
  (read.1, read.2 ++ check read.1 path)

def unchecked {α : Type} (_ : α) (_ : String) : List PathError := []

def decodeContext (value : JsonValue) (path : String) : Reading ContextSpec :=
  decodeBlock contextSpec checkContextEnums value path

def decodeExpansion (value : JsonValue) (path : String) : Reading ExpansionPolicy :=
  decodeBlock expansionPolicy unchecked value path

def decodeValidation (value : JsonValue) (path : String) : Reading ValidationPolicy :=
  decodeBlock validationPolicy unchecked value path

def decodeBlackboard (value : JsonValue) (path : String) : Reading BlackboardPolicy :=
  decodeBlock blackboardPolicy unchecked value path

def decodeBudget (value : JsonValue) (path : String) : Reading StepBudget :=
  decodeBlock stepBudget unchecked value path

def decodeCache (value : JsonValue) (path : String) : Reading CachePolicy :=
  decodeBlock cachePolicy checkCacheEnums value path

def decodeRetry (value : JsonValue) (path : String) : Reading RetryPolicy :=
  decodeBlock retryPolicy checkRetryEnums value path

def checkMapEnums (config : MapConfig) (path : String) : List PathError :=
  checkSetting "item-failure policy" config.onItemFailure (path ++ ".on_item_failure")

def checkHumanApprovalEnums (config : HumanApprovalConfig) (path : String) : List PathError :=
  checkMembership "decision" config.allowedDecisions (path ++ ".allowed_decisions") ++
    checkSetting "timeout policy" config.onTimeout (path ++ ".on_timeout") ++
    checkSetting "reject policy" config.onReject (path ++ ".on_reject")

def checkJoinEnums (config : JoinConfig) (path : String) : List PathError :=
  match config.mode with
  | .other mode =>
    [{ path := path ++ ".mode"
       msg := "unknown join mode " ++ quote mode.val ++ " (expected " ++ quote "all" ++ " or " ++
         quote "any" ++ ")" }]
  | _ => []

def checkConfigEnums : (type : StepType) → ConfigOf type → String → List PathError
  | .map, config, path => checkMapEnums config path
  | .humanApproval, config, path => checkHumanApprovalEnums config path
  | .join, config, path => checkJoinEnums config path
  | _, _, _ => []

def decodeStepConfig (type : StepType) (value : JsonValue) (path : String) :
    Reading (Option (ConfigOf type)) :=
  match value with
  | .object members =>
    let read := decodeBlock (stepConfigTypes type) (checkConfigEnums type) (.object members) path
    (some read.1, read.2)
  | other => (none, expected "object" other path)

def stepTypes : List StepType :=
  [.llm, .tool, .retrieve, .map, .gather, .planner, .agent, .humanApproval, .join, .branch, .noop,
    .echo, .sleep, .failNTimes, .counter, .effectfulEcho, .blackboardWrite]

def stepTypeOf (text : String) : StepType :=
  (stepTypes.find? fun type => type.text = text).getD (.unregistered text)

def decodeStepType (value : JsonValue) (path : String) : Reading StepType :=
  match value with
  | .string lit =>
    let type := stepTypeOf (StringLit.text lit)
    (type, if type.registered then []
      else [{ path, msg := "unknown step type " ++ quote (StringLit.text lit) }])
  | other => (.unregistered "", expected "string" other path)

def present {α : Type} (decode : JsonValue → String → Reading α) (path : String)
    (value : JsonValue) : Reading (Option α) :=
  let read := decode value path
  (some read.1, read.2)

def stepKeys : List String :=
  ["id", "type", "config", "retry", "timeout", "cache", "budget", "validation", "blackboard",
    "context"]

def decodeTypedStep (members : Members) (path : String) (id : Reading String)
    (type : Reading StepType) : Reading Step :=
  let config := optional members "config" none fun value =>
    if type.1.registered then decodeStepConfig type.1 value (path ++ ".config") else (none, [])
  let retry := optional members "retry" none (present decodeRetry (path ++ ".retry"))
  let timeout := optional members "timeout" ""
    (fun value => decodeString value (path ++ ".timeout"))
  let cache := optional members "cache" none (present decodeCache (path ++ ".cache"))
  let budget := optional members "budget" none (present decodeBudget (path ++ ".budget"))
  let validation := optional members "validation" none
    (present decodeValidation (path ++ ".validation"))
  let blackboard := optional members "blackboard" none
    (present decodeBlackboard (path ++ ".blackboard"))
  let context := optional members "context" none (present decodeContext (path ++ ".context"))
  ({ id := id.1
     type := type.1
     config := config.1
     retry := retry.1
     timeout := timeout.1
     cache := cache.1
     budget := budget.1
     validation := validation.1
     blackboard := blackboard.1
     context := context.1 },
    id.2 ++ type.2 ++ config.2 ++ retry.2 ++ timeout.2 ++ cache.2 ++ budget.2 ++
      validation.2 ++ blackboard.2 ++ context.2 ++
      unknownKeys members stepKeys (fun key => path ++ "." ++ key))

def decodeStep (value : JsonValue) (path : String) : Reading Step :=
  match decodeObjectMap value path with
  | (none, errors) => ({}, errors)
  | (some members, _) =>
    decodeTypedStep members path
      (required members "id" (path ++ ".id") ""
        (fun value => decodeString value (path ++ ".id")))
      (required members "type" (path ++ ".type") (.unregistered "")
        (fun value => decodeStepType value (path ++ ".type")))

def decodeElements {α : Type} (decode : JsonValue → String → Reading α) (name : String)
    (value : JsonValue) : Reading (List α) :=
  match decodeArray value name with
  | (none, errors) => ([], errors)
  | (some items, _) =>
    let read := items.zipIdx.map fun (item, i) => decode item (name ++ "[" ++ toString i ++ "]")
    (read.map Prod.fst, read.flatMap Prod.snd)

def decodeSteps (value : JsonValue) : Reading (List Step) := decodeElements decodeStep "steps" value

def checkEdgeEnums (edge : Edge) (path : String) : List PathError :=
  (match edge.type with
    | .other type =>
      [{ path := path ++ ".type"
         msg := "unknown edge type " ++ quote type.val ++ " (expected " ++ quote "normal" ++
           " or " ++ quote "loop" ++ ")" }]
    | _ => []) ++
    checkSetting "decision" edge.decision (path ++ ".decision")

/-- An edge without a type is a normal edge; a loop edge without a policy proceeds when it is
exhausted. -/
def Edge.withDefaults (edge : Edge) : Edge :=
  let type := if edge.type = .unset then .known .normal else edge.type
  { edge with
    type := type,
    onExhausted :=
      if type = .known .loop ∧ edge.onExhausted = .unset then .known .proceed
      else edge.onExhausted }

def decodeEdge (value : JsonValue) (path : String) : Reading Edge :=
  match decodeObjectMap value path with
  | (none, errors) => ({}, errors)
  | (some members, _) =>
    let read := strictUnmarshal edge (.object members) path
    (read.1.withDefaults,
      (["from", "to"].flatMap fun key =>
        if (Members.get members key).isSome then [] else missing (path ++ "." ++ key)) ++
        read.2 ++ checkEdgeEnums read.1.withDefaults path)

def decodeEdges (value : JsonValue) : Reading (List Edge) := decodeElements decodeEdge "edges" value

/-- The entries of a named library, in the order of their names; an entry that cannot be read at
all is left out. -/
def decodeLibrary {α : Type} (decode : JsonValue → String → Reading (Option α)) (name : String)
    (value : JsonValue) : Reading (SortedMap α) :=
  match decodeObjectMap value name with
  | (none, errors) => ({}, errors)
  | (some members, _) =>
    let read := fun key =>
      decode ((Members.get members key).getD .null) (name ++ "." ++ key)
    ({ entries := (Members.sortedKeys members).filterMap fun key =>
        (read key).1.map fun entry => (key, entry)
       sorted := by
        rw [List.pairwise_map, List.pairwise_filterMap]
        refine (Members.sortedKeys_pairwise members).imp ?_
        intro a b less c first d second
        obtain ⟨_, _, rfl⟩ := Option.map_eq_some_iff.mp first
        obtain ⟨_, _, rfl⟩ := Option.map_eq_some_iff.mp second
        exact less },
      (Members.sortedKeys members).flatMap fun key => (read key).2)

def checkParamSpec (spec : ParamSpec) (path : String) : List PathError :=
  match spec.type with
  | .unset => missing (path ++ ".type")
  | .known _ => []
  | .other _ => unknownSetting "param type" spec.type (path ++ ".type")

def decodeParams (value : JsonValue) : Reading (SortedMap ParamSpec) :=
  decodeLibrary (fun value path => present (decodeBlock paramSpec checkParamSpec) path value)
    "params" value

def decodeTemplate (value : JsonValue) (path : String) : Reading (Option Template) :=
  match decodeObjectMap value path with
  | (none, errors) => (none, errors)
  | (some members, _) =>
    let steps := required members "steps" (path ++ ".steps") [] decodeSteps
    let edges := optional members "edges" [] decodeEdges
    (some { steps := steps.1, edges := edges.1 },
      steps.2 ++ edges.2 ++ unknownKeys members ["steps", "edges"] (fun key => path ++ "." ++ key))

def decodeTemplates (value : JsonValue) : Reading (SortedMap Template) :=
  decodeLibrary decodeTemplate "templates" value

def checkAgentDef (agent : AgentDef) (path : String) : List PathError :=
  match agent.context with
  | some context => checkContextEnums context (path ++ ".context")
  | none => []

def decodeAgents (value : JsonValue) : Reading (SortedMap AgentDef) :=
  decodeLibrary (fun value path => present (decodeBlock agentDef checkAgentDef) path value)
    "agents" value

def maxDefinitionBytes : Nat := 1048576

def currentSchemaVersion : Int64 := 1

inductive DecodeProblem where
  | oversized (bytes : Nat)
  | invalidJSON
  | problem (error : PathError)
deriving DecidableEq, Repr

def topLevelKeys : List String :=
  ["schema_version", "name", "description", "on_failure", "max_wall_clock", "budget_usd",
    "on_budget_exceeded", "expansion", "templates", "agents", "params", "steps", "edges", "ui"]

def rawGet (fields : List (StringLit × RawValue)) (key : String) : Option RawValue :=
  ((fields.filter fun field => StringLit.text field.1 = key).getLast?).map Prod.snd

/-- The builder's block is kept as it was written and only has to be an object. -/
def decodeUI (fields : List (StringLit × RawValue)) : Reading String :=
  match rawGet fields "ui" with
  | none => ("", [])
  | some raw =>
    match raw.json with
    | .object _ => (String.ofList raw.chars, [])
    | other => ("", expected "object" other "ui")

def decodeFields (version : Int64) (fields : List (StringLit × RawValue)) : Reading Definition :=
  let members : Members := fields.map fun field => (field.1, field.2.json)
  let name := required members "name" "name" "" (fun value => decodeString value "name")
  let description := optional members "description" ""
    (fun value => decodeString value "description")
  let onFailure := optional members "on_failure" .unset
    (fun value => decodeSetting "failure policy" value "on_failure")
  let maxWallClock := optional members "max_wall_clock" ""
    (fun value => decodeString value "max_wall_clock")
  let budgetUSD := optional members "budget_usd" none
    (fun value => decodeFloat value "budget_usd")
  let onBudgetExceeded := optional members "on_budget_exceeded" .unset
    (fun value => decodeSetting "budget policy" value "on_budget_exceeded")
  let expansion := optional members "expansion" none (present decodeExpansion "expansion")
  let templates := optional members "templates" {} decodeTemplates
  let agents := optional members "agents" {} decodeAgents
  let params := optional members "params" {} decodeParams
  let steps := required members "steps" "steps" [] decodeSteps
  let edges := required members "edges" "edges" [] decodeEdges
  let ui := decodeUI fields
  ({ schemaVersion := version
     name := name.1
     description := description.1
     onFailure := onFailure.1
     maxWallClock := maxWallClock.1
     budgetUSD := budgetUSD.1
     onBudgetExceeded := onBudgetExceeded.1
     expansion := expansion.1
     templates := templates.1
     agents := agents.1
     params := params.1
     steps := steps.1
     edges := edges.1
     ui := ui.1 },
    name.2 ++ description.2 ++ onFailure.2 ++ maxWallClock.2 ++ budgetUSD.2 ++
      onBudgetExceeded.2 ++ expansion.2 ++ templates.2 ++ agents.2 ++ params.2 ++ steps.2 ++
      edges.2 ++ ui.2 ++ unknownKeys members topLevelKeys id)

def decodeVersion (fields : List (StringLit × RawValue)) : Except PathError Int64 :=
  match rawGet fields "schema_version" with
  | none => .error { path := "schema_version", msg := "required field is missing" }
  | some raw =>
    match decodeInt raw.json "schema_version" with
    | (some version, _) =>
      if version = currentSchemaVersion then .ok version
      else
        .error
          { path := "schema_version"
            msg := "unsupported schema_version " ++ toString version ++
              " (this engine supports " ++ toString currentSchemaVersion ++ ")" }
    | (none, errors) => .error (errors.headD { path := "schema_version", msg := "" })

def decode (data : String) : Except (List DecodeProblem) Definition :=
  if byteCount data.toList > maxDefinitionBytes then .error [.oversized (byteCount data.toList)]
  else
    match parseRawObject data with
    | none =>
      match parse data with
      | none => .error [.invalidJSON]
      | some value => .error ((expected "object" value "").map .problem)
    | some fields =>
      match decodeVersion fields with
      | .error error => .error [.problem error]
      | .ok version =>
        match decodeFields version fields with
        | (definition, []) => .ok definition
        | (_, errors) => .error (errors.map .problem)

def stepFields (type : StepType) : JsonFields (String × String × Option (ConfigOf type) ×
    Option RetryPolicy × String × Option CachePolicy × Option StepBudget ×
    Option ValidationPolicy × Option BlackboardPolicy × Option ContextSpec × Unit) :=
  .cons "id" false .string
  (.cons "type" false .string
  (.cons "config" true (.pointer (stepConfigTypes type))
  (.cons "retry" true (.pointer retryPolicy)
  (.cons "timeout" true .string
  (.cons "cache" true (.pointer cachePolicy)
  (.cons "budget" true (.pointer stepBudget)
  (.cons "validation" true (.pointer validationPolicy)
  (.cons "blackboard" true (.pointer blackboardPolicy)
  (.cons "context" true (.pointer contextSpec)
  .nil)))))))))

def Step.fields (step : Step) : String × String × Option (ConfigOf step.type) ×
    Option RetryPolicy × String × Option CachePolicy × Option StepBudget ×
    Option ValidationPolicy × Option BlackboardPolicy × Option ContextSpec × Unit :=
  (step.id, step.type.text, step.config, step.retry, step.timeout, step.cache, step.budget,
    step.validation, step.blackboard, step.context, ())

def Step.members (step : Step) : Members := (stepFields step.type).marshal step.fields

def Step.json (step : Step) : JsonValue := .object step.members

def Edge.withoutDefaults (edge : Edge) : Edge :=
  { edge with
    type := if edge.type = .known .normal then .unset else edge.type,
    onExhausted := if edge.onExhausted = .known .proceed then .unset else edge.onExhausted }

def Edge.json (edge : Edge) : JsonValue := Authored.edge.marshal edge.withoutDefaults

def templateFields : JsonFields (Option JsonValue × Option JsonValue × Unit) :=
  .cons "steps" true .raw (.cons "edges" true .raw .nil)

def unlessEmpty {α : Type} (items : List α) (value : JsonValue) : Option JsonValue :=
  if items.isEmpty then none else some value

def stepsJson (steps : List Step) : JsonValue := .array (steps.map Step.json)

def edgesJson (edges : List Edge) : JsonValue := .array (edges.map Edge.json)

def Template.fields (template : Template) : Option JsonValue × Option JsonValue × Unit :=
  (some (stepsJson template.steps), unlessEmpty template.edges (edgesJson template.edges), ())

def Template.json (template : Template) : JsonValue :=
  .object (templateFields.marshal template.fields)

def SortedMap.json {α : Type} (write : α → JsonValue) (map : SortedMap α) : JsonValue :=
  .object (map.entries.map fun entry => (JsonText.quote entry.1, write entry.2))

def SortedMap.field {α : Type} (write : α → JsonValue) (map : SortedMap α) : Option JsonValue :=
  unlessEmpty map.entries (map.json write)

def topFields : JsonFields (Int64 × String × String × Setting FailurePolicy × String ×
    Option Float64 × Setting BudgetPolicy × Option ExpansionPolicy × Option JsonValue ×
    Option JsonValue × Option JsonValue × Option JsonValue × Option JsonValue × Unit) :=
  .cons "schema_version" false .int
  (.cons "name" false .string
  (.cons "description" true .string
  (.cons "on_failure" true (.setting FailurePolicy)
  (.cons "max_wall_clock" true .string
  (.cons "budget_usd" true (.pointer .float)
  (.cons "on_budget_exceeded" true (.setting BudgetPolicy)
  (.cons "expansion" true (.pointer expansionPolicy)
  (.cons "templates" true .raw
  (.cons "agents" true .raw
  (.cons "params" true .raw
  (.cons "steps" true .raw
  (.cons "edges" true .raw
  .nil))))))))))))

def Definition.fields (definition : Definition) : Int64 × String × String ×
    Setting FailurePolicy × String × Option Float64 × Setting BudgetPolicy ×
    Option ExpansionPolicy × Option JsonValue × Option JsonValue × Option JsonValue ×
    Option JsonValue × Option JsonValue × Unit :=
  (definition.schemaVersion, definition.name, definition.description, definition.onFailure,
    definition.maxWallClock, definition.budgetUSD, definition.onBudgetExceeded,
    definition.expansion, definition.templates.field Template.json,
    definition.agents.field agentDef.marshal, definition.params.field paramSpec.marshal,
    some (stepsJson definition.steps), some (edgesJson definition.edges), ())

def Definition.members (definition : Definition) : Members := topFields.marshal definition.fields

def Definition.texts (definition : Definition) : List (StringLit × List Char) :=
  (definition.members.map fun member => (member.1, member.2.chars)) ++
    if definition.ui = "" then [] else [(JsonText.quote "ui", definition.ui.toList)]

def encode (definition : Definition) : Except String String :=
  if definition.ui ≠ "" ∧ (parse definition.ui).isNone then
    .error "dag: Encode: ui block is not valid JSON"
  else .ok (String.ofList (textObjectChars definition.texts))

end Agentloom.Dag.Authored
