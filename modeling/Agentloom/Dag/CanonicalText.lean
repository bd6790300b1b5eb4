import Agentloom.Dag.RoundTrip

/-! The canonical text of a definition: what a decoded definition satisfies, how long its text is,
and when decoding the text gives the definition back. -/

namespace Agentloom.Dag.Authored

open JsonText List

variable {members : Members} {key : String}

theorem optional_holds {α : Type} (P : α → Prop) {absent decode}
    (clean : (optional members key absent decode).2 = []) (base : P absent)
    (each : ∀ value, (decode value).2 = [] → P (decode value).1) :
    P (optional members key absent decode).1 := by
  rw [optional] at clean ⊢
  cases found : Members.get members key with
  | none => exact base
  | some value =>
    rw [found] at clean
    exact each value clean

variable {path : String}

theorem required_holds {α : Type} (P : α → Prop) {absent decode}
    (clean : (required members key path absent decode).2 = [])
    (each : ∀ value, (decode value).2 = [] → P (decode value).1) :
    P (required members key path absent decode).1 := by
  rw [required] at clean ⊢
  cases found : Members.get members key with
  | none => simp [found, missing] at clean
  | some value =>
    rw [found] at clean
    exact each value clean

variable {value : JsonValue}

theorem decodeBlock_clean {α : Type} {type} {check : α → String → List PathError}
    (clean : (decodeBlock type check value path).2 = []) :
    check (decodeBlock type check value path).1 path = [] :=
  (append_eq_nil_iff.mp clean).2

theorem optional_block {α : Type} {type} {check : α → String → List PathError}
    (clean : (optional members key none (present (decodeBlock type check) path)).2 = [])
    (anywhere : ∀ block first second, check block first = [] → check block second = []) :
    ∀ block other, (optional members key none (present (decodeBlock type check) path)).1 =
      some block → check block other = [] := by
  refine optional_holds (fun read => ∀ block other, read = some block → check block other = [])
    clean (by simp) ?_
  intro value clean block other same
  cases same
  exact anywhere _ path other (decodeBlock_clean clean)

theorem decodeStepType_clean (clean : (decodeStepType value path).2 = []) :
    (decodeStepType value path).1.registered = true := by
  cases value with
  | string lit =>
    simp only [decodeStepType] at clean ⊢
    by_contra unregistered
    simp [unregistered] at clean
  | _ => cases clean

theorem decodeStepConfig_clean {type : StepType}
    (clean : (decodeStepConfig type value path).2 = []) :
    ∀ config other, (decodeStepConfig type value path).1 = some config →
      checkConfigEnums type config other = [] := by
  cases value with
  | object members =>
    intro config other same
    cases same
    exact checkConfigEnums_path other (decodeBlock_clean clean)
  | _ => cases clean

theorem decodeTypedStep_clean {id} {type : Reading StepType} (registered : type.1.registered = true)
    (clean : (decodeTypedStep members path id type).2 = []) :
    (decodeTypedStep members path id type).1.Admitted := by
  simp only [decodeTypedStep, append_eq_nil_iff, and_assoc] at clean
  obtain ⟨-, -, config, retry, -, cache, -, -, -, context, -⟩ := clean
  refine
    { registered := registered
      config := ?_
      retry := optional_block retry fun _ _ other => checkRetryEnums_path other
      cache := optional_block cache fun _ _ other => checkCacheEnums_path other
      context := optional_block context fun _ _ other => checkContextEnums_path other }
  refine optional_holds
    (fun read => ∀ config other, read = some config → checkConfigEnums type.1 config other = [])
    config (by simp) ?_
  intro value clean
  rw [if_pos registered] at clean ⊢
  exact decodeStepConfig_clean clean

theorem decodeStep_clean (clean : (decodeStep value path).2 = []) :
    (decodeStep value path).1.Admitted := by
  cases value with
  | object members =>
    refine decodeTypedStep_clean ?_ clean
    simp only [decodeStep, decodeObjectMap, decodeTypedStep, append_eq_nil_iff, and_assoc] at clean
    obtain ⟨-, type, -⟩ := clean
    exact required_holds (fun type => type.registered = true) type fun value => decodeStepType_clean
  | _ => cases clean

theorem Edge.withDefaults_admitted {edge : Edge}
    (checked : checkEdgeEnums edge.withDefaults path = []) : edge.withDefaults.Admitted := by
  obtain ⟨known, decision⟩ := checkEdgeEnums_eq_nil.mp checked
  refine ⟨?_, ?_, decision⟩
  · cases given : edge.type with
    | unset => exact ⟨.normal, by simp [Edge.withDefaults, given]⟩
    | known type => exact ⟨type, by simp [Edge.withDefaults, given]⟩
    | other text => simp [Edge.withDefaults, given, Setting.isOther] at known
  · intro loop
    by_cases unset : edge.onExhausted = .unset <;>
      simp_all [Edge.withDefaults]

theorem decodeEdge_clean (clean : (decodeEdge value path).2 = []) :
    (decodeEdge value path).1.Admitted := by
  cases value with
  | object members => exact Edge.withDefaults_admitted (append_eq_nil_iff.mp clean).2
  | _ => cases clean

theorem decodeElements_clean {α : Type} {P : α → Prop} {decode name}
    (each : ∀ value path, (decode value path).2 = [] → P (decode value path).1)
    (clean : (decodeElements decode name value).2 = []) :
    ∀ item ∈ (decodeElements decode name value).1, P item := by
  cases value with
  | array items =>
    intro item mem
    have quiet := flatMap_eq_nil_iff.mp clean
    obtain ⟨read, inside, rfl⟩ := mem_map.mp mem
    have silent := quiet read inside
    obtain ⟨_, _, rfl⟩ := mem_map.mp inside
    exact each _ _ silent
  | _ => cases clean

theorem decodeSteps_clean (value : JsonValue) (clean : (decodeSteps value).2 = []) :
    ∀ step ∈ (decodeSteps value).1, step.Admitted :=
  decodeElements_clean (fun _ _ => decodeStep_clean) clean

theorem decodeEdges_clean (value : JsonValue) (clean : (decodeEdges value).2 = []) :
    ∀ edge ∈ (decodeEdges value).1, edge.Admitted :=
  decodeElements_clean (fun _ _ => decodeEdge_clean) clean

theorem decodeLibrary_clean {α : Type} {P : α → Prop}
    {decode : JsonValue → String → Reading (Option α)}
    (each : ∀ value path, (decode value path).2 = [] → ∀ entry,
      (decode value path).1 = some entry → P entry)
    (clean : (decodeLibrary decode name value).2 = []) :
    ∀ entry ∈ (decodeLibrary decode name value).1.entries, P entry.2 := by
  cases value with
  | object members =>
    intro entry mem
    have quiet := flatMap_eq_nil_iff.mp clean
    obtain ⟨key, listed, found⟩ := mem_filterMap.mp mem
    obtain ⟨_, given, rfl⟩ := Option.map_eq_some_iff.mp found
    exact each _ _ (quiet key listed) _ given
  | _ => cases clean

theorem decodeTemplate_clean (clean : (decodeTemplate value path).2 = []) :
    ∀ template, (decodeTemplate value path).1 = some template → template.Admitted := by
  cases value with
  | object members =>
    intro template same
    cases same
    simp only [decodeTemplate, decodeObjectMap, append_eq_nil_iff] at clean
    exact
      { steps := required_holds (fun steps => ∀ step ∈ steps, step.Admitted) clean.1.1
          decodeSteps_clean
        edges := optional_holds (fun edges => ∀ edge ∈ edges, edge.Admitted) clean.1.2 (by simp)
          decodeEdges_clean }
  | _ => cases clean

theorem decodeAgent_clean
    (clean : (present (decodeBlock agentDef checkAgentDef) path value).2 = []) :
    ∀ agent, (present (decodeBlock agentDef checkAgentDef) path value).1 = some agent →
      agent.Admitted := by
  intro agent same
  cases same
  have checked := decodeBlock_clean clean
  intro context other given
  simp only [checkAgentDef, given] at checked
  exact checkContextEnums_path other checked

theorem decodeParam_clean
    (clean : (present (decodeBlock paramSpec checkParamSpec) path value).2 = []) :
    ∀ spec, (present (decodeBlock paramSpec checkParamSpec) path value).1 = some spec →
      spec.Admitted := by
  intro spec same
  cases same
  have checked := decodeBlock_clean clean
  generalize (decodeBlock paramSpec checkParamSpec value path).1 = spec at checked
  cases given : spec.type with
  | known type => exact ⟨type, given⟩
  | unset => simp [checkParamSpec, given, missing] at checked
  | other text => simp [checkParamSpec, given, unknownSetting] at checked

theorem decodeSetting_clean {α : Type} [Named α]
    (clean : (decodeSetting (α := α) label value path).2 = []) :
    (decodeSetting (α := α) label value path).1.isOther = false := by
  cases value with
  | string lit =>
    simp only [decodeSetting] at clean ⊢
    cases read : (Setting.ofText (StringLit.text lit) : Setting α) with
    | other text => simp [read, unknownSetting] at clean
    | _ => rfl
  | _ => cases clean

variable {fields : List (StringLit × RawValue)}

theorem decodeUI_clean (spelled : ∀ field ∈ fields, Spells field.2.json field.2.chars) :
    (decodeUI fields).1 = "" ∨
      ∃ members, Spells (.object members) (decodeUI fields).1.toList := by
  cases found : rawGet fields "ui" with
  | none => simp [decodeUI, found]
  | some raw =>
    obtain ⟨field, last, rfl⟩ := Option.map_eq_some_iff.mp found
    have spells := spelled field (mem_of_mem_filter (mem_of_getLast? last))
    cases json : field.2.json with
    | object members =>
      right
      exact ⟨members, by simpa [decodeUI, found, json] using spells⟩
    | _ => simp [decodeUI, found, json]

theorem decodeFields_clean {version} (current : version = currentSchemaVersion)
    (spelled : ∀ field ∈ fields, Spells field.2.json field.2.chars)
    (clean : (decodeFields version fields).2 = []) : (decodeFields version fields).1.Admitted := by
  simp only [decodeFields, append_eq_nil_iff, and_assoc] at clean
  obtain ⟨-, -, onFailure, -, -, onBudgetExceeded, -, templates, agents, params, steps, edges, -⟩ := clean
  exact
    { version := current
      onFailure := optional_holds (fun policy => policy.isOther = false) onFailure rfl
        fun _ => decodeSetting_clean
      onBudgetExceeded := optional_holds (fun policy => policy.isOther = false) onBudgetExceeded rfl
        fun _ => decodeSetting_clean
      templates := optional_holds (fun library : SortedMap Template => ∀ entry ∈ library.entries,
        entry.2.Admitted) templates (by simp) fun _ => decodeLibrary_clean fun _ _ => decodeTemplate_clean
      agents := optional_holds (fun library : SortedMap AgentDef => ∀ entry ∈ library.entries,
        entry.2.Admitted) agents (by simp) fun _ => decodeLibrary_clean fun _ _ => decodeAgent_clean
      params := optional_holds (fun library : SortedMap ParamSpec => ∀ entry ∈ library.entries,
        entry.2.Admitted) params (by simp) fun _ => decodeLibrary_clean fun _ _ => decodeParam_clean
      steps := required_holds (fun steps => ∀ step ∈ steps, step.Admitted) steps decodeSteps_clean
      edges := required_holds (fun edges => ∀ edge ∈ edges, edge.Admitted) edges decodeEdges_clean
      ui := decodeUI_clean spelled }

theorem decodeVersion_current (read : decodeVersion fields = .ok version) :
    version = currentSchemaVersion := by
  rw [decodeVersion] at read
  split at read
  · cases read
  · split at read
    · split at read
      · rename_i current
        cases read
        exact current
      · cases read
    · cases read

variable {definition : Definition}

theorem decode_ok (decoded : decode data = .ok definition) :
    ∃ fields version, byteCount data.toList ≤ maxDefinitionBytes ∧
      parseRawObject data = some fields ∧ decodeVersion fields = .ok version ∧
      decodeFields version fields = (definition, []) := by
  rw [decode] at decoded
  split at decoded
  · cases decoded
  rename_i bound
  cases parsed : parseRawObject data with
  | none =>
    simp only [parsed] at decoded
    split at decoded <;> cases decoded
  | some fields =>
    cases versioned : decodeVersion fields with
    | error error => simp [parsed, versioned] at decoded
    | ok version =>
      cases read : decodeFields version fields with
      | mk result problems =>
        cases problems with
        | cons problem rest => simp [parsed, versioned, read] at decoded
        | nil =>
          simp only [parsed, versioned, read, Except.ok.injEq] at decoded
          subst decoded
          exact ⟨fields, version, by omega, rfl, versioned, read⟩

theorem decode_admitted (decoded : decode data = .ok definition) : definition.Admitted := by
  obtain ⟨_, _, _, parsed, versioned, read⟩ := decode_ok decoded
  have admitted := decodeFields_clean (decodeVersion_current versioned)
    (parseRawObject_spells parsed) (by rw [read])
  rwa [read] at admitted

def Step.width (step : Step) : Nat := enclosedWidth ((stepFields step.type).widths step.fields)

def Edge.width (edge : Edge) : Nat := Authored.edge.width edge.withoutDefaults

def stepsWidth (steps : List Step) : Nat := enclosedWidth (steps.map Step.width)

def edgesWidth (edges : List Edge) : Nat := enclosedWidth (edges.map Edge.width)

def Template.width (template : Template) : Nat :=
  enclosedWidth (fieldWidth "steps" (stepsWidth template.steps) ::
    if template.edges.isEmpty then [] else [fieldWidth "edges" (edgesWidth template.edges)])

def SortedMap.widths {α : Type} (name : String) (width : α → Nat) (library : SortedMap α) :
    List Nat :=
  if library.entries.isEmpty then []
  else [fieldWidth name (enclosedWidth
    (library.entries.map fun entry => fieldWidth entry.1 (width entry.2)))]

def Definition.width (definition : Definition) : Nat :=
  enclosedWidth
    (JsonType.int.fieldWidths "schema_version" false definition.schemaVersion ++
      (JsonType.string.fieldWidths "name" false definition.name ++
      (JsonType.string.fieldWidths "description" true definition.description ++
      ((JsonType.setting FailurePolicy).fieldWidths "on_failure" true definition.onFailure ++
      (JsonType.string.fieldWidths "max_wall_clock" true definition.maxWallClock ++
      ((JsonType.pointer .float).fieldWidths "budget_usd" true definition.budgetUSD ++
      ((JsonType.setting BudgetPolicy).fieldWidths "on_budget_exceeded" true
        definition.onBudgetExceeded ++
      ((JsonType.pointer expansionPolicy).fieldWidths "expansion" true definition.expansion ++
      (definition.templates.widths "templates" Template.width ++
      (definition.agents.widths "agents" agentDef.width ++
      (definition.params.widths "params" paramSpec.width ++
      (fieldWidth "steps" (stepsWidth definition.steps) ::
        fieldWidth "edges" (edgesWidth definition.edges) ::
        if definition.ui = "" then []
        else [fieldWidth "ui" (byteCount definition.ui.toList)]))))))))))))

theorem Step.byteCount_json (step : Step) : byteCount step.json.chars = step.width := by
  rw [Step.json, Step.members, byteCount_object, JsonFields.memberWidths, Step.width]

theorem Edge.byteCount_json (edge : Edge) : byteCount edge.json.chars = edge.width := by
  rw [Edge.json, JsonType.byteCount_marshal, Edge.width]

theorem byteCount_stepsJson (steps : List Step) :
    byteCount (stepsJson steps).chars = stepsWidth steps := by
  simp [stepsJson, byteCount_array, stepsWidth, Function.comp_def, Step.byteCount_json]

theorem byteCount_edgesJson (edges : List Edge) :
    byteCount (edgesJson edges).chars = edgesWidth edges := by
  simp [edgesJson, byteCount_array, edgesWidth, Function.comp_def, Edge.byteCount_json]

theorem raw_fieldWidths_unlessEmpty {α : Type} (name : String) (items : List α)
    (value : JsonValue) : JsonType.raw.fieldWidths name true (unlessEmpty items value) =
      if items.isEmpty then [] else [fieldWidth name (byteCount value.chars)] := by
  rw [unlessEmpty]
  split
  · simp [JsonType.fieldWidths, JsonType.isEmpty]
  · exact JsonType.raw_fieldWidths name value

theorem Template.byteCount_json (template : Template) :
    byteCount template.json.chars = template.width := by
  rw [Template.json, byteCount_object, JsonFields.memberWidths, Template.width, templateFields,
    Template.fields, JsonFields.widths_cons, JsonFields.widths_cons, JsonType.raw_fieldWidths,
    raw_fieldWidths_unlessEmpty, byteCount_stepsJson, byteCount_edgesJson]
  simp [JsonFields.widths]

theorem SortedMap.fieldWidths {α : Type} {write width} (name : String)
    (library : SortedMap α) (written : ∀ value, byteCount (write value).chars = width value) :
    JsonType.raw.fieldWidths name true (library.field write) = library.widths name width := by
  have each : ∀ entry : String × α,
      memberWidth (JsonText.quote entry.1, write entry.2) = fieldWidth entry.1 (width entry.2) := by
    intro entry
    rw [memberWidth, memberText, textWidth, written, fieldWidth, ← byteCount_quote]
  rw [SortedMap.field, raw_fieldWidths_unlessEmpty, SortedMap.json, byteCount_object,
    SortedMap.widths, map_map]
  simp only [Function.comp_def, each]

theorem Definition.byteCount_texts (definition : Definition) :
    byteCount (textObjectChars definition.texts) = definition.width := by
  have fields : (definition.members.map fun mem => (mem.1, mem.2.chars)).map textWidth =
      topFields.widths definition.fields := by
    rw [← JsonFields.memberWidths, map_map]
    rfl
  rw [byteCount_textObject, Definition.texts, map_append, fields, Definition.width]
  simp only [topFields, Definition.fields, JsonFields.widths_cons, JsonType.raw_fieldWidths,
    SortedMap.fieldWidths _ _ Template.byteCount_json,
    SortedMap.fieldWidths _ _ agentDef.byteCount_marshal,
    SortedMap.fieldWidths _ _ paramSpec.byteCount_marshal, byteCount_stepsJson,
    byteCount_edgesJson, append_assoc, cons_append, nil_append,
    JsonFields.widths_nil]
  congr
  split
  · rfl
  · simp [textWidth, fieldWidth, ← byteCount_quote]

def Definition.canonical (definition : Definition) : String :=
  String.ofList (textObjectChars definition.texts)

theorem encode_admitted (admitted : definition.Admitted) :
    encode definition = .ok definition.canonical := by
  rw [encode, if_neg]
  · rfl
  · rintro ⟨filled, unread⟩
    rcases admitted.ui with absent | ⟨_, spells⟩
    · exact filled absent
    · have read := spells.parse
      rw [String.ofList_toList] at read
      simp [read] at unread

theorem Definition.raws_spelled {ui}
    (shape : definition.ui ≠ "" → Spells (.object ui) definition.ui.toList) :
    ∀ field ∈ definition.raws (.object ui), Spells field.2.json field.2.chars := by
  intro field present
  rcases mem_append.mp present with present | present
  · obtain ⟨mem, _, rfl⟩ := mem_map.mp present
    exact mem.2.spells
  · rw [Definition.uiMember] at present
    split at present
    · cases present
    · rename_i filled
      rw [mem_singleton.mp present]
      exact shape filled

theorem Definition.parse_canonical {ui}
    (shape : definition.ui ≠ "" → Spells (.object ui) definition.ui.toList) :
    parseRawObject definition.canonical = some (definition.raws (.object ui)) := by
  rw [Definition.canonical, ← definition.raws_texts (.object ui)]
  exact parseRawObject_chars (definition.raws_spelled shape)

theorem decode_canonical (admitted : definition.Admitted) : decode definition.canonical =
      if definition.width > maxDefinitionBytes then .error [.oversized definition.width]
      else .ok definition.normal := by
  obtain ⟨ui, shape⟩ : ∃ ui : Members,
      definition.ui ≠ "" → Spells (.object ui) definition.ui.toList := by
    rcases admitted.ui with absent | ⟨members, spells⟩
    · exact ⟨[], fun filled => absurd absent filled⟩
    · exact ⟨members, fun _ => spells⟩
  have size : byteCount definition.canonical.toList = definition.width := by
    rw [Definition.canonical, String.toList_ofList, definition.byteCount_texts]
  rw [decode, size, Definition.parse_canonical shape]
  simp only [decodeVersion_raws admitted, decodeFields_raws admitted]

theorem dropEmpty_eq_iff {α : Type} {items : Option (List α)} :
    dropEmpty items = items ↔ items ≠ some [] := by
  match items with
  | none => simp [dropEmpty]
  | some [] => simp [dropEmpty]
  | some (_ :: _) => simp [dropEmpty]

def emptyTools : (type : StepType) → ConfigOf type → Prop
  | .agent, config => AgentConfig.tools config = some []
  | _, _ => False

theorem agentConfig_normal_eq_iff {config : AgentConfig} :
    agentConfig.normal config = config ↔ config.tools ≠ some [] := by
  rw [agentConfig_normal, ← dropEmpty_eq_iff]
  constructor
  · intro same
    exact congrArg AgentConfig.tools same
  · intro kept
    rw [kept]

theorem retryPolicy_normal_eq_iff {retry : RetryPolicy} :
    retryPolicy.normal retry = retry ↔ retry.retryOn ≠ some [] := by
  rw [retryPolicy_normal, ← dropEmpty_eq_iff]
  constructor
  · intro same
    exact congrArg RetryPolicy.retryOn same
  · intro kept
    rw [kept]

theorem stepConfigTypes_normal_eq_iff :
    (stepConfigTypes type).normal config = config ↔ ¬emptyTools type config := by
  cases type with
  | agent => exact agentConfig_normal_eq_iff
  | unregistered name => exact ⟨fun _ => id, fun _ => rfl⟩
  | _ => exact ⟨fun _ => id, fun _ => JsonType.normal_eq _ config (by decide)⟩

/-- The lists of a step that are there but empty: no text keeps them. -/
structure Step.Filled (step : Step) : Prop where
  tools : ∀ config, step.config = some config → ¬emptyTools step.type config
  retryOn : ∀ retry, step.retry = some retry → retry.retryOn ≠ some []

theorem option_map_eq_self_iff {α : Type} {f} {target : Option α} :
    target.map f = target ↔ ∀ value, target = some value → f value = value := by
  cases target <;> simp

theorem Step.normal_eq_iff (step : Step) : step.normal = step ↔ step.Filled := by
  have split : step.normal = step ↔
      step.config.map (stepConfigTypes step.type).normal = step.config ∧
        step.retry.map retryPolicy.normal = step.retry := by
    cases step
    simp [Step.normal]
  rw [split, option_map_eq_self_iff, option_map_eq_self_iff]
  constructor
  · rintro ⟨config, policy⟩
    exact ⟨fun value given => stepConfigTypes_normal_eq_iff.mp (config value given),
      fun value given => retryPolicy_normal_eq_iff.mp (policy value given)⟩
  · rintro ⟨config, policy⟩
    exact ⟨fun value given => stepConfigTypes_normal_eq_iff.mpr (config value given),
      fun value given => retryPolicy_normal_eq_iff.mpr (policy value given)⟩

def Edge.idlePolicy (edge : Edge) : Prop :=
  edge.type = .known .normal ∧ edge.onExhausted = .known .proceed

theorem list_map_eq_self_iff {α : Type} {f} {items : List α} :
    items.map f = items ↔ ∀ item ∈ items, f item = item := by
  induction items with
  | nil => simp
  | cons item items ih => simp [ih]

structure KeptByText (steps : List Step) (edges : List Edge) : Prop where
  steps : ∀ step ∈ steps, step.Filled
  edges : ∀ edge ∈ edges, ¬edge.idlePolicy

theorem keptByText_iff {steps} {edges : List Edge} (admitted : ∀ edge ∈ edges, edge.Admitted) :
    KeptByText steps edges ↔ steps.map Step.normal = steps ∧ edges.map Edge.normal = edges := by
  rw [list_map_eq_self_iff, list_map_eq_self_iff]
  constructor
  · intro kept
    exact ⟨fun step mem => step.normal_eq_iff.mpr (kept.steps step mem),
      fun edge mem => (Edge.normal_eq_iff (admitted edge mem)).mpr (kept.edges edge mem)⟩
  · rintro ⟨steps, edges⟩
    exact ⟨fun step mem => step.normal_eq_iff.mp (steps step mem),
      fun edge mem => (Edge.normal_eq_iff (admitted edge mem)).mp (edges edge mem)⟩

theorem Template.normal_eq_iff {template : Template} (admitted : template.Admitted) :
    template.normal = template ↔ KeptByText template.steps template.edges := by
  rw [keptByText_iff admitted.edges]
  cases template
  simp [Template.normal]

theorem SortedMap.map_eq_self_iff {α : Type} {keep : α → α} {library : SortedMap α} :
    library.map keep = library ↔ ∀ entry ∈ library.entries, keep entry.2 = entry.2 := by
  have split : library.map keep = library ↔ (library.map keep).entries = library.entries :=
    ⟨congrArg SortedMap.entries, SortedMap.ext_entries⟩
  rw [split, SortedMap.map, list_map_eq_self_iff]
  simp [Prod.ext_iff]

theorem Definition.normal_eq_iff (admitted : definition.Admitted) :
    definition.normal = definition ↔ KeptByText definition.steps definition.edges ∧
      ∀ entry ∈ definition.templates.entries, KeptByText entry.2.steps entry.2.edges := by
  have templates : definition.templates.map Template.normal = definition.templates ↔
      ∀ entry ∈ definition.templates.entries, KeptByText entry.2.steps entry.2.edges := by
    rw [SortedMap.map_eq_self_iff]
    exact forall₂_congr fun entry mem => Template.normal_eq_iff (admitted.templates entry mem)
  rw [keptByText_iff admitted.edges, ← templates]
  cases definition
  simp only [Definition.normal, Definition.mk.injEq, true_and, and_true]
  tauto

/-- A decoded definition survives its own text exactly when the text is not too long and there was
nothing in it that the text leaves out. -/
theorem decode_encode_iff {data : String} {definition : Definition}
    (decoded : decode data = .ok definition) :
    (∃ text again, encode definition = .ok text ∧ decode text = .ok again ∧ again = definition ∧
      encode again = .ok text) ↔
    definition.width ≤ maxDefinitionBytes ∧ KeptByText definition.steps definition.edges ∧
      ∀ entry ∈ definition.templates.entries, KeptByText entry.2.steps entry.2.edges := by
  have admitted := decode_admitted decoded
  have encoded := encode_admitted admitted
  rw [← Definition.normal_eq_iff admitted]
  constructor
  · rintro ⟨_, _, written, read, rfl, _⟩
    have same := Except.ok.inj (written.symm.trans encoded)
    rw [same, decode_canonical admitted] at read
    split at read
    · cases read
    · rename_i bound
      exact ⟨by omega, Except.ok.inj read⟩
  · rintro ⟨_, kept⟩
    refine ⟨_, _, encoded, ?_, rfl, encoded⟩
    rw [decode_canonical admitted, if_neg (by omega), kept]

def writers : List (String × AgentDef) := [("writer", { model := "m", tools := ["search"] })]

theorem nothing_sorted {α : Type} : (([] : List (String × α)).map Prod.fst).Pairwise (· < ·) := by
  simp

theorem writers_sorted : (writers.map Prod.fst).Pairwise (· < ·) := by simp [writers]

def reviewWith (tools : Option (List String)) : Definition :=
  { name := "review"
    templates := ⟨[], nothing_sorted⟩
    agents := ⟨writers, writers_sorted⟩
    params := ⟨[], nothing_sorted⟩
    steps :=
      [{ id := "draft"
         type := .agent
         config := some ({ agent := "writer", prompt := "p", tools := tools } : AgentConfig) }] }

def sentBack : Definition :=
  { reviewWith none with
    onFailure := .known .continueIndependentBranches
    budgetUSD := Float64.ofRatio false 5 2
    templates := ⟨[("aside", { steps := [{ id := "note", type := .noop }] })], by simp⟩
    steps :=
      [{ id := "draft"
         type := .agent
         config := some ({ agent := "writer", prompt := "p", tools := some ["search"] } : AgentConfig)
         retry := some { maxAttempts := 3, retryOn := some [.known .transient] }
         cache := some { mode := .known .readWrite, ttl := "1h" } },
       { id := "check", type := .noop }]
    edges :=
      [{ fromStep := "draft", toStep := "check", when := "true", type := .known .normal },
       { fromStep := "check", toStep := "draft", type := .known .loop, condition := "again"
         maxIterations := 2, onExhausted := .known .proceed }] }

theorem sentBack_survives : ∃ data, decode data = .ok sentBack ∧
    ∃ text again, encode sentBack = .ok text ∧ decode text = .ok again ∧ again = sentBack ∧
      encode again = .ok text := by
  have decoded : decode ("\x7b\"schema_version\":1,\"name\":\"review\"," ++
      "\"on_failure\":\"continue_independent_branches\",\"budget_usd\":2.50," ++
      "\"templates\":\x7b\"aside\":\x7b\"steps\":[\x7b\"id\":\"note\",\"type\":\"noop\"\x7d]\x7d\x7d," ++
      "\"agents\":\x7b\"writer\":\x7b\"tools\":[\"search\"],\"model\":\"m\"\x7d\x7d," ++
      "\"steps\":[\x7b\"id\":\"draft\",\"type\":\"agent\"," ++
      "\"config\":\x7b\"agent\":\"writer\",\"prompt\":\"p\",\"tools\":[\"search\"]\x7d," ++
      "\"retry\":\x7b\"max_attempts\":3,\"retry_on\":[\"transient\"]\x7d," ++
      "\"cache\":\x7b\"ttl\":\"1h\",\"mode\":\"read_write\"\x7d\x7d," ++
      "\x7b\"id\":\"check\",\"type\":\"noop\"\x7d]," ++
      "\"edges\":[\x7b\"from\":\"draft\",\"to\":\"check\",\"when\":\"true\"\x7d," ++
      "\x7b\"from\":\"check\",\"to\":\"draft\",\"type\":\"loop\",\"condition\":\"again\"," ++
      "\"max_iterations\":2\x7d]\x7d") = .ok sentBack := by
    decide +kernel
  refine ⟨_, decoded, (decode_encode_iff decoded).mpr ⟨by decide +kernel, ⟨?_, ?_⟩, ?_⟩⟩
  · simp only [sentBack, forall_mem_cons, not_mem_nil, false_implies, implies_true, and_true]
    exact ⟨⟨by rintro _ ⟨⟩; simp [emptyTools], by simp⟩, by simp, by simp⟩
  · simp [sentBack, Edge.idlePolicy]
  · intro entry mem
    cases mem_singleton.mp mem
    exact ⟨by simpa using ⟨by simp, by simp⟩, by simp⟩

/-- The step that was denied every tool comes back as one that takes the tools of its role. -/
theorem decode_encode_forgets_tools :
    ∃ data text, decode data = .ok (reviewWith (some [])) ∧
      encode (reviewWith (some [])) = .ok text ∧ decode text = .ok (reviewWith none) ∧
      reviewWith none ≠ reviewWith (some []) := by
  refine ⟨"\x7b\"schema_version\":1,\"name\":\"review\"," ++
      "\"agents\":\x7b\"writer\":\x7b\"model\":\"m\",\"tools\":[\"search\"]\x7d\x7d," ++
      "\"steps\":[\x7b\"id\":\"draft\",\"type\":\"agent\",\"config\":" ++
      "\x7b\"agent\":\"writer\",\"prompt\":\"p\",\"tools\":[]\x7d\x7d],\"edges\":[]\x7d",
    (reviewWith none).canonical, ?_, ?_, ?_, ?_⟩ <;> decide +kernel

end Agentloom.Dag.Authored
