import Agentloom.Dag.Codec

/-! What decoding the canonical text of a definition gives back. -/

namespace Agentloom.Dag.Authored

open JsonText List

variable {α : Type} {path : String} {agent : AgentDef} {definition : Definition}

theorem strictUnmarshal_marshal {α : Type} {type} (record : type.record = true)
    (sound : type.sound = true) (value : α) (path : String) :
    strictUnmarshal type (type.marshal value) path = (type.normal value, []) := by
  have read := type.unmarshal_marshal value sound (.inl (type.solid_of_record record))
  have known := type.unknownFields_marshal value path sound
  obtain ⟨_, shape⟩ := type.marshal_record value record
  rw [shape] at read known ⊢
  simp only [strictUnmarshal, read, known, Option.map_none, Option.toList_none, append_nil]

theorem decodeBlock_marshal {α : Type} {type} (record : type.record = true)
    (sound : type.sound = true) {check} {value : α} {path}
    (checked : check (type.normal value) path = []) :
    decodeBlock type check (type.marshal value) path = (type.normal value, []) := by
  simp only [decodeBlock, strictUnmarshal_marshal record sound, checked, append_nil]

theorem decodeBlock_exact {α : Type} {type} (record : type.record = true)
    (sound : type.sound = true) (exact : type.exact = true) {check} {value : α} {path}
    (checked : check value path = []) :
    decodeBlock type check (type.marshal value) path = (value, []) := by
  have kept := type.normal_eq value exact
  have read := decodeBlock_marshal record sound (by rwa [kept])
  rwa [kept] at read

theorem stepConfigTypes_sound (type : StepType) : (stepConfigTypes type).sound = true := by
  cases type <;> first | decide | rfl

theorem stepConfigTypes_record (type : StepType) : (stepConfigTypes type).record = true := by
  cases type <;> rfl

def dropEmpty {α : Type} (items : Option (List α)) : Option (List α) :=
  if (items.getD []).isEmpty then none else items

theorem slice_normal {α β : Type} {name element rest}
    (exact : element.exact = true) (items : Option (List α)) (others : β) :
    (JsonFields.cons name true (.slice element) rest).normal (items, others) =
      (dropEmpty items, rest.normal others) := by
  have kept := (JsonType.slice element).normal_eq items (by simpa [JsonType.exact] using exact)
  rw [JsonFields.normal, kept]
  rfl

theorem retryPolicy_normal (retry : RetryPolicy) :
    retryPolicy.normal retry = { retry with retryOn := dropEmpty retry.retryOn } := by
  have exact : (JsonType.setting ErrorClass).exact = true := by decide
  have backoff : (JsonType.pointer backoffSpec).exact = true := by decide
  have jitter : (JsonType.setting JitterMode).exact = true := by decide
  simp only [retryPolicy, JsonType.normal]
  rw [JsonFields.normal_cons_of_tight rfl rfl,
    JsonFields.normal_cons_of_tight rfl (JsonType.normal_eq _ _ backoff),
    JsonFields.normal_cons_of_tight rfl (JsonType.normal_eq _ _ jitter), slice_normal exact]

theorem agentConfig_normal (config : AgentConfig) :
    agentConfig.normal config = { config with tools := dropEmpty config.tools } := by
  have messages : (JsonType.list llmMessage).exact = true := by decide
  have temperature : (JsonType.pointer .float).exact = true := by decide
  have fallbacks : (JsonType.list modelFallback).exact = true := by decide
  have format : (JsonType.pointer outputFormat).exact = true := by decide
  simp only [agentConfig, JsonType.normal]
  rw [JsonFields.normal_cons_of_tight rfl rfl, JsonFields.normal_cons_of_tight rfl rfl,
    JsonFields.normal_cons_of_tight rfl rfl, JsonFields.normal_cons_of_tight rfl rfl,
    JsonFields.normal_cons_of_tight rfl (JsonType.normal_eq _ _ messages),
    JsonFields.normal_cons_of_tight rfl rfl,
    JsonFields.normal_cons_of_tight rfl (JsonType.normal_eq _ _ temperature),
    JsonFields.normal_cons_of_tight rfl (JsonType.normal_eq _ _ fallbacks),
    JsonFields.normal_cons_of_tight rfl (JsonType.normal_eq _ _ format),
    slice_normal (by decide), JsonFields.normal_cons_of_tight rfl rfl]

theorem checkSetting_eq_nil {α : Type} [Named α] {setting : Setting α} :
    checkSetting label setting path = [] ↔ setting.isOther = false := by
  cases setting <;> simp [checkSetting, Setting.isOther, unknownSetting]

theorem checkMembership_eq_nil {α : Type} [Named α] {settings : List (Setting α)} :
    checkMembership label settings path = [] ↔ ∀ setting ∈ settings, ∃ a, setting = .known a := by
  simp only [checkMembership, flatMap_eq_nil_iff]
  constructor
  · intro checked setting mem
    obtain ⟨i, bound, same⟩ := mem_iff_getElem.mp mem
    have inside : (setting, i) ∈ settings.zipIdx := by
      rw [mem_zipIdx_iff_getElem?, getElem?_eq_getElem bound, same]
    have clean := checked _ inside
    cases setting with
    | known a => exact ⟨a, rfl⟩
    | unset => simp [unknownSetting] at clean
    | other text => simp [unknownSetting] at clean
  · rintro known ⟨setting, i⟩ inside
    obtain ⟨a, rfl⟩ := known setting (fst_mem_of_mem_zipIdx inside)
    rfl

theorem checkContextEnums_path (other : String)
    (checked : checkContextEnums context path = []) : checkContextEnums context other = [] := by
  simp only [checkContextEnums, append_eq_nil_iff, flatMap_eq_nil_iff,
    checkSetting_eq_nil] at checked ⊢
  exact checked

theorem checkCacheEnums_path (other : String)
    (checked : checkCacheEnums cache path = []) : checkCacheEnums cache other = [] := by
  simp only [checkCacheEnums, append_eq_nil_iff, checkSetting_eq_nil] at checked ⊢
  exact checked

theorem checkRetryEnums_path (other : String)
    (checked : checkRetryEnums retry path = []) : checkRetryEnums retry other = [] := by
  simp only [checkRetryEnums, append_eq_nil_iff, checkSetting_eq_nil,
    checkMembership_eq_nil] at checked ⊢
  exact checked

theorem checkJoinEnums_eq_nil : checkJoinEnums config path = [] ↔ config.mode.isOther = false := by
  cases mode : config.mode <;> simp [checkJoinEnums, Setting.isOther, mode]

theorem checkConfigEnums_path {config : ConfigOf type}
    (other : String) (checked : checkConfigEnums type config path = []) :
    checkConfigEnums type config other = [] := by
  cases type with
  | map =>
    simp only [checkConfigEnums, checkMapEnums, checkSetting_eq_nil] at checked ⊢
    exact checked
  | humanApproval =>
    simp only [checkConfigEnums, checkHumanApprovalEnums, append_eq_nil_iff,
      checkSetting_eq_nil, checkMembership_eq_nil] at checked ⊢
    exact checked
  | join => exact checkJoinEnums_eq_nil.mpr (checkJoinEnums_eq_nil.mp checked)
  | _ => rfl

theorem checkRetryEnums_normal (retry : RetryPolicy) (path : String) :
    checkRetryEnums (retryPolicy.normal retry) path = checkRetryEnums retry path := by
  have same : (dropEmpty retry.retryOn).getD [] = retry.retryOn.getD [] := by
    match retry.retryOn with
    | none => rfl
    | some [] => rfl
    | some (_ :: _) => rfl
  rw [retryPolicy_normal, checkRetryEnums, same, checkRetryEnums]

theorem checkConfigEnums_normal (type : StepType) (config : ConfigOf type) (path : String) :
    checkConfigEnums type ((stepConfigTypes type).normal config) path =
      checkConfigEnums type config path := by
  cases type with
  | map =>
    have kept : mapConfig.normal config = config := mapConfig.normal_eq config (by decide)
    exact congrArg (checkMapEnums · path) kept
  | humanApproval =>
    have kept : humanApprovalConfig.normal config = config :=
      humanApprovalConfig.normal_eq config (by decide)
    exact congrArg (checkHumanApprovalEnums · path) kept
  | join =>
    have kept : joinConfig.normal config = config := joinConfig.normal_eq config (by decide)
    exact congrArg (checkJoinEnums · path) kept
  | _ => rfl

structure Step.Admitted (step : Step) : Prop where
  registered : step.type.registered = true
  config : ∀ config path, step.config = some config → checkConfigEnums step.type config path = []
  retry : ∀ retry path, step.retry = some retry → checkRetryEnums retry path = []
  cache : ∀ cache path, step.cache = some cache → checkCacheEnums cache path = []
  context : ∀ context path, step.context = some context → checkContextEnums context path = []

def Step.normal (step : Step) : Step :=
  { step with
    config := step.config.map (stepConfigTypes step.type).normal
    retry := step.retry.map retryPolicy.normal }

section Fields

variable {type : JsonType α}

theorem pointer_written (target : Option α) :
    (if (true && (JsonType.pointer type).isEmpty target) = true then none
      else some ((JsonType.pointer type).marshal target)) = target.map type.marshal := by
  cases target <;> rfl

theorem raw_written (target : Option JsonValue) :
    (if (true && JsonType.raw.isEmpty target) = true then none
      else some (JsonType.raw.marshal target)) = target := by
  cases target <;> rfl

variable (members : Members) (key path : String)

theorem optional_present {keep : α → α} (decode : JsonValue → String → Reading α)
    (target : Option α) (found : Members.get members key = target.map type.marshal)
    (back : ∀ value, target = some value → decode (type.marshal value) path = (keep value, [])) :
    optional members key none (present decode path) = (target.map keep, []) := by
  rw [optional, found]
  cases target with
  | none => rfl
  | some value => simp [present, back value rfl]

theorem optional_string (text : String) (found : Members.get members key =
      if text = "" then none else some (.string (JsonText.quote text))) :
    optional members key "" (fun value => decodeString value path) = (text, []) := by
  rw [optional, found]
  by_cases empty : text = "" <;> simp [empty, decodeString]

theorem required_some {decode read} (absent : α) (value : JsonValue)
    (found : Members.get members key = some value) (back : decode value = read) :
    required members key path absent decode = read := by
  rw [required, found, ← back]

theorem required_string (text : String)
    (found : Members.get members key = some (.string (JsonText.quote text))) :
    required members key path "" (fun value => decodeString value path) = (text, []) :=
  required_some _ _ _ _ _ found (by simp [decodeString])

end Fields

attribute [local simp] JsonFields.get_marshal_cons JsonFields.names JsonType.marshal
  JsonType.isEmpty
attribute [local simp ↓] pointer_written raw_written

theorem stepTypeOf_text {type : StepType} (registered : type.registered = true) :
    stepTypeOf type.text = type := by
  cases type with
  | unregistered name => cases registered
  | _ => decide

theorem unknownKeys_marshal {α : Type} (fields : JsonFields α) (value : α)
    (render : String → String) : unknownKeys (fields.marshal value) fields.names render = [] := by
  rw [unknownKeys, flatMap_eq_nil_iff]
  intro key mem
  obtain ⟨entry, inside, rfl⟩ := mem_map.mp (Members.mem_sortedKeys.mp mem)
  rw [if_pos (contains_iff_mem.mpr (fields.mem_names_of_marshal value entry inside))]

theorem decodeStepConfig_marshal {type : StepType} {config : ConfigOf type} (path : String)
    (checked : checkConfigEnums type config path = []) :
    decodeStepConfig type ((stepConfigTypes type).marshal config) path =
      (some ((stepConfigTypes type).normal config), []) := by
  have read := decodeBlock_marshal (stepConfigTypes_record type) (stepConfigTypes_sound type)
    ((checkConfigEnums_normal type config path).trans checked)
  obtain ⟨_, shape⟩ := (stepConfigTypes type).marshal_record config
    (stepConfigTypes_record type)
  rw [shape] at read ⊢
  simp only [decodeStepConfig, read]

section Steps

attribute [local simp] Step.members stepFields Step.fields

theorem decodeStep_json {step : Step} (admitted : step.Admitted) (path : String) :
    decodeStep step.json path = (step.normal, []) := by
  have id := required_string step.members "id" (path ++ ".id") step.id (by simp)
  have type : required step.members "type" (path ++ ".type")
      (.unregistered "") (fun value => decodeStepType value (path ++ ".type")) =
        (step.type, []) :=
    required_some _ _ _ _ (.string (JsonText.quote step.type.text)) (by simp)
      (by simp [decodeStepType, stepTypeOf_text admitted.registered, admitted.registered])
  have config : (optional step.members "config" none fun value =>
      if step.type.registered then decodeStepConfig step.type value (path ++ ".config")
      else (none, [])) = (step.config.map (stepConfigTypes step.type).normal, []) := by
    have found : Members.get step.members "config" =
        step.config.map (stepConfigTypes step.type).marshal := by simp
    rw [optional, found]
    cases given : step.config with
    | none => rfl
    | some config =>
      simp [admitted.registered, decodeStepConfig_marshal _ (admitted.config config _ given)]
  have retry := optional_present step.members "retry" (path ++ ".retry") decodeRetry step.retry
    (by simp) fun retry given => decodeBlock_marshal (by decide) (by decide)
      ((checkRetryEnums_normal retry _).trans (admitted.retry retry _ given))
  have timeout := optional_string step.members "timeout" (path ++ ".timeout") step.timeout (by simp)
  have cache := optional_present step.members "cache" (path ++ ".cache") decodeCache step.cache
    (by simp) fun cache given => decodeBlock_exact (by decide) (by decide) (by decide)
      (admitted.cache cache _ given)
  have budget := optional_present step.members "budget" (path ++ ".budget") decodeBudget step.budget
    (by simp) fun _ _ => decodeBlock_exact (by decide) (by decide) (by decide) rfl
  have validation := optional_present step.members "validation" (path ++ ".validation")
    decodeValidation step.validation (by simp)
    fun _ _ => decodeBlock_exact (by decide) (by decide) (by decide) rfl
  have blackboard := optional_present step.members "blackboard" (path ++ ".blackboard")
    decodeBlackboard step.blackboard (by simp)
    fun _ _ => decodeBlock_exact (by decide) (by decide) (by decide) rfl
  have context := optional_present step.members "context" (path ++ ".context") decodeContext
    step.context (by simp) fun context given =>
      decodeBlock_exact (by decide) (by decide) (by decide) (admitted.context context _ given)
  have known := unknownKeys_marshal (stepFields step.type) step.fields fun key => path ++ "." ++ key
  simp only [decodeStep, Step.json, decodeObjectMap, id, type]
  simp only [decodeTypedStep, config, retry, timeout, cache, budget, validation, blackboard,
    context, Option.map_id', append_nil]
  exact Prod.ext rfl known

end Steps

structure Edge.Admitted (edge : Edge) : Prop where
  type : ∃ type, edge.type = .known type
  loop : edge.type = .known .loop → edge.onExhausted ≠ .unset
  decision : edge.decision.isOther = false

def Edge.normal (edge : Edge) : Edge := edge.withoutDefaults.withDefaults

theorem Edge.normal_type {edge : Edge} (admitted : edge.Admitted) : edge.normal.type = edge.type := by
  obtain ⟨type, given⟩ := admitted.type
  cases type <;> simp [Edge.normal, Edge.withDefaults, Edge.withoutDefaults, given]

theorem Edge.normal_eq_iff {edge : Edge} (admitted : edge.Admitted) : edge.normal = edge ↔
      ¬(edge.type = .known .normal ∧ edge.onExhausted = .known .proceed) := by
  obtain ⟨type, given⟩ := admitted.type
  have loop := admitted.loop
  obtain ⟨_, _, _, _, _, _, exhausted, _, _⟩ := edge
  subst given
  cases type with
  | normal =>
    by_cases proceed : exhausted = .known .proceed <;>
      simp [Edge.normal, Edge.withDefaults, Edge.withoutDefaults, proceed]
  | loop =>
    have kept : exhausted ≠ .unset := loop rfl
    by_cases proceed : exhausted = .known .proceed <;>
      simp [Edge.normal, Edge.withDefaults, Edge.withoutDefaults, proceed, kept]

theorem checkEdgeEnums_eq_nil {edge} : checkEdgeEnums edge path = [] ↔
      edge.type.isOther = false ∧ edge.decision.isOther = false := by
  rw [checkEdgeEnums, append_eq_nil_iff, checkSetting_eq_nil]
  cases edge.type <;> simp [Setting.isOther]

theorem edge_get (value : Edge) :
    ∃ members, edge.marshal value = .object members ∧
      (Members.get members "from").isSome = true ∧ (Members.get members "to").isSome = true := by
  refine ⟨_, by rw [edge, JsonType.marshal, JsonType.marshal], ?_, ?_⟩ <;>
    simp

theorem decodeEdge_json {edge : Edge} (admitted : edge.Admitted) (path : String) :
    decodeEdge edge.json path = (edge.normal, []) := by
  have read := strictUnmarshal_marshal (by decide) (by decide : Authored.edge.sound = true)
    edge.withoutDefaults path
  rw [Authored.edge.normal_eq _ (by decide)] at read
  obtain ⟨_, shape, source, target⟩ := edge_get edge.withoutDefaults
  obtain ⟨_, given⟩ := admitted.type
  have checked : checkEdgeEnums edge.normal path = [] := by
    rw [checkEdgeEnums_eq_nil, Edge.normal_type admitted, given]
    exact ⟨rfl, admitted.decision⟩
  rw [shape] at read
  rw [Edge.json, shape]
  simp only [decodeEdge, decodeObjectMap, read]
  change (edge.normal, _ ++ checkEdgeEnums edge.normal path) = _
  simp [checked, source, target]

theorem decodeElements_map {α : Type} {decode write} {keep : α → α} {items : List α} (name : String)
    (back : ∀ item ∈ items, ∀ path, decode (write item) path = (keep item, [])) :
    decodeElements decode name (.array (items.map write)) = (items.map keep, []) := by
  have each : ((items.map write).zipIdx.map fun entry =>
      decode entry.1 (name ++ "[" ++ toString entry.2 ++ "]")) =
        items.map fun item => (keep item, []) := by
    apply ext_getElem (by simp)
    intro i bound _
    have inside : i < items.length := by simpa using bound
    simpa using back items[i] (getElem_mem inside) (name ++ "[" ++ toString i ++ "]")
  have read : decodeElements decode name (.array (items.map write)) =
      ((items.map fun item => ((keep item, []) : Reading α)).map Prod.fst,
        (items.map fun item => ((keep item, []) : Reading α)).flatMap Prod.snd) := by
    rw [← each]
    rfl
  rw [read]
  simp [Function.comp_def]

theorem decodeSteps_json {steps : List Step} (admitted : ∀ step ∈ steps, step.Admitted) :
    decodeSteps (stepsJson steps) = (steps.map Step.normal, []) :=
  decodeElements_map "steps" fun step mem path => decodeStep_json (admitted step mem) path

theorem decodeEdges_json {edges : List Edge} (admitted : ∀ edge ∈ edges, edge.Admitted) :
    decodeEdges (edgesJson edges) = (edges.map Edge.normal, []) :=
  decodeElements_map "edges" fun edge mem path => decodeEdge_json (admitted edge mem) path

def SortedMap.map {α : Type} (keep : α → α) (library : SortedMap α) : SortedMap α :=
  { entries := library.entries.map fun entry => (entry.1, keep entry.2)
    sorted := by simpa [Function.comp_def] using library.sorted }

theorem SortedMap.ext_entries {α : Type} {first second : SortedMap α}
    (same : first.entries = second.entries) : first = second := by
  obtain ⟨_, _⟩ := first
  cases same
  rfl

section Libraries

variable (library : SortedMap α) (write : α → JsonValue)

def SortedMap.members : Members :=
  library.entries.map fun entry => (JsonText.quote entry.1, write entry.2)

theorem SortedMap.keys_members :
    Members.keys (library.members write) = library.entries.map Prod.fst := by
  simp [Members.keys, SortedMap.members, Function.comp_def]

theorem SortedMap.sortedKeys_members :
    Members.sortedKeys (library.members write) = library.entries.map Prod.fst := by
  rw [Members.sortedKeys_of_pairwise (by rw [SortedMap.keys_members]; exact library.sorted),
    SortedMap.keys_members]

theorem SortedMap.get_members (mem : entry ∈ library.entries) :
    Members.get (library.members write) entry.1 = some (write entry.2) := by
  have distinct : (Members.keys (library.members write)).Nodup := by
    rw [SortedMap.keys_members]
    exact library.sorted.imp ne_of_lt
  have found := Members.get_of_mem distinct
    (mem_map.mpr ⟨entry, mem, rfl⟩ :
      (JsonText.quote entry.1, write entry.2) ∈ library.members write)
  rwa [text_quote] at found

end Libraries

theorem decodeLibrary_json {α : Type} {decode write keep} {library : SortedMap α} (name : String)
    (back : ∀ entry ∈ library.entries, ∀ path,
      decode (write entry.2) path = (some (keep entry.2), [])) :
    decodeLibrary decode name (library.json write) = (library.map keep, []) := by
  have read : ∀ entry ∈ library.entries,
      decode ((Members.get (library.members write) entry.1).getD .null) (name ++ "." ++ entry.1) =
        (some (keep entry.2), []) := by
    intro entry mem
    rw [library.get_members write mem, Option.getD_some]
    exact back entry mem _
  have shape : library.json write = .object (library.members write) := rfl
  rw [shape, decodeLibrary]
  refine Prod.ext (SortedMap.ext_entries ?_) ?_
  · change (Members.sortedKeys _).filterMap _ = _
    change _ = library.entries.map fun entry => (entry.1, keep entry.2)
    rw [library.sortedKeys_members write, filterMap_map, ← filterMap_eq_map]
    refine filterMap_congr fun entry mem => ?_
    simp [read entry mem]
  · change (Members.sortedKeys _).flatMap _ = []
    rw [library.sortedKeys_members write, flatMap_map, flatMap_eq_nil_iff]
    intro entry mem
    exact congrArg Prod.snd (read entry mem)

structure Template.Admitted (template : Template) : Prop where
  steps : ∀ step ∈ template.steps, step.Admitted
  edges : ∀ edge ∈ template.edges, edge.Admitted

def Template.normal (template : Template) : Template :=
  { steps := template.steps.map Step.normal
    edges := template.edges.map Edge.normal }

theorem decodeTemplate_json {template : Template} (admitted : template.Admitted) (path : String) :
    decodeTemplate template.json path = (some template.normal, []) := by
  have steps : required (templateFields.marshal template.fields) "steps" (path ++ ".steps") []
      decodeSteps = (template.steps.map Step.normal, []) :=
    required_some _ _ _ _ _ (by simp [templateFields, Template.fields])
      (decodeSteps_json admitted.steps)
  have edges : optional (templateFields.marshal template.fields) "edges" [] decodeEdges =
      (template.edges.map Edge.normal, []) := by
    have read := decodeEdges_json admitted.edges
    cases given : template.edges <;>
      simp_all [optional, templateFields, Template.fields, unlessEmpty]
  have known := unknownKeys_marshal templateFields template.fields fun key => path ++ "." ++ key
  rw [Template.json]
  simp only [decodeTemplate, decodeObjectMap, steps, edges, append_nil]
  exact Prod.ext rfl known

def AgentDef.Admitted (agent : AgentDef) : Prop :=
  ∀ context path, agent.context = some context → checkContextEnums context path = []

theorem checkAgentDef_admitted (admitted : agent.Admitted) (path : String) :
    checkAgentDef agent path = [] := by
  cases given : agent.context with
  | none => simp [checkAgentDef, given]
  | some context => simpa [checkAgentDef, given] using admitted context _ given

theorem decodeAgent_json (admitted : agent.Admitted) (path : String) :
    present (decodeBlock agentDef checkAgentDef) path (agentDef.marshal agent) =
      (some agent, []) := by
  rw [present, decodeBlock_exact (by decide) (by decide) (by decide)
    (checkAgentDef_admitted admitted path)]

def ParamSpec.Admitted (spec : ParamSpec) : Prop := ∃ type, spec.type = .known type

theorem decodeParam_json {spec : ParamSpec} (admitted : spec.Admitted) (path : String) :
    present (decodeBlock paramSpec checkParamSpec) path (paramSpec.marshal spec) =
      (some spec, []) := by
  obtain ⟨_, given⟩ := admitted
  rw [present, decodeBlock_exact (by decide) (by decide) (by decide)
    (by simp [checkParamSpec, given])]

theorem optional_library {α : Type} {decode write keep} {library : SortedMap α} (members : Members)
    (key : String) (found : Members.get members key = library.field write)
    (back : decode (library.json write) = (library.map keep, [])) :
    optional members key {} decode = (library.map keep, []) := by
  rw [optional, found, SortedMap.field, unlessEmpty]
  cases empty : library.entries.isEmpty with
  | true =>
    refine Prod.ext (SortedMap.ext_entries ?_) rfl
    simp [SortedMap.map, isEmpty_iff.mp empty]
  | false => simpa using back

theorem SortedMap.map_id {α : Type} (library : SortedMap α) : library.map id = library :=
  SortedMap.ext_entries (by simp [SortedMap.map])

structure Definition.Admitted (definition : Definition) : Prop where
  version : definition.schemaVersion = currentSchemaVersion
  onFailure : definition.onFailure.isOther = false
  onBudgetExceeded : definition.onBudgetExceeded.isOther = false
  templates : ∀ entry ∈ definition.templates.entries, entry.2.Admitted
  agents : ∀ entry ∈ definition.agents.entries, entry.2.Admitted
  params : ∀ entry ∈ definition.params.entries, entry.2.Admitted
  steps : ∀ step ∈ definition.steps, step.Admitted
  edges : ∀ edge ∈ definition.edges, edge.Admitted
  ui : definition.ui = "" ∨ ∃ members, Spells (.object members) definition.ui.toList

def Definition.normal (definition : Definition) : Definition :=
  { definition with
    templates := definition.templates.map Template.normal
    steps := definition.steps.map Step.normal
    edges := definition.edges.map Edge.normal }

theorem optional_setting {α : Type} [Named α] {setting : Setting α} (members : Members)
    (key label path : String) (admitted : setting.isOther = false)
    (found : Members.get members key =
      if setting.text = "" then none else some (.string (JsonText.quote setting.text))) :
    optional members key .unset (fun value => decodeSetting label value path) = (setting, []) := by
  rw [optional, found]
  cases setting with
  | unset => rfl
  | known value =>
    have filled : (Setting.known value : Setting α).text ≠ "" := Named.filled value
    simp [filled, decodeSetting, Setting.ofText_text]
  | other text => cases admitted

theorem decodeNumber_some {α : Type} {read lit} {value : α}
    (found : read lit = some value) (kind path : String) :
    decodeNumber read kind (.number lit) path = (some value, []) := by
  simp only [decodeNumber, found]

theorem optional_float (members : Members) (key path : String) (target : Option Float64)
    (found : Members.get members key = target.map JsonType.float.marshal) :
    optional members key none (fun value => decodeFloat value path) = (target, []) := by
  rw [optional, found]
  cases target with
  | none => rfl
  | some budget => exact decodeNumber_some (Float64.ofLit_lit budget) "number" path

def Definition.uiMember (definition : Definition) (value : JsonValue) :
    List (StringLit × RawValue) :=
  if definition.ui = "" then []
  else [(JsonText.quote "ui", { json := value, chars := definition.ui.toList })]

def Definition.raws (definition : Definition) (ui : JsonValue) : List (StringLit × RawValue) :=
  (definition.members.map fun member => (member.1, ⟨member.2, member.2.chars⟩)) ++
    definition.uiMember ui

theorem Definition.raws_texts (definition : Definition) (ui : JsonValue) :
    (definition.raws ui).map RawValue.member = definition.texts := by
  rw [Definition.raws, Definition.texts, Definition.uiMember, map_append]
  split <;> simp [RawValue.member, Function.comp_def]

theorem rawGet_json (fields : List (StringLit × RawValue)) (key : String) :
    Members.get (fields.map fun field => (field.1, field.2.json)) key =
      (rawGet fields key).map RawValue.json := by
  simp [Members.get, rawGet, filter_map, getLast?_map, Function.comp_def]

theorem Definition.get_raws (definition : Definition) (ui : JsonValue) {key : String}
    (other : key ≠ "ui") :
    Members.get ((definition.raws ui).map fun field => (field.1, field.2.json)) key =
      Members.get definition.members key := by
  have plain : ((definition.members.map fun mem =>
      ((mem.1, ⟨mem.2, mem.2.chars⟩) : StringLit × RawValue)).map fun field =>
        (field.1, field.2.json)) = definition.members := by
    simp [Function.comp_def]
  rw [Definition.raws, map_append, plain]
  refine Members.get_append_of_notMem ?_
  rw [Definition.uiMember]
  split <;> simp [Members.keys, other]

theorem Definition.rawGet_ui (definition : Definition) (ui : JsonValue) :
    rawGet (definition.raws ui) "ui" =
      if definition.ui = "" then none else some ⟨ui, definition.ui.toList⟩ := by
  rw [Definition.raws, Definition.uiMember]
  by_cases absent : definition.ui = ""
  · have unnamed : ∀ mem ∈ definition.members, StringLit.text mem.1 ≠ "ui" := by
      intro mem present named
      have known := topFields.mem_names_of_marshal definition.fields mem present
      rw [named] at known
      exact absurd known (by decide)
    rw [if_pos absent, if_pos absent, append_nil, rawGet, Option.map_eq_none_iff,
      getLast?_eq_none_iff, filter_eq_nil_iff]
    intro field present
    obtain ⟨mem, inside, rfl⟩ := mem_map.mp present
    simpa using unnamed mem inside
  · rw [if_neg absent, if_neg absent]
    simp [rawGet]

theorem decodeUI_raws (definition : Definition) (members : Members) :
    decodeUI (definition.raws (.object members)) = (definition.ui, []) := by
  rw [decodeUI, definition.rawGet_ui]
  by_cases absent : definition.ui = "" <;> simp [absent]

theorem unknownKeys_raws (definition : Definition) (ui : JsonValue) :
    unknownKeys ((definition.raws ui).map fun field => (field.1, field.2.json)) topLevelKeys id =
      [] := by
  rw [unknownKeys, flatMap_eq_nil_iff]
  intro key mem
  obtain ⟨_, inside, rfl⟩ := mem_map.mp (Members.mem_sortedKeys.mp mem)
  obtain ⟨_, present, rfl⟩ := mem_map.mp inside
  rcases mem_append.mp present with present | present
  · obtain ⟨written, given, rfl⟩ := mem_map.mp present
    have known : StringLit.text written.1 ∈ topLevelKeys :=
      mem_append_left ["ui"] (topFields.mem_names_of_marshal definition.fields written given)
    rw [if_pos (contains_iff_mem.mpr known)]
  · rw [Definition.uiMember] at present
    split at present
    · cases present
    · rw [mem_singleton.mp present, text_quote]
      decide

section Definitions

attribute [local simp] Definition.members topFields Definition.fields

theorem decodeFields_raws (admitted : definition.Admitted) (ui : Members) :
    decodeFields definition.schemaVersion (definition.raws (.object ui)) =
      (definition.normal, []) := by
  have found : ∀ {key read}, key ≠ "ui" ∧ Members.get definition.members key = read →
      Members.get ((definition.raws (.object ui)).map fun field => (field.1, field.2.json)) key =
        read := fun ⟨other, read⟩ => (definition.get_raws (.object ui) other).trans read
  have name := required_string _ "name" "name" definition.name (found (by simp))
  have description := optional_string _ "description" "description" definition.description
    (found (by simp))
  have onFailure := optional_setting _ "on_failure" "failure policy" "on_failure"
    admitted.onFailure (found (by simp [JsonType.setting]))
  have maxWallClock := optional_string _ "max_wall_clock" "max_wall_clock" definition.maxWallClock
    (found (by simp))
  have budgetUSD := optional_float _ "budget_usd" "budget_usd" definition.budgetUSD
    (found (by simp))
  have onBudgetExceeded := optional_setting _ "on_budget_exceeded" "budget policy"
    "on_budget_exceeded" admitted.onBudgetExceeded (found (by simp [JsonType.setting]))
  have expansion := optional_present _ "expansion" "expansion" decodeExpansion definition.expansion
    (found (by simp)) fun policy _ => decodeBlock_exact (by decide) (by decide) (by decide) rfl
  have templates := optional_library _ "templates" (found (by simp))
    (show decodeTemplates _ = _ from decodeLibrary_json "templates" fun entry mem =>
      decodeTemplate_json (admitted.templates entry mem))
  have agents := optional_library _ "agents" (found (by simp))
    (show decodeAgents _ = (definition.agents.map id, []) from
      decodeLibrary_json "agents" fun _ mem => decodeAgent_json (admitted.agents _ mem))
  have params := optional_library _ "params" (found (by simp))
    (show decodeParams _ = (definition.params.map id, []) from
      decodeLibrary_json "params" fun _ mem => decodeParam_json (admitted.params _ mem))
  have steps := required_some _ "steps" "steps" [] _ (found (by simp))
    (decodeSteps_json admitted.steps)
  have edges := required_some _ "edges" "edges" [] _ (found (by simp))
    (decodeEdges_json admitted.edges)
  simp only [decodeFields, name, description, onFailure, maxWallClock, budgetUSD,
    onBudgetExceeded, expansion, templates, agents, params, steps, edges, decodeUI_raws,
    unknownKeys_raws, SortedMap.map_id, Option.map_id', append_nil]
  rfl

theorem decodeVersion_raws (admitted : definition.Admitted)
    (ui : JsonValue) : decodeVersion (definition.raws ui) = .ok definition.schemaVersion := by
  have found : Members.get _ "schema_version" =
      some (.number (NumberLit.ofInt64 definition.schemaVersion)) :=
    (definition.get_raws ui (by decide)).trans (by simp)
  rw [rawGet_json] at found
  obtain ⟨raw, given, written⟩ := Option.map_eq_some_iff.mp found
  have read : decodeInt raw.json "schema_version" = (some definition.schemaVersion, []) := by
    rw [written]
    exact decodeNumber_some (NumberLit.toInt64?_ofInt64 _) _ _
  simp only [decodeVersion, given, read]
  rw [if_pos admitted.version]

end Definitions

end Agentloom.Dag.Authored
