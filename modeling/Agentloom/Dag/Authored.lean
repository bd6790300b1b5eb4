import Agentloom.Dag.Definition
import Agentloom.Library.Setting

/-! Workflow definitions as they are authored: every configuration and policy with the JSON form
of its type. Graph and run logic read the part that `Dag.Definition` keeps. -/

namespace Agentloom.Dag.Authored

open JsonText

inductive BudgetPolicy where
  | park
  | fail
deriving DecidableEq, Repr

instance : Named BudgetPolicy where
  all := [.park, .fail]
  text
    | .park => "park"
    | .fail => "fail"

inductive ParamType where
  | string
  | number
  | boolean
  | object
  | array
deriving DecidableEq, Repr

instance : Named ParamType where
  all := [.string, .number, .boolean, .object, .array]
  text
    | .string => "string"
    | .number => "number"
    | .boolean => "boolean"
    | .object => "object"
    | .array => "array"

inductive ExhaustAction where
  | proceed
  | fail
deriving DecidableEq, Repr

instance : Named ExhaustAction where
  all := [.proceed, .fail]
  text
    | .proceed => "proceed"
    | .fail => "fail"

inductive OutputFormatType where
  | json
  | jsonSchema
deriving DecidableEq, Repr

instance : Named OutputFormatType where
  all := [.json, .jsonSchema]
  text
    | .json => "json"
    | .jsonSchema => "json_schema"

inductive OutputFormatMode where
  | auto
  | repairOnly
deriving DecidableEq, Repr

instance : Named OutputFormatMode where
  all := [.auto, .repairOnly]
  text
    | .auto => "auto"
    | .repairOnly => "repair_only"

inductive ItemFailurePolicy where
  | failFast
  | collectErrors
deriving DecidableEq, Repr

instance : Named ItemFailurePolicy where
  all := [.failFast, .collectErrors]
  text
    | .failFast => "fail_fast"
    | .collectErrors => "collect_errors"

inductive CacheMode where
  | off
  | readWrite
  | readOnly
deriving DecidableEq, Repr

instance : Named CacheMode where
  all := [.off, .readWrite, .readOnly]
  text
    | .off => "off"
    | .readWrite => "read_write"
    | .readOnly => "read_only"

inductive CacheScope where
  | global
  | run
deriving DecidableEq, Repr

instance : Named CacheScope where
  all := [.global, .run]
  text
    | .global => "global"
    | .run => "run"

inductive ErrorClass where
  | transient
  | permanent
  | timeout
  | cancelled
  | validationFailed
deriving DecidableEq, Repr

instance : Named ErrorClass where
  all := [.transient, .permanent, .timeout, .cancelled, .validationFailed]
  text
    | .transient => "transient"
    | .permanent => "permanent"
    | .timeout => "timeout"
    | .cancelled => "cancelled"
    | .validationFailed => "validation_failed"

inductive JitterMode where
  | full
  | none
deriving DecidableEq, Repr

instance : Named JitterMode where
  all := [.full, .none]
  text
    | .full => "full"
    | .none => "none"

inductive ContextSourceKind where
  | stepOutput
  | blackboard
  | retrieval
  | literal
  | thread
deriving DecidableEq, Repr

instance : Named ContextSourceKind where
  all := [.stepOutput, .blackboard, .retrieval, .literal, .thread]
  text
    | .stepOutput => "step_output"
    | .blackboard => "blackboard"
    | .retrieval => "retrieval"
    | .literal => "literal"
    | .thread => "thread"

inductive ContextMissingPolicy where
  | error
  | skip
deriving DecidableEq, Repr

instance : Named ContextMissingPolicy where
  all := [.error, .skip]
  text
    | .error => "error"
    | .skip => "skip"

inductive CompactionStrategyKind where
  | dropLowestPriority
  | truncateOldest
  | slidingWindow
  | summarize
deriving DecidableEq, Repr

instance : Named CompactionStrategyKind where
  all := [.dropLowestPriority, .truncateOldest, .slidingWindow, .summarize]
  text
    | .dropLowestPriority => "drop_lowest_priority"
    | .truncateOldest => "truncate_oldest"
    | .slidingWindow => "sliding_window"
    | .summarize => "summarize"

instance : Named FailurePolicy where
  all := [.failFast, .continueIndependentBranches]
  text
    | .failFast => "fail_fast"
    | .continueIndependentBranches => "continue_independent_branches"

instance : Named EdgeType where
  all := [.normal, .loop]
  text
    | .normal => "normal"
    | .loop => "loop"

instance : Named ApprovalDecision where
  all := [.approve, .reject]
  text
    | .approve => "approve"
    | .reject => "reject"

instance : Named ApprovalTimeoutPolicy where
  all := [.reject, .approve, .park]
  text
    | .reject => "reject"
    | .approve => "approve"
    | .park => "park"

instance : Named ApprovalRejectPolicy where
  all := [.fail, .route]
  text
    | .fail => "fail"
    | .route => "route"

instance : Named JoinMode where
  all := [.all, .any]
  text
    | .all => "all"
    | .any => "any"

structure LLMMessage where
  role : String := ""
  content : String := ""
deriving DecidableEq, Repr

def llmMessage : JsonType LLMMessage :=
  .via (.struct
    (.cons "role" true .string
    (.cons "content" true .string
    .nil)))
    (fun (role, content, _) => ⟨role, content⟩)
    (fun x => (x.role, x.content, ()))

structure OutputFormat where
  type : Setting OutputFormatType := .unset
  schema : Option JsonValue := none
  mode : Setting OutputFormatMode := .unset
deriving DecidableEq, Repr

def outputFormat : JsonType OutputFormat :=
  .via (.struct
    (.cons "type" true (.setting OutputFormatType)
    (.cons "schema" true .raw
    (.cons "mode" true (.setting OutputFormatMode)
    .nil))))
    (fun (type, schema, mode, _) => ⟨type, schema, mode⟩)
    (fun x => (x.type, x.schema, x.mode, ()))

structure ModelFallback where
  model : String := ""
  atBudgetFraction : Option Float64 := none
deriving DecidableEq, Repr

def modelFallback : JsonType ModelFallback :=
  .via (.struct
    (.cons "model" true .string
    (.cons "at_budget_fraction" true (.pointer .float)
    .nil)))
    (fun (model, atBudgetFraction, _) => ⟨model, atBudgetFraction⟩)
    (fun x => (x.model, x.atBudgetFraction, ()))

structure LLMConfig where
  model : String := ""
  system : String := ""
  prompt : String := ""
  messages : List LLMMessage := []
  maxTokens : Int64 := 0
  temperature : Option Float64 := none
  modelFallbacks : List ModelFallback := []
  outputFormat : Option OutputFormat := none
deriving DecidableEq, Repr

def llmConfig : JsonType LLMConfig :=
  .via (.struct
    (.cons "model" true .string
    (.cons "system" true .string
    (.cons "prompt" true .string
    (.cons "messages" true (.list llmMessage)
    (.cons "max_tokens" true .int
    (.cons "temperature" true (.pointer .float)
    (.cons "model_fallbacks" true (.list modelFallback)
    (.cons "output_format" true (.pointer outputFormat)
    .nil)))))))))
    (fun (model, system, prompt, messages, maxTokens, temperature, modelFallbacks, outputFormat,
          _) =>
      ⟨model, system, prompt, messages, maxTokens, temperature, modelFallbacks, outputFormat⟩)
    (fun x => (x.model, x.system, x.prompt, x.messages, x.maxTokens, x.temperature,
      x.modelFallbacks, x.outputFormat, ()))

structure ToolConfig where
  tool : String := ""
  input : Option JsonValue := none
deriving DecidableEq, Repr

def toolConfig : JsonType ToolConfig :=
  .via (.struct
    (.cons "tool" true .string
    (.cons "input" true .raw
    .nil)))
    (fun (tool, input, _) => ⟨tool, input⟩)
    (fun x => (x.tool, x.input, ()))

structure RetrieveConfig where
  retriever : String := ""
  query : String := ""
  topK : Int64 := 0
deriving DecidableEq, Repr

def retrieveConfig : JsonType RetrieveConfig :=
  .via (.struct
    (.cons "retriever" true .string
    (.cons "query" true .string
    (.cons "top_k" true .int
    .nil))))
    (fun (retriever, query, topK, _) => ⟨retriever, query, topK⟩)
    (fun x => (x.retriever, x.query, x.topK, ()))

structure MapConfig where
  items : Option JsonValue := none
  body : String := ""
  maxItems : Int64 := 0
  onItemFailure : Setting ItemFailurePolicy := .unset
deriving DecidableEq, Repr

def mapConfig : JsonType MapConfig :=
  .via (.struct
    (.cons "items" true .raw
    (.cons "body" true .string
    (.cons "max_items" true .int
    (.cons "on_item_failure" true (.setting ItemFailurePolicy)
    .nil)))))
    (fun (items, body, maxItems, onItemFailure, _) => ⟨items, body, maxItems, onItemFailure⟩)
    (fun x => (x.items, x.body, x.maxItems, x.onItemFailure, ()))

structure GatherConfig where
  items : Option JsonValue := none
deriving DecidableEq, Repr

def gatherConfig : JsonType GatherConfig :=
  .via (.struct
    (.cons "items" true .raw
    .nil))
    (fun (items, _) => ⟨items⟩)
    (fun x => (x.items, ()))

structure PlannerConfig where
  model : String := ""
  prompt : String := ""
  messages : List LLMMessage := []
  maxTokens : Int64 := 0
  temperature : Option Float64 := none
  maxAddedSteps : Int64 := 0
deriving DecidableEq, Repr

def plannerConfig : JsonType PlannerConfig :=
  .via (.struct
    (.cons "model" true .string
    (.cons "prompt" true .string
    (.cons "messages" true (.list llmMessage)
    (.cons "max_tokens" true .int
    (.cons "temperature" true (.pointer .float)
    (.cons "max_added_steps" true .int
    .nil)))))))
    (fun (model, prompt, messages, maxTokens, temperature, maxAddedSteps, _) =>
      ⟨model, prompt, messages, maxTokens, temperature, maxAddedSteps⟩)
    (fun x => (x.model, x.prompt, x.messages, x.maxTokens, x.temperature, x.maxAddedSteps, ()))

structure AgentConfig where
  agent : String := ""
  system : String := ""
  model : String := ""
  prompt : String := ""
  messages : List LLMMessage := []
  maxTokens : Int64 := 0
  temperature : Option Float64 := none
  modelFallbacks : List ModelFallback := []
  outputFormat : Option OutputFormat := none
  tools : Option (List String) := none
  role : String := ""
deriving DecidableEq, Repr

def agentConfig : JsonType AgentConfig :=
  .via (.struct
    (.cons "agent" true .string
    (.cons "system" true .string
    (.cons "model" true .string
    (.cons "prompt" true .string
    (.cons "messages" true (.list llmMessage)
    (.cons "max_tokens" true .int
    (.cons "temperature" true (.pointer .float)
    (.cons "model_fallbacks" true (.list modelFallback)
    (.cons "output_format" true (.pointer outputFormat)
    (.cons "tools" true (.slice .string)
    (.cons "role" true .string
    .nil))))))))))))
    (fun (agent, system, model, prompt, messages, maxTokens, temperature, modelFallbacks,
          outputFormat, tools, role, _) =>
      ⟨agent, system, model, prompt, messages, maxTokens, temperature, modelFallbacks,
       outputFormat, tools, role⟩)
    (fun x => (x.agent, x.system, x.model, x.prompt, x.messages, x.maxTokens, x.temperature,
      x.modelFallbacks, x.outputFormat, x.tools, x.role, ()))

structure HumanApprovalConfig where
  title : String := ""
  description : String := ""
  payload : Option JsonValue := none
  allowedDecisions : List (Setting ApprovalDecision) := []
  allowEdit : Bool := false
  editSchema : Option JsonValue := none
  timeout : String := ""
  onTimeout : Setting ApprovalTimeoutPolicy := .unset
  onReject : Setting ApprovalRejectPolicy := .unset
deriving DecidableEq, Repr

def humanApprovalConfig : JsonType HumanApprovalConfig :=
  .via (.struct
    (.cons "title" true .string
    (.cons "description" true .string
    (.cons "payload" true .raw
    (.cons "allowed_decisions" true (.list (.setting ApprovalDecision))
    (.cons "allow_edit" true .bool
    (.cons "edit_schema" true .raw
    (.cons "timeout" true .string
    (.cons "on_timeout" true (.setting ApprovalTimeoutPolicy)
    (.cons "on_reject" true (.setting ApprovalRejectPolicy)
    .nil))))))))))
    (fun (title, description, payload, allowedDecisions, allowEdit, editSchema, timeout,
          onTimeout, onReject, _) =>
      ⟨title, description, payload, allowedDecisions, allowEdit, editSchema, timeout, onTimeout,
       onReject⟩)
    (fun x => (x.title, x.description, x.payload, x.allowedDecisions, x.allowEdit, x.editSchema,
      x.timeout, x.onTimeout, x.onReject, ()))

structure JoinConfig where
  mode : Setting JoinMode := .unset
deriving DecidableEq, Repr

def joinConfig : JsonType JoinConfig :=
  .via (.struct
    (.cons "mode" true (.setting JoinMode)
    .nil))
    (fun (mode, _) => ⟨mode⟩)
    (fun x => (x.mode, ()))

structure BranchConfig where
  input : Option JsonValue := none
deriving DecidableEq, Repr

def branchConfig : JsonType BranchConfig :=
  .via (.struct
    (.cons "input" true .raw
    .nil))
    (fun (input, _) => ⟨input⟩)
    (fun x => (x.input, ()))

structure NoopConfig where
deriving DecidableEq, Repr

def noopConfig : JsonType NoopConfig :=
  .via (.struct
    .nil)
    (fun _ => {}) (fun _ => ())

structure EchoConfig where
  input : Option JsonValue := none
deriving DecidableEq, Repr

def echoConfig : JsonType EchoConfig :=
  .via (.struct
    (.cons "input" true .raw
    .nil))
    (fun (input, _) => ⟨input⟩)
    (fun x => (x.input, ()))

structure SleepConfig where
  duration : String := ""
deriving DecidableEq, Repr

def sleepConfig : JsonType SleepConfig :=
  .via (.struct
    (.cons "duration" true .string
    .nil))
    (fun (duration, _) => ⟨duration⟩)
    (fun x => (x.duration, ()))

structure FailNTimesConfig where
  n : Int64 := 0
deriving DecidableEq, Repr

def failNTimesConfig : JsonType FailNTimesConfig :=
  .via (.struct
    (.cons "n" true .int
    .nil))
    (fun (n, _) => ⟨n⟩)
    (fun x => (x.n, ()))

structure CounterConfig where
  path : String := ""
deriving DecidableEq, Repr

def counterConfig : JsonType CounterConfig :=
  .via (.struct
    (.cons "path" true .string
    .nil))
    (fun (path, _) => ⟨path⟩)
    (fun x => (x.path, ()))

structure EffectfulEchoConfig where
  path : String := ""
  input : Option JsonValue := none
  failTimes : Int64 := 0
deriving DecidableEq, Repr

def effectfulEchoConfig : JsonType EffectfulEchoConfig :=
  .via (.struct
    (.cons "path" true .string
    (.cons "input" true .raw
    (.cons "fail_times" true .int
    .nil))))
    (fun (path, input, failTimes, _) => ⟨path, input, failTimes⟩)
    (fun x => (x.path, x.input, x.failTimes, ()))

structure BlackboardWriteConfig where
  key : String := ""
  value : Option JsonValue := none
  tags : List String := []
  expectedVersion : Option Int64 := none
  readKey : String := ""
deriving DecidableEq, Repr

def blackboardWriteConfig : JsonType BlackboardWriteConfig :=
  .via (.struct
    (.cons "key" true .string
    (.cons "value" true .raw
    (.cons "tags" true (.list .string)
    (.cons "expected_version" true (.pointer .int)
    (.cons "read_key" true .string
    .nil))))))
    (fun (key, value, tags, expectedVersion, readKey, _) =>
      ⟨key, value, tags, expectedVersion, readKey⟩)
    (fun x => (x.key, x.value, x.tags, x.expectedVersion, x.readKey, ()))

structure BackoffSpec where
  initial : String := ""
  cap : String := ""
  multiplier : PlainFloat := PlainFloat.zero
deriving DecidableEq, Repr

def backoffSpec : JsonType BackoffSpec :=
  .via (.struct
    (.cons "initial" true .string
    (.cons "cap" true .string
    (.cons "multiplier" true .plainFloat
    .nil))))
    (fun (initial, cap, multiplier, _) => ⟨initial, cap, multiplier⟩)
    (fun x => (x.initial, x.cap, x.multiplier, ()))

structure RetryPolicy where
  maxAttempts : Int64 := 0
  backoff : Option BackoffSpec := none
  jitter : Setting JitterMode := .unset
  retryOn : Option (List (Setting ErrorClass)) := none
deriving DecidableEq, Repr

def retryPolicy : JsonType RetryPolicy :=
  .via (.struct
    (.cons "max_attempts" true .int
    (.cons "backoff" true (.pointer backoffSpec)
    (.cons "jitter" true (.setting JitterMode)
    (.cons "retry_on" true (.slice (.setting ErrorClass))
    .nil)))))
    (fun (maxAttempts, backoff, jitter, retryOn, _) => ⟨maxAttempts, backoff, jitter, retryOn⟩)
    (fun x => (x.maxAttempts, x.backoff, x.jitter, x.retryOn, ()))

structure CachePolicy where
  mode : Setting CacheMode := .unset
  ttl : String := ""
  scope : Setting CacheScope := .unset
deriving DecidableEq, Repr

def cachePolicy : JsonType CachePolicy :=
  .via (.struct
    (.cons "mode" true (.setting CacheMode)
    (.cons "ttl" true .string
    (.cons "scope" true (.setting CacheScope)
    .nil))))
    (fun (mode, ttl, scope, _) => ⟨mode, ttl, scope⟩)
    (fun x => (x.mode, x.ttl, x.scope, ()))

structure StepBudget where
  maxUSD : Option Float64 := none
  maxTokens : Int64 := 0
deriving DecidableEq, Repr

def stepBudget : JsonType StepBudget :=
  .via (.struct
    (.cons "max_usd" true (.pointer .float)
    (.cons "max_tokens" true .int
    .nil)))
    (fun (maxUSD, maxTokens, _) => ⟨maxUSD, maxTokens⟩)
    (fun x => (x.maxUSD, x.maxTokens, ()))

structure ValidatorSpec where
  name : String := ""
  config : Option JsonValue := none
  target : String := ""
deriving DecidableEq, Repr

def validatorSpec : JsonType ValidatorSpec :=
  .via (.struct
    (.cons "name" false .string
    (.cons "config" true .raw
    (.cons "target" true .string
    .nil))))
    (fun (name, config, target, _) => ⟨name, config, target⟩)
    (fun x => (x.name, x.config, x.target, ()))

structure FeedbackPolicy where
  template : String := ""
  maxOutputChars : Int64 := 0
deriving DecidableEq, Repr

def feedbackPolicy : JsonType FeedbackPolicy :=
  .via (.struct
    (.cons "template" true .string
    (.cons "max_output_chars" true .int
    .nil)))
    (fun (template, maxOutputChars, _) => ⟨template, maxOutputChars⟩)
    (fun x => (x.template, x.maxOutputChars, ()))

structure ValidationPolicy where
  validators : List ValidatorSpec := []
  maxAttempts : Int64 := 0
  feedback : Option FeedbackPolicy := none
deriving DecidableEq, Repr

def validationPolicy : JsonType ValidationPolicy :=
  .via (.struct
    (.cons "validators" true (.list validatorSpec)
    (.cons "max_attempts" true .int
    (.cons "feedback" true (.pointer feedbackPolicy)
    .nil))))
    (fun (validators, maxAttempts, feedback, _) => ⟨validators, maxAttempts, feedback⟩)
    (fun x => (x.validators, x.maxAttempts, x.feedback, ()))

structure BlackboardWrite where
  key : String := ""
  source : String := ""
  tags : List String := []
  pinned : Bool := false
deriving DecidableEq, Repr

def blackboardWrite : JsonType BlackboardWrite :=
  .via (.struct
    (.cons "key" false .string
    (.cons "from" true .string
    (.cons "tags" true (.list .string)
    (.cons "pinned" true .bool
    .nil)))))
    (fun (key, source, tags, pinned, _) => ⟨key, source, tags, pinned⟩)
    (fun x => (x.key, x.source, x.tags, x.pinned, ()))

structure BlackboardPolicy where
  write : List BlackboardWrite := []
deriving DecidableEq, Repr

def blackboardPolicy : JsonType BlackboardPolicy :=
  .via (.struct
    (.cons "write" true (.list blackboardWrite)
    .nil))
    (fun (write, _) => ⟨write⟩)
    (fun x => (x.write, ()))

structure CompactionStrategy where
  strategy : Setting CompactionStrategyKind := .unset
  n : Option Int64 := none
  minTokens : Option Int64 := none
  model : String := ""
  key : String := ""
  maxTokens : Option Int64 := none
  timeout : String := ""
deriving DecidableEq, Repr

def compactionStrategy : JsonType CompactionStrategy :=
  .via (.struct
    (.cons "strategy" false (.setting CompactionStrategyKind)
    (.cons "n" true (.pointer .int)
    (.cons "min_tokens" true (.pointer .int)
    (.cons "model" true .string
    (.cons "key" true .string
    (.cons "max_tokens" true (.pointer .int)
    (.cons "timeout" true .string
    .nil))))))))
    (fun (strategy, n, minTokens, model, key, maxTokens, timeout, _) =>
      ⟨strategy, n, minTokens, model, key, maxTokens, timeout⟩)
    (fun x => (x.strategy, x.n, x.minTokens, x.model, x.key, x.maxTokens, x.timeout, ()))

structure ContextSource where
  kind : Setting ContextSourceKind := .unset
  name : String := ""
  step : String := ""
  path : String := ""
  key : String := ""
  role : String := ""
  tags : List String := []
  retriever : String := ""
  query : String := ""
  topK : Option Int64 := none
  text : String := ""
  maxTokens : Option Int64 := none
  pinned : Bool := false
  priority : Option Int64 := none
  onMissing : Setting ContextMissingPolicy := .unset
deriving DecidableEq, Repr

def contextSource : JsonType ContextSource :=
  .via (.struct
    (.cons "kind" false (.setting ContextSourceKind)
    (.cons "name" true .string
    (.cons "step" true .string
    (.cons "path" true .string
    (.cons "key" true .string
    (.cons "role" true .string
    (.cons "tags" true (.list .string)
    (.cons "retriever" true .string
    (.cons "query" true .string
    (.cons "top_k" true (.pointer .int)
    (.cons "text" true .string
    (.cons "max_tokens" true (.pointer .int)
    (.cons "pinned" true .bool
    (.cons "priority" true (.pointer .int)
    (.cons "on_missing" true (.setting ContextMissingPolicy)
    .nil))))))))))))))))
    (fun (kind, name, step, path, key, role, tags, retriever, query, topK, text, maxTokens,
          pinned, priority, onMissing, _) =>
      ⟨kind, name, step, path, key, role, tags, retriever, query, topK, text, maxTokens, pinned,
       priority, onMissing⟩)
    (fun x => (x.kind, x.name, x.step, x.path, x.key, x.role, x.tags, x.retriever, x.query,
      x.topK, x.text, x.maxTokens, x.pinned, x.priority, x.onMissing, ()))

structure ContextSpec where
  sources : List ContextSource := []
  budgetTokens : Option Int64 := none
  compaction : List CompactionStrategy := []
deriving DecidableEq, Repr

def contextSpec : JsonType ContextSpec :=
  .via (.struct
    (.cons "sources" true (.list contextSource)
    (.cons "budget_tokens" true (.pointer .int)
    (.cons "compaction" true (.list compactionStrategy)
    .nil))))
    (fun (sources, budgetTokens, compaction, _) => ⟨sources, budgetTokens, compaction⟩)
    (fun x => (x.sources, x.budgetTokens, x.compaction, ()))

structure ExpansionPolicy where
  maxAddedSteps : Option Int64 := none
  maxTotalSteps : Option Int64 := none
  maxExpansions : Option Int64 := none
  maxDepth : Option Int64 := none
deriving DecidableEq, Repr

def expansionPolicy : JsonType ExpansionPolicy :=
  .via (.struct
    (.cons "max_added_steps" true (.pointer .int)
    (.cons "max_total_steps" true (.pointer .int)
    (.cons "max_expansions" true (.pointer .int)
    (.cons "max_depth" true (.pointer .int)
    .nil)))))
    (fun (maxAddedSteps, maxTotalSteps, maxExpansions, maxDepth, _) =>
      ⟨maxAddedSteps, maxTotalSteps, maxExpansions, maxDepth⟩)
    (fun x => (x.maxAddedSteps, x.maxTotalSteps, x.maxExpansions, x.maxDepth, ()))

structure NoProgressPolicy where
  step : String := ""
  path : String := ""
  policy : Setting ExhaustAction := .unset
deriving DecidableEq, Repr

def noProgressPolicy : JsonType NoProgressPolicy :=
  .via (.struct
    (.cons "step" true .string
    (.cons "path" true .string
    (.cons "policy" true (.setting ExhaustAction)
    .nil))))
    (fun (step, path, policy, _) => ⟨step, path, policy⟩)
    (fun x => (x.step, x.path, x.policy, ()))

structure Edge where
  fromStep : String := ""
  toStep : String := ""
  when : String := ""
  type : Setting EdgeType := .unset
  condition : String := ""
  maxIterations : Int64 := 0
  onExhausted : Setting ExhaustAction := .unset
  noProgress : Option NoProgressPolicy := none
  decision : Setting ApprovalDecision := .unset
deriving DecidableEq, Repr

def edge : JsonType Edge :=
  .via (.struct
    (.cons "from" false .string
    (.cons "to" false .string
    (.cons "when" true .string
    (.cons "type" true (.setting EdgeType)
    (.cons "condition" true .string
    (.cons "max_iterations" true .int
    (.cons "on_exhausted" true (.setting ExhaustAction)
    (.cons "no_progress" true (.pointer noProgressPolicy)
    (.cons "decision" true (.setting ApprovalDecision)
    .nil))))))))))
    (fun (fromStep, toStep, when, type, condition, maxIterations, onExhausted, noProgress,
          decision, _) =>
      ⟨fromStep, toStep, when, type, condition, maxIterations, onExhausted, noProgress, decision⟩)
    (fun x => (x.fromStep, x.toStep, x.when, x.type, x.condition, x.maxIterations, x.onExhausted,
      x.noProgress, x.decision, ()))

structure ParamSpec where
  type : Setting ParamType := .unset
  required : Bool := false
deriving DecidableEq, Repr

def paramSpec : JsonType ParamSpec :=
  .via (.struct
    (.cons "type" false (.setting ParamType)
    (.cons "required" true .bool
    .nil)))
    (fun (type, required, _) => ⟨type, required⟩)
    (fun x => (x.type, x.required, ()))

structure AgentDef where
  role : String := ""
  system : String := ""
  model : String := ""
  modelFallbacks : List ModelFallback := []
  tools : List String := []
  maxTokens : Int64 := 0
  temperature : Option Float64 := none
  outputFormat : Option OutputFormat := none
  validation : Option ValidationPolicy := none
  context : Option ContextSpec := none
deriving DecidableEq, Repr

def agentDef : JsonType AgentDef :=
  .via (.struct
    (.cons "role" true .string
    (.cons "system" true .string
    (.cons "model" true .string
    (.cons "model_fallbacks" true (.list modelFallback)
    (.cons "tools" true (.list .string)
    (.cons "max_tokens" true .int
    (.cons "temperature" true (.pointer .float)
    (.cons "output_format" true (.pointer outputFormat)
    (.cons "validation" true (.pointer validationPolicy)
    (.cons "context" true (.pointer contextSpec)
    .nil)))))))))))
    (fun (role, system, model, modelFallbacks, tools, maxTokens, temperature, outputFormat,
          validation, context, _) =>
      ⟨role, system, model, modelFallbacks, tools, maxTokens, temperature, outputFormat,
       validation, context⟩)
    (fun x => (x.role, x.system, x.model, x.modelFallbacks, x.tools, x.maxTokens, x.temperature,
      x.outputFormat, x.validation, x.context, ()))

def ConfigOf : StepType → Type
  | .llm => LLMConfig
  | .tool => ToolConfig
  | .retrieve => RetrieveConfig
  | .map => MapConfig
  | .gather => GatherConfig
  | .planner => PlannerConfig
  | .agent => AgentConfig
  | .humanApproval => HumanApprovalConfig
  | .join => JoinConfig
  | .branch => BranchConfig
  | .noop => NoopConfig
  | .echo => EchoConfig
  | .sleep => SleepConfig
  | .failNTimes => FailNTimesConfig
  | .counter => CounterConfig
  | .effectfulEcho => EffectfulEchoConfig
  | .blackboardWrite => BlackboardWriteConfig
  | .unregistered _ => Unit

instance : (type : StepType) → DecidableEq (ConfigOf type)
  | .llm => inferInstanceAs (DecidableEq LLMConfig)
  | .tool => inferInstanceAs (DecidableEq ToolConfig)
  | .retrieve => inferInstanceAs (DecidableEq RetrieveConfig)
  | .map => inferInstanceAs (DecidableEq MapConfig)
  | .gather => inferInstanceAs (DecidableEq GatherConfig)
  | .planner => inferInstanceAs (DecidableEq PlannerConfig)
  | .agent => inferInstanceAs (DecidableEq AgentConfig)
  | .humanApproval => inferInstanceAs (DecidableEq HumanApprovalConfig)
  | .join => inferInstanceAs (DecidableEq JoinConfig)
  | .branch => inferInstanceAs (DecidableEq BranchConfig)
  | .noop => inferInstanceAs (DecidableEq NoopConfig)
  | .echo => inferInstanceAs (DecidableEq EchoConfig)
  | .sleep => inferInstanceAs (DecidableEq SleepConfig)
  | .failNTimes => inferInstanceAs (DecidableEq FailNTimesConfig)
  | .counter => inferInstanceAs (DecidableEq CounterConfig)
  | .effectfulEcho => inferInstanceAs (DecidableEq EffectfulEchoConfig)
  | .blackboardWrite => inferInstanceAs (DecidableEq BlackboardWriteConfig)
  | .unregistered _ => inferInstanceAs (DecidableEq Unit)

def stepConfigTypes : (type : StepType) → JsonType (ConfigOf type)
  | .llm => llmConfig
  | .tool => toolConfig
  | .retrieve => retrieveConfig
  | .map => mapConfig
  | .gather => gatherConfig
  | .planner => plannerConfig
  | .agent => agentConfig
  | .humanApproval => humanApprovalConfig
  | .join => joinConfig
  | .branch => branchConfig
  | .noop => noopConfig
  | .echo => echoConfig
  | .sleep => sleepConfig
  | .failNTimes => failNTimesConfig
  | .counter => counterConfig
  | .effectfulEcho => effectfulEchoConfig
  | .blackboardWrite => blackboardWriteConfig
  | .unregistered _ => .struct .nil

structure Step where
  id : String := ""
  type : StepType := .unregistered ""
  config : Option (ConfigOf type) := none
  retry : Option RetryPolicy := none
  timeout : String := ""
  cache : Option CachePolicy := none
  budget : Option StepBudget := none
  validation : Option ValidationPolicy := none
  blackboard : Option BlackboardPolicy := none
  context : Option ContextSpec := none
deriving DecidableEq

structure Template where
  steps : List Step := []
  edges : List Edge := []
deriving DecidableEq

structure SortedMap (α : Type) where
  entries : List (String × α) := []
  sorted : (entries.map Prod.fst).Pairwise (· < ·) := by simp
deriving DecidableEq

structure Definition where
  schemaVersion : Int64 := 1
  name : String := ""
  description : String := ""
  onFailure : Setting FailurePolicy := .unset
  maxWallClock : String := ""
  budgetUSD : Option Float64 := none
  onBudgetExceeded : Setting BudgetPolicy := .unset
  expansion : Option ExpansionPolicy := none
  templates : SortedMap Template := {}
  agents : SortedMap AgentDef := {}
  params : SortedMap ParamSpec := {}
  steps : List Step := []
  edges : List Edge := []
  /-- The text of the builder's own block as it was written, empty when there is none. -/
  ui : String := ""
deriving DecidableEq

end Agentloom.Dag.Authored
