import AgentFlow.Approval
import AgentFlow.Error

/-!
# Configuration of the engine

The bounds of runs, the handling of retries, the approval policy and the settings that are passed
on to the model, each with its default.
-/

namespace AgentFlow

/-- The bounds of every run. -/
structure RunLimits where
  /-- The most turns with tool calls of a model node that sets no limit of its own. -/
  maxToolSteps : Nat := 10
  /-- The number of items that a fan-out works on at a time. -/
  maxWorkers : Nat := 4
  /-- The most node executions. -/
  maxRunSteps : Nat := 1000
  /-- The most characters of a tool's output that a model is shown. -/
  maxToolOutputChars : Nat := 16000
deriving DecidableEq

/-- How often and how patiently a failed model request is repeated. -/
structure RetryConfig where
  maxRetries : Nat := 2
  initialBackoffMs : Nat := 500
  maxBackoffMs : Nat := 8000
deriving DecidableEq

/-- Settings for the model. -/
structure ModelConfig where
  provider : String := "anthropic"
  modelId : String
  maxTokens : Nat := 8192
  /-- A number of single precision; none if it is not finite. -/
  temperature : Option Binary64 := some (.zero false)
deriving DecidableEq

/-- The configuration. -/
structure Config where
  engine : RunLimits := {}
  retry : RetryConfig := {}
  approval : ApprovalPolicy := {}
  model : Option ModelConfig := none
deriving DecidableEq

/-! ## As a document -/

namespace RunLimits

/-- The names of the fields, in the order of their declaration. -/
def fieldNames : List String :=
  ["max_tool_steps", "max_workers", "max_run_steps", "max_tool_output_chars"]

/-- Reads the limits; one that is missing has its default. -/
def ofValue? (value : Value) : Option RunLimits := do
  let fields ← Record.ofValue? fieldNames value
  return {
    maxToolSteps := ← Record.withDefault "max_tool_steps" 10 Record.natural fields
    maxWorkers := ← Record.withDefault "max_workers" 4 Record.natural fields
    maxRunSteps := ← Record.withDefault "max_run_steps" 1000 Record.natural fields
    maxToolOutputChars :=
      ← Record.withDefault "max_tool_output_chars" 16000 Record.natural fields }

/-- The limits as they are read. -/
def toValue (limits : RunLimits) : Value :=
  Record.ofFields [
    ("max_tool_steps", .int limits.maxToolSteps),
    ("max_workers", .int limits.maxWorkers),
    ("max_run_steps", .int limits.maxRunSteps),
    ("max_tool_output_chars", .int limits.maxToolOutputChars)]

end RunLimits

namespace RetryConfig

/-- The names of the fields, in the order of their declaration. -/
def fieldNames : List String := ["max_retries", "initial_backoff_ms", "max_backoff_ms"]

/-- Reads the settings of retries; one that is missing has its default. -/
def ofValue? (value : Value) : Option RetryConfig := do
  let fields ← Record.ofValue? fieldNames value
  return {
    maxRetries := ← Record.withDefault "max_retries" 2 Record.natural32 fields
    initialBackoffMs := ← Record.withDefault "initial_backoff_ms" 500 Record.natural fields
    maxBackoffMs := ← Record.withDefault "max_backoff_ms" 8000 Record.natural fields }

/-- The settings of retries as they are read. -/
def toValue (retry : RetryConfig) : Value :=
  Record.ofFields [
    ("max_retries", .int retry.maxRetries),
    ("initial_backoff_ms", .int retry.initialBackoffMs),
    ("max_backoff_ms", .int retry.maxBackoffMs)]

end RetryConfig

namespace ModelConfig

/-- The names of the fields, in the order of their declaration. -/
def fieldNames : List String := ["provider", "model_id", "max_tokens", "temperature"]

/-- A number of single precision, none of it if the number is past the greatest one. -/
def single? : Value → Option (Option Binary64)
  | .number (.int n) => some (Binary64.singleOfInt? n)
  | .number (.float x) => some x.toSingle?
  | _ => none

/-- Reads the settings of the model, of which only its name has no default. -/
def ofValue? (value : Value) : Option ModelConfig := do
  let fields ← Record.ofValue? fieldNames value
  return {
    provider := ← Record.withDefault "provider" "anthropic" Record.text fields
    modelId := ← Record.required "model_id" Record.text fields
    maxTokens := ← Record.withDefault "max_tokens" 8192 Record.natural32 fields
    temperature := ← Record.withDefault "temperature" (some (.zero false)) single? fields }

/-- The settings of the model as they are read. -/
def toValue (model : ModelConfig) : Value :=
  Record.ofFields [
    ("provider", .string model.provider),
    ("model_id", .string model.modelId),
    ("max_tokens", .int model.maxTokens),
    ("temperature", .ofFloat? model.temperature)]

end ModelConfig

namespace Config

/-- The names of the sections and of their fields, in the order of their declaration. -/
def sections : List (String × List String) := [
  ("engine", RunLimits.fieldNames),
  ("retry", RetryConfig.fieldNames),
  ("approval", ApprovalPolicy.fieldNames),
  ("model", ModelConfig.fieldNames)]

/-- Reads a configuration section by section; only the model may be left open. -/
def ofValue? (value : Value) : Option Config := do
  let fields ← Record.ofValue? (sections.map Prod.fst) value
  return {
    engine := ← Record.withDefault "engine" {} RunLimits.ofValue? fields
    retry := ← Record.withDefault "retry" {} RetryConfig.ofValue? fields
    approval := ← Record.withDefault "approval" {} ApprovalPolicy.ofValue? fields
    model := ← Record.optional "model" ModelConfig.ofValue? fields }

/-- The configuration as it is read. -/
def toValue (config : Config) : Value :=
  Record.ofFields [
    ("engine", config.engine.toValue),
    ("retry", config.retry.toValue),
    ("approval", config.approval.toValue),
    ("model", Record.orNull ModelConfig.toValue config.model)]

/-- The bound of a configuration that allows nothing to be done, if there is one. -/
def defect? (config : Config) : Option Error :=
  if config.engine.maxWorkers = 0 then
    some (.config "engine.max_workers must be at least 1")
  else if config.engine.maxToolSteps = 0 then
    some (.config "engine.max_tool_steps must be at least 1")
  else none

end Config

end AgentFlow
