import AgentFlow.Answer
import AgentFlow.Chat.Turn
import AgentFlow.Flow.Node
import AgentFlow.Step.Basic
import AgentFlow.Template
import AgentFlow.Tool.Basic

/-!
# The conversation of a model node

What a model node says to its model: the opening prompt, the results of tool calls, and requests
to answer again. Fields that are filled with the raw result of a tool are not asked for, and the
model does not get to see their values.
-/

namespace AgentFlow

/-! ## The opening -/

/-- What stays the same over the conversation of a node. -/
structure Brief where
  system : Option String
  tools : List ToolDefinition
  /-- The schema of the fields that the model has to answer. -/
  schema : Option Value
  /-- The item that is worked on, when the node fans out. -/
  itemIndex : Option Nat
deriving DecidableEq

/-- The fields that the model has to answer: those that no tool fills. -/
def ModelStep.answered (step : ModelStep) (fields : List OutputField) : List OutputField :=
  fields.filter fun field => !Fields.has field.name step.rawToolOutput

/-- Whether the fields have to be answered as JSON: a lone text field is answered in words. -/
def wantsJson : List OutputField → Bool
  | [] => false
  | [field] => field.kind ≠ .string
  | _ => true

/-- The request for JSON behind the prompt. -/
def schemaNote (schema : Value) : String :=
  "\n\nRespond with a JSON object matching this schema:\n" ++ Json.compact schema

/-- The prompt of a node, with the request for JSON if that is wanted. -/
def openingPrompt (prompt : String) (answered : List OutputField) : String :=
  match Answer.schema? answered with
  | some schema => if wantsJson answered then prompt ++ schemaNote schema else prompt
  | none => prompt

/-! ## The state of a conversation -/

/-- How far a conversation has come. -/
structure Talk where
  messages : List Message
  /-- Results of the calls of the last turn, not yet sent. -/
  observations : List Block := []
  /-- The fields that tools have filled. -/
  captured : List (String × Value) := []
deriving DecidableEq

namespace Talk

/-- The conversation that starts with a prompt. -/
def opening (prompt : String) : Talk := { messages := [.user prompt] }

/-- Adds a message. -/
def say (talk : Talk) (message : Message) : Talk :=
  { talk with messages := talk.messages ++ [message] }

/-- Notes the result of a call for the model. -/
def observe (talk : Talk) (call : ToolUse) (content : String) (isError : Bool) : Talk :=
  { talk with observations := talk.observations ++ [.toolResult call.id content isError] }

/-- Sends the results noted so far. -/
def feedBack (talk : Talk) : Talk :=
  { talk with
    messages := talk.messages ++ [⟨.user, talk.observations⟩]
    observations := [] }

end Talk

/-! ## Results of tools -/

/-- What the model is told instead of a result that fills a field. -/
def captureNote (tool field : String) : String :=
  "[output of '" ++ tool ++ "' stored in '" ++ field ++ "']"

/-- The raw result of a tool as the value of a field: converted to its type, if that is
possible. -/
def rawValue (node : Node) (field content : String) : Value :=
  ((node.field? field).bind fun f => f.kind.coerce (.string content)).getD (.string content)

/-- The fields that a tool fills. -/
def ModelStep.filledBy (step : ModelStep) (tool : String) : List String :=
  (step.rawToolOutput.filter fun entry => entry.2 = tool).map Prod.fst

/-- Notes the result of a call: a successful result may fill fields, and is then hidden. -/
def Talk.record (talk : Talk) (node : Node) (step : ModelStep) (limit : Nat) (call : ToolUse)
    (result : ToolResult) : Talk :=
  let filled := if result.isError then [] else step.filledBy call.name
  let values := filled.map fun field => (field, rawValue node field result.content)
  let content := match filled.getLast? with
    | some field => captureNote call.name field
    | none => Answer.truncate limit result.content
  { talk.observe call content result.isError with
    captured := Fields.putAll talk.captured values }

/-- Whether tools have filled all declared fields. -/
def Talk.isComplete (talk : Talk) (node : Node) (step : ModelStep) : Bool :=
  !step.rawToolOutput.isEmpty && !node.output.isEmpty &&
    node.output.all fun field => Fields.has field.name talk.captured

/-! ## Asking again -/

/-- What the model is told when its answer was of no use. -/
def reprompt (fault : Answer.Fault) (schema : Option Value) : String :=
  match schema with
  | some schema =>
    "Your previous answer could not be used: " ++ fault.message ++
      ".\nReply again with only a JSON object matching this schema:\n" ++ Json.compact schema
  | none =>
    "Your previous answer could not be used: " ++ fault.message ++ ". Please answer again."

end AgentFlow
