import AgentFlow.Config.Basic
import AgentFlow.Record

/-!
# Conversations with a model

The messages that go back and forth, their form as documents, and the requests that carry them.
-/

namespace AgentFlow

/-- Who speaks. -/
inductive Role where
  | system
  | user
  | assistant
  | tool
deriving DecidableEq

/-- A part of a message. -/
inductive Block where
  | text (text : String)
  /-- The model asks for a tool to be called. -/
  | toolUse (id name : String) (input : Value)
  /-- The result of a call that the model asked for. -/
  | toolResult (id content : String) (isError : Bool)
deriving DecidableEq

/-- A message. -/
structure Message where
  role : Role
  content : List Block
deriving DecidableEq

namespace Message

/-- A text of the user. -/
def user (text : String) : Message := ⟨.user, [.text text]⟩

/-- A text of the model. -/
def assistant (text : String) : Message := ⟨.assistant, [.text text]⟩

/-- The result of one tool call. -/
def toolResult (id content : String) (isError : Bool) : Message :=
  ⟨.user, [.toolResult id content isError]⟩

/-- The texts of a message, joined. -/
def text (message : Message) : String :=
  String.join (message.content.filterMap fun
    | .text text => some text
    | _ => none)

/-- The tool calls of a message. -/
def toolUses (message : Message) : List (String × String × Value) :=
  message.content.filterMap fun
    | .toolUse id name input => some (id, name, input)
    | _ => none

end Message

/-! ## As documents -/

namespace Role

/-- The roles by their names. -/
def words : List (String × Role) :=
  [("system", system), ("user", user), ("assistant", assistant), ("tool", tool)]

/-- The name of a role where it is written. -/
def name : Role → String
  | system => "system"
  | user => "user"
  | assistant => "assistant"
  | tool => "tool"

end Role

namespace Block

/-- The names of the kinds of blocks. -/
def kinds : List String := ["text", "tool_use", "tool_result"]

/-- The names of the fields of a kind of block, in the order of a list. -/
def fieldNames (kind : String) : List String :=
  if kind = "text" then ["text"]
  else if kind = "tool_use" then ["id", "name", "input"]
  else ["tool_use_id", "content", "is_error"]

/-- The kind of a block. -/
def kindOf? (value : Value) : Option String := (Record.text value).filter kinds.contains

/-- The kind and the fields of a block, which is a map with a type or a list that starts with
it. -/
def parts? : Value → Option (String × List (String × Value))
  | .map fields => do return (← Record.required "type" kindOf? fields, fields)
  | .list (kind :: items) => do
    let kind ← kindOf? kind
    return (kind, ← Record.ofValue? (fieldNames kind) (.list items))
  | _ => none

/-- Reads a block by its type, with the fields that the type has. -/
def ofValue? (value : Value) : Option Block := do
  match ← parts? value with
  | ("text", fields) => return .text (← Record.required "text" Record.text fields)
  | ("tool_use", fields) =>
    return .toolUse (← Record.required "id" Record.text fields)
      (← Record.required "name" Record.text fields) (← Record.required "input" some fields)
  | (_, fields) =>
    return .toolResult (← Record.required "tool_use_id" Record.text fields)
      (← Record.required "content" Record.text fields)
      (← Record.required "is_error" Record.boolean fields)

/-- The block as it is read. -/
def toValue : Block → Value
  | text s => Record.ofFields [("type", .string "text"), ("text", .string s)]
  | toolUse id name input => Record.ofFields [
      ("type", .string "tool_use"), ("id", .string id), ("name", .string name), ("input", input)]
  | toolResult id content isError => Record.ofFields [
      ("type", .string "tool_result"), ("tool_use_id", .string id),
      ("content", .string content), ("is_error", .bool isError)]

end Block

namespace Message

/-- Reads a message. -/
def ofValue? (value : Value) : Option Message := do
  let fields ← Record.ofValue? ["role", "content"] value
  return {
    role := ← Record.required "role" (Record.oneOf Role.words) fields
    content := ← Record.required "content" (Record.listOf Block.ofValue?) fields }

/-- The message as it is read. -/
def toValue (message : Message) : Value :=
  Record.ofFields [
    ("role", .string message.role.name),
    ("content", .list (message.content.map Block.toValue))]

end Message

/-! ## Requests -/

/-- What a model is told about a tool. -/
structure ToolDefinition where
  name : String
  description : String
  inputSchema : Value
deriving DecidableEq

/-- The definition as the model is given it. -/
def ToolDefinition.toValue (tool : ToolDefinition) : Value :=
  Record.ofFields [
    ("name", .string tool.name),
    ("description", .string tool.description),
    ("input_schema", tool.inputSchema)]

/-- One request to a model. -/
structure ModelRequest where
  model : Option ModelConfig
  system : Option String
  messages : List Message
  /-- The tools that the model may ask for. -/
  tools : List ToolDefinition
  /-- The schema that the final answer should follow. -/
  outputSchema : Option Value
deriving DecidableEq

/-- The request as a record; what it lacks is null. -/
def ModelRequest.toValue (request : ModelRequest) : Value :=
  Record.ofFields [
    ("model", Record.orNull ModelConfig.toValue request.model),
    ("system", Record.orNull .string request.system),
    ("messages", .list (request.messages.map Message.toValue)),
    ("tools", .list (request.tools.map ToolDefinition.toValue)),
    ("output_schema", Record.orNull id request.outputSchema)]

end AgentFlow
