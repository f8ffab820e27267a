import AgentFlow.Chat.Message
import AgentFlow.Error

/-!
# Tools

What is known about a tool without calling it, the tools at hand by name, and what goes into a
call and comes out of it.
-/

namespace AgentFlow

/-- The declaration of a tool. -/
structure ToolSpec where
  name : String
  description : String
  inputSchema : Value
  /-- The schema of the result, if the tool declares one. -/
  outputSchema : Option Value := none
  /-- How long a call may take. -/
  timeoutSecs : Nat := 30
deriving DecidableEq

/-- The time limit of a call in milliseconds. -/
def ToolSpec.timeoutMs (tool : ToolSpec) : Nat := tool.timeoutSecs * 1000

/-- The tools at hand: at most one of each name. -/
structure Toolbox where
  tools : List (String × ToolSpec)

namespace Toolbox

/-- No tools at all. -/
def empty : Toolbox := ⟨[]⟩

/-- Adds a tool, in place of one of the same name. -/
def register (box : Toolbox) (tool : ToolSpec) : Toolbox :=
  ⟨Fields.put tool.name tool box.tools⟩

/-- The tools without the one of a name. -/
def unregister (box : Toolbox) (name : String) : Toolbox := ⟨Fields.erase name box.tools⟩

/-- The tool of a name. -/
def get? (box : Toolbox) (name : String) : Option ToolSpec := box.tools.lookup name

/-- Whether a tool is at hand. -/
def contains (box : Toolbox) (name : String) : Bool := (box.get? name).isSome

/-- The names of the tools in increasing order. -/
def names (box : Toolbox) : List String := Fields.names box.tools

/-- What a model is told about the tools on a list, in its order; unknown names are skipped. -/
def definitions (box : Toolbox) (names : List String) : List ToolDefinition :=
  names.filterMap fun name =>
    (box.get? name).map fun tool => ⟨tool.name, tool.description, tool.inputSchema⟩

/-- A tool is found under its name once it is registered, and others as before. -/
theorem get?_register (box : Toolbox) (tool : ToolSpec) (name : String) :
    (box.register tool).get? name = if name = tool.name then some tool else box.get? name :=
  Fields.lookup_put tool.name name tool box.tools

end Toolbox

/-- A call of a tool. -/
structure ToolCall where
  tool : String
  input : Value
  /-- The node on whose behalf the tool is called. -/
  node : String
  /-- The item that the node works on, when it fans out. -/
  itemIndex : Option Nat := none
deriving DecidableEq

/-- The result of a call. -/
structure ToolResult where
  content : String
  isError : Bool
deriving DecidableEq

namespace ToolResult

/-- A result that is no error. -/
def success (content : String) : ToolResult := ⟨content, false⟩

/-- A result that says what went wrong. -/
def failure (content : String) : ToolResult := ⟨content, true⟩

/-- The result that stands for an error of a call. -/
def ofExcept : Except Error ToolResult → ToolResult
  | .ok result => result
  | .error error => failure error.message

end ToolResult

end AgentFlow
