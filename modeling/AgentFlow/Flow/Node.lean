import AgentFlow.Field
import AgentFlow.Fields
import AgentFlow.Text.Blank

/-!
# Nodes

The steps of a flow as their author writes them. What a node does is its kind; what every node
may have are declared output fields, a limit on its executions, and a list to fan out over.
-/

namespace AgentFlow

/-- The answers an input node allows: literal ones, or a reference to a list in the state. -/
inductive InputOptions where
  | list (items : List Value)
  | reference (text : String)
deriving DecidableEq

/-- Asks the caller for a value. -/
structure InputStep where
  prompt : String
  options : Option InputOptions := none
deriving DecidableEq

/-- Asks a model, which may call tools before it answers. -/
structure ModelStep where
  system : Option String := none
  prompt : String
  /-- The tools the model may call. -/
  tools : List String := []
  /-- Whether the caller has to approve tool calls. -/
  requireApproval : Bool := false
  /-- The fields that are filled with the raw result of a tool, with the tool. -/
  rawToolOutput : List (String × String) := []
  /-- The most turns with tool calls; the engine's own limit if unset. -/
  maxSteps : Option UInt64 := none
deriving DecidableEq

/-- Fills a field with the raw result of a tool. -/
def ModelStep.withRawOutput (step : ModelStep) (field tool : String) : ModelStep :=
  { step with rawToolOutput := Fields.put field tool step.rawToolOutput }

/-- Calls a tool. -/
structure ToolStep where
  tool : String
  /-- The arguments; strings in them are templates. -/
  args : List (String × Value) := []
deriving DecidableEq

/-- Adds an argument. -/
def ToolStep.withArg (step : ToolStep) (name : String) (value : Value) : ToolStep :=
  { step with args := Fields.put name value step.args }

/-- How an update node changes its one target. -/
inductive UpdateAction where
  | append
  | overwrite
  | increment
deriving DecidableEq

/-- The name of an action in definitions. -/
def UpdateAction.name : UpdateAction → String
  | append => "append"
  | overwrite => "overwrite"
  | increment => "increment"

/-- The name of an action in diagnostics. -/
def UpdateAction.title : UpdateAction → String
  | append => "Append"
  | overwrite => "Overwrite"
  | increment => "Increment"

/-- Changes the state: one target by an action, or several by assignment if there is none. -/
structure UpdateStep where
  action : Option UpdateAction := none
  /-- The assignments, whose strings are templates. -/
  values : List (String × Value) := []
  /-- The variable to read the operand from. -/
  source : Option String := none
  /-- The literal operand. -/
  value : Option Value := none
deriving DecidableEq

/-- What a node does. -/
inductive NodeKind where
  | input (step : InputStep)
  | model (step : ModelStep)
  | tool (step : ToolStep)
  /-- Emits lines, which are templates. -/
  | output (lines : List String)
  | update (step : UpdateStep)
deriving DecidableEq

/-- The name of a kind in definitions. -/
def NodeKind.label : NodeKind → String
  | input _ => "input"
  | model _ => "llm"
  | tool _ => "tool"
  | output _ => "output"
  | update _ => "update_state"

/-- Runs a node once for each item of a list. -/
structure ForEach where
  /-- The variable that holds the list; braces around it mean nothing. -/
  items : String
  /-- The name under which a worker sees its item. -/
  itemName : String := "item"
  /-- The variable that receives the results. -/
  output : String
  maxWorkers : Option UInt64 := none
deriving DecidableEq

namespace ForEach

/-- The variable that holds the list. -/
def itemsKey (each : ForEach) : String :=
  let key := Text.trim each.items.toList
  match key with
  | '\x7b' :: rest =>
    match rest.reverse with
    | '\x7d' :: inside => String.ofList inside.reverse
    | _ => String.ofList key
  | _ => String.ofList key

/-- The name under which a worker sees the index of its item. -/
def indexName (each : ForEach) : String := each.itemName ++ "_index"

end ForEach

/-- A node. -/
structure Node where
  name : String
  kind : NodeKind
  /-- The declared output fields. -/
  output : List OutputField := []
  /-- The most executions within a run. -/
  limit : Option UInt64 := none
  /-- The variable that counts the executions. -/
  limitCounter : Option String := none
  forEach : Option ForEach := none
deriving DecidableEq

namespace Node

/-- The declared output field of a name. -/
def field? (node : Node) (name : String) : Option OutputField :=
  node.output.find? fun field => field.name = name

/-- Whether tool calls of the node's model need approval. -/
def requiresApproval (node : Node) : Bool :=
  match node.kind with
  | .model step => step.requireApproval
  | _ => false

/-! ## Building nodes -/

/-- Declares a further output field. -/
def withOutput (node : Node) (field : OutputField) : Node :=
  { node with output := node.output ++ [field] }

/-- Sets the allowed answers of an input node; other nodes stay as they are. -/
def withOptions (node : Node) (options : InputOptions) : Node :=
  match node.kind with
  | .input step => { node with kind := .input { step with options := some options } }
  | _ => node

/-- Bounds the executions, counted in a variable. -/
def withLimit (node : Node) (limit : UInt64) (counter : String) : Node :=
  { node with limit := some limit, limitCounter := some counter }

/-- The node run once for each item of a list. -/
def withForEach (node : Node) (each : ForEach) : Node := { node with forEach := some each }

end Node

end AgentFlow
