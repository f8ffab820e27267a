import AgentFlow.Flow.Edge
import AgentFlow.Flow.Node
import AgentFlow.Record

/-!
# Flow definitions

A flow as its author writes it, and its form as a document. Reading fills in defaults; writing
shows every field but the parts of an edge that are not used. The fields of a node's kind stand
next to those that every node has.
-/

namespace AgentFlow

/-- Nodes and edges, not yet checked. -/
structure Definition where
  description : String := ""
  nodes : List Node := []
  edges : List Edge := []
deriving DecidableEq

/-! ## Output fields -/

/-- Reads the name of a kind. -/
def FieldKind.ofValue? : Value → Option FieldKind :=
  Record.oneOf (FieldKind.all.map fun kind => (kind.name, kind))

namespace OutputField

/-- Reads a declared field; only its name has no default. -/
def ofValue? (value : Value) : Option OutputField := do
  let fields ← Record.ofValue? ["name", "type", "description", "user_message"] value
  return {
    name := ← Record.required "name" Record.text fields
    kind := ← Record.withDefault "type" .string FieldKind.ofValue? fields
    description := ← Record.optional "description" Record.text fields
    userMessage := ← Record.withDefault "user_message" false Record.boolean fields }

/-- The field as it is read. -/
def toValue (field : OutputField) : Value :=
  Record.ofFields [
    ("name", .string field.name),
    ("type", .string field.kind.name),
    ("description", Record.orNull .string field.description),
    ("user_message", .bool field.userMessage)]

end OutputField

/-! ## Kinds of nodes -/

namespace InputOptions

/-- Reads a list of options, or the text that stands for one. -/
def ofValue? : Value → Option InputOptions
  | .list items => some (.list items)
  | .string text => some (.reference text)
  | _ => none

/-- The options as they are read. -/
def toValue : InputOptions → Value
  | .list items => .list items
  | .reference text => .string text

end InputOptions

namespace NodeKind

/-- The actions by name. -/
def actions : List (String × UpdateAction) :=
  [("append", .append), ("overwrite", .overwrite), ("increment", .increment)]

/-- Reads what a node asks its caller. -/
def inputOfFields? (fields : List (String × Value)) : Option InputStep := do
  return {
    prompt := ← Record.required "prompt" Record.text fields
    options := ← Record.optional "options" InputOptions.ofValue? fields }

/-- Reads what a model node has of its own. -/
def modelOfFields? (fields : List (String × Value)) : Option ModelStep := do
  return {
    system := ← Record.optional "system" Record.text fields
    prompt := ← Record.required "prompt" Record.text fields
    tools := ← Record.withDefault "tools" [] (Record.listOf Record.text) fields
    requireApproval := ← Record.withDefault "require_approval" false Record.boolean fields
    rawToolOutput := ← Record.withDefault "raw_tool_output" [] (Record.mapOf Record.text) fields
    maxSteps := ← Record.optional "max_steps" Record.word fields }

/-- Reads the tool of a node and its arguments. -/
def toolOfFields? (fields : List (String × Value)) : Option ToolStep := do
  return {
    tool := ← Record.required "tool" Record.text fields
    args := ← Record.withDefault "args" [] Record.anyMap fields }

/-- Reads what an update node does. -/
def updateOfFields? (fields : List (String × Value)) : Option UpdateStep := do
  return {
    action := ← Record.optional "action" (Record.oneOfOrEmpty actions) fields
    values := ← Record.withDefault "values" [] Record.anyMap fields
    source := ← Record.optional "source" Record.text fields
    value := ← Record.optional "value" some fields }

/-- The kind that a name, or a position in the list of kinds, stands for. -/
def labelOf? : Value → Option String
  | .string label => some label
  | .number n => n.toNat64?.bind fun i => ["input", "llm", "tool", "output", "update_state"][i]?
  | _ => none

/-- The kind of a node, read from the fields of the node. -/
def ofFields? (fields : List (String × Value)) : Option NodeKind := do
  match ← Record.required "type" labelOf? fields with
  | "input" => (inputOfFields? fields).map .input
  | "llm" => (modelOfFields? fields).map .model
  | "tool" => (toolOfFields? fields).map .tool
  | "output" => (Record.withDefault "values" [] (Record.listOf Record.text) fields).map .output
  | "update_state" => (updateOfFields? fields).map .update
  | _ => none

/-- The fields that a kind adds to its node. -/
def toFields (kind : NodeKind) : List (String × Value) :=
  ("type", .string kind.label) ::
  match kind with
  | .input step => [
      ("prompt", .string step.prompt),
      ("options", Record.orNull InputOptions.toValue step.options)]
  | .model step => [
      ("system", Record.orNull .string step.system),
      ("prompt", .string step.prompt),
      ("tools", Record.ofTexts step.tools),
      ("require_approval", .bool step.requireApproval),
      ("raw_tool_output", .map (step.rawToolOutput.map fun (f, t) => (f, .string t))),
      ("max_steps", Record.orNull Record.ofWord step.maxSteps)]
  | .tool step => [("tool", .string step.tool), ("args", .map step.args)]
  | .output lines => [("values", Record.ofTexts lines)]
  | .update step => [
      ("action", Record.orNull (fun action => .string action.name) step.action),
      ("values", .map step.values),
      ("source", Record.orNull .string step.source),
      ("value", Record.orNull id step.value)]

end NodeKind

/-! ## Nodes and edges -/

namespace ForEach

/-- Reads how a node fans out. -/
def ofValue? (value : Value) : Option ForEach := do
  let fields ← Record.ofValue? ["items", "as", "output", "max_workers"] value
  return {
    items := ← Record.required "items" Record.text fields
    itemName := ← Record.withDefault "as" "item" Record.text fields
    output := ← Record.required "output" Record.text fields
    maxWorkers := ← Record.optional "max_workers" Record.word fields }

/-- The fan-out as it is read. -/
def toValue (each : ForEach) : Value :=
  Record.ofFields [
    ("items", .string each.items),
    ("as", .string each.itemName),
    ("output", .string each.output),
    ("max_workers", Record.orNull Record.ofWord each.maxWorkers)]

end ForEach

namespace Node

/-- A node is always a map, because the fields of its kind have no place in a list. -/
def ofValue? : Value → Option Node
  | .map fields => do
    return {
      name := ← Record.required "name" Record.text fields
      kind := ← NodeKind.ofFields? fields
      output := ← Record.withDefault "output" [] (Record.listOf OutputField.ofValue?) fields
      limit := ← Record.optional "limit" Record.word fields
      limitCounter := ← Record.optional "limit_counter_field" Record.text fields
      forEach := ← Record.optional "foreach" ForEach.ofValue? fields }
  | _ => none

/-- The node as it is read: the fields of its kind in front of those of all nodes. -/
def toValue (node : Node) : Value :=
  Record.ofFields (node.kind.toFields ++ [
    ("name", .string node.name),
    ("output", .list (node.output.map OutputField.toValue)),
    ("limit", Record.orNull Record.ofWord node.limit),
    ("limit_counter_field", Record.orNull .string node.limitCounter),
    ("foreach", Record.orNull ForEach.toValue node.forEach)])

end Node

namespace ConditionalTarget

/-- Reads a target with its condition. -/
def ofValue? (value : Value) : Option ConditionalTarget := do
  let fields ← Record.ofValue? ["condition", "to"] value
  return {
    condition := ← Record.required "condition" Record.text fields
    node := ← Record.required "to" Record.text fields }

/-- The target as it is read. -/
def toValue (target : ConditionalTarget) : Value :=
  Record.ofFields [("condition", .string target.condition), ("to", .string target.node)]

end ConditionalTarget

namespace Edge

/-- Reads an edge, with one target or with several under conditions. -/
def ofValue? (value : Value) : Option Edge := do
  let fields ← Record.ofValue? ["from", "to", "conditions"] value
  return {
    source := ← Record.required "from" Record.text fields
    target := ← Record.optional "to" Record.text fields
    conditions :=
      ← Record.withDefault "conditions" [] (Record.listOf ConditionalTarget.ofValue?) fields }

/-- The parts that an edge does not use are left out. -/
def toValue (edge : Edge) : Value :=
  Record.ofFields (("from", .string edge.source) ::
    ((edge.target.toList.map fun target => ("to", Value.string target)) ++
    (if edge.conditions.isEmpty then []
      else [("conditions", .list (edge.conditions.map ConditionalTarget.toValue))])))

end Edge

namespace Definition

/-- Reads a definition; nodes or edges that are missing are none. -/
def ofValue? (value : Value) : Option Definition := do
  let fields ← Record.ofValue? ["description", "nodes", "edges"] value
  return {
    description := ← Record.withDefault "description" "" Record.text fields
    nodes := ← Record.withDefault "nodes" [] (Record.listOf Node.ofValue?) fields
    edges := ← Record.withDefault "edges" [] (Record.listOf Edge.ofValue?) fields }

/-- The definition as it is read. -/
def toValue (definition : Definition) : Value :=
  Record.ofFields [
    ("description", .string definition.description),
    ("nodes", .list (definition.nodes.map Node.toValue)),
    ("edges", .list (definition.edges.map Edge.toValue))]

end Definition

end AgentFlow
