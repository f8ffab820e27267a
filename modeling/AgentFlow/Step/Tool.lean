import AgentFlow.Step.Basic
import AgentFlow.Template
import AgentFlow.Tool.Invoke

/-!
# Tool nodes

A tool node calls its tool with its arguments filled in. The result is text: a lone text field
takes it as it is, otherwise the schema that the tool declares says how to read it, and without
one it is read as JSON if it is JSON and as text if not.
-/

namespace AgentFlow

/-- The type that a tool declares for its result. -/
def declaredKind? (schema : Option Value) : Option String :=
  (schema.bind (·.field? "type")).bind Value.string?

/-- The fields that a tool declares as always present in its result. -/
def declaredFields (schema : Option Value) : List String :=
  (((schema.bind (·.field? "required")).bind Value.list?).getD []).filterMap Value.string?

/-- A result that has the declared fields. -/
def checkDeclared (tool : String) (schema : Option Value) (value : Value) : Except Error Value :=
  match (declaredFields schema).filter fun name => (value.field? name).isNone with
  | [] => .ok value
  | missing => .error (.toolInvocation tool
      ("result is missing declared fields: " ++ ", ".intercalate missing))

/-- The value of a tool's result for the declared fields of a node. -/
def resultValue (fields : List OutputField) (tool : String) (schema : Option Value)
    (content : String) : Except Error Value :=
  let decoded : Except Error Value :=
    match declaredKind? schema with
    | some kind =>
      if kind = "string" then .ok (.string content)
      else match Json.read content with
        | .ok value => checkDeclared tool schema value
        | .error fault => .error (.toolInvocation tool
            s!"result is not the declared {kind}: {fault.message content}")
    | none => .ok ((Json.read? content).getD (.string content))
  match fields with
  | [field] => if field.kind = .string then .ok (.string content) else decoded
  | _ => decoded

/-- The writes of a tool node for a result of its tool. -/
def Node.assignResult (node : Node) (tool : String) (schema : Option Value)
    (result : ToolResult) : Except Error NodeResult :=
  if result.isError then .error (.toolInvocation tool result.content)
  else do
    let value ← resultValue node.output tool schema result.content
    return { fields := ← node.assign value }

/-- Runs a tool node. -/
def ToolStep.run (node : Node) (step : ToolStep) (box : Toolbox) (vars : Lookup)
    (itemIndex : Option Nat) : Work NodeResult := do
  let args ← Work.ofExcept (Template.interpolateFields vars step.args)
  let call : ToolCall := ⟨step.tool, .map args, node.name, itemIndex⟩
  let result ← call.observed box
  let schema := (box.get? step.tool).bind (·.outputSchema)
  Work.ofExcept (node.assignResult step.tool schema result)

end AgentFlow
