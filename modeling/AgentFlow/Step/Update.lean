import AgentFlow.Step.Basic
import AgentFlow.Template

/-!
# Update nodes

The writes of an update node, all computed from one and the same state: either assignments, which
are simultaneous, or one action on one target.
-/

namespace AgentFlow

/-- The sum of two numbers. Whole numbers of 64 signed bits are added exactly or not at all; any
other pair is added as doubles. -/
def Number.add (key : String) (current delta : Number) : Except Error Number :=
  match current.toInt64?, delta.toInt64? with
  | some a, some b =>
    if inInt64 (a + b) then .ok (.int (a + b))
    else .error (.typeMismatch key "int within range" "overflow")
  | _, _ =>
    match current.toBinary.add? delta.toBinary with
    | some sum => .ok (.float sum)
    | none => .error (.typeMismatch key "finite number" (Value.number current).kindName)

namespace UpdateStep

/-- The operand: the value of the source, or else the literal value filled in. -/
def operand (step : UpdateStep) (state : Store) : Except Error (Option Value) :=
  match step.source with
  | some source =>
    match state.get? source with
    | some value => .ok (some value)
    | none => .error (.unknownVariable source)
  | none =>
    match step.value with
    | some value => (Template.interpolateValue state.get? value).map some
    | none => .ok none

/-- The operand of an action that cannot do without. -/
def requiredOperand (node : Node) (step : UpdateStep) (state : Store) : Except Error Value := do
  match ← step.operand state with
  | some value => .ok value
  | none => .error (.structural s!"node '{node.name}' needs a `source` or a `value`")

/-- The list under a name with an item more; a new list if there is none. -/
def append (target : String) (state : Store) (item : Value) : Except Error Value :=
  match state.get? target with
  | none => .ok (.list [item])
  | some (.list items) => .ok (.list (items ++ [item]))
  | some other => .error (.typeMismatch target "list" other.kindName)

/-- The number under a name with another added; the other itself if there is none. -/
def increment (target : String) (state : Store) (delta : Number) : Except Error Value :=
  match state.get? target with
  | none => .ok (.number delta)
  | some (.number current) => (current.add target delta).map .number
  | some other => .error (.typeMismatch target "number" other.kindName)

/-- The new value of the target of an action. -/
def act (node : Node) (step : UpdateStep) (state : Store) (target : String) :
    UpdateAction → Except Error Value
  | .append => do append target state (← requiredOperand node step state)
  | .overwrite => requiredOperand node step state
  | .increment => do
    match (← step.operand state).getD (.int 1) with
    | .number delta => increment target state delta
    | other => .error (.typeMismatch (step.source.getD "value") "number" other.kindName)

/-- The writes of an update node. -/
def run (node : Node) (step : UpdateStep) (state : Store) : Except Error NodeResult :=
  match step.action with
  | none => do return { fields := ← Template.interpolateFields state.get? step.values }
  | some action =>
    match node.output with
    | [field] => do return { fields := [(field.name, ← act node step state field.name action)] }
    | _ => .error (.structural
        s!"node '{node.name}': {action.title} requires exactly one output field")

end UpdateStep

end AgentFlow
