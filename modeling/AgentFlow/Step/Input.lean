import AgentFlow.Step.Basic
import AgentFlow.Template
import AgentFlow.Value.Equivalence

/-!
# Input nodes

An input node shows a prompt and perhaps the allowed answers, and takes a value from the caller.
The value may have been supplied before the node is reached; it is accepted by the same rule.
-/

namespace AgentFlow

/-- What the caller is asked. -/
structure InputRequest where
  prompt : String
  options : Option (List Value)
deriving DecidableEq

/-- The allowed answers in the current state. -/
def InputOptions.resolve (vars : Lookup) : InputOptions → Except Error (List Value)
  | .list items => Template.interpolateItems vars items
  | .reference text => do
    match ← Template.interpolateText vars text with
    | .list items => .ok items
    | other => .error (.typeMismatch text "list" other.kindName)

/-- What the caller is asked in the current state. -/
def InputStep.request (step : InputStep) (vars : Lookup) : Except Error InputRequest := do
  let prompt ← Template.interpolate vars step.prompt
  match step.options with
  | none => return ⟨prompt, none⟩
  | some options => return ⟨prompt, some (← options.resolve vars)⟩

/-- The result of an input node for an answer, which is refused if it is not among the options or
does not fit the declared fields. -/
def Node.acceptInput (node : Node) (request : InputRequest) (value : Value) :
    Except Error NodeResult :=
  let allowed := match request.options with
    | none => true
    | some options => options.any fun option => option.equivalent value
  if !allowed then
    .error (.invalidResume
      s!"{Json.compact value} is not one of the allowed options for '{node.name}'")
  else
    match node.assign value with
    | .ok fields => .ok { fields }
    | .error error => .error (.invalidResume s!"input for '{node.name}': {error.message}")

end AgentFlow
