import AgentFlow.Chat.Message
import AgentFlow.Error
import AgentFlow.Flow.Node
import AgentFlow.Store

/-!
# Executing a node

What the execution of a node leaves behind: the values to write to the state and the lines to
emit. Nothing is written while a node runs; the run applies it all at once when the node is done.
-/

namespace AgentFlow

/-- How many items a fan-out had, and how they ended. -/
structure FanOutSummary where
  total : Nat
  succeeded : Nat := 0
  failed : Nat := 0
deriving DecidableEq

/-- What a finished node wants written and emitted. -/
structure NodeResult where
  /-- The writes, in order. -/
  fields : List (String × Value) := []
  /-- The lines of an output node. -/
  lines : List String := []
  /-- The counts of a node that fanned out. -/
  fanOut : Option FanOutSummary := none
deriving DecidableEq

/-- A value as a declared field. -/
def OutputField.assign (field : OutputField) (value : Value) : Except Error (String × Value) :=
  match field.coerce value with
  | .ok value => .ok (field.name, value)
  | .error m => .error (.typeMismatch field.name m.expected m.found)

/-- The fields of a map as declared fields, each under its name. -/
def assignFields (map : List (String × Value)) :
    List OutputField → Except Error (List (String × Value))
  | [] => .ok []
  | field :: rest =>
    match map.lookup field.name with
    | none => .error (.typeMismatch field.name field.kind.name "nothing")
    | some value => do
      let first ← field.assign value
      let others ← assignFields map rest
      return first :: others

/-- Distributes a value over the declared fields: a lone field takes it whole, several fields
take the parts of a map. -/
def Node.assign (node : Node) (value : Value) : Except Error (List (String × Value)) :=
  match node.output with
  | [] => .ok []
  | [field] => (field.assign value).map ([·])
  | fields =>
    match value with
    | .map map => assignFields map fields
    | other => .error (.typeMismatch node.name "map" other.kindName)

end AgentFlow
