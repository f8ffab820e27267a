import AgentFlow.Json.Reader
import AgentFlow.Text.Blank
import AgentFlow.Value.Rendering

/-!
# Declared fields

The typed fields that a node writes, and the conversion of a value to a declared type. Texts that
hold numbers, booleans or documents are read; anything but null has a text.
-/

namespace AgentFlow

/-- The type of a declared field. -/
inductive FieldKind where
  | string
  | int
  | float
  | bool
  | list
  | map
deriving DecidableEq, Inhabited

namespace FieldKind

/-- The name of a type in definitions and diagnostics. -/
def name : FieldKind → String
  | string => "string"
  | int => "int"
  | float => "float"
  | bool => "bool"
  | list => "list"
  | map => "map"

/-- All types, in the order of their declaration. -/
def all : List FieldKind := [string, int, float, bool, list, map]

/-- The name of a type in a JSON schema. -/
def schemaName : FieldKind → String
  | string => "string"
  | int => "integer"
  | float => "number"
  | bool => "boolean"
  | list => "array"
  | map => "object"

/-- A number as a whole number of 64 signed bits, if it is one. -/
def wholeNumber? (n : Number) : Option Value :=
  match n.toInt64? with
  | some i => some (.int i)
  | none => (n.toBinary.toInt?.filter inInt64).map .int

/-- The boolean that a text spells, in any case. -/
def boolean? (text : String) : Option Bool :=
  let word := String.ofList ((Text.trim text.toList).map Char.toLower)
  if word = "true" ∨ word = "yes" then some true
  else if word = "false" ∨ word = "no" then some false
  else none

/-- The value of a text of a real number; one that is not finite has the value null. -/
def realValue : Real64 → Value
  | .finite x => .float x
  | _ => .null

/-- Converts a value to a type. -/
def coerce : FieldKind → Value → Option Value
  | string, .string s => some (.string s)
  | string, .null => none
  | string, value => some (.string value.render)
  | int, .number n => wholeNumber? n
  | int, .string s => (readInteger? (Text.trim s.toList)).map .int
  | float, .number n => some (.float n.toBinary)
  | float, .string s => (readReal? (Text.trim s.toList)).map realValue
  | bool, .bool b => some (.bool b)
  | bool, .string s => (boolean? s).map .bool
  | list, .list items => some (.list items)
  | list, .string s =>
    match Json.read? (Text.trimmed s) with
    | some (.list items) => some (.list items)
    | _ => none
  | map, .map fields => some (.map fields)
  | map, .string s =>
    match Json.read? (Text.trimmed s) with
    | some (.map fields) => some (.map fields)
    | _ => none
  | _, _ => none

end FieldKind

/-- A declared field. -/
structure OutputField where
  name : String
  kind : FieldKind := .string
  description : Option String := none
  /-- Whether the value is shown to the user when it is written. -/
  userMessage : Bool := false
deriving DecidableEq

/-- A value that does not have the declared type. -/
structure Mismatch where
  expected : String
  found : String
deriving DecidableEq

/-- Converts a value to the type of a field. -/
def OutputField.coerce (field : OutputField) (value : Value) : Except Mismatch Value :=
  match field.kind.coerce value with
  | some value => .ok value
  | none => .error ⟨field.kind.name, value.kindName⟩

end AgentFlow
