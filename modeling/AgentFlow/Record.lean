import AgentFlow.Fields
import AgentFlow.Value.Basic

/-!
# Records in documents

How a record of the configuration or of a definition stands in a document: as a map, whose
unknown fields mean nothing, or as the list of its fields in the order of their declaration. A
field is required, or has a default, or is optional; null is an absent optional field and nothing
else. Numbers are not converted to other types, nor texts.
-/

namespace AgentFlow.Record

variable {α : Type}

/-- The named fields of a record whose declaration lists `names`. -/
def ofValue? (names : List String) : Value → Option (List (String × Value))
  | .map fields => some fields
  | .list items => if items.length ≤ names.length then some (names.zip items) else none
  | _ => none

/-- Cuts the list of a record's fields behind the last of `names`. -/
def withoutSurplus (names : List String) : Value → Value
  | .list items => .list (items.take names.length)
  | value => value

/-- A field that must be there. -/
def required (name : String) (read : Value → Option α) (fields : List (String × Value)) :
    Option α :=
  (fields.lookup name).bind read

/-- A field with a default. -/
def withDefault (name : String) (default : α) (read : Value → Option α)
    (fields : List (String × Value)) : Option α :=
  match fields.lookup name with
  | none => some default
  | some value => read value

/-- A field that may be absent. -/
def optional (name : String) (read : Value → Option α) (fields : List (String × Value)) :
    Option (Option α) :=
  match fields.lookup name with
  | none | some .null => some none
  | some value => (read value).map some

/-! ## Values of fields -/

/-- Reads a string. -/
def text : Value → Option String
  | .string s => some s
  | _ => none

/-- Reads a truth value. -/
def boolean : Value → Option Bool
  | .bool b => some b
  | _ => none

/-- A whole number of 64 unsigned bits. -/
def natural : Value → Option Nat
  | .number n => n.toNat64?
  | _ => none

/-- A whole number of 64 unsigned bits, as such. -/
def word : Value → Option UInt64 := fun value => (natural value).map UInt64.ofNat

/-- A whole number of 32 unsigned bits. -/
def natural32 (value : Value) : Option Nat := (natural value).filter (· < twoPow 32)

/-- A list of what `read` reads. -/
def listOf (read : Value → Option α) : Value → Option (List α)
  | .list items => items.mapM read
  | _ => none

/-- A map to what `read` reads. -/
def mapOf (read : Value → Option α) : Value → Option (List (String × α))
  | .map fields => fields.mapM fun (name, value) => (read value).map (name, ·)
  | _ => none

/-- Any map. -/
def anyMap : Value → Option (List (String × Value))
  | .map fields => some fields
  | _ => none

/-- One of several words, alone or as the only name of a map to null. -/
def oneOf (words : List (String × α)) : Value → Option α
  | .string s => words.lookup s
  | .map [(s, .null)] => words.lookup s
  | _ => none

/-- One of several words in any of these forms, or as the only name of a map to an empty map. -/
def oneOfOrEmpty (words : List (String × α)) : Value → Option α
  | .map [(s, .map [])] => words.lookup s
  | value => oneOf words value

/-! ## Writing records -/

/-- An optional field as a value. -/
def orNull (write : α → Value) : Option α → Value
  | some a => write a
  | none => .null

/-- A word as a value. -/
def ofWord (n : UInt64) : Value := .int n.toNat

/-- Texts as a list. -/
def ofTexts (texts : List String) : Value := .list (texts.map .string)

/-- A map of the given fields. -/
def ofFields (fields : List (String × Value)) : Value := .map (Fields.ofList fields)

end AgentFlow.Record
