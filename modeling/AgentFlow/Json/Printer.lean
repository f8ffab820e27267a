import AgentFlow.Number.Notation
import AgentFlow.Value.Basic

/-!
# JSON text

The compact and the indented form of a value. Names stand in the order of the map, which is
increasing; characters outside ASCII are written as they are, control characters as escapes.
-/

namespace AgentFlow.Json

/-- A lower-case hexadecimal digit. -/
def hexDigit (n : Nat) : Char := Nat.digitChar (n % 16)

/-- A character inside a JSON string. -/
def escapeChar (c : Char) : List Char :=
  if c = '"' then ['\\', '"']
  else if c = '\\' then ['\\', '\\']
  else if c = '\n' then ['\\', 'n']
  else if c = '\r' then ['\\', 'r']
  else if c = '\t' then ['\\', 't']
  else if c = '\x08' then ['\\', 'b']
  else if c = '\x0c' then ['\\', 'f']
  else if c.toNat < 32 then ['\\', 'u', '0', '0', hexDigit (c.toNat / 16), hexDigit c.toNat]
  else [c]

/-- A string with its quotes. -/
def quoted (s : String) : List Char := '"' :: (s.toList.flatMap escapeChar ++ ['"'])

/-- A number in decimal. -/
def numberText : Number → String
  | .int n => integerText n
  | .float x => x.documentText

mutual

/-- A value without any blanks. -/
def compactChars : Value → List Char
  | .null => ['n', 'u', 'l', 'l']
  | .bool true => ['t', 'r', 'u', 'e']
  | .bool false => ['f', 'a', 'l', 's', 'e']
  | .number n => (numberText n).toList
  | .string s => quoted s
  | .list items => '[' :: (compactItems items ++ [']'])
  | .map fields => '{' :: (compactFields fields ++ ['}'])

/-- The items of a list between their commas. -/
def compactItems : List Value → List Char
  | [] => []
  | [item] => compactChars item
  | item :: rest => compactChars item ++ ',' :: compactItems rest

/-- The fields of a map between their commas. -/
def compactFields : List (String × Value) → List Char
  | [] => []
  | [(name, value)] => quoted name ++ ':' :: compactChars value
  | (name, value) :: rest => quoted name ++ ':' :: (compactChars value ++ ',' :: compactFields rest)

end

/-- The compact text of a value. -/
def compact (value : Value) : String := String.ofList (compactChars value)

/-- A new line with an indent of two blanks a level. -/
def newLine (level : Nat) : List Char := '\n' :: List.replicate (2 * level) ' '

mutual

/-- A value over several lines, its parts one level deeper than itself. -/
def indentedChars (level : Nat) : Value → List Char
  | .list [] => ['[', ']']
  | .list items => '[' :: (indentedItems (level + 1) items ++ newLine level ++ [']'])
  | .map [] => ['{', '}']
  | .map fields => '{' :: (indentedFields (level + 1) fields ++ newLine level ++ ['}'])
  | .null => ['n', 'u', 'l', 'l']
  | .bool true => ['t', 'r', 'u', 'e']
  | .bool false => ['f', 'a', 'l', 's', 'e']
  | .number n => (numberText n).toList
  | .string s => quoted s

/-- Items on lines of their own. -/
def indentedItems (level : Nat) : List Value → List Char
  | [] => []
  | [item] => newLine level ++ indentedChars level item
  | item :: rest => newLine level ++ indentedChars level item ++ ',' :: indentedItems level rest

/-- Fields on lines of their own. -/
def indentedFields (level : Nat) : List (String × Value) → List Char
  | [] => []
  | [(name, value)] => newLine level ++ quoted name ++ ':' :: ' ' :: indentedChars level value
  | (name, value) :: rest =>
    newLine level ++ quoted name ++ ':' :: ' ' ::
      (indentedChars level value ++ ',' :: indentedFields level rest)

end

/-- The indented text of a value. -/
def indented (value : Value) : String := String.ofList (indentedChars 0 value)

end AgentFlow.Json
