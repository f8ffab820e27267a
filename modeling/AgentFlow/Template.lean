import AgentFlow.Error
import AgentFlow.Number.Reading
import AgentFlow.Store
import AgentFlow.Text.DecimalDigit
import AgentFlow.Value.Rendering

/-!
# Templates

Text with references such as `{name}` or `{name[-1]}` to variables. A template is cut
into plain characters and references once, from left to right; what is filled in for a reference
is never looked at again. Braces that do not spell a reference are plain text.
-/

namespace AgentFlow.Template

/-- A reference: the name of a variable, and the numeral between brackets if there is one. -/
structure Reference where
  name : String
  index : Option (List Char)
deriving DecidableEq

/-- A reference as the template spells it. -/
def Reference.text (r : Reference) : String :=
  match r.index with
  | none => "\x7b" ++ r.name ++ "\x7d"
  | some numeral => "\x7b" ++ r.name ++ "[" ++ String.ofList numeral ++ "]\x7d"

/-- The characters that start a name. -/
def startsName (c : Char) : Bool := c.isAlpha || c = '_'

/-- The characters that continue a name. -/
def continuesName (c : Char) : Bool := c.isAlphanum || c = '_'

/-- The numeral in front of a closing bracket: an optional minus sign and decimal digits of any
script. -/
def indexNumeral? (text : List Char) : Option (List Char × List Char) :=
  let (sign, digits) := match text with
    | '-' :: rest => (['-'], rest)
    | _ => ([], text)
  let numeral := digits.takeWhile Text.isDecimalDigit
  match numeral, digits.dropWhile Text.isDecimalDigit with
  | _ :: _, ']' :: rest => some (sign ++ numeral, rest)
  | _, _ => none

/-- The reference behind an opening brace, and the text behind its closing brace. -/
def reference? (text : List Char) : Option (Reference × List Char) :=
  match text with
  | [] => none
  | c :: _ =>
    if startsName c then
      let name := String.ofList (text.takeWhile continuesName)
      match text.dropWhile continuesName with
      | '\x7d' :: rest => some (⟨name, none⟩, rest)
      | '[' :: more =>
        match indexNumeral? more with
        | some (numeral, '\x7d' :: rest) => some (⟨name, some numeral⟩, rest)
        | _ => none
      | _ => none
    else none

/-- A piece of a template. -/
inductive Piece where
  | plain (c : Char)
  | reference (r : Reference)
deriving DecidableEq

/-- The pieces of a template. Every step reads a character or more, so that the length of the
text is enough steps. -/
def piecesFrom : Nat → List Char → List Piece
  | _, [] => []
  | 0, _ :: _ => []
  | steps + 1, c :: rest =>
    if c = '\x7b' then
      match reference? rest with
      | some (r, rest) => .reference r :: piecesFrom steps rest
      | none => .plain c :: piecesFrom steps rest
    else .plain c :: piecesFrom steps rest

/-- The pieces of a template, in order. -/
def pieces (template : String) : List Piece := piecesFrom template.length template.toList

/-- The value of a variable, or of an item of the list that it holds. -/
def resolve (vars : Lookup) (name : String) (index : Option Int) : Except Error Value :=
  match vars name, index with
  | none, _ => .error (.unknownVariable name)
  | some value, none => .ok value
  | some value, some i =>
    match value.list?.bind fun items => itemAt? items i with
    | some item => .ok item
    | none => .error (.unknownVariable (name ++ "[" ++ integerText i ++ "]"))

/-- The value that a reference stands for. A numeral that is not an index of 64 bits names
nothing. -/
def Reference.resolve (vars : Lookup) (r : Reference) : Except Error Value :=
  match r.index with
  | none => Template.resolve vars r.name none
  | some numeral =>
    match readInteger? numeral with
    | some i => Template.resolve vars r.name (some i)
    | none => .error (.unknownVariable r.text)

/-- The text of the pieces, each reference replaced by the rendering of its value. -/
def fill (vars : Lookup) : List Piece → Except Error (List Char)
  | [] => .ok []
  | .plain c :: rest => (fill vars rest).map (c :: ·)
  | .reference r :: rest => do
    let value ← r.resolve vars
    let text ← fill vars rest
    return value.render.toList ++ text

/-- A template with its references replaced by the texts of their values. -/
def interpolate (vars : Lookup) (template : String) : Except Error String :=
  (fill vars (pieces template)).map String.ofList

/-- The value of a string: a template that is nothing but one reference keeps the kind of the
value. -/
def interpolateText (vars : Lookup) (template : String) : Except Error Value :=
  match pieces template with
  | [.reference r] => r.resolve vars
  | _ => (interpolate vars template).map .string

mutual

/-- Fills in every string inside a value; names of fields are left alone. -/
def interpolateValue (vars : Lookup) : Value → Except Error Value
  | .string s => interpolateText vars s
  | .list items => (interpolateItems vars items).map .list
  | .map fields => (interpolateFields vars fields).map .map
  | value => .ok value

/-- `interpolateValue` on the items of a list, in order. -/
def interpolateItems (vars : Lookup) : List Value → Except Error (List Value)
  | [] => .ok []
  | item :: rest => do
    let value ← interpolateValue vars item
    let values ← interpolateItems vars rest
    return value :: values

/-- `interpolateValue` on the fields of a map, in order. -/
def interpolateFields (vars : Lookup) :
    List (String × Value) → Except Error (List (String × Value))
  | [] => .ok []
  | (name, item) :: rest => do
    let value ← interpolateValue vars item
    let values ← interpolateFields vars rest
    return (name, value) :: values

end

end AgentFlow.Template
