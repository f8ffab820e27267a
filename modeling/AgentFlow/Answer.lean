import AgentFlow.Fields
import AgentFlow.Field
import AgentFlow.Text.Search

/-!
# Answers of a model

The JSON schema that a model is offered for the declared fields, and what its final answer says
about them. A lone text field takes the answer as it is; anything else is expected as JSON, which
may stand in a code fence or between other words.
-/

namespace AgentFlow.Answer

/-! ## The schema offered -/

/-- The schema of one field. -/
def fieldSchema (field : OutputField) : Value :=
  let kind := ("type", Value.string field.kind.schemaName)
  match field.description with
  | some text => .map [("description", .string text), kind]
  | none => .map [kind]

/-- The schema of an object with the given fields, all required; none without fields. -/
def schema? (fields : List OutputField) : Option Value :=
  if fields.isEmpty then none
  else some (.map [
    ("properties", .map (Fields.ofList (fields.map fun f => (f.name, fieldSchema f)))),
    ("required", .list (fields.map fun f => .string f.name)),
    ("type", .string "object")])

/-! ## Cutting texts -/

/-- The mark of a code fence. -/
def fence : List Char := ['`', '`', '`']

/-- The mark of a fence around JSON. -/
def jsonFence : List Char := ['`', '`', '`', 'j', 's', 'o', 'n']

/-- What stands between an opening mark and the next fence, blanks trimmed. -/
def fenced? (mark : List Char) (skipLine : Bool) (text : List Char) : Option (List Char) := do
  let (_, after) ← Text.splitFirst? mark text
  let body := if skipLine then ((Text.splitAtFirst? '\n' after).map Prod.snd).getD after else after
  let (inside, _) ← Text.splitFirst? fence body
  return Text.trim inside

/-- The inside of the first fence around JSON, else of the first fence, whose first line is the
name of a language, else the whole text; blanks trimmed. -/
def stripFences (text : List Char) : List Char :=
  let trimmed := Text.trim text
  ((fenced? jsonFence false trimmed).or (fenced? fence true trimmed)).getD trimmed

/-- The value of a text that is JSON, or else of the part from its first opening to its last
closing brace. -/
def extractJson? (text : List Char) : Option Value :=
  match Json.document text with
  | .ok value => some value
  | .error _ => do
    let (_, after) ← Text.splitAtFirst? '\x7b' text
    let (inside, _) ← Text.splitAtLast? '\x7d' after
    (Json.document ('\x7b' :: (inside ++ ['\x7d']))).toOption

/-- A text cut to a number of characters, back to the last full line if there is one, with a
note that it was cut. -/
def truncate (limit : Nat) (text : String) : String :=
  let chars := text.toList
  if chars.length ≤ limit then text
  else
    let head := chars.take limit
    let kept := match Text.splitAtLast? '\n' head with
      | some (c :: before, _) => c :: before
      | _ => head
    String.ofList kept ++ "\n[truncated]"

/-! ## Reading an answer -/

/-- Why an answer does not give the fields. -/
inductive Fault where
  | empty
  | mismatch (field expected found : String)
  | missing (field : String)
  | notObject (kind : String)
  | notJson
deriving DecidableEq

/-- The wording of a fault, which the model is shown. -/
def Fault.message : Fault → String
  | empty => "the response was empty"
  | mismatch field expected found => s!"field '{field}' should be {expected}, got {found}"
  | missing field => s!"missing field '{field}'"
  | notObject kind => s!"expected a JSON object, got {kind}"
  | notJson => "the response is not valid JSON"

/-- A field with the value converted to its type. -/
def assign (field : OutputField) (value : Value) : Except Fault (String × Value) :=
  match field.coerce value with
  | .ok value => .ok (field.name, value)
  | .error m => .error (.mismatch field.name m.expected m.found)

/-- The fields taken from an object, each under its name. -/
def assignAll (object : List (String × Value)) :
    List OutputField → Except Fault (List (String × Value))
  | [] => .ok []
  | field :: rest =>
    match object.lookup field.name with
    | none => .error (.missing field.name)
    | some value => do
      let first ← assign field value
      let others ← assignAll object rest
      return first :: others

/-- What `value`, read from the trimmed answer `text`, says about the fields that are expected in
it. A lone field may be the whole answer. -/
def distribute (text : List Char) (value : Option Value) (fields : List OutputField) :
    Except Fault (List (String × Value)) :=
  match value, fields with
  | some (.map object), fields =>
    match fields with
    | [field] =>
      if Fields.has field.name object then assignAll object fields
      else if field.kind = .string then .ok [(field.name, .string (String.ofList text))]
      else .error (.missing field.name)
    | fields => assignAll object fields
  | value, [field] =>
    if field.kind = .string then
      if text.isEmpty then .error .empty
      else .ok [(field.name, .string (String.ofList text))]
    else match value with
      | some value => (assign field value).map ([·])
      | none => .error .notJson
  | some value, _ => .error (.notObject value.kindName)
  | none, _ => .error .notJson

/-- The values of the fields, in their order: those `captured` before, and the others from the
answer of the model. -/
def parse (fields : List OutputField) (text : String) (captured : List (String × Value)) :
    Except Fault (List (String × Value)) := do
  let expected := fields.filter fun f => !Fields.has f.name captured
  let answered ←
    if expected.isEmpty then .ok []
    else
      let body := stripFences text.toList
      distribute body (extractJson? body) expected
  return fields.filterMap fun f =>
    ((captured.lookup f.name).or (answered.reverse.lookup f.name)).map (f.name, ·)

end AgentFlow.Answer
