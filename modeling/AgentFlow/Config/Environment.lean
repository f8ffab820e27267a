import AgentFlow.Text.Search

/-!
# Variables of the environment in a text

A span `${name}` stands for the value of the variable `name`. The value is put in once and not
looked at again. A span whose variable is not set stays as it is; one that is not closed reaches
to the end of the text, and is closed there if its variable is not set.
-/

namespace AgentFlow.Config

/-- The variables that are set. -/
abbrev Environment : Type := String → Option String

/-- What stands for a span. -/
def spanText (env : Environment) (name : List Char) : List Char :=
  match env (String.ofList name) with
  | some value => value.toList
  | none => '$' :: '\x7b' :: (name ++ ['\x7d'])

/-- Expands the spans of a text. `steps` bounds the characters and spans that are passed; the
length of the text is enough. -/
def expandFrom (env : Environment) : Nat → List Char → List Char
  | 0, text => text
  | _ + 1, [] => []
  | steps + 1, '$' :: '\x7b' :: rest =>
    match Text.splitAtFirst? '\x7d' rest with
    | some (name, rest) => spanText env name ++ expandFrom env steps rest
    | none => spanText env rest
  | steps + 1, c :: rest => c :: expandFrom env steps rest

/-- A text with its spans expanded. -/
def expand (env : Environment) (text : String) : String :=
  String.ofList (expandFrom env text.length text.toList)

end AgentFlow.Config
