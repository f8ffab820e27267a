import AgentFlow.Config.Basic
import AgentFlow.Config.Environment
import AgentFlow.Toml.Document

/-!
# Loading a configuration

From the text of a file to a configuration that can be used: variables of the environment are
put in, the text is read as TOML, and the bounds are checked.
-/

namespace AgentFlow.Config

/-- A document without what a section that is given as a list holds behind its last field: in a
file that means nothing. -/
def withoutSurplus : Value → Value
  | .map fields => .map (fields.map fun (name, value) =>
      match sections.lookup name with
      | some names => (name, Record.withoutSurplus names value)
      | none => (name, value))
  | value => value

/-- The configuration that a text describes, before its bounds are checked. -/
def ofToml? (text : String) : Option Config :=
  (Toml.document? text).bind fun document => ofValue? (withoutSurplus document)

/-- The configuration of a file's text in an environment. -/
def ofText (env : Environment) (text : String) : Except Error Config :=
  match ofToml? (expand env text) with
  | none => .error (.config "the file is not a configuration")
  | some config =>
    match config.defect? with
    | some error => .error error
    | none => .ok config

/-- The configuration at a path, given the text that was found there. -/
def load (env : Environment) (path : String) : Option String → Except Error Config
  | some text => ofText env text
  | none => .error (.configNotFound path)

end AgentFlow.Config
