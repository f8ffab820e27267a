import AgentFlow.Json.Printer

/-!
# Rendering values for prompts

The text that stands for a value inside a template: a string is itself, a list is one line per
item, a map is indented JSON, and anything else is its JSON text.
-/

namespace AgentFlow.Value

/-- An item on its line: a string as itself, anything else as compact JSON. -/
def renderItem : Value → String
  | string s => s
  | value => Json.compact value

/-- The text of a value in a template. -/
def render : Value → String
  | string s => s
  | list items => "\n".intercalate (items.map fun item => "- " ++ renderItem item)
  | map fields => Json.indented (map fields)
  | value => Json.compact value

/-- Rendering a string changes nothing. -/
@[simp] theorem render_string (s : String) : render (string s) = s := rfl

end AgentFlow.Value
