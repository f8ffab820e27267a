import AgentFlow.Number.Notation
import AgentFlow.Text.Literal

/-!
# Errors

What can go wrong with a flow, its runs and its tools, one constructor a cause. An error has a
message for people, a detailed form for reports, and, where the author of the flow can do
something about it, a suggestion.
-/

namespace AgentFlow

/-- The causes of failure. -/
inductive Error where
  /-- The definition does not make a flow, or a flow names what does not exist. -/
  | structural (problems : String)
  /-- A condition does not parse or cannot be evaluated. -/
  | expression (source message : String)
  /-- No route out of a node applies. -/
  | noMatchingEdge (node : String) (conditions : List String)
  | loopLimit (node : String) (limit : Nat) (counter : String)
  | stepBudget (limit : Nat)
  | unknownVariable (name : String)
  | typeMismatch (key expected found : String)
  | modelTransport (message : String)
  /-- The final answer of a model does not have the declared fields. -/
  | unusableAnswer (node message : String)
  /-- A model kept asking for tools. -/
  | toolLoop (node : String) (maxSteps : Nat)
  | toolNotFound (tool : String)
  | toolInvocation (tool message : String)
  | toolTimeout (tool : String) (seconds : Nat)
  | approvalDenied (tool reason : String)
  | fanOutItem (index : Nat) (message : String)
  | invalidResume (message : String)
  | cancelled
  | config (message : String)
  | configNotFound (path : String)
  | io (message : String)
  | json (message : String)
deriving DecidableEq

namespace Error

/-- The message of an error. -/
def message : Error → String
  | structural problems => s!"Invalid flow: {problems}"
  | expression source message => s!"Invalid expression `{source}`: {message}"
  | noMatchingEdge node conditions =>
    "No outgoing edge matched for node '" ++ node ++ "' (tried: " ++
      ", ".intercalate conditions ++ ")"
  | loopLimit node limit counter =>
    s!"Node '{node}' reached its loop limit ({limit}) on counter '{counter}'"
  | stepBudget limit => s!"Run exceeded the step budget ({limit} node executions)"
  | unknownVariable name => s!"Unknown variable: {name}"
  | typeMismatch key expected found =>
    s!"Type mismatch for '{key}': expected {expected}, found {found}"
  | modelTransport message => s!"Model transport error: {message}"
  | unusableAnswer node message =>
    s!"Structured output parse error in node '{node}': {message}"
  | toolLoop node maxSteps => s!"Node '{node}' exceeded max tool-call steps ({maxSteps})"
  | toolNotFound tool => s!"Tool not found: {tool}"
  | toolInvocation tool message => s!"Tool invocation failed: {tool}: {message}"
  | toolTimeout tool seconds => s!"Tool timeout after {seconds}s: {tool}"
  | approvalDenied tool reason => s!"Approval denied for tool {tool}: {reason}"
  | fanOutItem index message => s!"Fan-out item {index} failed: {message}"
  | invalidResume message => s!"Invalid resume: {message}"
  | cancelled => "Run cancelled"
  | config message => s!"Config error: {message}"
  | configNotFound path => s!"Config file not found: {path}"
  | io message => s!"I/O error: {message}"
  | json message => s!"JSON error: {message}"

/-- Whether a failed model request is worth another attempt. -/
def retryable : Error → Bool
  | modelTransport _ => true
  | unusableAnswer _ _ => true
  | _ => false

/-- A hint for the author of the flow. -/
def suggestion? : Error → Option String
  | structural _ => some "Fix the node/edge definitions; nothing was executed."
  | expression _ _ => some
      "Conditions support ==, !=, <, <=, >, >=, in, not in, and, or, not, len() and literals."
  | noMatchingEdge _ _ => some "Add a fallback condition such as `true` as the last entry."
  | loopLimit _ _ _ => some ("Guard the loop-back edge with the counter, e.g. " ++
      "`counter < limit`, so another edge is taken.")
  | unknownVariable _ => some
      "Set the variable before it is referenced, or seed it from run parameters."
  | unusableAnswer _ _ => some ("Tighten the prompt or output field descriptions so the model " ++
      "answers with the declared JSON fields.")
  | toolLoop _ _ => some "Raise max_steps for the node or narrow its tool whitelist."
  | modelTransport _ => some
      "Check the model provider's availability, credentials and rate limits."
  | stepBudget _ => some "The flow may be looping; add a limit to the nodes on the cycle."
  | _ => none

/-- The name of an error's kind. -/
def kindName : Error → String
  | structural _ => "Structural"
  | expression _ _ => "Expression"
  | noMatchingEdge _ _ => "NoMatchingEdge"
  | loopLimit _ _ _ => "LoopLimitExceeded"
  | stepBudget _ => "StepBudgetExceeded"
  | unknownVariable _ => "UnknownVariable"
  | typeMismatch _ _ _ => "TypeMismatch"
  | modelTransport _ => "ModelTransport"
  | unusableAnswer _ _ => "StructuredOutputParse"
  | toolLoop _ _ => "ToolLoopExceeded"
  | toolNotFound _ => "ToolNotFound"
  | toolInvocation _ _ => "ToolInvocation"
  | toolTimeout _ _ => "ToolTimeout"
  | approvalDenied _ _ => "ToolApprovalDenied"
  | fanOutItem _ _ => "FanoutItem"
  | invalidResume _ => "InvalidResume"
  | cancelled => "Cancelled"
  | config _ => "Config"
  | configNotFound _ => "ConfigNotFound"
  | io _ => "Io"
  | json _ => "Json"

/-- The parts of an error in a report: one text stands alone, several have names. -/
inductive Parts where
  | none
  | single (text : String)
  | named (parts : List (String × String))

/-- The parts of an error, texts as quoted literals. -/
def parts : Error → Parts
  | structural text | unknownVariable text | modelTransport text | toolNotFound text
  | invalidResume text | config text | configNotFound text => .single (Text.literal text)
  | io text => .single ("Custom \x7b kind: Other, error: " ++ Text.literal text ++ " \x7d")
  | json text => .single ("Error(" ++ Text.literal text ++ ", line: 0, column: 0)")
  | stepBudget limit => .single (integerText limit)
  | expression source message =>
    .named [("expr", Text.literal source), ("message", Text.literal message)]
  | noMatchingEdge node conditions =>
    .named [("node", Text.literal node), ("conditions", Text.literalList conditions)]
  | loopLimit node limit counter =>
    .named [("node", Text.literal node), ("limit", integerText limit),
      ("counter", Text.literal counter)]
  | typeMismatch key expected found =>
    .named [("key", Text.literal key), ("expected", Text.literal expected),
      ("found", Text.literal found)]
  | unusableAnswer node message =>
    .named [("node", Text.literal node), ("message", Text.literal message)]
  | toolLoop node maxSteps =>
    .named [("node", Text.literal node), ("max_steps", integerText maxSteps)]
  | toolInvocation tool message =>
    .named [("tool", Text.literal tool), ("message", Text.literal message)]
  | toolTimeout tool seconds =>
    .named [("tool", Text.literal tool), ("timeout_secs", integerText seconds)]
  | approvalDenied tool reason =>
    .named [("tool", Text.literal tool), ("reason", Text.literal reason)]
  | fanOutItem index message =>
    .named [("index", integerText index), ("message", Text.literal message)]
  | cancelled => .none

/-- The detailed form of an error: its kind and its parts. -/
def detail (error : Error) : String :=
  match error.parts with
  | .none => error.kindName
  | .single text => error.kindName ++ "(" ++ text ++ ")"
  | .named parts =>
    error.kindName ++ " \x7b " ++
      ", ".intercalate (parts.map fun (name, text) => name ++ ": " ++ text) ++ " \x7d"

end Error

end AgentFlow
