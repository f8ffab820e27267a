import AgentFlow.Json.Printer
import AgentFlow.Activity.Basic

/-!
# Scripted tools

Stand-ins for tools, to try out flows: how long a call takes and what then happens are data. A
tool may behave differently from call to call, so that its behaviour is a function of the number
of calls that it took up before.
-/

namespace AgentFlow

/-- What a scripted tool does when it acts. -/
inductive Behaviour where
  /-- Succeeds with a text. -/
  | succeed (content : String)
  /-- Succeeds with a failed result. -/
  | report (content : String)
  | fail (error : Error)
  /-- Does the first of several on the first call, and the last one on all further calls. -/
  | sequence (behaviours : List Behaviour)
  /-- Chooses by the text of an argument. -/
  | choose (argument : String) (cases : List (String × Behaviour)) (otherwise : Behaviour)
  /-- Succeeds with the text of an argument behind a fixed text. -/
  | quote (before argument : String)
  /-- Cancels the run first. -/
  | cancelling (behaviour : Behaviour)
  /-- Succeeds with what the tool is told about its call. -/
  | describe
  /-- Never answers. -/
  | hang
  /-- Succeeds with the input. -/
  | echo

/-- A tool for which no behaviour is given echoes. -/
instance : Inhabited Behaviour := ⟨.echo⟩

/-- The text of an argument of a call. -/
def ToolCall.argumentText (call : ToolCall) (argument : String) : String :=
  match call.input.field? argument with
  | some (.string text) => text
  | some value => Json.compact value
  | none => Json.compact .null

/-- What a tool is told about its call. -/
def ToolCall.description (call : ToolCall) : Value :=
  Record.ofFields [
    ("item_index", Record.orNull (fun (index : Nat) => .int index) call.itemIndex),
    ("node", .string call.node)]

namespace Behaviour

/-- The reply of a tool that answers. -/
def answer (result : ToolResult) : ToolReply := .answered (.ok result)

mutual

/-- The reply to a call, after a number of earlier calls, and whether the run gets cancelled. -/
def act (call : ToolCall) (earlier : Nat) : Behaviour → ToolReply × Bool
  | succeed content => (answer (.success content), false)
  | report content => (answer (.failure content), false)
  | fail error => (.answered (.error error), false)
  | sequence behaviours => actNth call earlier earlier behaviours
  | choose argument cases otherwise =>
    match actCase call earlier (call.argumentText argument) cases with
    | some reply => reply
    | none => otherwise.act call earlier
  | quote before argument => (answer (.success (before ++ call.argumentText argument)), false)
  | cancelling behaviour => ((behaviour.act call earlier).1, true)
  | describe => (answer (.success (Json.compact call.description)), false)
  | hang => (.silent, false)
  | echo => (answer (.success (Json.compact call.input)), false)

/-- The reply of the behaviour at a position, or else of the last one. -/
def actNth (call : ToolCall) (earlier : Nat) : Nat → List Behaviour → ToolReply × Bool
  | _, [] => (answer (.success (Json.compact call.input)), false)
  | _, [behaviour] => behaviour.act call earlier
  | 0, behaviour :: _ => behaviour.act call earlier
  | position + 1, _ :: rest => actNth call earlier position rest

/-- The reply of the case for a text. -/
def actCase (call : ToolCall) (earlier : Nat) (text : String) :
    List (String × Behaviour) → Option (ToolReply × Bool)
  | [] => none
  | (key, behaviour) :: rest =>
    if key = text then some (behaviour.act call earlier) else actCase call earlier text rest

end

end Behaviour

/-- A tool whose calls take some time and then follow a behaviour. -/
structure ScriptedTool where
  spec : ToolSpec
  /-- The milliseconds that a call takes. -/
  delayMs : Nat := 0
  /-- The argument that sets the milliseconds, if there is one. -/
  delayArgument : Option String := none
  behaviour : Behaviour

namespace ScriptedTool

/-- A tool that answers at once. -/
def immediate (name : String) (outputSchema : Option Value) (behaviour : Behaviour) :
    ScriptedTool where
  spec :=
    { name
      description := "Test tool"
      inputSchema := Record.ofFields [("type", .string "object")]
      outputSchema }
  behaviour

/-- A tool that takes its time to answer with its input. -/
def slow (name : String) (timeoutSecs delayMs : Nat) : ScriptedTool where
  spec :=
    { name
      description := "Sleeps, then echoes its input"
      inputSchema := Record.ofFields [("type", .string "object")]
      timeoutSecs }
  delayMs
  behaviour := .echo

/-- How long a call takes. An argument that is not a whole number sets no time at all. -/
def latency (tool : ScriptedTool) (call : ToolCall) : Nat :=
  match tool.delayArgument with
  | none => tool.delayMs
  | some argument => ((call.input.field? argument).bind Record.natural).getD 0

end ScriptedTool

end AgentFlow
