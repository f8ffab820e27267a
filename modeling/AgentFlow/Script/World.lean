import AgentFlow.Script.Model
import AgentFlow.Script.Tool
import AgentFlow.Activity.Host

/-!
# The world of a script

A host made of a scripted model and scripted tools. It keeps the requests that the model was sent
and numbers the names that it gives away.
-/

namespace AgentFlow

/-- A scripted model and scripted tools, and what they remember. -/
structure World where
  model : ScriptedModel
  tools : List (String × ScriptedTool) := []
  /-- How many calls each tool has taken up. -/
  calls : List (String × Nat) := []
  /-- The requests so far, in order. -/
  requests : List ModelRequest := []
  /-- The names given away so far. -/
  names : Nat := 0

namespace World

/-- Adds a tool, in place of one of the same name. -/
def register (world : World) (tool : ScriptedTool) : World :=
  { world with
    tools := Fields.put tool.spec.name tool world.tools
    calls := Fields.erase tool.spec.name world.calls }

/-- The world without a tool. -/
def unregister (world : World) (name : String) : World :=
  { world with tools := Fields.erase name world.tools }

/-- The declarations of the tools. -/
def toolbox (world : World) : Toolbox :=
  world.tools.foldl (fun box tool => box.register tool.2.spec) .empty

/-- The reply of the model. -/
def ask (request : ModelRequest) (world : World) : Answered ModelReply World :=
  let (reply, cancels, model) := world.model.ask request
  { reply, cancels, world := { world with model, requests := world.requests ++ [request] } }

/-- Counts a call. A tool that is not there takes no time. -/
def request (call : ToolCall) (world : World) : Answered Receipt World :=
  match world.tools.lookup call.tool with
  | none => { reply := ⟨0, 0⟩, world }
  | some tool =>
    let earlier := (world.calls.lookup call.tool).getD 0
    let calls := Fields.put call.tool (earlier + 1) world.calls
    { reply := ⟨earlier, tool.latency call⟩, world := { world with calls } }

/-- The reply of a tool; a tool that is not there does not answer. -/
def act (call : ToolCall) (number : Nat) (world : World) : Answered ToolReply World :=
  match world.tools.lookup call.tool with
  | none => { reply := .silent, world }
  | some tool =>
    let (reply, cancels) := tool.behaviour.act call number
    { reply, cancels, world }

/-- Names are numbered from one. -/
def freshId (world : World) : String × World :=
  ("req" ++ integerText (world.names + 1), { world with names := world.names + 1 })

/-- The host of a scripted world, in which time passes unseen. -/
def host : Host World where
  ask
  request
  act
  sleep := fun _ world => { reply := (), world }
  freshId

end World

end AgentFlow
