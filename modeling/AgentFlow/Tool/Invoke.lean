import AgentFlow.Activity.Basic

/-!
# Calling a tool

A call within the time limit of its tool: it times out if the tool has not acted by then or does
not answer. A tool that acts just when the limit is reached, or at once, does not time out. A
cancelled run does not wait.
-/

namespace AgentFlow

/-- How a call ends. -/
inductive CallEnd where
  | finished (result : Except Error ToolResult)
  /-- The run was cancelled while the call was waiting. -/
  | interrupted

namespace CallEnd

/-- The end of a call that reached its time limit, unless the run was cancelled before. -/
def timedOut (tool : ToolSpec) (name : String) (cancelled : Bool) : CallEnd :=
  if cancelled then interrupted
  else finished (.error (.toolTimeout name tool.timeoutSecs))

end CallEnd

namespace ToolCall

/-- Lets the tool act on a call that it took up, `waited` milliseconds later. -/
def finish (call : ToolCall) (tool : ToolSpec) (number waited : Nat) : Activity CallEnd := do
  match ← Activity.act call number with
  | .answered result => return .finished result
  | .silent =>
    return .timedOut tool call.tool (← Activity.sleep (tool.timeoutMs - waited) (0 < waited))

/-- Calls a tool within its time limit. -/
def within (call : ToolCall) (tool : ToolSpec) : Activity CallEnd := do
  let ⟨number, ms⟩ ← Activity.request call
  if ms = 0 then call.finish tool number 0
  else if ms ≤ tool.timeoutMs then
    if ← Activity.sleep ms then return .interrupted else call.finish tool number ms
  else return .timedOut tool call.tool (← Activity.sleep tool.timeoutMs)

/-- Calls the tool of that name, if it is at hand. -/
def invoke (call : ToolCall) (box : Toolbox) : Activity CallEnd :=
  match box.get? call.tool with
  | some tool => call.within tool
  | none => return .finished (.error (.toolNotFound call.tool))

/-- Calls a tool on behalf of a node and tells the observers. An error of the call becomes a
failed result. -/
def observed (call : ToolCall) (box : Toolbox) : Work ToolResult := do
  Work.lift (Activity.emit (.toolStart call.node call.tool call.input))
  match ← Work.lift (call.invoke box) with
  | .interrupted => throw .cancelled
  | .finished result =>
    let result := ToolResult.ofExcept result
    Work.lift (Activity.emit (.toolEnd call.node call.tool result))
    return result

end ToolCall

end AgentFlow
