import AgentFlow.Approval
import AgentFlow.Tool.Basic

/-!
# Events

What a run tells its observers while it goes on.
-/

namespace AgentFlow

/-- The items of a fan-out that were started and completed, of all. -/
structure FanOutProgress where
  started : Nat
  completed : Nat
  total : Nat
deriving DecidableEq

/-- The items that are worked on. -/
def FanOutProgress.active (progress : FanOutProgress) : Nat :=
  progress.started - progress.completed

/-- Something that happened in a run. -/
inductive Event where
  | runStarted
  | nodeStarted (node : String)
  /-- The outputs of the node were written to the state. -/
  | nodeCompleted (node : String)
  /-- A field was written that is meant for the user. -/
  | userMessage (node field : String) (value : Value)
  | output (node line : String)
  | textDelta (node text : String)
  | toolStart (node tool : String) (input : Value)
  | toolEnd (node tool : String) (result : ToolResult)
  /-- Another attempt follows a failure. -/
  | retryNotice (node : String) (attempt maxRetries : Nat) (reason : String)
  | fanOutProgress (node : String) (progress : FanOutProgress)
  | inputRequested (node prompt : String) (options : Option (List Value))
  | approvalRequested (id : String) (request : ApprovalRequest)
  | approvalResolved (id : String) (approved : Bool)
  | runCompleted (steps : Nat)
  | runFailed (error : Error)
deriving DecidableEq

end AgentFlow
