import AgentFlow.Flow.Problem
import AgentFlow.Step.Input
import AgentFlow.Step.Model

/-!
# Runs

One execution of a flow: its state, the lines it emitted, and where it stands. A run stands behind
a node, about to choose the next one; or it is suspended in a node that needs something from the
caller; or it is closed.
-/

namespace AgentFlow

/-- What a suspended node needs to go on. -/
inductive Pending where
  | input (request : InputRequest)
  /-- The request for approval has an id under which the answer is reported. -/
  | approval (id : String) (request : ApprovalRequest) (checkpoint : Checkpoint)
deriving DecidableEq

/-- Where a run stands. -/
inductive Cursor where
  /-- The named node is done, or nothing was started yet. -/
  | leaving (source : String)
  /-- The named node waits for the caller. -/
  | suspended (node : String) (pending : Pending)
  /-- The run is completed, failed or cancelled. -/
  | closed
deriving DecidableEq

/-- A run. -/
structure Run where
  state : Store
  /-- Values for input nodes that are not reached yet; each is used once. -/
  inputs : List (String × Value) := []
  cursor : Cursor
  /-- The lines of output nodes so far. -/
  transcript : List String := []
  /-- The node executions so far. -/
  steps : Nat := 0
deriving DecidableEq

/-- What a run waits for, as its caller sees it. -/
inductive Suspension where
  | awaitingInput (node : String) (request : InputRequest)
  | awaitingApproval (node id : String) (request : ApprovalRequest)
deriving DecidableEq

namespace Suspension

/-- The reason for waiting. -/
def reason : Suspension → String
  | awaitingInput _ _ => "awaiting_input"
  | awaitingApproval _ _ _ => "awaiting_approval"

/-- What the caller is shown of what a run waits for. -/
def ofPending (node : String) : Pending → Suspension
  | .input request => awaitingInput node request
  | .approval id request _ => awaitingApproval node id request

end Suspension

/-- How a failed run ended. -/
structure Failure where
  /-- The node that was at work, if any. -/
  node : Option String
  error : Error
deriving DecidableEq

/-- How a completed run ended. -/
structure Outcome where
  state : Store
  transcript : List String
  steps : Nat
deriving DecidableEq

/-- Where a run was left. -/
inductive Status where
  | waiting (suspension : Suspension)
  | done (outcome : Outcome)
  | failed (failure : Failure)
deriving DecidableEq

/-- The caller's answer to a suspension. -/
inductive Resume where
  | input (value : Value)
  | approval (decision : Decision)
deriving DecidableEq

namespace Run

/-- A run with parameters in its state. -/
def ofParams (params : List (String × Value)) : Run :=
  { state := Store.ofList params, cursor := .leaving startName }

/-- Supplies values for input nodes. -/
def withInputs (run : Run) (inputs : List (String × Value)) : Run :=
  { run with inputs := Fields.putAll run.inputs inputs }

/-- Supplies the value for one input node. -/
def provideInput (run : Run) (node : String) (value : Value) : Run :=
  { run with inputs := Fields.put node value run.inputs }

/-- What the run waits for. -/
def suspension? (run : Run) : Option Suspension :=
  match run.cursor with
  | .suspended node pending => some (.ofPending node pending)
  | _ => none

/-- Whether a run is closed. -/
def isFinished (run : Run) : Bool :=
  match run.cursor with
  | .closed => true
  | _ => false

/-- The node that the run stands at. -/
def node? (run : Run) : Option String :=
  match run.cursor with
  | .leaving node | .suspended node _ => some node
  | .closed => none

end Run

/-- The report of a failure about a run. -/
def Failure.report (failure : Failure) (run : String) : String :=
  let place := match failure.node with
    | some node => s!" at node '{node}'"
    | none => ""
  let suggestion := match failure.error.suggestion? with
    | some text => s!"  suggestion: {text}\n"
    | none => ""
  s!"Run {run} failed{place}: {failure.error.message}\n" ++ suggestion ++
    s!"  cause: {failure.error.detail}"

end AgentFlow
