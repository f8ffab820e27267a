import AgentFlow.FanOut.Basic
import AgentFlow.Flow.Compile
import AgentFlow.Run.Basic
import AgentFlow.Step.Output
import AgentFlow.Step.Update

/-!
# Running a flow

A runner takes a run from node to node until the flow ends, fails, or needs something from the
caller. What a node wants written is written when the node is done, all at once, and not at all
once the run is cancelled. The steps of a run are counted over its whole life, so that every flow
comes to an end, whatever its cycles.
-/

namespace AgentFlow

/-- A flow with what its runs may use. -/
structure Runner where
  flow : Flow
  setting : Setting

namespace Runner

/-- Binds a flow to its tools, which have to be at hand. -/
def bind (flow : Flow) (setting : Setting) : Except Error Runner :=
  match flow.toolNames.filter fun name => !setting.toolbox.contains name with
  | [] => .ok ⟨flow, setting⟩
  | missing => .error (.structural ("unregistered tools: " ++ ", ".intercalate missing))

/-- The most node executions of a run. -/
def budget (runner : Runner) : Nat := runner.setting.config.engine.maxRunSteps

end Runner

/-! ## Ends of a run -/

namespace Run

/-- Ends a run with an error. Its state is discarded. -/
def fail (run : Run) (node : Option String) (error : Error) : Activity (Status × Run) := do
  Activity.emit (.runFailed error)
  return (.failed ⟨node, error⟩, { run with cursor := .closed, state := .empty })

/-- Ends a run that has reached the end of its flow, handing over what it has. -/
def finish (run : Run) : Activity (Status × Run) := do
  Activity.emit (.runCompleted run.steps)
  return (.done ⟨run.state, run.transcript, run.steps⟩,
    { run with cursor := .closed, state := .empty, transcript := [] })

/-- What is said about a run that is closed. -/
def alreadyFinished : Status :=
  .failed ⟨none, .invalidResume "run has already finished"⟩

/-- Leaves a run waiting for its caller. -/
def suspend (run : Run) (node : String) (pending : Pending) : Activity (Status × Run) := do
  match pending with
  | .input request => Activity.emit (.inputRequested node request.prompt request.options)
  | .approval id request _ => Activity.emit (.approvalRequested id request)
  return (.waiting (.ofPending node pending), { run with cursor := .suspended node pending })

end Run

/-! ## One node -/

/-- How the execution of a node stops. -/
inductive StepEnd where
  | complete (result : NodeResult)
  | awaitInput (request : InputRequest)
  | awaitApproval (request : ApprovalRequest) (checkpoint : Checkpoint)

/-- How a conversation stops is how its node does. -/
def StepEnd.ofModel : ModelOutcome → StepEnd
  | .complete result => complete result
  | .awaitApproval request checkpoint => awaitApproval request checkpoint

/-- Counts an execution of a node with a limit, which has to be below the limit. -/
def Node.countExecution (node : Node) (state : Store) : Except Error Store :=
  match node.limit, node.limitCounter with
  | some limit, some counter => do
    let count ← match state.get? counter with
      | none => .ok 0
      | some (.number n) =>
        match n.toNat64? with
        | some count => .ok count
        | none => .error (.typeMismatch counter "int" (Value.number n).kindName)
      | some other => .error (.typeMismatch counter "int" other.kindName)
    if limit.toNat ≤ count then .error (.loopLimit node.name limit.toNat counter)
    else .ok (state.set counter (.int (count + 1)))
  | _, _ => .ok state

namespace Node

/-- Whether a node takes values supplied before it is reached. -/
def takesInput (node : Node) : Bool :=
  match node.kind with
  | .input _ => true
  | _ => false

/-- Executes what a node is for; `supplied` is the value supplied for it. -/
def execute (setting : Setting) (node : Node) (state : Store) (supplied : Option Value) :
    Work StepEnd :=
  match node.forEach with
  | some each => StepEnd.complete <$> node.fanOut setting each state
  | none =>
    match node.kind with
    | .input step => do
      let request ← Work.ofExcept (step.request state.get?)
      match supplied with
      | some value => StepEnd.complete <$> Work.ofExcept (node.acceptInput request value)
      | none => return .awaitInput request
    | .model step => StepEnd.ofModel <$> step.start setting node state.get? none
    | .tool step => StepEnd.complete <$> step.run node setting.toolbox state.get? none
    | .output lines => StepEnd.complete <$> Work.ofExcept (runOutput lines state.get?)
    | .update step => StepEnd.complete <$> Work.ofExcept (step.run node state)

/-- Tells the observers what a node wrote for the user. -/
def showFields (node : Node) : List (String × Value) → Activity Unit
  | [] => return ()
  | (name, value) :: rest => do
    if (node.field? name).any (·.userMessage) then
      Activity.emit (.userMessage node.name name value)
    showFields node rest

/-- Tells the observers the lines of a node. -/
def showLines (node : Node) : List String → Activity Unit
  | [] => return ()
  | line :: rest => do
    Activity.emit (.output node.name line)
    showLines node rest

/-- Writes the result of a node and tells the observers. -/
def commit (node : Node) (run : Run) (result : NodeResult) : Activity Run := do
  node.showFields result.fields
  node.showLines result.lines
  Activity.emit (.nodeCompleted node.name)
  return { run with
    cursor := .leaving node.name
    state := run.state.merge result.fields
    transcript := run.transcript ++ result.lines }

end Node

/-- How a run stands after the execution of a node: it goes on behind the node, or is stopped. -/
inductive Settled where
  | goesOn (run : Run)
  | stops (status : Status) (run : Run)

/-- Applies what came of the execution of a node, unless the run was cancelled. -/
def Node.settle (node : Node) (run : Run) (result : Except Error StepEnd) : Activity Settled := do
  let stop (end_ : Status × Run) : Settled := .stops end_.1 end_.2
  match result with
  | .error error => stop <$> run.fail node.name error
  | .ok result =>
    if ← Activity.poll then stop <$> run.fail node.name .cancelled
    else match result with
      | .complete result => .goesOn <$> node.commit run result
      | .awaitInput request => stop <$> run.suspend node.name (.input request)
      | .awaitApproval request checkpoint => do
        stop <$> run.suspend node.name (.approval (← Activity.freshId) request checkpoint)

/-- Executes a node from its start. -/
def Node.enter (setting : Setting) (node : Node) (run : Run) : Activity Settled := do
  match node.countExecution run.state with
  | .error error => node.settle run (.error error)
  | .ok state =>
    Activity.emit (.nodeStarted node.name)
    let supplied := if node.takesInput then run.inputs.lookup node.name else none
    let run := { run with
      state
      inputs := if node.takesInput then Fields.erase node.name run.inputs else run.inputs }
    let result ← (node.execute setting run.state supplied).activity
    node.settle run result

/-! ## The whole run -/

namespace Runner

/-- Goes on behind a node: ends the run, or takes it on with `enter` in the node that comes next,
which is given with the name under which it was found. -/
def leaveBy (runner : Runner) (run : Run) (source : String)
    (enter : String → Node → Activity (Status × Run)) : Activity (Status × Run) := do
  if ← Activity.poll then run.fail none .cancelled
  else match runner.flow.selectRoute source run.state.get? with
    | .error error => run.fail source error
    | .ok target =>
      if target = endName then run.finish
      else match runner.flow.node? target with
        | none => run.fail target (.structural s!"unknown node '{target}'")
        | some node => enter target node

/-- Goes on behind a node, with a number of executions allowed. -/
def leave (runner : Runner) (run : Run) (source : String) : Nat → Activity (Status × Run)
  | 0 => runner.leaveBy run source fun target _ => run.fail target (.stepBudget runner.budget)
  | left + 1 => runner.leaveBy run source fun _ node => do
    match ← node.enter runner.setting { run with steps := run.steps + 1 } with
    | .stops status run => return (status, run)
    | .goesOn run => leave runner run node.name left

/-- The node executions that a run has left. -/
def left (runner : Runner) (run : Run) : Nat := runner.budget - run.steps

/-- A run that is seeded with parameters and inputs. Nothing is executed yet. -/
def start (_ : Runner) (params inputs : List (String × Value)) : Activity Run := do
  Activity.emit .runStarted
  return (Run.ofParams params).withInputs inputs

/-- Takes a run on until it ends or waits for its caller. -/
def advance (runner : Runner) (run : Run) : Activity (Status × Run) := do
  match run.cursor with
  | .closed => return (Run.alreadyFinished, run)
  | .suspended node pending =>
    if ← Activity.poll then run.fail none .cancelled
    else return (.waiting (.ofPending node pending), run)
  | .leaving source => runner.leave run source (runner.left run)

/-- Goes on with a run after the node where it was suspended. -/
def goOn (runner : Runner) : Settled → Activity (Status × Run)
  | .stops status run => return (status, run)
  | .goesOn run => runner.advance run

/-- What is said about an answer that the suspended node cannot use. -/
def mismatch (suspension : Suspension) (node : String) : Resume → Error
  | .input _ => .invalidResume s!"node '{node}' is {suspension.reason}, got an input value"
  | .approval _ =>
    .invalidResume s!"node '{node}' is {suspension.reason}, got an approval decision"

/-- Goes on with a conversation after the caller's decision. -/
def decided (runner : Runner) (node : Node) (checkpoint : Checkpoint) (decision : Decision) :
    Work StepEnd :=
  match node.kind with
  | .model step => StepEnd.ofModel <$> step.resume runner.setting node checkpoint decision
  | kind => throw (.structural s!"{kind.label} node '{node.name}' cannot wait for approval")

/-- Answers a suspension and takes the run on. An answer that is refused leaves the run as it
is. -/
def resume (runner : Runner) (run : Run) (answer : Resume) :
    Activity (Except Error Status × Run) := do
  let accepted (end_ : Status × Run) : Except Error Status × Run := (.ok end_.1, end_.2)
  match run.cursor with
  | .suspended name pending =>
    if ← Activity.poll then accepted <$> run.fail name .cancelled
    else match runner.flow.node? name with
      | none => accepted <$> run.fail name (.structural s!"unknown node '{name}'")
      | some node =>
        match pending, answer with
        | .input request, .input value =>
          match node.acceptInput request value with
          | .error error => return (.error error, run)
          | .ok result => do
            accepted <$> runner.goOn (← node.settle run (.ok (.complete result)))
        | .approval id _ checkpoint, .approval decision => do
          Activity.emit (.approvalResolved id decision.isApproved)
          let result ← (runner.decided node checkpoint decision).activity
          accepted <$> runner.goOn (← node.settle run result)
        | pending, answer =>
          return (.error (mismatch (.ofPending name pending) name answer), run)
  | _ => return (.error (.invalidResume "run is not waiting on its caller"), run)

/-- Cancels a run and ends it. -/
def cancel (_ : Runner) (run : Run) : Activity (Status × Run) := do
  Activity.cancel
  match run.node? with
  | none => return (Run.alreadyFinished, run)
  | some node => run.fail node .cancelled

end Runner

end AgentFlow
