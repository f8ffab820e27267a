import AgentFlow.Run.Runner

/-!
# Driving a run

What the caller of a run can do, as data: the history of a run is the list of its caller's
commands, and whatever holds after every list of commands holds of every use of a run.
-/

namespace AgentFlow

/-- Something that the caller does with a run. -/
inductive Command where
  /-- Supplies the value for an input node. -/
  | provideInput (node : String) (value : Value)
  | advance
  | resume (answer : Resume)
  /-- Cancels the run and ends it. -/
  | cancel
  /-- Cancels the run without touching it. -/
  | signalCancel
deriving DecidableEq

namespace Command

/-- The caller's answer to whatever a run waits for: a value for an input node, a decision for a
tool call. -/
def answering (value : Value) (decision : Decision) : Suspension → Command
  | .awaitingInput _ _ => resume (.input value)
  | .awaitingApproval _ _ _ => resume (.approval decision)

end Command

namespace Runner

/-- A status that is no refusal. -/
def reported (left : Status × Run) : Option (Except Error Status) × Run :=
  (some (.ok left.1), left.2)

/-- Carries out a command. The caller is told a status or that the answer was refused, unless
nothing was to be done. -/
def carryOut (runner : Runner) (run : Run) :
    Command → Activity (Option (Except Error Status) × Run)
  | .provideInput node value => return (none, run.provideInput node value)
  | .advance => reported <$> runner.advance run
  | .resume answer => do
    let (result, run) ← runner.resume run answer
    return (some result, run)
  | .cancel => reported <$> runner.cancel run
  | .signalCancel => do
    Activity.cancel
    return (none, run)

/-- Carries out commands in order. -/
def carryOutAll (runner : Runner) (run : Run) :
    List Command → Activity (List (Option (Except Error Status)) × Run)
  | [] => return ([], run)
  | command :: rest => do
    let (result, run) ← runner.carryOut run command
    let (results, run) ← carryOutAll runner run rest
    return (result :: results, run)

end Runner

end AgentFlow
