import AgentFlow.Flow.Definition
import AgentFlow.Flow.Problem

/-!
# Checking names and nodes

The problems of a definition that show without following an edge.
-/

namespace AgentFlow

/-- The problems if a test holds, else none. -/
def Problem.when (test : Bool) (problem : Problem) : List Problem :=
  if test then [problem] else []

/-- Whether a node's name can be the end of an edge: it is not blank and not reserved. -/
def isNodeName (name : String) : Bool :=
  !Text.isAllBlank name && name ≠ startName && name ≠ endName

/-- The problems of the names of nodes, counting from `position`, with `seen` the usable names
before. -/
def nameProblems (position : Nat) (seen : List String) : List Node → List Problem
  | [] => []
  | node :: rest =>
    if Text.isAllBlank node.name then
      .emptyName position :: nameProblems (position + 1) seen rest
    else if node.name = startName ∨ node.name = endName then
      .reservedName node.name :: nameProblems (position + 1) seen rest
    else
      Problem.when (seen.contains node.name) (.duplicateName node.name) ++
        nameProblems (position + 1) (node.name :: seen) rest

/-- Fields declared twice, `seen` being declared before. -/
def fieldProblems (node : String) (seen : List String) : List OutputField → List Problem
  | [] => []
  | field :: rest =>
    Problem.when (seen.contains field.name) (.duplicateField node field.name) ++
      fieldProblems node (field.name :: seen) rest

namespace Node

/-- What is wrong with the limit of a node: it is zero, or only half of it is given. -/
def limitProblems (node : Node) : List Problem :=
  match node.limit, node.limitCounter with
  | some limit, counter =>
    if limit = 0 then [.zeroLimit node.name]
    else Problem.when counter.isNone (.halfLimit node.name)
  | none, some _ => [.halfLimit node.name]
  | none, none => []

/-- What is wrong with a node that asks the caller. -/
def inputProblems (node : Node) (step : InputStep) : List Problem :=
  Problem.when node.output.isEmpty (.inputWithoutField node.name) ++
    Problem.when (step.options = some (.list [])) (.emptyOptions node.name)

/-- What is wrong with a model node: its steps, or the fields that it lets tools fill. -/
def modelProblems (node : Node) (step : ModelStep) : List Problem :=
  Problem.when (step.maxSteps = some 0) (.zeroSteps node.name) ++
    step.rawToolOutput.flatMap fun (field, tool) =>
      Problem.when (node.field? field).isNone (.rawFieldUndeclared node.name field) ++
        Problem.when (!step.tools.contains tool) (.rawToolUnlisted node.name tool)

/-- What is wrong with an update node: an action has one field and an operand that it can use, and
without an action there is something to assign. -/
def updateProblems (node : Node) (step : UpdateStep) : List Problem :=
  match step.action with
  | some action =>
    Problem.when (node.output.length ≠ 1)
        (.actionFields node.name action node.output.length) ++
      Problem.when (action ≠ .increment && step.source.isNone && step.value.isNone)
        (.actionOperand node.name action) ++
      Problem.when (action = .increment && step.value.any fun v => !v.isNumber)
        (.incrementOperand node.name)
  | none => Problem.when step.values.isEmpty (.nothingAssigned node.name)

/-- What is wrong with what a node is for. -/
def kindProblems (node : Node) : List Problem :=
  match node.kind with
  | .input step => node.inputProblems step
  | .model step => node.modelProblems step
  | .tool step => Problem.when (Text.isAllBlank step.tool) (.toolUnnamed node.name)
  | .output _ => []
  | .update step => node.updateProblems step

/-- Whether the node asks a model or calls a tool, so that it can fan out. -/
def canFanOut (node : Node) : Bool :=
  match node.kind with
  | .model _ | .tool _ => true
  | _ => false

/-- What is wrong with a node that fans out. -/
def forEachProblems (node : Node) (each : ForEach) : List Problem :=
  Problem.when (!node.canFanOut) (.forEachKind node.name) ++
    Problem.when node.requiresApproval (.forEachApproval node.name) ++
    Problem.when (each.maxWorkers = some 0) (.forEachWorkers node.name) ++
    Problem.when (each.itemsKey.isEmpty || Text.isAllBlank each.output) (.forEachNames node.name)

/-- The problems of a node on its own. -/
def problems (node : Node) : List Problem :=
  node.limitProblems ++ fieldProblems node.name [] node.output ++ node.kindProblems ++
    node.forEach.toList.flatMap node.forEachProblems

end Node

end AgentFlow
