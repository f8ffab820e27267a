import AgentFlow.Condition.Basic
import AgentFlow.Flow.Node

/-!
# Problems of a definition

Everything that keeps a definition from being a flow, with its wording.
-/

namespace AgentFlow

/-- The source of the routes on which a flow starts. -/
def startName : String := "START"

/-- The target that ends a flow. -/
def endName : String := "END"

/-- A defect of a definition. -/
inductive Problem where
  -- Names
  | emptyName (position : Nat)
  | reservedName (node : String)
  | duplicateName (node : String)
  -- Nodes
  | zeroLimit (node : String)
  | halfLimit (node : String)
  | duplicateField (node field : String)
  | inputWithoutField (node : String)
  | emptyOptions (node : String)
  | zeroSteps (node : String)
  | rawFieldUndeclared (node field : String)
  | rawToolUnlisted (node tool : String)
  | toolUnnamed (node : String)
  | actionFields (node : String) (action : UpdateAction) (found : Nat)
  | actionOperand (node : String) (action : UpdateAction)
  | incrementOperand (node : String)
  | nothingAssigned (node : String)
  | forEachKind (node : String)
  | forEachApproval (node : String)
  | forEachWorkers (node : String)
  | forEachNames (node : String)
  -- Edges
  | edgeFromEnd
  | edgeFromUnknown (source : String)
  | edgeAmbiguous (source : String)
  | edgeWithoutTarget (source : String)
  | edgeToStart (source : String)
  | edgeToUnknown (source target : String)
  | edgeUnreachable (source : String)
  | edgeCondition (source : String) (error : Error)
  -- The graph
  | startWithoutEdge
  | nodeWithoutEdge (node : String)
  | nodeUnreachable (node : String)

/-- The wording of a problem. -/
def Problem.message : Problem → String
  | emptyName position => s!"node #{position} has an empty name"
  | reservedName node => s!"node name '{node}' is reserved"
  | duplicateName node => s!"duplicate node name '{node}'"
  | zeroLimit node => s!"node '{node}': limit must be at least 1"
  | halfLimit node => s!"node '{node}': `limit` and `limit_counter_field` must be set together"
  | duplicateField node field => s!"node '{node}': duplicate output field '{field}'"
  | inputWithoutField node => s!"input node '{node}' must declare an output field"
  | emptyOptions node => s!"input node '{node}' has an empty options list"
  | zeroSteps node => s!"node '{node}': max_steps must be at least 1"
  | rawFieldUndeclared node field =>
    s!"node '{node}': raw_tool_output field '{field}' is not a declared output"
  | rawToolUnlisted node tool =>
    s!"node '{node}': raw_tool_output tool '{tool}' is not in the tool whitelist"
  | toolUnnamed node => s!"tool node '{node}' names no tool"
  | actionFields node action found =>
    s!"node '{node}': {action.title} requires exactly one output field, found {found}"
  | actionOperand node action => s!"node '{node}': {action.title} needs a `source` or a `value`"
  | incrementOperand node => s!"node '{node}': increment `value` must be a number"
  | nothingAssigned node => s!"node '{node}': update_state has nothing to assign"
  | forEachKind node => s!"node '{node}': foreach is only supported on llm and tool nodes"
  | forEachApproval node => s!"node '{node}': foreach cannot be combined with require_approval"
  | forEachWorkers node => s!"node '{node}': foreach.max_workers must be at least 1"
  | forEachNames node => s!"node '{node}': foreach needs `items` and `output`"
  | edgeFromEnd => "END cannot have outgoing edges"
  | edgeFromUnknown source => s!"edge from unknown node '{source}'"
  | edgeAmbiguous source => s!"edge from '{source}' sets both `to` and `conditions`"
  | edgeWithoutTarget source => s!"edge from '{source}' has no target"
  | edgeToStart source => s!"edge from '{source}' leads back to START"
  | edgeToUnknown source target => s!"edge from '{source}' leads to unknown node '{target}'"
  | edgeUnreachable source =>
    s!"edge from '{source}' is unreachable: an unconditional edge precedes it"
  | edgeCondition source error => s!"edge from '{source}': {error.message}"
  | startWithoutEdge => "START has no outgoing edge"
  | nodeWithoutEdge node => s!"node '{node}' has no outgoing edge"
  | nodeUnreachable node => s!"node '{node}' is unreachable from START"

end AgentFlow
