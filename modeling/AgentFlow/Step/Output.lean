import AgentFlow.Step.Basic
import AgentFlow.Template

/-!
# Output nodes
-/

namespace AgentFlow

/-- Templates filled in, in order. -/
def interpolateAll (vars : Lookup) (templates : List String) : Except Error (List String) :=
  templates.mapM (Template.interpolate vars)

/-- The lines of an output node, which writes nothing. -/
def runOutput (templates : List String) (vars : Lookup) : Except Error NodeResult := do
  return { lines := ← interpolateAll vars templates }

end AgentFlow
