/-!
# Edges

What comes after a node: one target, or targets under conditions of which the first true one is
taken.
-/

namespace AgentFlow

/-- A target under a condition. -/
structure ConditionalTarget where
  condition : String
  /-- A node, or the end of the flow. -/
  node : String
deriving DecidableEq

/-- The routes out of a node. -/
structure Edge where
  /-- A node, or the start of the flow. -/
  source : String
  /-- The unconditional target. -/
  target : Option String := none
  /-- The conditional targets, tried in order. -/
  conditions : List ConditionalTarget := []
deriving DecidableEq

namespace Edge

/-- An edge to one target. -/
def always (source target : String) : Edge := { source, target := some target }

/-- An edge without targets yet. -/
def branch (source : String) : Edge := { source }

/-- Adds a target under a condition. -/
def when (edge : Edge) (condition node : String) : Edge :=
  { edge with conditions := edge.conditions ++ [⟨condition, node⟩] }

/-- All targets, the unconditional one first. -/
def targets (edge : Edge) : List String := edge.target.toList ++ edge.conditions.map (·.node)

end Edge

end AgentFlow
