import AgentFlow.Flow.Check

/-!
# Compiling a definition

A definition without problems becomes a flow: its nodes and, for each source, the routes out of
it in the order in which they are tried. All problems of a definition are reported at once.
-/

namespace AgentFlow

/-- A way out of a node. -/
inductive Route where
  | always (target : String)
  | when (condition : Condition) (target : String)

namespace Route

/-- Where a route leads to. -/
def target : Route → String
  | always target => target
  | when _ target => target

/-- Whether a route is taken without a condition. -/
def isAlways : Route → Bool
  | always _ => true
  | when _ _ => false

end Route

/-- Sources with their routes. -/
abbrev RouteTable : Type := List (String × List Route)

/-- The routes out of a source. -/
def RouteTable.from (table : RouteTable) (source : String) : List Route :=
  (table.lookup source).getD []

/-! ## Edges -/

/-- The names that edges can lead to or come from. -/
def Definition.nodeNames (definition : Definition) : List String :=
  (definition.nodes.map (·.name)).filter isNodeName

namespace Edge

/-- The problem that keeps an edge out of the route table altogether. -/
def blocking? (names : List String) (edge : Edge) : Option Problem :=
  if edge.source = endName then some .edgeFromEnd
  else if edge.source ≠ startName ∧ !names.contains edge.source then
    some (.edgeFromUnknown edge.source)
  else match edge.target, edge.conditions with
    | some _, _ :: _ => some (.edgeAmbiguous edge.source)
    | none, [] => some (.edgeWithoutTarget edge.source)
    | _, _ => none

/-- The problem of one target. -/
def targetProblems (names : List String) (edge : Edge) (target : String) : List Problem :=
  if target = startName then [.edgeToStart edge.source]
  else Problem.when (target ≠ endName && !names.contains target)
    (.edgeToUnknown edge.source target)

/-- The routes of the conditional targets whose conditions parse. -/
def conditionalRoutes (edge : Edge) : List Route :=
  edge.conditions.filterMap fun target =>
    (Condition.ofText target.condition).toOption.map fun condition => .when condition target.node

/-- The problems of the conditions that do not parse. -/
def conditionProblems (edge : Edge) : List Problem :=
  edge.conditions.filterMap fun target =>
    match Condition.ofText target.condition with
    | .ok _ => none
    | .error error => some (.edgeCondition edge.source error)

/-- The routes of an edge. -/
def routes (edge : Edge) : List Route :=
  edge.target.toList.map .always ++ edge.conditionalRoutes

/-- The problems of an edge behind the routes of its source that came before. -/
def problems (names : List String) (before : List Route) (edge : Edge) : List Problem :=
  edge.targets.flatMap (edge.targetProblems names) ++
    Problem.when (before.getLast?.any Route.isAlways) (.edgeUnreachable edge.source) ++
    edge.conditionProblems

end Edge

/-- The route table of the edges and their problems, in order, behind the edges of `table`. -/
def routeEdges (names : List String) (table : RouteTable) :
    List Edge → RouteTable × List Problem
  | [] => (table, [])
  | edge :: rest =>
    match edge.blocking? names with
    | some problem =>
      let (table, problems) := routeEdges names table rest
      (table, problem :: problems)
    | none =>
      let before := table.from edge.source
      let (final, problems) :=
        routeEdges names (Fields.put edge.source (before ++ edge.routes) table) rest
      (final, edge.problems names before ++ problems)

/-! ## Reachability -/

/-- The names reached from `open` ones, `seen` being all that were reached so far. Every name is
opened once, so that the number of routes bounds the steps. -/
def reach (table : RouteTable) : Nat → (opened seen : List String) → List String
  | 0, _, seen => seen
  | _ + 1, [], seen => seen
  | steps + 1, name :: opened, seen =>
    let targets := ((table.from name).map Route.target).eraseDups
    let fresh := targets.filter fun target => !seen.contains target
    reach table steps (opened ++ fresh) (seen ++ fresh)

/-- The names reached from the start. -/
def reachable (table : RouteTable) : List String :=
  reach table ((table.flatMap fun entry => entry.2).length + 1) [startName] [startName]

/-! ## Flows -/

/-- A checked flow. -/
structure Flow where
  description : String
  nodes : List Node
  table : RouteTable

/-- The route table of a definition and all its problems. -/
def Definition.check (definition : Definition) : RouteTable × List Problem :=
  let (table, edgeProblems) := routeEdges definition.nodeNames [] definition.edges
  let reached := reachable table
  let problems :=
    nameProblems 0 [] definition.nodes ++
    definition.nodes.flatMap Node.problems ++
    edgeProblems ++
    Problem.when (!Fields.has startName table) .startWithoutEdge ++
    definition.nodes.flatMap (fun node =>
      Problem.when (!Fields.has node.name table) (.nodeWithoutEdge node.name)) ++
    definition.nodes.flatMap (fun node =>
      Problem.when (!reached.contains node.name) (.nodeUnreachable node.name))
  (table, problems)

namespace Flow

/-- The flow of a definition, or all that is wrong with it. -/
def compile (definition : Definition) : Except Error Flow :=
  match definition.check with
  | (table, []) => .ok ⟨definition.description, definition.nodes, table⟩
  | (_, problems) => .error (.structural ("; ".intercalate (problems.map Problem.message)))

/-- The node of a name. -/
def node? (flow : Flow) (name : String) : Option Node :=
  flow.nodes.find? fun node => node.name = name

/-- The routes out of a source. -/
def routes (flow : Flow) (source : String) : List Route := flow.table.from source

/-- The target of the first route that applies; `tried` are the conditions that did not hold. -/
def firstTarget (source : String) (vars : Lookup) (tried : List String) :
    List Route → Except Error String
  | [] => .error (.noMatchingEdge source tried.reverse)
  | .always target :: _ => .ok target
  | .when condition target :: rest =>
    match condition.evaluate vars with
    | .error error => .error error
    | .ok true => .ok target
    | .ok false => firstTarget source vars (condition.source :: tried) rest

/-- The next node, or the end: the first unconditional route or true condition. -/
def selectRoute (flow : Flow) (source : String) (vars : Lookup) : Except Error String :=
  firstTarget source vars [] (flow.routes source)

/-- The tools that a node may call. -/
def nodeTools (node : Node) : List String :=
  match node.kind with
  | .tool step => [step.tool]
  | .model step => step.tools
  | _ => []

/-- All tools that a run may call, in increasing order. -/
def toolNames (flow : Flow) : List String :=
  Fields.sortedSet (flow.nodes.flatMap nodeTools)

end Flow

end AgentFlow
