import AgentFlow.Proofs.WellFormed

/-!
# Well-formed definitions compile, and only they

The route table is built edge by edge, and an edge is judged by the routes that its source has so
far. Of these only the last one matters: it is unconditional exactly if the edge before of the
same source is. So the problems of the edges are the breaches of the rules for single edges and of
the rule that nothing follows an unconditional edge (`routeEdges_problems_eq_nil_iff`). The table
of edges without problems holds, for every source, the routes of its edges in order
(`from_routeEdges`), so that its paths are the paths of the definition.

`Flow.Sound` is what the other parts of the library use of a compiled flow.
-/

namespace AgentFlow

/-! ## Edges -/

namespace Edge

variable {names : List String} {edge : Edge}

/-- An edge gets into the route table if it has a source and one form. -/
theorem blocking?_eq_none_iff (hend : endName ∉ names) :
    edge.blocking? names = none ↔
      (edge.source = startName ∨ edge.source ∈ names) ∧
        (edge.target.isSome ↔ edge.conditions = []) := by
  have hne : startName ≠ endName := by decide
  unfold blocking?
  split_ifs with hs hu
  · simp [hs, hend, hne.symm]
  · simp only [List.contains_eq_mem, Bool.not_eq_true', decide_eq_false_iff_not] at hu
    simp [hu.1, hu.2]
  · have hsource : edge.source = startName ∨ edge.source ∈ names := by
      by_contra h
      rw [not_or] at h
      exact hu ⟨h.1, by simpa using h.2⟩
    cases edge.target <;> cases edge.conditions <;> simp [hsource]

/-- Nothing is wrong with a target exactly if it is the end or the name of a node. -/
theorem targetProblems_eq_nil_iff (hstart : startName ∉ names) (target : String) :
    edge.targetProblems names target = [] ↔ target = endName ∨ target ∈ names := by
  have hne : startName ≠ endName := by decide
  unfold targetProblems
  split_ifs with hs
  · simp [hs, hstart, hne]
  · by_cases he : target = endName <;> simp [he]

/-- Nothing is wrong with the conditions of an edge exactly if each of them can be read. -/
theorem conditionProblems_eq_nil_iff :
    edge.conditionProblems = [] ↔ ∀ target ∈ edge.conditions, ∃ condition,
      Condition.ofText target.condition = .ok condition := by
  rw [conditionProblems, List.filterMap_eq_nil_iff]
  refine forall₂_congr fun target _ => ?_
  cases Condition.ofText target.condition <;> simp

/-- The routes of an edge lead to its targets, in order. -/
theorem map_target_routes (h : edge.WellFormed names) :
    edge.routes.map Route.target = edge.targets := by
  have hroutes : ∀ conditions : List ConditionalTarget,
      (∀ target ∈ conditions, ∃ c, Condition.ofText target.condition = .ok c) →
        (conditions.filterMap fun target => (Condition.ofText target.condition).toOption.map
          fun c => Route.when c target.node).map Route.target = conditions.map (·.node) := by
    intro conditions hc
    induction conditions with
    | nil => rfl
    | cons target rest ih =>
      obtain ⟨c, hparse⟩ := hc target List.mem_cons_self
      have hrest := ih fun other hmem => hc other (List.mem_cons_of_mem _ hmem)
      simp [hparse, Except.toOption, Route.target, ← hrest]
  rw [routes, List.map_append, conditionalRoutes, hroutes _ h.conditions, targets]
  cases edge.target <;> rfl

/-- Behind the routes of an edge nothing follows exactly if the edge is unconditional. -/
theorem shuts_iff (h : edge.WellFormed names) (before : List Route) :
    (before ++ edge.routes).getLast?.any Route.isAlways = edge.target.isSome := by
  have hone := h.oneForm
  have hlen : edge.routes.length = edge.targets.length := by
    rw [← map_target_routes h, List.length_map]
  cases ht : edge.target with
  | some target =>
    have hnone : edge.conditions = [] := hone.1 (by simp [ht])
    simp [routes, conditionalRoutes, ht, hnone, Route.isAlways]
  | none =>
    have hsome : edge.conditions ≠ [] := fun hn => by simp [hn, ht] at hone
    have hne : edge.routes ≠ [] := fun hn => by
      rw [hn, targets, ht, List.length_nil] at hlen
      simp only [Option.toList_none, List.nil_append, List.length_map] at hlen
      exact hsome (List.eq_nil_of_length_eq_zero hlen.symm)
    rw [List.getLast?_append, List.getLast?_eq_some_getLast hne]
    -- The last route is that of a conditional target, since there is no other kind.
    have hmem := List.getLast_mem hne
    generalize edge.routes.getLast hne = last at hmem
    simp only [routes, ht, Option.toList_none, List.map_nil, List.nil_append, conditionalRoutes,
      List.mem_filterMap, Option.map_eq_some_iff] at hmem
    obtain ⟨_, -, _, -, rfl⟩ := hmem
    rfl

end Edge

/-! ## The route table -/

namespace RouteTable

/-- Whether an edge from the source would follow an unconditional one. -/
def isShut (table : RouteTable) (source : String) : Bool :=
  (table.from source).getLast?.any Route.isAlways

/-- Putting routes into a table replaces those of their source, and no others. -/
theorem from_put (table : RouteTable) (name source : String) (routes : List Route) :
    RouteTable.from (Fields.put name routes table) source =
      if source = name then routes else table.from source := by
  unfold RouteTable.from
  rw [Fields.lookup_put]
  split_ifs <;> rfl

/-- An edge shuts its own source if it is unconditional, and no other source. -/
theorem isShut_put {names : List String} {edge : Edge} (h : edge.WellFormed names)
    (table : RouteTable) (source : String) :
    isShut (Fields.put edge.source (table.from edge.source ++ edge.routes) table) source =
      if source = edge.source then edge.target.isSome else table.isShut source := by
  unfold isShut
  rw [from_put]
  split_ifs
  · exact Edge.shuts_iff h _
  · rfl

end RouteTable

/-- The problems of an edge are breaches of its rules, or an unconditional edge before it. -/
theorem Edge.problems_eq_nil_iff {names : List String} (hstart : startName ∉ names)
    (hend : endName ∉ names) (edge : Edge) (before : List Route) :
    (edge.blocking? names = none ∧ edge.problems names before = []) ↔
      edge.WellFormed names ∧ before.getLast?.any Route.isAlways = false := by
  simp only [Edge.problems, List.append_eq_nil_iff, List.flatMap_eq_nil_iff,
    Problem.when_eq_nil_iff, targetProblems_eq_nil_iff hstart, conditionProblems_eq_nil_iff,
    blocking?_eq_none_iff hend]
  constructor
  · rintro ⟨⟨hsource, hform⟩, ⟨htargets, hlast⟩, hconditions⟩
    exact ⟨⟨hsource, hform, htargets, hconditions⟩, hlast⟩
  · rintro ⟨⟨hsource, hform, htargets, hconditions⟩, hlast⟩
    exact ⟨⟨hsource, hform⟩, ⟨htargets, hlast⟩, hconditions⟩

/-- The edges behind a table have no problems exactly if they are well-formed, none follows an
unconditional edge of the table, and none follows another one. -/
theorem routeEdges_problems_eq_nil_iff {names : List String} (hstart : startName ∉ names)
    (hend : endName ∉ names) : ∀ (table : RouteTable) (edges : List Edge),
    (routeEdges names table edges).2 = [] ↔
      (∀ edge ∈ edges, edge.WellFormed names) ∧ (∀ edge ∈ edges, table.isShut edge.source = false) ∧
        edges.Pairwise fun before after => before.source = after.source → before.target = none
  | _, [] => by simp [routeEdges]
  | table, edge :: rest => by
    have hfirst := Edge.problems_eq_nil_iff hstart hend edge (table.from edge.source)
    rw [List.forall_mem_cons, List.forall_mem_cons, List.pairwise_cons, routeEdges]
    cases hb : edge.blocking? names with
    | some problem =>
      -- An edge that is kept out of the table breaks a rule.
      have hbad : ¬ edge.WellFormed names := fun h => by
        rw [((Edge.blocking?_eq_none_iff hend).2 ⟨h.source, h.oneForm⟩)] at hb
        simp at hb
      simp [hbad]
    | none =>
      simp only [hb, true_and] at hfirst
      rw [List.append_eq_nil_iff, hfirst, routeEdges_problems_eq_nil_iff hstart hend]
      -- With the edge in the table, the sources shut are those before and perhaps its own.
      constructor
      · rintro ⟨⟨hedge, hopen⟩, hrest, hshut, hpair⟩
        have hput := RouteTable.isShut_put hedge table
        refine ⟨⟨hedge, hrest⟩, ⟨hopen, fun other hmem => ?_⟩, fun other hmem hsame => ?_, hpair⟩
        · have := hshut other hmem
          rw [hput] at this
          split_ifs at this with hsame
          · rw [hsame]; exact hopen
          · exact this
        · have := hshut other hmem
          rw [hput, if_pos hsame.symm] at this
          simpa using this
      · rintro ⟨⟨hedge, hrest⟩, ⟨hopen, hshut⟩, hnone, hpair⟩
        refine ⟨⟨hedge, hopen⟩, hrest, fun other hmem => ?_, hpair⟩
        rw [RouteTable.isShut_put hedge table]
        split_ifs with hsame
        · simp [hnone other hmem hsame.symm]
        · exact hshut other hmem

/-- Edges that get into the table are added to it one after the other. -/
theorem fst_routeEdges {names : List String} :
    ∀ (table : RouteTable) (edges : List Edge), (∀ edge ∈ edges, edge.blocking? names = none) →
      (routeEdges names table edges).1 = edges.foldl (fun (table : RouteTable) edge =>
        Fields.put edge.source (table.from edge.source ++ edge.routes) table) table
  | _, [], _ => rfl
  | table, edge :: rest, h => by
    rw [List.forall_mem_cons] at h
    rw [routeEdges, h.1]
    exact fst_routeEdges _ rest h.2

/-- The table holds, for every source, the routes of its edges in order. -/
theorem from_routeEdges {names : List String} (source : String) :
    ∀ (table : RouteTable) (edges : List Edge), (∀ edge ∈ edges, edge.blocking? names = none) →
      (routeEdges names table edges).1.from source =
        table.from source ++ (edges.filter fun edge => edge.source = source).flatMap Edge.routes
  | _, [], _ => by simp [routeEdges]
  | table, edge :: rest, h => by
    rw [List.forall_mem_cons] at h
    rw [routeEdges, h.1]
    show (routeEdges names _ rest).1.from source = _
    rw [from_routeEdges source _ rest h.2, RouteTable.from_put, List.filter_cons]
    by_cases hs : edge.source = source
    · simp [hs]
    · simp [hs, Ne.symm hs]

/-- The sources of the table are those of its edges. -/
theorem has_routeEdges {names : List String} (source : String) :
    ∀ (table : RouteTable) (edges : List Edge), (∀ edge ∈ edges, edge.blocking? names = none) →
      (Fields.has source (routeEdges names table edges).1 ↔
        Fields.has source table ∨ ∃ edge ∈ edges, edge.source = source)
  | _, [], _ => by simp [routeEdges]
  | table, edge :: rest, h => by
    rw [List.forall_mem_cons] at h
    have hput : Fields.has source
        (Fields.put edge.source (table.from edge.source ++ edge.routes) table) ↔
          edge.source = source ∨ Fields.has source table := by
      unfold Fields.has
      rw [Fields.lookup_put]
      split_ifs with hs
      · simp [hs]
      · simp [Ne.symm hs]
    rw [routeEdges, h.1]
    show Fields.has source (routeEdges names _ rest).1 ↔ _
    rw [has_routeEdges source _ rest h.2, hput, List.exists_mem_cons_iff, or_assoc, or_left_comm]

/-! ## Definitions -/

namespace Definition

variable {definition : Definition}

/-- No node has the reserved name of the start. -/
theorem startName_not_mem_nodeNames : startName ∉ definition.nodeNames := by
  simp [nodeNames, isNodeName]

/-- No node has the reserved name of the end. -/
theorem endName_not_mem_nodeNames : endName ∉ definition.nodeNames := by
  simp [nodeNames, isNodeName]

/-- Edges can lead to all nodes if all names are usable. -/
theorem nodeNames_eq (h : ∀ node ∈ definition.nodes,
    ¬ Text.isAllBlank node.name ∧ node.name ≠ startName ∧ node.name ≠ endName) :
    definition.nodeNames = definition.nodes.map Node.name := by
  refine List.filter_eq_self.2 fun name hname => ?_
  obtain ⟨node, hnode, rfl⟩ := List.mem_map.1 hname
  simpa [isNodeName, and_assoc] using h node hnode

/-- The route table of the edges. -/
def table (definition : Definition) : RouteTable :=
  (routeEdges definition.nodeNames [] definition.edges).1

/-- The edges without problems are the edges that meet their rules. -/
theorem edgeProblems_eq_nil_iff :
    (routeEdges definition.nodeNames [] definition.edges).2 = [] ↔
      (∀ edge ∈ definition.edges, edge.WellFormed definition.nodeNames) ∧
        definition.edges.Pairwise fun before after =>
          before.source = after.source → before.target = none := by
  rw [routeEdges_problems_eq_nil_iff startName_not_mem_nodeNames endName_not_mem_nodeNames]
  exact and_congr_right fun _ => and_iff_right fun _ _ => rfl

variable (hedges : ∀ edge ∈ definition.edges, edge.WellFormed definition.nodeNames)
include hedges

/-- No edge of a definition without problems stops the routes from being built. -/
theorem blocking?_eq_none : ∀ edge ∈ definition.edges,
    edge.blocking? definition.nodeNames = none := fun edge hmem =>
  (Edge.blocking?_eq_none_iff endName_not_mem_nodeNames).2
    ⟨(hedges edge hmem).source, (hedges edge hmem).oneForm⟩

/-- The routes of the table are those of the edges. -/
theorem from_table (source : String) : definition.table.from source =
    (definition.edges.filter fun edge => edge.source = source).flatMap Edge.routes :=
  from_routeEdges source [] definition.edges (blocking?_eq_none hedges)

/-- The routes of the table lead where the edges lead. -/
theorem leads_table_iff (source target : String) :
    definition.table.Leads source target ↔ definition.Leads source target := by
  unfold RouteTable.Leads Definition.Leads
  rw [from_table hedges]
  constructor
  · rintro ⟨route, hroute, rfl⟩
    obtain ⟨edge, hedge, hroute⟩ := List.mem_flatMap.1 hroute
    obtain ⟨hmem, hsource⟩ := List.mem_filter.1 hedge
    refine ⟨edge, hmem, of_decide_eq_true hsource, ?_⟩
    rw [← Edge.map_target_routes (hedges edge hmem)]
    exact List.mem_map_of_mem hroute
  · rintro ⟨edge, hmem, hsource, htarget⟩
    rw [← Edge.map_target_routes (hedges edge hmem)] at htarget
    obtain ⟨route, hroute, htarget⟩ := List.mem_map.1 htarget
    exact ⟨route, List.mem_flatMap.2
      ⟨edge, List.mem_filter.2 ⟨hmem, decide_eq_true hsource⟩, hroute⟩, htarget⟩

/-- The sources of the table are the sources of the edges. -/
theorem has_table_iff (source : String) :
    Fields.has source definition.table ↔ ∃ edge ∈ definition.edges, edge.source = source := by
  rw [table, has_routeEdges source [] _ (blocking?_eq_none hedges)]
  exact or_iff_right (by simp [Fields.has])

/-- The walk over the table sees what paths along the edges reach. -/
theorem mem_reachable_table_iff (name : String) :
    name ∈ reachable definition.table ↔
      Relation.ReflTransGen definition.Leads startName name := by
  have hleads : definition.table.Leads = definition.Leads :=
    funext₂ fun source target => propext (leads_table_iff hedges source target)
  rw [mem_reachable_iff, hleads]

omit hedges

/-- A definition has no problems exactly if it meets the rules for definitions. -/
theorem check_problems_eq_nil_iff :
    definition.check.2 = [] ↔ definition.WellFormed := by
  -- The problems are put together from the passes, so there are none if no pass finds any.
  have hcheck : definition.check.2 = [] ↔
      (((((nameProblems 0 [] definition.nodes = [] ∧
        ∀ node ∈ definition.nodes, node.problems = []) ∧
        (routeEdges definition.nodeNames [] definition.edges).2 = []) ∧
        Fields.has startName definition.table) ∧
        ∀ node ∈ definition.nodes, Fields.has node.name definition.table) ∧
        ∀ node ∈ definition.nodes, node.name ∈ reachable definition.table) := by
    simp only [check, table, List.append_eq_nil_iff, Problem.when_eq_nil_iff,
      List.flatMap_eq_nil_iff, Bool.not_eq_false', List.contains_iff_mem]
  rw [hcheck, nameProblems_eq_nil_iff, edgeProblems_eq_nil_iff]
  simp only [Node.problems_eq_nil_iff]
  constructor
  · rintro ⟨⟨⟨⟨⟨⟨hnames, hdistinct, -⟩, hnodes⟩, hedges, horder⟩, hstart⟩, hleaves⟩, hreached⟩
    exact {
      names := hnames
      distinct := hdistinct
      nodes := hnodes
      edges := nodeNames_eq hnames ▸ hedges
      order := horder
      start := (has_table_iff hedges _).1 hstart
      leaves := fun node hnode => (has_table_iff hedges _).1 (hleaves node hnode)
      reached := fun node hnode => (mem_reachable_table_iff hedges _).1 (hreached node hnode) }
  · rintro ⟨hnames, hdistinct, hnodes, hedges, horder, hstart, hleaves, hreached⟩
    rw [← nodeNames_eq hnames] at hedges
    exact ⟨⟨⟨⟨⟨⟨hnames, hdistinct, fun _ _ => List.not_mem_nil⟩, hnodes⟩, hedges, horder⟩,
      (has_table_iff hedges _).2 hstart⟩,
      fun node hnode => (has_table_iff hedges _).2 (hleaves node hnode)⟩,
      fun node hnode => (mem_reachable_table_iff hedges _).2 (hreached node hnode)⟩

/-- The edges of a well-formed definition meet their rules, with the names that they can lead to. -/
theorem WellFormed.edges_nodeNames (h : definition.WellFormed) :
    ∀ edge ∈ definition.edges, edge.WellFormed definition.nodeNames := by
  rw [nodeNames_eq h.names]
  exact h.edges

end Definition

/-! ## Flows -/

namespace Flow

variable {definition : Definition} {flow : Flow}

/-- What compiling makes of a definition without problems. -/
theorem compile_eq_ok_iff : compile definition = .ok flow ↔
    definition.check.2 = [] ∧
      flow = ⟨definition.description, definition.nodes, definition.table⟩ := by
  have htable : definition.check.1 = definition.table := rfl
  rw [← htable, compile]
  rcases definition.check with ⟨table, _ | ⟨problem, problems⟩⟩
  · simp [eq_comm]
  · simp

/-- Compiling accepts exactly the well-formed definitions. -/
theorem exists_compile_eq_ok_iff :
    (∃ flow, compile definition = .ok flow) ↔ definition.WellFormed := by
  simp only [compile_eq_ok_iff, exists_and_left, exists_eq, and_true,
    Definition.check_problems_eq_nil_iff]

/-- What the nodes and the routes of a compiled flow are like. -/
structure Sound (flow : Flow) : Prop where
  distinct : (flow.nodes.map Node.name).Nodup
  nodes : ∀ node ∈ flow.nodes, node.WellFormed
  /-- Every route leads to the end or to a node. -/
  targets : ∀ source target, flow.table.Leads source target →
    target = endName ∨ target ∈ flow.nodes.map Node.name

/-- Compiled flows are sound. -/
theorem sound_of_compile (h : compile definition = .ok flow) : flow.Sound := by
  obtain ⟨hcheck, rfl⟩ := compile_eq_ok_iff.1 h
  have hwf := Definition.check_problems_eq_nil_iff.1 hcheck
  refine ⟨hwf.distinct, hwf.nodes, fun source target hleads => ?_⟩
  obtain ⟨edge, hmem, -, htarget⟩ :=
    (Definition.leads_table_iff hwf.edges_nodeNames source target).1 hleads
  exact (hwf.edges edge hmem).targets target htarget

/-- No node of a compiled flow has the name of its start or of its end. -/
theorem names_of_compile (h : compile definition = .ok flow) :
    ∀ node ∈ flow.nodes, node.name ≠ startName ∧ node.name ≠ endName := by
  obtain ⟨hcheck, rfl⟩ := compile_eq_ok_iff.1 h
  exact fun node hmem => ((Definition.check_problems_eq_nil_iff.1 hcheck).names node hmem).2

/-- The node of a name is a node of that name. -/
theorem mem_of_node? {name : String} {node : Node} (h : flow.node? name = some node) :
    node ∈ flow.nodes ∧ node.name = name :=
  ⟨List.mem_of_find?_eq_some h, by simpa using List.find?_some h⟩

/-- There is a node of every name of a node. -/
theorem exists_node? {name : String} (h : name ∈ flow.nodes.map Node.name) :
    ∃ node, flow.node? name = some node := by
  obtain ⟨node, hnode, rfl⟩ := List.mem_map.1 h
  exact Option.isSome_iff_exists.1 (List.find?_isSome.2 ⟨node, hnode, by simp⟩)

/-- A node of a sound flow is found under its name. -/
theorem Sound.node?_eq (h : flow.Sound) {node : Node} (hnode : node ∈ flow.nodes) :
    flow.node? node.name = some node := by
  obtain ⟨found, hfound⟩ := exists_node? (List.mem_map_of_mem hnode)
  obtain ⟨hmem, hname⟩ := mem_of_node? hfound
  rw [hfound, List.inj_on_of_nodup_map h.distinct hmem hnode hname]

end Flow

end AgentFlow
