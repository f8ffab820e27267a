import AgentFlow.Proofs.Reachability

/-!
# Well-formed definitions

What a definition has to satisfy to become a flow, said without the order in which problems are
looked for: rules for each node and each edge on its own, and rules for the graph that they make.
Paths are paths along the edges as they are written.

`Node.problems_eq_nil_iff` and `Edge.problems_eq_nil_iff` take the rules of nodes and edges one by
one. The rules for the graph need the route table, which is built edge by edge:
`routeEdges_problems_eq_nil_iff` carries the routes of the edges before, of which only the last one
matters, and `from_routeEdges` says what the finished table holds.
-/

namespace AgentFlow

/-! ## The rules -/

/-- The rules for what a kind of node is configured with, next to its declared fields. -/
def NodeKind.WellFormed (fields : List OutputField) : NodeKind → Prop
  | .input step => fields ≠ [] ∧ step.options ≠ some (.list [])
  | .model step =>
    step.maxSteps ≠ some 0 ∧
      ∀ entry ∈ step.rawToolOutput,
        (∃ field ∈ fields, field.name = entry.1) ∧ entry.2 ∈ step.tools
  | .tool step => ¬ Text.isAllBlank step.tool
  | .output _ => True
  | .update step =>
    match step.action with
    | some .increment => fields.length = 1 ∧ ∀ value, step.value = some value → value.isNumber
    | some _ => fields.length = 1 ∧ (step.source.isSome ∨ step.value.isSome)
    | none => step.values ≠ []

/-- The rules for a node that fans out. -/
structure ForEach.WellFormed (node : Node) (each : ForEach) : Prop where
  /-- Only model nodes and tool nodes fan out. -/
  kind : (∃ step, node.kind = .model step) ∨ ∃ step, node.kind = .tool step
  /-- Nobody is asked for approval while a node fans out. -/
  approval : ¬ node.requiresApproval
  workers : each.maxWorkers ≠ some 0
  items : each.itemsKey ≠ ""
  output : ¬ Text.isAllBlank each.output

/-- The rules for a node on its own, but for its name. -/
structure Node.WellFormed (node : Node) : Prop where
  /-- A limit and its counter are declared together. -/
  counter : node.limit.isSome ↔ node.limitCounter.isSome
  limit : node.limit ≠ some 0
  /-- No field is declared twice. -/
  fields : (node.output.map OutputField.name).Nodup
  kind : node.kind.WellFormed node.output
  forEach : ∀ each, node.forEach = some each → each.WellFormed node

/-- The rules for an edge on its own, in a definition whose nodes have the given names. -/
structure Edge.WellFormed (names : List String) (edge : Edge) : Prop where
  source : edge.source = startName ∨ edge.source ∈ names
  /-- Either one target or conditional ones. -/
  oneForm : edge.target.isSome ↔ edge.conditions = []
  targets : ∀ target ∈ edge.targets, target = endName ∨ target ∈ names
  conditions : ∀ target ∈ edge.conditions, ∃ condition,
    Condition.ofText target.condition = .ok condition

namespace Definition

/-- An edge leads from one name to another. -/
def Leads (definition : Definition) (source target : String) : Prop :=
  ∃ edge ∈ definition.edges, edge.source = source ∧ target ∈ edge.targets

/-- The rules for a definition. -/
structure WellFormed (definition : Definition) : Prop where
  names : ∀ node ∈ definition.nodes,
    ¬ Text.isAllBlank node.name ∧ node.name ≠ startName ∧ node.name ≠ endName
  distinct : (definition.nodes.map Node.name).Nodup
  nodes : ∀ node ∈ definition.nodes, node.WellFormed
  edges : ∀ edge ∈ definition.edges, edge.WellFormed (definition.nodes.map Node.name)
  /-- Nothing follows an unconditional edge of the same source. -/
  order : definition.edges.Pairwise fun before after =>
    before.source = after.source → before.target = none
  start : ∃ edge ∈ definition.edges, edge.source = startName
  /-- Every node has an edge that leads on. -/
  leaves : ∀ node ∈ definition.nodes, ∃ edge ∈ definition.edges, edge.source = node.name
  /-- Every node is at the end of a path from the start. -/
  reached : ∀ node ∈ definition.nodes,
    Relation.ReflTransGen definition.Leads startName node.name

end Definition

/-! ## Nodes -/

/-- A problem that is reported on a condition is not there exactly if the condition is false. -/
@[simp]
theorem Problem.when_eq_nil_iff {test : Bool} {problem : Problem} :
    Problem.when test problem = [] ↔ test = false := by
  cases test <;> simp [Problem.when]

/-- A name is new and those behind it are new besides it, exactly if all are distinct and new. -/
theorem nodup_cons_unseen (name : String) (names seen : List String) :
    (name ∉ seen ∧ names.Nodup ∧ ∀ other ∈ names, other ∉ name :: seen) ↔
      (name :: names).Nodup ∧ ∀ other ∈ name :: names, other ∉ seen := by
  rw [List.nodup_cons, List.forall_mem_cons]
  constructor
  · rintro ⟨hfirst, hnodup, hseen⟩
    exact ⟨⟨fun h => hseen name h List.mem_cons_self, hnodup⟩, hfirst,
      fun other hmem h => hseen other hmem (List.mem_cons_of_mem _ h)⟩
  · rintro ⟨⟨hnew, hnodup⟩, hfirst, hseen⟩
    refine ⟨hfirst, hnodup, fun other hmem h => ?_⟩
    rcases List.mem_cons.1 h with rfl | h
    · exact hnew hmem
    · exact hseen other hmem h

/-- No problem with names: they are usable, distinct, and none was seen before. -/
theorem nameProblems_eq_nil_iff : ∀ (position : Nat) (seen : List String) (nodes : List Node),
    nameProblems position seen nodes = [] ↔
      (∀ node ∈ nodes, ¬ Text.isAllBlank node.name ∧ node.name ≠ startName ∧ node.name ≠ endName) ∧
        (nodes.map Node.name).Nodup ∧ ∀ name ∈ nodes.map Node.name, name ∉ seen
  | _, _, [] => by simp [nameProblems]
  | position, seen, node :: rest => by
    unfold nameProblems
    split_ifs with hblank hreserved
    · simp [hblank]
    · rcases hreserved with h | h <;> simp [h]
    · rw [not_or] at hreserved
      rw [List.append_eq_nil_iff, nameProblems_eq_nil_iff, Problem.when_eq_nil_iff,
        List.contains_eq_mem, decide_eq_false_iff_not, List.forall_mem_cons, List.map_cons,
        ← nodup_cons_unseen]
      exact ⟨fun ⟨hfirst, hrest, h⟩ => ⟨⟨⟨hblank, hreserved⟩, hrest⟩, hfirst, h⟩,
        fun ⟨⟨_, hrest⟩, hfirst, h⟩ => ⟨hfirst, hrest, h⟩⟩

/-- No problem with fields: they are distinct, and none was seen before. -/
theorem fieldProblems_eq_nil_iff (node : String) :
    ∀ (seen : List String) (fields : List OutputField),
    fieldProblems node seen fields = [] ↔
      (fields.map OutputField.name).Nodup ∧ ∀ name ∈ fields.map OutputField.name, name ∉ seen
  | _, [] => by simp [fieldProblems]
  | seen, field :: rest => by
    rw [fieldProblems, List.append_eq_nil_iff, fieldProblems_eq_nil_iff, Problem.when_eq_nil_iff,
      List.contains_eq_mem, decide_eq_false_iff_not, List.map_cons, ← nodup_cons_unseen]

namespace Node

/-- No problem with a limit: it stands together with its counter, and is not zero. -/
theorem limitProblems_eq_nil_iff (node : Node) :
    node.limitProblems = [] ↔
      (node.limit.isSome ↔ node.limitCounter.isSome) ∧ node.limit ≠ some 0 := by
  unfold limitProblems
  cases node.limit with
  | none => cases node.limitCounter <;> simp
  | some limit =>
    by_cases h : limit = 0
    · simp [h]
    · cases node.limitCounter <;> simp [h]

/-- No problem with a kind of node: it meets the rules for it. -/
theorem kindProblems_eq_nil_iff (node : Node) :
    node.kindProblems = [] ↔ node.kind.WellFormed node.output := by
  unfold kindProblems
  cases node.kind with
  | input step => simp [inputProblems, NodeKind.WellFormed, List.append_eq_nil_iff]
  | model step =>
    simp only [modelProblems, NodeKind.WellFormed, List.append_eq_nil_iff,
      Problem.when_eq_nil_iff, List.flatMap_eq_nil_iff, decide_eq_false_iff_not]
    refine and_congr_right fun _ => forall₂_congr fun entry _ => ?_
    simp [field?]
  | tool step => simp [NodeKind.WellFormed]
  | output lines => simp [NodeKind.WellFormed]
  | update step =>
    simp only [updateProblems, NodeKind.WellFormed]
    cases step.action with
    | none => simp
    | some action =>
      cases action <;> cases step.source <;> cases step.value <;>
        simp [List.append_eq_nil_iff]

/-- No problem with a fan-out: it meets the rules for it. -/
theorem forEachProblems_eq_nil_iff (node : Node) (each : ForEach) :
    node.forEachProblems each = [] ↔ each.WellFormed node := by
  have hkind : node.canFanOut = true ↔
      (∃ step, node.kind = .model step) ∨ ∃ step, node.kind = .tool step := by
    unfold canFanOut
    cases node.kind <;> simp
  simp only [forEachProblems, List.append_eq_nil_iff, Problem.when_eq_nil_iff]
  constructor
  · rintro ⟨⟨⟨hk, ha⟩, hw⟩, hn⟩
    simp only [Bool.or_eq_false_iff, String.isEmpty_eq_false_iff] at hn
    exact ⟨hkind.1 (by simpa using hk), by simpa using ha, by simpa using hw, hn.1, by simp [hn.2]⟩
  · rintro ⟨hk, ha, hw, hi, ho⟩
    refine ⟨⟨⟨by simp [hkind.2 hk], by simpa using ha⟩, by simpa using hw⟩, ?_⟩
    rw [Bool.or_eq_false_iff]
    exact ⟨by simpa using hi, by simpa using ho⟩

/-- A node has no problems exactly if it meets the rules for nodes. -/
theorem problems_eq_nil_iff (node : Node) : node.problems = [] ↔ node.WellFormed := by
  simp only [problems, List.append_eq_nil_iff, limitProblems_eq_nil_iff, fieldProblems_eq_nil_iff,
    kindProblems_eq_nil_iff, List.flatMap_eq_nil_iff, Option.mem_toList, forEachProblems_eq_nil_iff]
  constructor
  · rintro ⟨⟨⟨⟨hc, hl⟩, hf, -⟩, hk⟩, he⟩
    exact ⟨hc, hl, hf, hk, he⟩
  · rintro ⟨hc, hl, hf, hk, he⟩
    exact ⟨⟨⟨⟨hc, hl⟩, hf, fun _ _ => List.not_mem_nil⟩, hk⟩, he⟩

end Node

end AgentFlow
