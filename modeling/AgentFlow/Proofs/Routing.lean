import AgentFlow.Proofs.Compile
import AgentFlow.Proofs.Comparisons
import AgentFlow.Proofs.Results

/-!
# The ways out of a source are tried in the order of their declaration

The edges of a definition come in any order, those of one source between those of others, and an
edge has one target or many under conditions. `Definition.ways` reads the ways out of a source off
the edges as they are declared, and `Definition.Tries` says which of them a choice comes to: those
behind closed ways only. Choosing the next node is then said without the route table
(`Flow.Chooses`): the first way that is tried and open gives the target, the first one that fails
gives the error, and there is no matching edge exactly if all ways are closed.

A compiled flow holds conditions that are parsed already. They are the parsed texts of the ways, in
order and with none left out (`Flow.routes_of_compile`), so that the walk over the routes is a walk
over the ways: `Flow.firstTarget_cons` is one step of it and `Flow.firstTarget_append` a run through
closed ways.
-/

namespace AgentFlow

/-! ## Ways -/

/-- A way out of a source as an edge declares it: a target, and the condition under which it is
taken, if there is one. -/
structure Way where
  condition? : Option String
  target : String

namespace Way

variable {vars : Lookup} {way : Way}

/-- Whether a way can be taken. -/
def isOpen (vars : Lookup) (way : Way) : Except Error Bool :=
  match way.condition? with
  | none => .ok true
  | some text => Condition.truth vars text

/-- The route of a way, if its condition parses. -/
def route? (way : Way) : Option Route :=
  match way.condition? with
  | none => some (.always way.target)
  | some text => (Condition.ofText text).toOption.map fun condition => .when condition way.target

/-- A way that is closed has a condition. -/
theorem isSome_condition?_of_closed (h : way.isOpen vars = .ok false) : way.condition?.isSome := by
  unfold isOpen at h
  split at h
  · simp at h
  · next htext => simp [htext]

/-- The route of a way leads to its target. -/
theorem target_of_route? {route : Route} (h : way.route? = some route) :
    route.target = way.target := by
  unfold route? at h
  split at h
  · exact Option.some.inj h ▸ rfl
  · obtain ⟨condition, -, rfl⟩ := Option.map_eq_some_iff.1 h
    rfl

/-- A condition that cannot be evaluated is not taken for a missing edge. -/
theorem isOpen_ne_noMatchingEdge (name : String) (texts : List String) :
    way.isOpen vars ≠ .error (.noMatchingEdge name texts) := by
  intro h
  unfold isOpen at h
  split at h
  · cases h
  · next text _ =>
    simp only [Condition.truth, Condition.ofText, bind, Except.bind] at h
    cases hparse : Condition.parseText text with
    | error fault => simp [hparse] at h
    | ok expr =>
      simp only [hparse, Condition.evaluate] at h
      cases heval : Condition.eval vars expr with
      | ok value => simp [heval] at h
      | error fault => cases fault <;> simp [heval, Condition.EvalFault.toError] at h

end Way

/-- The ways that an edge declares, in order. -/
def Edge.ways (edge : Edge) : List Way :=
  edge.target.toList.map (⟨none, ·⟩) ++
    edge.conditions.map fun target => ⟨some target.condition, target.node⟩

namespace Edge

variable {names : List String} {edge : Edge}

/-- The routes of an edge are those of its ways. -/
theorem routes_eq (edge : Edge) : edge.routes = edge.ways.filterMap Way.route? := by
  have halways : (Way.route? ∘ fun target => ⟨none, target⟩) = some ∘ Route.always := rfl
  rw [routes, ways, List.filterMap_append, List.filterMap_map, List.filterMap_map, halways,
    List.filterMap_eq_map]
  rfl

/-- The conditions of a well-formed edge parse. -/
theorem isSome_route? (h : edge.WellFormed names) : ∀ way ∈ edge.ways, way.route?.isSome := by
  intro way hway
  rcases List.mem_append.1 hway with hway | hway
  · obtain ⟨target, -, rfl⟩ := List.mem_map.1 hway
    rfl
  · obtain ⟨target, htarget, rfl⟩ := List.mem_map.1 hway
    obtain ⟨condition, hparse⟩ := h.conditions target htarget
    simp [Way.route?, hparse, Except.toOption]

/-- The conditions of the ways that an edge declares are those of the edge. -/
theorem conditions_ways (edge : Edge) :
    edge.ways.filterMap Way.condition? = edge.conditions.map (·.condition) := by
  have halways : (Way.condition? ∘ fun target => ⟨none, target⟩) = fun _ => none := rfl
  rw [ways, List.filterMap_append, List.filterMap_map, List.filterMap_map, halways,
    List.filterMap_none, List.nil_append, ← List.filterMap_eq_map]
  rfl

end Edge

namespace Definition

/-- The edges from a source, in order. -/
def edgesFrom (definition : Definition) (source : String) : List Edge :=
  definition.edges.filter fun edge => edge.source = source

/-- The ways out of a source, in order. -/
def ways (definition : Definition) (source : String) : List Way :=
  (definition.edgesFrom source).flatMap Edge.ways

/-- The texts of the conditions of a source, in order. -/
def conditionsFrom (definition : Definition) (source : String) : List String :=
  (definition.edgesFrom source).flatMap fun edge => edge.conditions.map (·.condition)

/-- Choosing comes to a way if all ways before it are closed. -/
def Tries (definition : Definition) (source : String) (vars : Lookup) (way : Way) : Prop :=
  ∃ before after, definition.ways source = before ++ way :: after ∧
    ∀ other ∈ before, other.isOpen vars = .ok false

variable {definition : Definition} {source : String} {vars : Lookup}

/-- The conditions of the ways out of a source are those of its edges. -/
theorem conditions_ways : (definition.ways source).filterMap Way.condition? =
    definition.conditionsFrom source := by
  simp only [ways, conditionsFrom, List.filterMap_flatMap, Edge.conditions_ways]

/-- Either all ways are closed, or choosing comes to one that is not. -/
theorem closed_or_tries : (∀ way ∈ definition.ways source, way.isOpen vars = .ok false) ∨
    ∃ way, definition.Tries source vars way ∧ way.isOpen vars ≠ .ok false := by
  unfold Tries
  induction definition.ways source with
  | nil => exact .inl (List.forall_mem_nil _)
  | cons way rest ih =>
    by_cases hway : way.isOpen vars = .ok false
    · refine ih.imp (List.forall_mem_cons.2 ⟨hway, ·⟩) ?_
      rintro ⟨found, ⟨before, after, rfl, hbefore⟩, hfound⟩
      exact ⟨found, ⟨way :: before, after, rfl, List.forall_mem_cons.2 ⟨hway, hbefore⟩⟩, hfound⟩
    · exact .inr ⟨way, ⟨[], rest, rfl, List.forall_mem_nil _⟩, hway⟩

/-- Closed ways are those of conditional edges whose conditions are all false. -/
theorem closed_iff : (∀ way ∈ definition.ways source, way.isOpen vars = .ok false) ↔
    (∀ edge ∈ definition.edgesFrom source, edge.target = none) ∧
      ∀ text ∈ definition.conditionsFrom source, Condition.truth vars text = .ok false := by
  have hedge : ∀ edge : Edge, (∀ way ∈ edge.ways, way.isOpen vars = .ok false) ↔
      edge.target = none ∧
        ∀ text ∈ edge.conditions.map (·.condition), Condition.truth vars text = .ok false := by
    intro edge
    simp only [Edge.ways, List.forall_mem_append, List.forall_mem_map, Option.mem_toList]
    refine and_congr_left fun _ => ⟨fun h => ?_, fun h target htarget => by simp [h] at htarget⟩
    by_contra htarget
    obtain ⟨target, htarget⟩ := Option.ne_none_iff_exists'.1 htarget
    simpa using Way.isSome_condition?_of_closed (h target htarget)
  simp only [ways, conditionsFrom, List.forall_mem_flatMap, hedge, forall_and]

/-- Choosing comes to all ways before one to which it comes. -/
theorem tries_of_mem {before after : List Way} {way other : Way}
    (h : definition.ways source = before ++ way :: after)
    (hbefore : ∀ other ∈ before, other.isOpen vars = .ok false) (hother : other ∈ before) :
    definition.Tries source vars other := by
  obtain ⟨first, second, rfl⟩ := List.append_of_mem hother
  exact ⟨first, second ++ way :: after, by simpa using h,
    fun earlier hearlier => hbefore earlier (List.mem_append_left _ hearlier)⟩

/-- Nothing follows an unconditional way of a well-formed definition. -/
theorem pairwise_ways (h : definition.WellFormed) :
    (definition.ways source).Pairwise fun before _ => before.condition?.isSome := by
  have hconditional : ∀ edge : Edge, edge.target = none →
      ∀ way ∈ edge.ways, way.condition?.isSome := by
    intro edge htarget way hway
    simp only [Edge.ways, htarget, Option.toList_none, List.map_nil, List.nil_append] at hway
    obtain ⟨target, -, rfl⟩ := List.mem_map.1 hway
    rfl
  refine List.pairwise_flatMap.2 ⟨fun edge hedge => ?_, ?_⟩
  · -- An edge has one unconditional way, or conditional ones only.
    cases htarget : edge.target with
    | none =>
      exact List.pairwise_of_forall_mem_list fun way hway _ _ => hconditional edge htarget way hway
    | some target =>
      have hnone := (h.edges edge (List.mem_of_mem_filter hedge)).oneForm.1 (by simp [htarget])
      simp [Edge.ways, htarget, hnone]
  · refine (List.Pairwise.filter _ h.order).imp_of_mem ?_
    intro before after hbefore hafter horder way hway _ _
    refine hconditional before (horder ?_) way hway
    exact (of_decide_eq_true (List.mem_filter.1 hbefore).2).trans
      (of_decide_eq_true (List.mem_filter.1 hafter).2).symm

end Definition

/-! ## The walk over the routes -/

namespace Flow

variable {definition : Definition} {flow : Flow} {source : String} {vars : Lookup}
variable {way : Way} {route : Route} {tried : List String} {rest : List Route}

/-- The routes of a compiled flow are the ways of its definition, whose conditions all parse. -/
theorem routes_of_compile (h : compile definition = .ok flow) (source : String) :
    flow.routes source = (definition.ways source).filterMap Way.route? ∧
      ∀ way ∈ definition.ways source, way.route?.isSome := by
  obtain ⟨hcheck, rfl⟩ := compile_eq_ok_iff.1 h
  have hedges := (Definition.check_problems_eq_nil_iff.1 hcheck).edges_nodeNames
  constructor
  · rw [routes, Definition.from_table hedges, Definition.ways, List.filterMap_flatMap]
    exact congrArg (List.flatMap · _) (funext Edge.routes_eq)
  · intro way hway
    obtain ⟨edge, hedge, hway⟩ := List.mem_flatMap.1 hway
    exact Edge.isSome_route? (hedges edge (List.mem_of_mem_filter hedge)) way hway

/-- One step of the walk: a way is taken, fails, or is passed by. -/
theorem firstTarget_cons (h : way.route? = some route) :
    firstTarget source vars tried (route :: rest) =
      match way.isOpen vars with
      | .error error => .error error
      | .ok true => .ok way.target
      | .ok false => firstTarget source vars (way.condition?.toList ++ tried) rest := by
  obtain ⟨condition?, target⟩ := way
  cases condition? with
  | none =>
    obtain rfl : Route.always target = route := Option.some.inj h
    rfl
  | some text =>
    obtain ⟨condition, hcondition, rfl⟩ := Option.map_eq_some_iff.1 h
    have hparse : Condition.ofText text = .ok condition := by
      cases hof : Condition.ofText text <;> simp_all [Except.toOption]
    have hsource : condition.source = text := by
      unfold Condition.ofText at hparse
      split at hparse
      · exact (Except.ok.inj hparse) ▸ rfl
      · simp at hparse
    simp only [firstTarget, Way.isOpen, Condition.truth, hparse, bind, Except.bind, hsource]
    rfl

/-- The walk passes by closed ways and keeps the texts of their conditions. -/
theorem firstTarget_append {before : List Way} (hparse : ∀ way ∈ before, way.route?.isSome)
    (hclosed : ∀ way ∈ before, way.isOpen vars = .ok false) :
    firstTarget source vars tried (before.filterMap Way.route? ++ rest) =
      firstTarget source vars ((before.filterMap Way.condition?).reverse ++ tried) rest := by
  induction before generalizing tried with
  | nil => rfl
  | cons way before ih =>
    rw [List.forall_mem_cons] at hparse hclosed
    obtain ⟨route, hroute⟩ := Option.isSome_iff_exists.1 hparse.1
    obtain ⟨text, htext⟩ := Option.isSome_iff_exists.1 (Way.isSome_condition?_of_closed hclosed.1)
    rw [List.filterMap_cons_some hroute, List.filterMap_cons_some htext, List.cons_append,
      firstTarget_cons hroute, hclosed.1]
    simp only [ih hparse.2 hclosed.2, htext, Option.toList_some, List.reverse_cons,
      List.append_assoc]

/-- If all ways are closed, there is no matching edge, and the error has the texts of all their
conditions. -/
theorem selectRoute_of_closed (h : compile definition = .ok flow)
    (hclosed : ∀ way ∈ definition.ways source, way.isOpen vars = .ok false) :
    flow.selectRoute source vars =
      .error (.noMatchingEdge source (definition.conditionsFrom source)) := by
  obtain ⟨hroutes, hparse⟩ := routes_of_compile h source
  have hwalk :
      firstTarget source vars [] ((definition.ways source).filterMap Way.route? ++ []) =
        firstTarget source vars
          (((definition.ways source).filterMap Way.condition?).reverse ++ []) [] :=
    firstTarget_append hparse hclosed
  rw [List.append_nil, List.append_nil, ← hroutes, Definition.conditions_ways] at hwalk
  rw [selectRoute, hwalk, firstTarget, List.reverse_reverse]

/-- The first way that is not closed is taken, or the fault of its condition is the error. -/
theorem selectRoute_of_tries (h : compile definition = .ok flow)
    (htries : definition.Tries source vars way) (hway : way.isOpen vars ≠ .ok false) :
    flow.selectRoute source vars = (way.isOpen vars).map fun _ => way.target := by
  obtain ⟨before, after, hways, hbefore⟩ := htries
  obtain ⟨hroutes, hparse⟩ := routes_of_compile h source
  rw [hways, List.forall_mem_append, List.forall_mem_cons] at hparse
  obtain ⟨route, hroute⟩ := Option.isSome_iff_exists.1 hparse.2.1
  rw [selectRoute, hroutes, hways, List.filterMap_append, firstTarget_append hparse.1 hbefore,
    List.filterMap_cons_some hroute, firstTarget_cons hroute]
  cases hopen : way.isOpen vars with
  | error error => rfl
  | ok isOpen =>
    cases isOpen with
    | true => rfl
    | false => exact absurd hopen hway

/-- How the next node behind a source is chosen. -/
structure Chooses (flow : Flow) (definition : Definition) (source : String) (vars : Lookup) :
    Prop where
  /-- The target is that of a way that is tried and open. -/
  taken : ∀ target, flow.selectRoute source vars = .ok target ↔
    ∃ way, definition.Tries source vars way ∧ way.isOpen vars = .ok true ∧ way.target = target
  /-- A way that is tried and fails ends the choice with its error. -/
  failed : ∀ way error, definition.Tries source vars way → way.isOpen vars = .error error →
    flow.selectRoute source vars = .error error
  /-- No edge matches exactly if all edges are conditional and all conditions are false. The error
  lists the conditions. -/
  unmatched : ∀ name texts, flow.selectRoute source vars = .error (.noMatchingEdge name texts) ↔
    (∀ edge ∈ definition.edgesFrom source, edge.target = none) ∧
      (∀ text ∈ definition.conditionsFrom source, Condition.truth vars text = .ok false) ∧
      name = source ∧ texts = definition.conditionsFrom source
  /-- There are no other errors than those of ways that are tried. -/
  errors : ∀ error, flow.selectRoute source vars = .error error →
    (∃ name texts, error = .noMatchingEdge name texts) ∨
      ∃ way, definition.Tries source vars way ∧ way.isOpen vars = .error error
  /-- Ways that are not tried do not matter. -/
  untried : ∀ vars', (∀ way, definition.Tries source vars way →
      way.isOpen vars' = way.isOpen vars) →
    flow.selectRoute source vars' = flow.selectRoute source vars
  /-- Nothing follows an unconditional way. -/
  last : (definition.ways source).Pairwise fun before _ => before.condition?.isSome
  leads : ∀ target, flow.selectRoute source vars = .ok target →
    target = endName ∨ target ∈ flow.nodes.map Node.name

section

variable (h : compile definition = .ok flow)
include h

/-- A target is chosen exactly if choosing comes to an open way that leads there. -/
theorem selectRoute_eq_ok_iff (target : String) : flow.selectRoute source vars = .ok target ↔
    ∃ way, definition.Tries source vars way ∧ way.isOpen vars = .ok true ∧ way.target = target := by
  constructor
  · intro htarget
    rcases definition.closed_or_tries with hclosed | ⟨way, htries, hway⟩
    · rw [selectRoute_of_closed h hclosed] at htarget
      simp at htarget
    · rw [selectRoute_of_tries h htries hway] at htarget
      obtain ⟨isOpen, hopen, rfl⟩ := exists_of_map_eq_ok htarget
      cases isOpen with
      | true => exact ⟨way, htries, hopen, rfl⟩
      | false => exact absurd hopen hway
  · rintro ⟨way, htries, hopen, rfl⟩
    rw [selectRoute_of_tries h htries (by simp [hopen]), hopen]
    rfl

/-- An error is that of a way, or there is no matching edge. -/
theorem selectRoute_eq_error {error : Error}
    (herror : flow.selectRoute source vars = .error error) :
    (∀ way ∈ definition.ways source, way.isOpen vars = .ok false) ∧
        error = .noMatchingEdge source (definition.conditionsFrom source) ∨
      ∃ way, definition.Tries source vars way ∧ way.isOpen vars = .error error := by
  rcases definition.closed_or_tries with hclosed | ⟨way, htries, hway⟩
  · rw [selectRoute_of_closed h hclosed] at herror
    exact .inl ⟨hclosed, (Except.error.inj herror).symm⟩
  · rw [selectRoute_of_tries h htries hway] at herror
    exact .inr ⟨way, htries, eq_error_of_map_eq_error herror⟩

/-- There is no matching edge exactly if all edges are conditional and all their conditions are
false. -/
theorem selectRoute_eq_noMatchingEdge_iff (name : String) (texts : List String) :
    flow.selectRoute source vars = .error (.noMatchingEdge name texts) ↔
      (∀ edge ∈ definition.edgesFrom source, edge.target = none) ∧
        (∀ text ∈ definition.conditionsFrom source, Condition.truth vars text = .ok false) ∧
        name = source ∧ texts = definition.conditionsFrom source := by
  constructor
  · intro herror
    rcases selectRoute_eq_error h herror with ⟨hclosed, hlist⟩ | ⟨way, -, hway⟩
    · obtain ⟨rfl, rfl⟩ := Error.noMatchingEdge.inj hlist
      obtain ⟨hnone, hfalse⟩ := Definition.closed_iff.1 hclosed
      exact ⟨hnone, hfalse, rfl, rfl⟩
    · exact absurd hway (Way.isOpen_ne_noMatchingEdge name texts)
  · rintro ⟨hnone, hfalse, rfl, rfl⟩
    exact selectRoute_of_closed h (Definition.closed_iff.2 ⟨hnone, hfalse⟩)

/-- Variables under which the ways that are tried come out the same lead to the same choice. -/
theorem selectRoute_congr {vars' : Lookup}
    (hsame : ∀ way, definition.Tries source vars way → way.isOpen vars' = way.isOpen vars) :
    flow.selectRoute source vars' = flow.selectRoute source vars := by
  rcases definition.closed_or_tries with hclosed | ⟨way, htries, hway⟩
  · have hclosed' : ∀ way ∈ definition.ways source, way.isOpen vars' = .ok false := by
      intro way hmem
      obtain ⟨before, after, hways⟩ := List.append_of_mem hmem
      have hbefore : ∀ other ∈ before, other.isOpen vars = .ok false := fun other hother =>
        hclosed other (hways ▸ List.mem_append_left _ hother)
      rw [hsame way ⟨before, after, hways, hbefore⟩, hclosed way hmem]
    rw [selectRoute_of_closed h hclosed, selectRoute_of_closed h hclosed']
  · obtain ⟨before, after, hways, hbefore⟩ := id htries
    have htries' : definition.Tries source vars' way :=
      ⟨before, after, hways, fun other hother =>
        (hsame other (Definition.tries_of_mem hways hbefore hother)).trans (hbefore other hother)⟩
    have hway' := hsame way htries
    rw [selectRoute_of_tries h htries hway, selectRoute_of_tries h htries' (hway' ▸ hway), hway']

/-- A choice leads to the end or to a node. -/
theorem leads_of_selectRoute {target : String}
    (htarget : flow.selectRoute source vars = .ok target) :
    target = endName ∨ target ∈ flow.nodes.map Node.name := by
  obtain ⟨way, ⟨before, after, hways, -⟩, -, rfl⟩ := (selectRoute_eq_ok_iff h target).1 htarget
  obtain ⟨hroutes, hparse⟩ := routes_of_compile h source
  have hmem : way ∈ definition.ways source := by simp [hways]
  obtain ⟨route, hroute⟩ := Option.isSome_iff_exists.1 (hparse way hmem)
  have hmemRoute : route ∈ flow.routes source :=
    hroutes ▸ List.mem_filterMap.2 ⟨way, hmem, hroute⟩
  exact (sound_of_compile h).targets source _ ⟨route, hmemRoute, Way.target_of_route? hroute⟩

/-- The next node behind a source of a compiled flow is chosen in the order of the declaration,
whatever the variables are. -/
theorem chooses (source : String) (vars : Lookup) : flow.Chooses definition source vars where
  taken := selectRoute_eq_ok_iff h
  failed way error htries hway := by
    rw [selectRoute_of_tries h htries (by simp [hway]), hway]
    rfl
  unmatched := selectRoute_eq_noMatchingEdge_iff h
  errors error herror := (selectRoute_eq_error h herror).imp_left fun hlist => ⟨_, _, hlist.2⟩
  untried _ := selectRoute_congr h
  last := Definition.pairwise_ways
    (Definition.check_problems_eq_nil_iff.1 (compile_eq_ok_iff.1 h).1)
  leads _ := leads_of_selectRoute h

end

end Flow

/-! ## A sample

The start has two edges, and an edge of another source stands between them. -/

namespace Sample.Branching

/-- The first node, which does nothing. -/
def first : Node := { name := "X", kind := .output [] }

/-- The second node, which does nothing. -/
def second : Node := { name := "Y", kind := .output [] }

/-- A flow that branches at its start, with a condition on a variable before one that is always
true. -/
def definition : Definition where
  nodes := [first, second]
  edges := [(Edge.branch startName).when "done" "X", .always "X" endName,
    (Edge.branch startName).when "true" "Y", .always "Y" endName]

/-- The condition on a variable. -/
def done : Condition := ⟨"done", .path "done" []⟩

/-- What the definition is compiled to. -/
def flow : Flow := ⟨"", [first, second], [
  ("START", [.when done "X", .when ⟨"true", .literal (.bool true)⟩ "Y"]),
  ("X", [.always endName]), ("Y", [.always endName])]⟩

/-- Variables under which the first condition is false. -/
def undone : Lookup := fun name => [("done", Value.bool false)].lookup name

/-- The second way is taken if the first condition is false; if that has no value, the second way
is not come to, although it is open. -/
theorem chooses_branching : Flow.compile definition = .ok flow ∧
    flow.selectRoute startName undone = .ok "Y" ∧
    flow.selectRoute startName (fun _ => none) = .error (.unknownVariable "done") := by
  have hcompile : Flow.compile definition = .ok flow := rfl
  refine ⟨hcompile, ?_, ?_⟩
  · have hbefore : ∀ way ∈ [(⟨some "done", "X"⟩ : Way)],
        way.isOpen undone = .ok false := List.forall_mem_singleton.2 rfl
    exact ((Flow.chooses hcompile startName _).taken "Y").2
      ⟨⟨some "true", "Y"⟩, ⟨[⟨some "done", "X"⟩], [], rfl, hbefore⟩, rfl, rfl⟩
  · exact (Flow.chooses hcompile startName _).failed ⟨some "done", "X"⟩ _
      ⟨[], [⟨some "true", "Y"⟩], rfl, List.forall_mem_nil _⟩ rfl

end Sample.Branching

end AgentFlow
