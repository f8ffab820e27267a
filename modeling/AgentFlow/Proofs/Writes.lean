import Mathlib.Data.List.Forall2
import Mathlib.Tactic.SplitIfs
import AgentFlow.Proofs.Results
import AgentFlow.Run.Runner

/-!
# What nodes write

The names that a node writes can be read off from its definition (`Node.writes`): what it is asked
for, what the model answers and what its tools return decide about values only. The reason is that
every value comes with the name of a declared field, in the order of the declarations, or not at
all; one lemma for each function that reads values says so, up to the answers of a model, whose
fields are partly filled by tools.

`StepEnd.Fits` sums up how the execution of a node may stop. The results that do are established
where executions are followed effect by effect.
-/

namespace AgentFlow

/-- The names that a node writes when it is done. -/
def Node.writes (node : Node) : List String :=
  match node.forEach with
  | some each => [each.output]
  | none =>
    match node.kind with
    | .output _ => []
    | .update step =>
      match step.action with
      | none => step.values.map Prod.fst
      | some _ => node.output.map OutputField.name
    | _ => node.output.map OutputField.name

/-- A result that writes what the node writes. -/
structure Node.Yields (node : Node) (state : Store) (result : NodeResult) : Prop where
  names : result.fields.map Prod.fst = node.writes
  /-- Simultaneous assignments are filled in from one and the same state. -/
  assigned : node.forEach = none → ∀ step, node.kind = .update step → step.action = none →
    Template.interpolateFields state.get? step.values = .ok result.fields

/-- A node that can wait for a value. -/
def Node.AsksInput (node : Node) : Prop := node.forEach = none ∧ ∃ step, node.kind = .input step

/-- A node that can wait for approval. -/
def Node.AsksApproval (node : Node) : Prop :=
  node.forEach = none ∧ ∃ step, node.kind = .model step

/-- How the execution of a node in a state may stop. -/
def StepEnd.Fits (node : Node) (state : Store) : StepEnd → Prop
  | .complete result => node.Yields state result
  | .awaitInput _ => node.AsksInput
  | .awaitApproval _ _ => node.AsksApproval

/-! ## Declared fields -/

section Declared

variable {field : OutputField} {fields : List OutputField} {values : List (String × Value)}

/-- A value that is given to a field comes under the name of the field. -/
theorem OutputField.fst_of_assign {value : Value} {entry : String × Value}
    (h : field.assign value = .ok entry) : entry.1 = field.name := by
  unfold assign at h
  split at h
  · obtain rfl := Except.ok.inj h
    rfl
  · cases h

/-- The values of a map that are given to fields come under the names of the fields, in order. -/
theorem map_fst_assignFields {map : List (String × Value)}
    (h : assignFields map fields = .ok values) :
    values.map Prod.fst = fields.map OutputField.name := by
  induction fields generalizing values with
  | nil =>
    obtain rfl := Except.ok.inj h
    rfl
  | cons field rest ih =>
    rw [assignFields] at h
    split at h
    · cases h
    · obtain ⟨first, hfirst, h⟩ := exists_of_bind_eq_ok h
      obtain ⟨others, hothers, h⟩ := exists_of_bind_eq_ok h
      obtain rfl := Except.ok.inj h
      rw [List.map_cons, List.map_cons, OutputField.fst_of_assign hfirst, ih hothers]

/-- A value that is distributed over the declared fields gives a value to each. -/
theorem Node.map_fst_assign {node : Node} {value : Value} (h : node.assign value = .ok values) :
    values.map Prod.fst = node.output.map OutputField.name := by
  unfold assign at h
  split at h
  · rename_i hnone
    obtain rfl := Except.ok.inj h
    rw [hnone]
    rfl
  · rename_i field hone
    cases hfield : field.assign value with
    | error error =>
      rw [hfield] at h
      cases h
    | ok entry =>
      rw [hfield] at h
      obtain rfl := Except.ok.inj h
      rw [hone, List.map_singleton, List.map_singleton, OutputField.fst_of_assign hfield]
  · split at h
    · exact map_fst_assignFields h
    · cases h

/-- A value that an input node accepts gives a value to each of its fields. -/
theorem Node.map_fst_acceptInput {node : Node} {request : InputRequest} {value : Value}
    {result : NodeResult} (h : node.acceptInput request value = .ok result) :
    result.fields.map Prod.fst = node.output.map OutputField.name := by
  unfold acceptInput at h
  dsimp only at h
  split_ifs at h
  cases hassign : node.assign value with
  | error error =>
    rw [hassign] at h
    cases h
  | ok values =>
    rw [hassign] at h
    obtain rfl := Except.ok.inj h
    exact Node.map_fst_assign hassign

/-- The result of a tool gives a value to each field of its node. -/
theorem Node.map_fst_assignResult {node : Node} {tool : String} {schema : Option Value}
    {answer : ToolResult} {result : NodeResult}
    (h : node.assignResult tool schema answer = .ok result) :
    result.fields.map Prod.fst = node.output.map OutputField.name := by
  unfold assignResult at h
  split at h
  · cases h
  · obtain ⟨value, -, h⟩ := exists_of_bind_eq_ok h
    obtain ⟨values, hvalues, h⟩ := exists_of_bind_eq_ok h
    obtain rfl := Except.ok.inj h
    exact Node.map_fst_assign hvalues

end Declared

/-! ## Answers of models -/

namespace Answer

variable {field : OutputField} {fields : List OutputField} {values : List (String × Value)}

/-- A value of an answer comes under the name of its field. -/
theorem fst_of_assign {value : Value} {entry : String × Value}
    (h : assign field value = .ok entry) : entry.1 = field.name := by
  unfold assign at h
  split at h
  · obtain rfl := Except.ok.inj h
    rfl
  · cases h

/-- The values of an answer come under the names of the fields, in order. -/
theorem map_fst_assignAll {object : List (String × Value)}
    (h : assignAll object fields = .ok values) :
    values.map Prod.fst = fields.map OutputField.name := by
  induction fields generalizing values with
  | nil =>
    obtain rfl := Except.ok.inj h
    rfl
  | cons field rest ih =>
    rw [assignAll] at h
    split at h
    · cases h
    · obtain ⟨first, hfirst, h⟩ := exists_of_bind_eq_ok h
      obtain ⟨others, hothers, h⟩ := exists_of_bind_eq_ok h
      obtain rfl := Except.ok.inj h
      rw [List.map_cons, List.map_cons, fst_of_assign hfirst, ih hothers]

/-- An answer that is of use has a value for every field that is expected in it. -/
theorem map_fst_distribute {text : List Char} {value : Option Value}
    (h : distribute text value fields = .ok values) :
    values.map Prod.fst = fields.map OutputField.name := by
  unfold distribute at h
  split at h
  · split at h
    · split_ifs at h
      · exact map_fst_assignAll h
      · obtain rfl := Except.ok.inj h
        rfl
    · exact map_fst_assignAll h
  · rename_i field _
    split_ifs at h
    · obtain rfl := Except.ok.inj h
      rfl
    · split at h
      · rename_i value _
        cases hfield : assign field value with
        | error fault =>
          rw [hfield] at h
          cases h
        | ok entry =>
          rw [hfield] at h
          obtain rfl := Except.ok.inj h
          rw [List.map_singleton, List.map_singleton, fst_of_assign hfield]
      · cases h
  · cases h
  · cases h

/-- Choosing a value for each field gives values under the names of the fields. -/
theorem map_fst_filterMap {choose : OutputField → Option Value}
    (h : ∀ field ∈ fields, (choose field).isSome) :
    (fields.filterMap fun field => (choose field).map (field.name, ·)).map Prod.fst =
      fields.map OutputField.name := by
  induction fields with
  | nil => rfl
  | cons field rest ih =>
    rw [List.forall_mem_cons] at h
    obtain ⟨value, hvalue⟩ := Option.isSome_iff_exists.1 h.1
    simp only [List.filterMap_cons, hvalue, Option.map_some, List.map_cons, ih h.2]

/-- A list has an entry under each of its names, also from behind. -/
theorem isSome_lookup_reverse {name : String} (h : name ∈ values.map Prod.fst) :
    (values.reverse.lookup name).isSome := by
  obtain ⟨entry, hentry, rfl⟩ := List.mem_map.1 h
  exact List.lookup_isSome_iff.2 ⟨entry, List.mem_reverse.2 hentry, beq_self_eq_true _⟩

/-- What an answer says about the fields that are expected in it, if any are. -/
def readExpected (expected : List OutputField) (text : String) :
    Except Fault (List (String × Value)) :=
  if expected.isEmpty then .ok []
  else distribute (stripFences text.toList) (extractJson? (stripFences text.toList)) expected

/-- What is read has a value for every field that is expected. -/
theorem map_fst_readExpected {text : String} (h : readExpected fields text = .ok values) :
    values.map Prod.fst = fields.map OutputField.name := by
  unfold readExpected at h
  split_ifs at h with hnone
  · rw [List.isEmpty_iff.1 hnone, ← Except.ok.inj h]
    rfl
  · exact map_fst_distribute h

/-- An answer is read for the fields that were not filled before, which have their values. -/
theorem parse_eq_map (text : String) (captured : List (String × Value)) :
    parse fields text captured =
      (readExpected (fields.filter fun f => !Fields.has f.name captured) text).map
        fun answered => fields.filterMap fun f =>
          ((captured.lookup f.name).or (answered.reverse.lookup f.name)).map (f.name, ·) := by
  unfold parse readExpected
  dsimp only
  split_ifs <;> rfl

/-- What an answer is read as: the values from before, and for the other fields what it says. -/
theorem exists_of_parse_eq_ok {text : String} {captured : List (String × Value)}
    (h : parse fields text captured = .ok values) :
    ∃ answered : List (String × Value),
      answered.map Prod.fst =
        (fields.filter fun f => !Fields.has f.name captured).map OutputField.name ∧
      (fields.filterMap fun f =>
        ((captured.lookup f.name).or (answered.reverse.lookup f.name)).map (f.name, ·)) =
          values := by
  rw [parse_eq_map] at h
  obtain ⟨answered, hanswered, hvalues⟩ := exists_of_map_eq_ok h
  exact ⟨answered, map_fst_readExpected hanswered, hvalues⟩

/-- An answer that is read has a value for every declared field: what no tool has filled is expected
in it. -/
theorem map_fst_parse {text : String} {captured : List (String × Value)}
    (h : parse fields text captured = .ok values) :
    values.map Prod.fst = fields.map OutputField.name := by
  obtain ⟨answered, hnames, rfl⟩ := exists_of_parse_eq_ok h
  refine map_fst_filterMap fun field hfield => ?_
  rw [Option.isSome_or, Bool.or_eq_true, or_iff_not_imp_left]
  intro hmissing
  have hexpected : field ∈ fields.filter fun f => !Fields.has f.name captured := by
    refine List.mem_filter.2 ⟨hfield, ?_⟩
    rw [Fields.has, Bool.not_eq_true', Bool.eq_false_iff]
    exact hmissing
  exact isSome_lookup_reverse (hnames ▸ List.mem_map_of_mem hexpected)

end Answer

/-- A conversation that is complete has every declared field filled. -/
theorem Talk.has_of_isComplete {talk : Talk} {node : Node} {step : ModelStep}
    (h : talk.isComplete node step) :
    ∀ field ∈ node.output, Fields.has field.name talk.captured = true := by
  unfold isComplete at h
  simp only [Bool.and_eq_true, List.all_eq_true] at h
  exact h.2

/-- Once tools have filled all declared fields, nothing is read, so that nothing can be wrong. -/
theorem Talk.exists_parse_of_isComplete {talk : Talk} {node : Node} {step : ModelStep}
    (h : talk.isComplete node step) :
    ∃ values, Answer.parse node.output "" talk.captured = .ok values := by
  have hnone : (node.output.filter fun field => !Fields.has field.name talk.captured) = [] :=
    List.filter_eq_nil_iff.2 fun field hfield => by simp [has_of_isComplete h field hfield]
  unfold Answer.parse
  rw [hnone]
  exact ⟨_, rfl⟩

/-- Once tools have filled all declared fields, there is nothing left to be answered. -/
theorem Talk.map_fst_captured {talk : Talk} {node : Node} {step : ModelStep}
    (h : talk.isComplete node step) :
    ((Answer.parse node.output "" talk.captured).toOption.getD []).map Prod.fst =
      node.output.map OutputField.name := by
  obtain ⟨values, hparse⟩ := exists_parse_of_isComplete h
  rw [hparse]
  exact Answer.map_fst_parse hparse

/-! ## Update nodes and output nodes -/

/-- Filling in the fields of a map leaves their names alone. -/
theorem Template.forall₂_interpolateFields {vars : Lookup} {fields values : List (String × Value)}
    (h : interpolateFields vars fields = .ok values) :
    List.Forall₂ (fun field value => value.1 = field.1 ∧
      interpolateValue vars field.2 = .ok value.2) fields values := by
  induction fields generalizing values with
  | nil =>
    rw [interpolateFields] at h
    obtain rfl := Except.ok.inj h
    exact .nil
  | cons field rest ih =>
    obtain ⟨name, item⟩ := field
    rw [interpolateFields] at h
    obtain ⟨value, hvalue, h⟩ := exists_of_bind_eq_ok h
    obtain ⟨values, hvalues, h⟩ := exists_of_bind_eq_ok h
    obtain rfl := Except.ok.inj h
    exact .cons ⟨rfl, hvalue⟩ (ih hvalues)

/-- A map that is filled in keeps its names, in order. -/
theorem Template.map_fst_interpolateFields {vars : Lookup}
    {fields values : List (String × Value)} (h : interpolateFields vars fields = .ok values) :
    values.map Prod.fst = fields.map Prod.fst := by
  refine List.forall₂_eq_eq_eq ▸ List.forall₂_map_left_iff.2 (List.forall₂_map_right_iff.2 ?_)
  exact (forall₂_interpolateFields h).flip.imp fun _ _ hfield => hfield.1

/-- An update node writes its assignments or its one target. -/
theorem UpdateStep.yields_run {node : Node} {step : UpdateStep} {state : Store}
    {result : NodeResult} (heach : node.forEach = none) (hkind : node.kind = .update step)
    (h : step.run node state = .ok result) : node.Yields state result := by
  unfold run at h
  cases haction : step.action with
  | none =>
    rw [haction] at h
    obtain ⟨values, hvalues, h⟩ := exists_of_bind_eq_ok h
    obtain rfl := Except.ok.inj h
    refine ⟨?_, fun _ step' hkind' _ => ?_⟩
    · simp only [Node.writes, heach, hkind, haction]
      exact Template.map_fst_interpolateFields hvalues
    · obtain rfl : step = step' := NodeKind.update.inj (hkind.symm.trans hkind')
      exact hvalues
  | some action =>
    rw [haction] at h
    dsimp only at h
    split at h
    · rename_i field hone
      obtain ⟨value, -, h⟩ := exists_of_bind_eq_ok h
      obtain rfl := Except.ok.inj h
      refine ⟨?_, fun _ step' hkind' hnone => ?_⟩
      · simp [Node.writes, heach, hkind, haction, hone]
      · obtain rfl : step = step' := NodeKind.update.inj (hkind.symm.trans hkind')
        rw [haction] at hnone
        cases hnone
    · cases h

/-- An output node writes nothing. -/
theorem fields_runOutput {templates : List String} {vars : Lookup} {result : NodeResult}
    (h : runOutput templates vars = .ok result) : result.fields = [] := by
  unfold runOutput at h
  obtain ⟨lines, -, h⟩ := exists_of_bind_eq_ok h
  obtain rfl := Except.ok.inj h
  rfl

namespace Node

/-- A node that is no update node yields whatever has the names that it writes. -/
theorem yields_of_map_fst {node : Node} {result : NodeResult} (state : Store)
    (hkind : ∀ step, node.kind ≠ .update step) (hnames : result.fields.map Prod.fst = node.writes) :
    node.Yields state result :=
  ⟨hnames, fun _ step hupdate => absurd hupdate (hkind step)⟩

/-- A value that an input node accepts is what it writes. -/
theorem AsksInput.yields {node : Node} (hasks : node.AsksInput) (state : Store)
    {request : InputRequest} {value : Value} {result : NodeResult}
    (h : node.acceptInput request value = .ok result) : node.Yields state result := by
  obtain ⟨heach, step, hkind⟩ := hasks
  refine yields_of_map_fst state (fun _ hupdate => by simp [hkind] at hupdate) ?_
  simp only [writes, heach, hkind]
  exact map_fst_acceptInput h

end Node

end AgentFlow
