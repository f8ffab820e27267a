import Mathlib.Data.List.Basic
import Mathlib.Tactic.SplitIfs
import AgentFlow.Flow.Compile

/-!
# Definitions as documents

Writing a definition as a document and reading it back gives the definition again, with one
exception: a document has no place for a literal operand that is null, since null is how it says
that there is none (`Definition.ofValue?_toValue`).

A reader `Reads` what a writer writes; that is shown once for each type of field, and for lists and
optional fields of such types. A record is read back because its fields are: a look-up finds each of
them, whatever stands next to it (`Fields.lookup_ofList`), so that the fields of a node's kind and
those of the node do not get in each other's way.
-/

namespace AgentFlow

namespace Record

variable {α : Type} {read : Value → Option α} {write : α → Value} {name : String} {a : α}
  {fields : List (String × Value)}

/-- A reader that reads what a writer writes. -/
def Reads (read : Value → Option α) (write : α → Value) : Prop := ∀ a, read (write a) = some a

/-- Texts are read back. -/
theorem reads_text : Reads text .string := fun _ => rfl

/-- Truth values are read back. -/
theorem reads_boolean : Reads boolean .bool := fun _ => rfl

/-- Maps of any values are read back. -/
theorem reads_anyMap : Reads anyMap .map := fun _ => rfl

/-- Words are read back. -/
theorem reads_word : Reads word ofWord := by
  intro n
  have hrange : inNat64 n.toNat = true := by
    have := n.toNat_lt
    simp only [inNat64, Bool.and_eq_true, decide_eq_true_eq]
    omega
  simp [word, natural, ofWord, Number.toNat64?, hrange]

/-- A list is read back item by item, each as it is read. -/
theorem listOf_map {f : α → α} (h : ∀ a, read (write a) = some (f a)) (items : List α) :
    listOf read (.list (items.map write)) = some (items.map f) := by
  simp only [listOf, List.mapM_map]
  induction items with
  | nil => rfl
  | cons item rest ih => simp [List.mapM_cons, h item, ih]

/-- Lists are read back if their items are. -/
theorem Reads.listOf (h : Reads read write) :
    Reads (listOf read) fun items => .list (items.map write) :=
  fun items => (listOf_map h items).trans (congrArg some (List.map_id items))

/-- Maps of texts are read back. -/
theorem reads_mapOf_text : Reads (mapOf text) fun entries =>
    .map (entries.map fun (name, entry) => (name, .string entry)) := by
  intro entries
  simp only [mapOf, List.mapM_map]
  induction entries with
  | nil => rfl
  | cons entry rest ih =>
    rw [List.mapM_cons, ih]
    rfl

/-! ## Fields of a record -/

/-- A required field is read back. -/
theorem required_eq (h : Reads read write) (hname : fields.lookup name = some (write a)) :
    required name read fields = some a := by
  rw [required, hname]
  exact h a

/-- A field that has a default is read back if it is written. -/
theorem withDefault_eq {default : α} (h : Reads read write)
    (hname : fields.lookup name = some (write a)) :
    withDefault name default read fields = some a := by
  rw [withDefault, hname]
  exact h a

/-- A text is not null. -/
theorem string_ne_null (text : String) : Value.string text ≠ .null := nofun

/-- A word is not null. -/
theorem ofWord_ne_null (n : UInt64) : ofWord n ≠ .null := nofun

/-- A map is not null. -/
theorem ofFields_ne_null (fields : List (String × Value)) : ofFields fields ≠ .null := nofun

/-- An optional field is read back if nothing that is written is null. -/
theorem optional_eq (h : Reads read write) (hnull : ∀ a, write a ≠ .null) {a : Option α}
    (hname : fields.lookup name = some (orNull write a)) : optional name read fields = some a := by
  rw [optional, hname]
  cases a with
  | none => rfl
  | some a =>
    -- Null would be taken for an absent field.
    cases hwritten : write a with
    | null => exact absurd hwritten (hnull a)
    | _ =>
      have hread := h a
      rw [hwritten] at hread
      simp [orNull, hwritten, hread]

end Record

open Record

/-! ## Output fields -/

/-- The kind of a field is read back from its name. -/
theorem FieldKind.reads_name : Reads FieldKind.ofValue? fun kind => .string kind.name := by
  rintro (_ | _) <;> rfl

/-- Output fields are read back, with or without the parts that have defaults. -/
theorem OutputField.reads_toValue : Reads OutputField.ofValue? OutputField.toValue := by
  intro field
  unfold ofValue? toValue ofFields
  have hname := Fields.lookup_ofList [("name", Value.string field.name),
    ("type", .string field.kind.name), ("description", orNull .string field.description),
    ("user_message", .bool field.userMessage)]
  simp only [Record.ofValue?, Option.bind_eq_bind, Option.bind_some]
  rw [required_eq reads_text (hname _), withDefault_eq FieldKind.reads_name (hname _),
    optional_eq reads_text string_ne_null (hname _), withDefault_eq reads_boolean (hname _)]
  rfl

/-- The description of a fan-out is read back. -/
theorem ForEach.reads_toValue : Reads ForEach.ofValue? ForEach.toValue := by
  intro each
  unfold ofValue? toValue ofFields
  have hname := Fields.lookup_ofList [("items", Value.string each.items),
    ("as", .string each.itemName), ("output", .string each.output),
    ("max_workers", orNull ofWord each.maxWorkers)]
  simp only [Record.ofValue?, Option.bind_eq_bind, Option.bind_some]
  rw [required_eq reads_text (hname _), withDefault_eq reads_text (hname _),
    required_eq reads_text (hname _), optional_eq reads_word ofWord_ne_null (hname _)]
  rfl

/-! ## Kinds of nodes -/

/-- The options of a question to the caller are read back, whether listed or named. -/
theorem InputOptions.reads_toValue : Reads InputOptions.ofValue? InputOptions.toValue := by
  rintro (_ | _) <;> rfl

/-- The options of a question to the caller are never written as null. -/
theorem InputOptions.toValue_ne_null (options : InputOptions) : options.toValue ≠ .null := by
  cases options <;> exact nofun

/-- The action of an update is read back from its name. -/
theorem UpdateAction.reads_name : Reads (oneOfOrEmpty NodeKind.actions) fun action =>
    .string action.name := by
  rintro (_ | _) <;> rfl

/-- An update node without a literal operand that is null. -/
def UpdateStep.withoutNull (step : UpdateStep) : UpdateStep :=
  { step with value := step.value.filter (· ≠ .null) }

/-- A kind of node without a literal operand that is null. -/
def NodeKind.withoutNull : NodeKind → NodeKind
  | .update step => .update step.withoutNull
  | kind => kind

/-- A literal operand is read back unless it is null. -/
theorem UpdateStep.optional_value {fields : List (String × Value)} {value : Option Value}
    (hname : fields.lookup "value" = some (orNull id value)) :
    Record.optional "value" some fields = some (value.filter (· ≠ .null)) := by
  rw [Record.optional, hname]
  rcases value with _ | _ | _ <;> rfl

/-- A kind is read back from any fields that it is written to. -/
theorem NodeKind.ofFields?_toFields {kind : NodeKind} {fields : List (String × Value)}
    (h : ∀ entry ∈ kind.toFields, fields.lookup entry.1 = some entry.2) :
    ofFields? fields = some kind.withoutNull := by
  -- The label decides which reader is tried, and each reader asks for its own fields only.
  have hkind : required "type" labelOf? fields = some kind.label := by
    rw [required, h ("type", .string kind.label) List.mem_cons_self]
    rfl
  unfold ofFields?
  rw [hkind]
  cases kind with
  | input step =>
    simp only [toFields, List.forall_mem_cons] at h
    obtain ⟨-, hprompt, hoptions, -⟩ := h
    simp only [label, Option.bind_eq_bind, Option.bind_some, inputOfFields?]
    rw [required_eq reads_text hprompt,
      optional_eq InputOptions.reads_toValue InputOptions.toValue_ne_null hoptions]
    rfl
  | model step =>
    simp only [toFields, List.forall_mem_cons] at h
    obtain ⟨-, hsystem, hprompt, htools, happroval, hraw, hsteps, -⟩ := h
    simp only [label, Option.bind_eq_bind, Option.bind_some, modelOfFields?]
    rw [optional_eq reads_text string_ne_null hsystem, required_eq reads_text hprompt,
      withDefault_eq reads_text.listOf htools, withDefault_eq reads_boolean happroval,
      withDefault_eq reads_mapOf_text hraw, optional_eq reads_word ofWord_ne_null hsteps]
    rfl
  | tool step =>
    simp only [toFields, List.forall_mem_cons] at h
    obtain ⟨-, htool, hargs, -⟩ := h
    simp only [label, Option.bind_eq_bind, Option.bind_some, toolOfFields?]
    rw [required_eq reads_text htool, withDefault_eq reads_anyMap hargs]
    rfl
  | output lines =>
    simp only [toFields, List.forall_mem_cons] at h
    obtain ⟨-, hlines, -⟩ := h
    simp only [label, Option.bind_eq_bind, Option.bind_some]
    rw [withDefault_eq reads_text.listOf hlines]
    rfl
  | update step =>
    simp only [toFields, List.forall_mem_cons] at h
    obtain ⟨-, haction, hvalues, hsource, hvalue, -⟩ := h
    simp only [label, Option.bind_eq_bind, Option.bind_some, updateOfFields?]
    rw [optional_eq UpdateAction.reads_name (fun _ => string_ne_null _) haction,
      withDefault_eq reads_anyMap hvalues, optional_eq reads_text string_ne_null hsource,
      UpdateStep.optional_value hvalue]
    rfl

/-! ## Nodes and edges -/

/-- A node without a literal operand that is null. -/
def Node.withoutNull (node : Node) : Node := { node with kind := node.kind.withoutNull }

/-- The fields that every node has. -/
def Node.ownFields (node : Node) : List (String × Value) := [
  ("name", .string node.name),
  ("output", .list (node.output.map OutputField.toValue)),
  ("limit", orNull ofWord node.limit),
  ("limit_counter_field", orNull .string node.limitCounter),
  ("foreach", orNull ForEach.toValue node.forEach)]

/-- No kind has a field of the name of one that every node has. -/
theorem Node.nodup_names (node : Node) :
    ((node.kind.toFields ++ node.ownFields).map Prod.fst).Nodup := by
  cases hkind : node.kind <;> simp [NodeKind.toFields, ownFields]

/-- A node is read back, without a literal operand that is null. -/
theorem Node.ofValue?_toValue (node : Node) : ofValue? node.toValue = some node.withoutNull := by
  show ofValue? (.map (Fields.ofList (node.kind.toFields ++ node.ownFields))) = _
  have hkind : ∀ entry ∈ node.kind.toFields,
      (Fields.ofList (node.kind.toFields ++ node.ownFields)).lookup entry.1 = some entry.2 :=
    fun entry hentry => Fields.lookup_ofList_of_mem node.nodup_names (List.mem_append_left _ hentry)
  have hown : ∀ entry ∈ node.ownFields,
      (Fields.ofList (node.kind.toFields ++ node.ownFields)).lookup entry.1 = some entry.2 :=
    fun entry hentry =>
      Fields.lookup_ofList_of_mem node.nodup_names (List.mem_append_right _ hentry)
  -- From here on, only what is looked up in the fields matters, not how they were put together.
  generalize Fields.ofList (node.kind.toFields ++ node.ownFields) = fields at *
  simp only [ownFields, List.forall_mem_cons] at hown
  obtain ⟨hname, houtput, hlimit, hcounter, heach, -⟩ := hown
  unfold ofValue?
  simp only [Option.bind_eq_bind]
  rw [required_eq reads_text hname, NodeKind.ofFields?_toFields hkind,
    withDefault_eq OutputField.reads_toValue.listOf houtput,
    optional_eq reads_word ofWord_ne_null hlimit,
    optional_eq reads_text string_ne_null hcounter,
    optional_eq ForEach.reads_toValue (fun _ => ofFields_ne_null _) heach]
  rfl

/-- The targets of conditional edges are read back. -/
theorem ConditionalTarget.reads_toValue :
    Reads ConditionalTarget.ofValue? ConditionalTarget.toValue := by
  intro target
  unfold ofValue? toValue ofFields
  have hname := Fields.lookup_ofList
    [("condition", Value.string target.condition), ("to", .string target.node)]
  simp only [Record.ofValue?, Option.bind_eq_bind, Option.bind_some]
  rw [required_eq reads_text (hname _), required_eq reads_text (hname _)]
  rfl

/-- The parts that an edge leaves out are read as absent. -/
theorem Edge.reads_toValue : Reads Edge.ofValue? Edge.toValue := by
  rintro ⟨source, target, conditions⟩
  have hconditions := ConditionalTarget.reads_toValue.listOf conditions
  unfold ofValue? toValue ofFields
  simp only [Record.ofValue?, Option.bind_eq_bind, Option.bind_some, required, Record.optional,
    withDefault, Fields.lookup_ofList]
  -- An edge without conditions has no field for them, and one without target none for it.
  cases target <;> cases conditions <;>
    simp [List.lookup_cons, text]
  all_goals exact congrArg (Option.bind · _) hconditions

/-! ## Definitions -/

namespace Definition

/-- A definition without literal operands that are null. -/
def withoutNull (definition : Definition) : Definition :=
  { definition with nodes := definition.nodes.map Node.withoutNull }

/-- What is read back is the definition, without literal operands that are null. -/
theorem ofValue?_toValue (definition : Definition) :
    ofValue? definition.toValue = some definition.withoutNull := by
  unfold ofValue? toValue ofFields
  have hname := Fields.lookup_ofList [("description", Value.string definition.description),
    ("nodes", .list (definition.nodes.map Node.toValue)),
    ("edges", .list (definition.edges.map Edge.toValue))]
  generalize Fields.ofList _ = fields at hname ⊢
  have hnodes : withDefault "nodes" [] (listOf Node.ofValue?) fields =
      some (definition.nodes.map Node.withoutNull) := by
    rw [withDefault, hname]
    exact listOf_map Node.ofValue?_toValue definition.nodes
  simp only [Record.ofValue?, Option.bind_eq_bind, Option.bind_some]
  rw [withDefault_eq reads_text (hname _), hnodes,
    withDefault_eq Edge.reads_toValue.listOf (hname _)]
  rfl

end Definition

/-- Leaving out a literal null changes exactly the updates that have one. -/
theorem UpdateStep.withoutNull_eq_iff (step : UpdateStep) :
    step.withoutNull = step ↔ step.value ≠ some .null := by
  obtain ⟨action, values, source, value⟩ := step
  simp only [withoutNull, UpdateStep.mk.injEq, true_and]
  rcases value with _ | value
  · simp
  · by_cases hvalue : value = .null <;> simp [hvalue]

/-- Only a literal operand that is null makes a difference. -/
theorem Node.withoutNull_eq_iff (node : Node) : node.withoutNull = node ↔
    ∀ step, node.kind = .update step → step.value ≠ some .null := by
  obtain ⟨name, kind, output, limit, counter, each⟩ := node
  cases kind with
  | update step => simpa [withoutNull, NodeKind.withoutNull] using step.withoutNull_eq_iff
  | _ => simp [withoutNull, NodeKind.withoutNull]

/-- A definition is read back unchanged if and only if it has no literal operand that is null. -/
theorem Definition.ofValue?_toValue_eq_iff (definition : Definition) :
    ofValue? definition.toValue = some definition ↔
      ∀ node ∈ definition.nodes, ∀ step, node.kind = .update step → step.value ≠ some .null := by
  simp only [← Node.withoutNull_eq_iff]
  rw [ofValue?_toValue, Option.some_inj]
  obtain ⟨description, nodes, edges⟩ := definition
  simp only [withoutNull, Definition.mk.injEq, true_and, and_true]
  exact ⟨fun h node hnode => List.map_inj_left.1 (h.trans (List.map_id nodes).symm) node hnode,
    fun h => (List.map_congr_left h).trans (List.map_id nodes)⟩

/-! ## A sample -/

namespace Sample.Clearing

/-- A node that sets its field to null. -/
def node : Node where
  name := "clear"
  kind := .update { action := some .overwrite, value := some .null }
  output := [{ name := "x" }]

/-- A flow of the node alone. -/
def definition : Definition where
  nodes := [node]
  edges := [.always startName "clear", .always "clear" endName]

/-- The definition makes a flow, but what is read back does not. -/
theorem not_read_back : Definition.ofValue? definition.toValue ≠ some definition ∧
    (Flow.compile definition).toOption.isSome ∧
    ((Definition.ofValue? definition.toValue).map fun other =>
      (Flow.compile other).toOption.isSome) = some false := by
  decide +kernel

end Sample.Clearing

end AgentFlow
