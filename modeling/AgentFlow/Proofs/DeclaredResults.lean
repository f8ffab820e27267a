import AgentFlow.Proofs.Results
import AgentFlow.Proofs.Transcript

/-!
# Results of declared types

A tool may declare the schema of its result: a type, and the fields that are required. Where a tool
node does not take the text as it is, a declared type makes it read the text as a document, which
has to have the required fields; anything else is a failed invocation (`ToolStep.run_declared`), and
a failed node writes nothing. That the value is of the declared type is not looked at: an object and
a list are told apart only where a field is required or several fields are filled. The sample has a
tool that declares an object, and a node that is completed with a list.
-/

namespace AgentFlow

/-! ## Required fields -/

/-- The value is an object with all the fields that a schema lists as required. -/
def Value.HasRequired (schema : List (String × Value)) (value : Value) : Prop :=
  ∀ listed name, schema.lookup "required" = some (.list listed) → .string name ∈ listed →
    ∃ fields, value = .map fields ∧ name ∈ Fields.names fields

/-- A value has a field exactly if it is a map with that name. -/
theorem Value.isSome_field? {value : Value} {name : String} :
    (value.field? name).isSome ↔ ∃ fields, value = .map fields ∧ name ∈ Fields.names fields := by
  cases value with
  | map fields => simp [field?, List.lookup_isSome_iff, Fields.names]
  | _ => simp [field?]

/-- The fields that a schema declares are the texts that it lists as required. -/
theorem mem_declaredFields {schema : List (String × Value)} {name : String} :
    name ∈ declaredFields (some (.map schema)) ↔
      ∃ listed, schema.lookup "required" = some (.list listed) ∧ .string name ∈ listed := by
  have hstring : ∀ value : Value, value.string? = some name ↔ value = .string name := by
    intro value
    cases value <;> simp [Value.string?]
  have hfield : (some (Value.map schema)).bind (·.field? "required") =
    schema.lookup "required" := rfl
  rw [declaredFields, hfield]
  simp only [List.mem_filterMap, hstring, exists_eq_right]
  cases schema.lookup "required" with
  | none => simp
  | some value => cases value <;> simp [Value.list?]

/-- A value is let through as it is, if it has the required fields. -/
theorem checkDeclared_eq (tool : String) (schema : List (String × Value)) (value : Value) :
    (value.HasRequired schema ∧ checkDeclared tool (some (.map schema)) value = .ok value) ∨
      (¬ value.HasRequired schema ∧ ∃ message,
        checkDeclared tool (some (.map schema)) value = .error (.toolInvocation tool message)) := by
  have hrequired : value.HasRequired schema ↔
      (declaredFields (some (.map schema))).filter (fun name => (value.field? name).isNone) =
        [] := by
    simp only [List.filter_eq_nil_iff, mem_declaredFields, Option.isNone_iff_eq_none, ← ne_eq,
      ← Option.isSome_iff_ne_none, Value.isSome_field?]
    exact ⟨fun h name ⟨listed, hlisted, hname⟩ => h listed name hlisted hname,
      fun h listed name hlisted hname => h name ⟨listed, hlisted, hname⟩⟩
  unfold checkDeclared
  split
  · rename_i hnone
    exact .inl ⟨hrequired.2 hnone, rfl⟩
  · rename_i hsome
    exact .inr ⟨fun h => hsome (hrequired.1 h), _, rfl⟩

/-! ## Reading a result -/

/-- The call succeeded with the text of a value that has the required fields. -/
structure ToolResult.Conforms (schema : List (String × Value)) (result : ToolResult)
    (value : Value) : Prop where
  success : result.isError = false
  read : Json.read result.content = .ok value
  required : value.HasRequired schema

/-- The text says what the value is. -/
theorem ToolResult.Conforms.unique {schema : List (String × Value)} {result : ToolResult}
    {value other : Value} (h : result.Conforms schema value)
    (hother : result.Conforms schema other) : value = other :=
  Except.ok.inj (h.read.symm.trans hother.read)

section Assign

variable {node : Node} {tool kind : String} {schema : List (String × Value)}

/-- With a declared type, a result is read as a document. -/
theorem resultValue_eq {fields : List OutputField} {content : String}
    (hfields : ∀ field, fields = [field] → field.kind ≠ .string)
    (htype : schema.lookup "type" = some (.string kind)) (hkind : kind ≠ "string") :
    resultValue fields tool (some (.map schema)) content =
      match Json.read content with
      | .ok value => checkDeclared tool (some (.map schema)) value
      | .error fault => .error (.toolInvocation tool
          s!"result is not the declared {kind}: {fault.message content}") := by
  have hdeclared : declaredKind? (some (.map schema)) = some kind := by
    rw [declaredKind?, Option.bind_some, Value.field?, htype]
    rfl
  unfold resultValue
  dsimp only
  rw [hdeclared]
  dsimp only
  rw [if_neg hkind]
  split
  · exact if_neg (hfields _ rfl)
  · rfl

/-- A result that conforms is distributed over the fields, and any other one is refused. -/
theorem Node.assignResult_eq (hfields : ∀ field, node.output = [field] → field.kind ≠ .string)
    (htype : schema.lookup "type" = some (.string kind)) (hkind : kind ≠ "string") (tool : String)
    (result : ToolResult) :
    (∃ value, result.Conforms schema value ∧
      node.assignResult tool (some (.map schema)) result =
        (node.assign value).map fun fields => { fields }) ∨
    ((¬ ∃ value, result.Conforms schema value) ∧ ∃ message,
      node.assignResult tool (some (.map schema)) result =
        .error (.toolInvocation tool message)) := by
  unfold assignResult
  cases hsuccess : result.isError with
  | true =>
    exact .inr ⟨fun ⟨value, h⟩ => Bool.noConfusion (hsuccess.symm.trans h.success), _, rfl⟩
  | false =>
    rw [if_neg Bool.false_ne_true, resultValue_eq hfields htype hkind]
    -- The type itself makes no difference: what counts is that there is a document.
    cases hread : Json.read result.content with
    | error fault =>
      refine .inr ⟨fun ⟨value, h⟩ => ?_, _, rfl⟩
      rw [h.read] at hread
      cases hread
    | ok value =>
      dsimp only
      rcases checkDeclared_eq tool schema value with
        ⟨hrequired, hcheck⟩ | ⟨hmissing, message, hcheck⟩
      · rw [hcheck]
        refine .inl ⟨value, ⟨hsuccess, hread, hrequired⟩, ?_⟩
        show (node.assign value >>= fun fields => Except.ok ({ fields } : NodeResult)) = _
        cases node.assign value <;> rfl
      · rw [hcheck]
        refine .inr ⟨fun ⟨other, h⟩ => hmissing ?_, message, rfl⟩
        rw [h.read] at hread
        cases hread
        exact h.required

end Assign

/-! ## A tool node -/

/-- The events of two stretches of exchanges are those of the first one and then those of the second
one. -/
theorem Exchange.events_append (exchanges more : List Exchange) :
    events (exchanges ++ more) = events exchanges ++ events more :=
  List.filterMap_append

/-- A call is told of when it starts and, unless it is cut short, with its result. -/
theorem ToolCall.path_observed {call : ToolCall} {box : Toolbox} {exchanges : List Exchange}
    {result : Except Error ToolResult} (h : (call.observed box).activity.Path exchanges result) :
    (result = .error .cancelled ∧
      Exchange.events exchanges = [.toolStart call.node call.tool call.input]) ∨
    ∃ outcome, result = .ok outcome ∧ Exchange.events exchanges =
      [.toolStart call.node call.tool call.input, .toolEnd call.node call.tool outcome] := by
  unfold observed at h
  obtain ⟨_, rest, hrest, rfl⟩ := Work.exists_of_path_perform h
  obtain ⟨use, ended, last, huse, hlast, rfl⟩ := Work.exists_of_path_lift hrest
  have hsilent : Exchange.events use = [] := by
    refine List.filterMap_eq_nil_iff.2 fun exchange hmem => ?_
    have hkind := huse.kind (call.only_invoke box) exchange hmem
    cases heffect : exchange.effect <;> rw [heffect] at hkind <;>
      first | rfl | exact hkind.elim
  rw [Exchange.events_cons, Exchange.events_append, hsilent]
  cases ended with
  | interrupted =>
    cases hlast
    exact .inl ⟨rfl, rfl⟩
  | finished outcome =>
    obtain ⟨_, done, hdone, rfl⟩ := Work.exists_of_path_perform hlast
    cases hdone
    exact .inr ⟨_, rfl, rfl⟩

/-- A node that fails ends the run with its error, and nothing else is told. -/
theorem Node.path_settle_error {node : Node} {error : Error} {run : Run}
    {exchanges : List Exchange} {settled : Settled}
    (h : (node.settle run (.error error)).Path exchanges settled) :
    Exchange.events exchanges = [.runFailed error] ∧
      settled = .stops (.failed ⟨node.name, error⟩)
        { run with cursor := .closed, state := .empty } := by
  cases h with
  | step rest =>
    cases rest
    exact ⟨rfl, rfl⟩

namespace ToolStep

/-- What a declared type makes of the execution of a tool node, whatever the tool does. -/
structure Declares (node : Node) (step : ToolStep) (schema : List (String × Value))
    (exchanges : List Exchange) (result : Except Error NodeResult) : Prop where
  /-- The node is completed only with a result that conforms, and writes what it gives the
  fields. -/
  completes : ∀ ended, result = .ok ended → ∃ outcome value fields,
    .toolEnd node.name step.tool outcome ∈ Exchange.events exchanges ∧
      outcome.Conforms schema value ∧ node.assign value = .ok fields ∧ ended = { fields }
  /-- With a result that conforms, it fails only where a field cannot take its value. -/
  conforms : ∀ outcome value, .toolEnd node.name step.tool outcome ∈ Exchange.events exchanges →
    outcome.Conforms schema value → result = (node.assign value).map fun fields => { fields }
  /-- With any other result the invocation has failed. -/
  refuses : ∀ outcome, .toolEnd node.name step.tool outcome ∈ Exchange.events exchanges →
    (¬ ∃ value, outcome.Conforms schema value) →
      ∃ message, result = .error (.toolInvocation step.tool message)
  /-- A node that fails writes nothing: the run ends with the error, and nothing else is told. -/
  writes : ∀ error, result = .error error → ∀ (run : Run) later settled,
    (node.settle run (.error error)).Path later settled →
      Exchange.events later = [.runFailed error] ∧
        settled = .stops (.failed ⟨node.name, error⟩)
          { run with cursor := .closed, state := .empty }

variable {node : Node} {step : ToolStep} {box : Toolbox} {vars : Lookup} {itemIndex : Option Nat}
  {spec : ToolSpec} {schema : List (String × Value)} {kind : String} {exchanges : List Exchange}
  {result : Except Error NodeResult}

/-- A way through a tool node comes to a result of the tool and what is made of it, if it comes so
far. -/
theorem path_run
    (path : (step.run node box vars itemIndex).activity.Path exchanges result) :
    ((∃ error, result = .error error) ∧
      ∀ outcome, .toolEnd node.name step.tool outcome ∉ Exchange.events exchanges) ∨
    ∃ outcome, result = node.assignResult step.tool
        ((box.get? step.tool).bind (·.outputSchema)) outcome ∧
      ∀ other, .toolEnd node.name step.tool other ∈ Exchange.events exchanges ↔
        other = outcome := by
  unfold run at path
  -- Nothing is told before the arguments are filled in.
  rcases Work.exists_of_path_bind path with
    ⟨error, hargs, rfl⟩ | ⟨first, args, rest, hargs, hrest, rfl⟩
  · obtain ⟨rfl, -⟩ := Work.path_ofExcept hargs
    exact .inl ⟨⟨error, rfl⟩, fun _ => List.not_mem_nil⟩
  obtain ⟨rfl, -⟩ := Work.path_ofExcept hargs
  rw [List.nil_append]
  rcases Work.exists_of_path_bind hrest with
    ⟨error, hcall, rfl⟩ | ⟨called, outcome, last, hcall, hlast, rfl⟩
  · rcases ToolCall.path_observed hcall with ⟨-, hevents⟩ | ⟨_, ⟨⟩, -⟩
    refine .inl ⟨⟨error, rfl⟩, fun outcome hmem => ?_⟩
    rw [hevents] at hmem
    simp at hmem
  · rcases ToolCall.path_observed hcall with ⟨⟨⟩, -⟩ | ⟨_, hsame, hevents⟩
    cases hsame
    obtain ⟨rfl, rfl⟩ := Work.path_ofExcept hlast
    refine .inr ⟨outcome, rfl, fun other => ?_⟩
    rw [List.append_nil, hevents]
    simp

/-- With a declared type, a tool node is completed exactly with a result that conforms and whose
value the fields can take; it fails with the invocation on any other result. -/
theorem run_declared (path : (step.run node box vars itemIndex).activity.Path exchanges result)
    (hfields : ∀ field, node.output = [field] → field.kind ≠ .string)
    (hspec : box.get? step.tool = some spec) (hschema : spec.outputSchema = some (.map schema))
    (htype : schema.lookup "type" = some (.string kind)) (hkind : kind ≠ "string") :
    Declares node step schema exchanges result := by
  rcases path_run path with ⟨⟨error, rfl⟩, hnone⟩ | ⟨outcome, rfl, hresult⟩
  · exact ⟨nofun, fun outcome _ hmem => absurd hmem (hnone outcome),
      fun outcome hmem => absurd hmem (hnone outcome), fun _ _ _ _ _ => Node.path_settle_error⟩
  rw [hspec, Option.bind_some, hschema]
  have hmem := (hresult outcome).2 rfl
  rcases Node.assignResult_eq hfields htype hkind step.tool outcome with
    ⟨value, hconforms, hassign⟩ | ⟨hrefused, message, hassign⟩
  · refine ⟨fun ended hended => ?_, fun other value' hother hconforms' => ?_,
      fun other hother hnone => ?_, fun _ _ _ _ _ => Node.path_settle_error⟩
    · obtain ⟨fields, hfields, rfl⟩ := exists_of_map_eq_ok (hassign.symm.trans hended)
      exact ⟨outcome, value, fields, hmem, hconforms, hfields, rfl⟩
    · obtain rfl := (hresult other).1 hother
      rwa [hconforms'.unique hconforms]
    · obtain rfl := (hresult other).1 hother
      exact absurd ⟨value, hconforms⟩ hnone
  · rw [hassign]
    refine ⟨nofun, fun other value hother hconforms => ?_, fun other _ _ => ⟨message, rfl⟩,
      fun _ _ _ _ _ => Node.path_settle_error⟩
    obtain rfl := (hresult other).1 hother
    exact absurd ⟨value, hconforms⟩ hrefused

end ToolStep

/-! ## Samples -/

namespace Sample.Declaring

/-- A step that calls the tool with no arguments. -/
def step : ToolStep := { tool := "stats", args := [] }

/-- A node that fills a list. -/
def node : Node :=
  { name := "gather", kind := .tool step, output := [{ name := "values", kind := .list }] }

/-- A tool with a schema for its result. -/
def box (schema : List (String × Value)) : Toolbox :=
  Toolbox.empty.register ⟨"stats", "", .null, some (.map schema), 30⟩

/-- A tool that answers at once with a list. -/
def host : Host Unit where
  ask _ w := ⟨⟨[], .complete⟩, false, w⟩
  request _ w := ⟨⟨0, 0⟩, false, w⟩
  act _ _ w := ⟨.answered (.ok (.success "[1, 2]")), false, w⟩
  sleep _ w := ⟨(), false, w⟩
  freshId w := ("i", w)

/-- The execution of the step, with a tool of a given output schema. -/
def execution (schema : List (String × Value)) : Activity (Except Error NodeResult) :=
  (step.run node (box schema) (fun _ => none) none).activity

/-- What passes between the execution and the host. -/
def exchanges (schema : List (String × Value)) : List Exchange :=
  (execution schema).exchanges host ⟨(), false, []⟩

/-- What the execution ends with. -/
def result (schema : List (String × Value)) : Except Error NodeResult :=
  ((execution schema).run host ⟨(), false, []⟩).1

/-- An object with a required field. -/
def counted : List (String × Value) :=
  [("required", .list [.string "count"]), ("type", .string "object")]

/-- An object, whatever its fields. -/
def plain : List (String × Value) := [("type", .string "object")]

/-- The list is refused where a field is required. -/
theorem run_counted :
    step.Declares node counted (exchanges counted) (result counted) ∧
      result counted = .error
        (.toolInvocation "stats" "result is missing declared fields: count") := by
  have hspec : (box counted).get? step.tool =
      some ⟨"stats", "", .null, some (.map counted), 30⟩ := rfl
  have htype : counted.lookup "type" = some (.string "object") := rfl
  have hfields : ∀ field, node.output = [field] → field.kind ≠ .string := by
    rintro _ ⟨⟩
    decide
  exact ⟨ToolStep.run_declared (Activity.path_run host _ _) hfields hspec rfl htype (by decide),
    by decide +kernel⟩

/-- It is taken where none is, although it is no object. -/
theorem result_plain :
    plain.lookup "type" = some (.string "object") ∧
      (∀ fields, Json.read "[1, 2]" ≠ .ok (.map fields)) ∧
      result plain = .ok { fields := [("values", .list [.int 1, .int 2])] } := by
  have hread : Json.read "[1, 2]" = .ok (.list [.int 1, .int 2]) := by decide +kernel
  refine ⟨rfl, fun fields h => ?_, by decide +kernel⟩
  rw [hread] at h
  cases h

end Sample.Declaring

end AgentFlow
