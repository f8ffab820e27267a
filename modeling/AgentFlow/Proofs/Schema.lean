import AgentFlow.Proofs.Answers
import AgentFlow.Proofs.Rounds

/-!
# Answers that satisfy the schema

The schema that a model is offered asks for the fields that no tool is meant to fill, while its
answer is read for the fields that no tool has filled. As long as every tool has done its part, both
are the same fields, and an answer that satisfies the schema is read: it completes the node, with
the values it gives (`Transcript.completes_of_satisfies`). An answer that comes before the tools are
called is refused for fields that it was not asked for, as the sample shows.

An answer is the compact text of an object. What counts is how the text is read, so that the values
are those of the object but for what becomes of its doubles (`Value.reread`).
-/

namespace AgentFlow

/-! ## Types of schemas -/

/-- The types of JSON schemas that a value has. A whole number has to fit 64 signed bits; a double
is one if it is read as one. -/
def Value.schemaTypes : Value → List String
  | null => ["null"]
  | bool _ => ["boolean"]
  | number (.int n) => if inInt64 n then ["number", "integer"] else ["number"]
  | number (.float x) =>
    if x.reread.toInt?.any inInt64 then ["number", "integer"] else ["number"]
  | string _ => ["string"]
  | list _ => ["array"]
  | map _ => ["object"]

/-- A value of a field's schema type as a value of the field: only numbers change their form. -/
def FieldKind.form : FieldKind → Value → Value
  | int, .number (.float x) => (x.toInt?.map Value.int).getD (.float x)
  | float, .number n => .float n.toBinary
  | _, value => value

/-- A whole number of 64 signed bits is taken for one. -/
theorem FieldKind.wholeNumber?_int {n : Int} (h : inInt64 n = true) :
    wholeNumber? (.int n) = some (.int n) := by
  rw [wholeNumber?, Number.toInt64?, if_pos h]

/-- A double of a whole number of 64 signed bits is taken for that number. -/
theorem FieldKind.wholeNumber?_float {x : Binary64} (h : x.toInt?.any inInt64 = true) :
    wholeNumber? (.float x) = some (form .int (.float x)) := by
  obtain ⟨n, hn, hrange⟩ := (Option.any_eq_true _ _).1 h
  rw [wholeNumber?, Number.toInt64?, form, Number.toBinary, hn, Option.filter_some_pos hrange]
  rfl

/-- What has the schema type of a field can be converted to the type of the field. -/
theorem FieldKind.coerce_of_mem_schemaTypes {kind : FieldKind} {value : Value}
    (h : kind.schemaName ∈ value.schemaTypes) :
    kind.coerce value.reread = some (kind.form value.reread) := by
  -- The other types are left out first: to evaluate a conversion takes long where it can fail.
  cases value with
  | number n =>
    cases n with
    | int n =>
      rw [Value.schemaTypes] at h
      split_ifs at h with hrange
      · cases kind <;>
          first | (simp [schemaName] at h; done) | exact wholeNumber?_int hrange | rfl
      · cases kind <;> first | (simp [schemaName] at h; done) | rfl
    | float x =>
      rw [Value.schemaTypes] at h
      split_ifs at h with hrange
      · cases kind <;>
          first | (simp [schemaName] at h; done) | exact wholeNumber?_float hrange | rfl
      · cases kind <;> first | (simp [schemaName] at h; done) | rfl
  | _ => cases kind <;> first | (simp [schemaName, Value.schemaTypes] at h; done) | rfl

/-! ## Schemas of objects -/

namespace Answer

/-- The names of the properties that a schema requires. -/
def required (schema : Value) : List String :=
  (((schema.field? "required").bind Value.list?).getD []).filterMap Value.string?

/-- The type that a schema gives a property. -/
def propertyType? (schema : Value) (name : String) : Option String :=
  ((schema.field? "properties").bind (Value.field? name)).bind fun property =>
    (property.field? "type").bind Value.string?

/-- An object with all the properties that a schema requires, each of its type. -/
def Satisfies (schema : Value) (object : List (String × Value)) : Prop :=
  ∀ name ∈ required schema, ∃ type value, propertyType? schema name = some type ∧
    object.lookup name = some value ∧ type ∈ value.schemaTypes

variable {fields : List OutputField} {schema : Value}

/-- The schema requires all the fields that the model is asked for, in their order. -/
theorem required_of_schema? (h : schema? fields = some schema) :
    required schema = fields.map OutputField.name := by
  unfold schema? at h
  split_ifs at h
  cases h
  show (fields.map fun f => Value.string f.name).filterMap Value.string? = _
  rw [List.filterMap_map]
  exact congrFun List.filterMap_eq_map fields

/-- The schema gives every field its type. -/
theorem propertyType?_of_schema? (h : schema? fields = some schema)
    (hnames : (fields.map OutputField.name).Nodup) {field : OutputField} (hfield : field ∈ fields) :
    propertyType? schema field.name = some field.kind.schemaName := by
  unfold schema? at h
  split_ifs at h
  cases h
  have hdistinct : (Fields.names (fields.map fun f => (f.name, fieldSchema f))).Nodup := by
    rw [Fields.names, List.map_map]
    exact hnames
  -- A second field of the name would replace the first.
  have hproperty : (Fields.ofList (fields.map fun f => (f.name, fieldSchema f))).lookup field.name =
      some (fieldSchema field) :=
    Fields.lookup_ofList_of_mem hdistinct (List.mem_map_of_mem hfield)
  show ((Fields.ofList (fields.map fun f => (f.name, fieldSchema f))).lookup field.name).bind _ = _
  rw [hproperty]
  unfold fieldSchema
  cases field.description <;> rfl

/-- What satisfies the schema of some fields has a value for each, of its type. -/
theorem Satisfies.exists_lookup {object : List (String × Value)} (h : Satisfies schema object)
    (hschema : schema? fields = some schema) (hnames : (fields.map OutputField.name).Nodup)
    {field : OutputField} (hfield : field ∈ fields) :
    ∃ value, object.lookup field.name = some value ∧
      field.kind.schemaName ∈ value.schemaTypes := by
  have hrequired : field.name ∈ required schema :=
    required_of_schema? hschema ▸ List.mem_map_of_mem hfield
  obtain ⟨type, value, htype, hvalue, hmem⟩ := h _ hrequired
  rw [propertyType?_of_schema? hschema hnames hfield] at htype
  cases htype
  exact ⟨value, hvalue, hmem⟩

/-! ## Reading such an object -/

/-- The values of fields in an object. -/
def taken (object : List (String × Value)) (fields : List OutputField) : List (String × Value) :=
  fields.filterMap fun field =>
    ((object.lookup field.name).map field.kind.form).map (field.name, ·)

/-- An object with a value of its schema type for each field gives the field this value. -/
theorem gives_taken {object : List (String × Value)}
    (h : ∀ field ∈ fields, ∃ value, object.lookup field.name = some value ∧
      field.kind.schemaName ∈ value.schemaTypes) :
    Gives object fields (taken (Value.rereadFields object) fields) := by
  induction fields with
  | nil => exact .nil
  | cons field rest ih =>
    rw [List.forall_mem_cons] at h
    obtain ⟨⟨value, hvalue, htype⟩, hrest⟩ := h
    have htaken : taken (Value.rereadFields object) (field :: rest) =
        (field.name, field.kind.form value.reread) ::
          taken (Value.rereadFields object) rest := by
      simp [taken, Value.lookup_rereadFields, hvalue]
    rw [htaken]
    exact .cons ⟨rfl, value, hvalue, field.kind.coerce_of_mem_schemaTypes htype⟩ (ih hrest)

/-- Each field is found among the values that are taken from an object. -/
theorem lookup_taken {object : List (String × Value)}
    (hnames : (fields.map OutputField.name).Nodup)
    (h : ∀ field ∈ fields, ∃ value, object.lookup field.name = some value)
    {field : OutputField} (hfield : field ∈ fields) :
    (taken object fields).reverse.lookup field.name =
      (object.lookup field.name).map field.kind.form := by
  have hfst : (taken object fields).map Prod.fst = fields.map OutputField.name := by
    refine map_fst_filterMap fun other hother => ?_
    obtain ⟨value, hvalue⟩ := h other hother
    rw [hvalue]
    rfl
  have hdistinct : (Fields.names (taken object fields)).Nodup := by
    rw [Fields.names, hfst]
    exact hnames
  obtain ⟨value, hvalue⟩ := h field hfield
  have hmem : (field.name, field.kind.form value) ∈ taken object fields :=
    List.mem_filterMap.2 ⟨field, hfield, by rw [hvalue]; rfl⟩
  rw [← Fields.lookup_ofList, hvalue]
  exact Fields.lookup_ofList_of_mem hdistinct hmem

end Answer

/-! ## Which fields are expected -/

namespace ModelStep

variable {setting : Setting} {node : Node} {step : ModelStep}

/-- No tool fills a field that none is meant to fill. -/
theorem contents_of_not_has {field : String} (h : Fields.has field step.rawToolOutput = false)
    (events : List Event) : step.contents field events = [] := by
  refine List.filterMap_eq_nil_iff.2 fun event _ => ?_
  cases event with
  | toolEnd name tool result =>
    refine if_neg fun ⟨_, hmem⟩ => ?_
    rw [Fields.has, Bool.eq_false_iff] at h
    exact h (List.lookup_isSome_iff.2 ⟨_, hmem, beq_self_eq_true _⟩)
  | _ => rfl

/-- Where every tool has done its part, an answer is expected to give the fields that the model was
asked for. -/
theorem expected_eq_answered {events : List Event}
    (hfilled : ∀ field ∈ node.output, Fields.has field.name step.rawToolOutput = true →
      step.contents field.name events ≠ []) :
    (node.output.filter fun field => !Fields.has field.name (step.filled node events)) =
      step.answered node.output := by
  refine List.filter_congr fun field hfield => ?_
  rw [Fields.has, lookup_filled hfield, Option.isSome_map]
  cases hraw : Fields.has field.name step.rawToolOutput with
  | false => rw [contents_of_not_has hraw]; rfl
  | true =>
    rw [List.getLast?_isSome.2 (hfilled field hfield hraw)]

/-- The values that complete a node: what an object gives for the fields that the model was asked
for, and what tools returned last for the others. -/
structure Supplies (step : ModelStep) (node : Node) (events : List Event)
    (object values : List (String × Value)) : Prop where
  names : values.map Prod.fst = node.output.map OutputField.name
  answered : ∀ field ∈ step.answered node.output, ∃ value,
    object.lookup field.name = some value ∧
      values.lookup field.name = some (field.kind.form value.reread)
  filled : ∀ field ∈ node.output, ∀ content,
    (step.contents field.name events).getLast? = some content →
      values.lookup field.name = some (rawValue node field.name content)

/-- An answer that satisfies the schema is read. -/
theorem parse_of_satisfies {events : List Event} {schema : Value} {object : List (String × Value)}
    (hnames : (node.output.map OutputField.name).Nodup)
    (hschema : Answer.schema? (step.answered node.output) = some schema)
    (hfilled : ∀ field ∈ node.output, Fields.has field.name step.rawToolOutput = true →
      step.contents field.name events ≠ [])
    (hobject : (Value.map object).IsDocument Json.maxDepth)
    (hfence : ¬ Answer.fence <:+: Json.compactChars (.map object))
    (hsatisfies : Answer.Satisfies schema object) :
    ∃ values, Answer.parse node.output (Json.compact (.map object)) (step.filled node events) =
      .ok values ∧ step.Supplies node events object values := by
  have hdistinct : ((step.answered node.output).map OutputField.name).Nodup :=
    hnames.sublist (List.filter_sublist.map _)
  have hsome : ∀ field ∈ step.answered node.output, ∃ value,
      object.lookup field.name = some value ∧ field.kind.schemaName ∈ value.schemaTypes :=
    fun field hfield => hsatisfies.exists_lookup hschema hdistinct hfield
  have hreread : ∀ field ∈ step.answered node.output, ∃ value,
      (Value.rereadFields object).lookup field.name = some value := by
    intro field hfield
    obtain ⟨value, hvalue, -⟩ := hsome field hfield
    exact ⟨value.reread, by rw [Value.lookup_rereadFields, hvalue, Option.map_some]⟩
  have hparse : Answer.parse node.output (Json.compact (.map object)) (step.filled node events) =
      _ := Answer.parse_eq_map _ _
  -- The fields that are expected are those in the schema.
  rw [expected_eq_answered hfilled, Answer.readExpected_compact hobject
    (fun hfenced => hfence hfenced.isInfix) (Answer.gives_taken hsome)] at hparse
  refine ⟨_, hparse, Answer.map_fst_parse hparse, fun field hfield => ?_,
    fun field hfield content hcontent => ?_⟩
  -- A field that the model was asked for has nothing from tools, and thus what the object says.
  · obtain ⟨hdeclared, hmodel⟩ := List.mem_filter.1 hfield
    have hnone : (step.filled node events).lookup field.name = none := by
      rw [lookup_filled hdeclared, contents_of_not_has (by simpa using hmodel)]
      rfl
    obtain ⟨value, hvalue, -⟩ := hsome field hfield
    refine ⟨value, hvalue, ?_⟩
    rw [OutputField.lookup_filterMap node.output fun name =>
      ((step.filled node events).lookup name).or
        ((Answer.taken (Value.rereadFields object)
          (step.answered node.output)).reverse.lookup name),
      if_pos (List.mem_map_of_mem hdeclared), hnone, Option.none_or,
      Answer.lookup_taken hdistinct hreread hfield, Value.lookup_rereadFields, hvalue]
    rfl
  -- A field that a tool filled keeps its content.
  · refine Answer.lookup_parse hparse hfield ?_
    rw [lookup_filled hfield, hcontent]
    rfl

/-! ## Completing the node -/

namespace Progress

variable {progress : Progress} {exchanges : List Exchange}

/-- A request adds no events to the account. -/
theorem events_asked (node : Node) (step : ModelStep) (progress : Progress) (reply : ModelReply) :
    (progress.asked node step reply).events = progress.events := by
  unfold asked
  cases reply.result with
  | ok turn => exact (turn_counts _ turn).2.2
  | error error => rfl

/-- The account has all the events that were told. -/
theorem events_behind (node : Node) (step : ModelStep) (progress : Progress)
    (exchanges : List Exchange) :
    (progress.behind node step exchanges).events =
      progress.events ++ Exchange.events exchanges := by
  induction exchanges generalizing progress with
  | nil => exact (List.append_nil _).symm
  | cons exchange later ih =>
    obtain ⟨effect, reply⟩ := exchange
    have hafter : (progress.after node step effect reply).events =
        progress.events ++ effect.event?.toList := by
      cases effect with
      | ask request => exact (events_asked node step progress reply).trans (List.append_nil _).symm
      | _ => rfl
    rw [Exchange.events_cons, ← List.append_assoc, ← hafter]
    exact ih _

/-- An execution with an answer ends with it. -/
theorem Ends.eq_complete {result : Except Error ModelOutcome} {values : List (String × Value)}
    (h : progress.Ends setting node step result) (hanswers : progress.answers = [values]) :
    result = .ok (.complete { fields := values }) := by
  -- Everywhere else it would end without one.
  have hnone : progress.answers = [] → result = .ok (.complete { fields := values }) := fun hnil =>
    absurd (hanswers.symm.trans hnil) (List.cons_ne_nil _ _)
  cases h with
  | answered answers => rw [List.singleton_inj.1 (answers.symm.trans hanswers)]
  | waits stands => exact hnone stands.isOpen.answers
  | filled isOpen => exact hnone isOpen.answers
  | exceeds calling unusable answers => exact hnone answers
  | unanswered unusable calling answers => exact hnone answers
  | fails isOpen => exact hnone isOpen.answers

/-- When there is an answer, only the text of it is still told. -/
theorem Along.isTextDelta (h : progress.Along setting node step exchanges)
    (hanswers : progress.answers ≠ []) : ∀ exchange ∈ exchanges, exchange.effect.isTextDelta := by
  induction exchanges generalizing progress with
  | nil => exact fun _ hmem => absurd hmem List.not_mem_nil
  | cons exchange later ih =>
    obtain ⟨effect, reply⟩ := exchange
    obtain ⟨hallows, hlater⟩ := h
    have hdelta : effect.isTextDelta = true := by
      cases effect with
      | ask request => exact absurd hallows.1.answers hanswers
      | emit event =>
        cases event <;> first | rfl | exact absurd (IsOpen.answers hallows) hanswers
      | _ => exact absurd (IsOpen.answers hallows) hanswers
    have hstill : (progress.after node step effect reply).answers ≠ [] := by
      cases effect <;> first | exact hanswers | cases hdelta
    exact List.forall_mem_cons.2 ⟨hdelta, ih hlater hstill⟩

end Progress

/-- When every tool has done its part, an answer that satisfies the schema sent with the request
completes the node, with the values it gives: the model is not asked again, and nothing fails.
Without fences, a text is such an answer if it is the compact text of an object that is not nested
too deeply. That the fields have different names is checked when a flow is compiled. -/
theorem Transcript.completes_of_satisfies {vars : Lookup} {itemIndex : Option Nat}
    {exchanges before after : List Exchange} {result : Except Error ModelOutcome}
    (h : step.Transcript setting node vars itemIndex exchanges result)
    (hnames : (node.output.map OutputField.name).Nodup)
    {request : ModelRequest} {reply : ModelReply}
    (hexchanges : exchanges = before ++ ⟨.ask request, reply⟩ :: after)
    {schema : Value} (hschema : request.outputSchema = some schema)
    {turn : Turn} (hreply : reply.result = .ok turn) (hcalls : turn.calls = [])
    {object : List (String × Value)} (hobject : (Value.map object).IsDocument Json.maxDepth)
    (htext : turn.text = Json.compact (.map object))
    (hfence : ¬ Answer.fence <:+: turn.text.toList)
    (hsatisfies : Answer.Satisfies schema object)
    (hfilled : ∀ field ∈ node.output, Fields.has field.name step.rawToolOutput = true →
      step.contents field.name (Exchange.events before) ≠ []) :
    (∃ values, result = .ok (.complete { fields := values }) ∧
      step.Supplies node (Exchange.events before) object values) ∧
    ∀ exchange ∈ after, exchange.effect.isTextDelta := by
  subst hexchanges
  obtain ⟨halong, -, hends⟩ := Progress.follows_transcript h
  obtain ⟨-, hallows, hafter⟩ := (Progress.along_append before _).1 halong
  rw [Progress.behind_append] at hends
  have hevents : (Progress.behind node step {} before).events = Exchange.events before :=
    Progress.events_behind node step {} before
  -- The account up to the request says that there was no answer yet, and which schema was sent.
  generalize Progress.behind node step {} before = progress at *
  obtain ⟨hopen, -, hsent⟩ := hallows
  rw [htext, Json.compact, String.toList_ofList] at hfence
  obtain ⟨values, hparse, hsupplies⟩ := parse_of_satisfies hnames (hsent.symm.trans hschema)
    hfilled hobject hfence hsatisfies
  -- The answer counts as one, and is the only one.
  have hanswers : (progress.asked node step reply).answers = [values] := by
    unfold Progress.asked
    rw [hreply]
    dsimp only
    unfold Progress.turn
    rw [hcalls, htext, hevents, hparse, List.isEmpty_nil, if_pos rfl]
    dsimp only
    rw [hopen.answers, List.nil_append]
  change Progress.Along setting node step (progress.asked node step reply) after at hafter
  change Progress.Ends setting node step
    ((progress.asked node step reply).behind node step after) result at hends
  have hdeltas := hafter.isTextDelta (hanswers ▸ List.cons_ne_nil _ _)
  refine ⟨⟨values, hends.eq_complete ?_, hsupplies⟩, hdeltas⟩
  rw [Progress.behind_of_not_isAsk fun exchange hmem =>
    (Effect.isTalk_of_isTextDelta (hdeltas exchange hmem)).2]
  exact hanswers

end ModelStep

/-! ## A sample

A node with a field that a tool is to fill, whose model answers for the other one, as it is asked
to. -/

namespace Sample.Answering

/-- An object that satisfies the schema. -/
def object : List (String × Value) := [("summary", .string "short")]

/-- What the model is asked for. -/
def schema : Value := .map [
  ("properties", .map [("summary", .map [("type", .string "string")])]),
  ("required", .list [.string "summary"]),
  ("type", .string "object")]

/-- A turn that answers with the object. -/
def turn : Turn := ⟨"\x7b\"summary\":\"short\"\x7d", []⟩

/-- The reply with the turn. -/
def answer : ModelReply := ⟨[.text turn.text], .complete⟩

/-- A node that does not ask again. -/
def setting : Setting :=
  { Fetching.setting with config := { retry := { maxRetries := 0 } } }

/-- A model that calls the tool a number of times before it answers. -/
def host : Host Nat where
  ask _ calls := match calls with
    | 0 => ⟨answer, false, 0⟩
    | calls + 1 => ⟨⟨[.toolStart 0 "a" "fetch"], .complete⟩, false, calls⟩
  request _ calls := ⟨⟨0, 0⟩, false, calls⟩
  act _ _ calls := ⟨.answered (.ok (.success "the page")), false, calls⟩
  sleep _ calls := ⟨(), false, calls⟩
  freshId calls := ("i", calls)

/-- The execution of the node from its start. -/
def start : Work ModelOutcome := Fetching.step.start setting Fetching.node (fun _ => none) none

/-- What passes between the execution and a model that calls the tool so many times. -/
def exchanges (calls : Nat) : List Exchange := start.activity.exchanges host ⟨calls, false, []⟩

/-- What the execution ends with. -/
def result (calls : Nat) : Except Error ModelOutcome :=
  (start.activity.run host ⟨calls, false, []⟩).1

/-- The exchanges and the result are those of an execution. -/
theorem transcript (calls : Nat) :
    Fetching.step.Transcript setting Fetching.node (fun _ => none) none (exchanges calls)
      (result calls) :=
  .start (Activity.path_run host _ _)

/-- Whether an exchange is the answer to a request with the schema. -/
def isAnswer : Exchange → Bool
  | ⟨.ask request, reply⟩ =>
    let reply : ModelReply := reply
    request.outputSchema = some schema && reply = answer
  | _ => false

/-- At an answer the exchanges fall into those before it, the request with the schema that it
answers, and those after it. -/
theorem exists_eq_append {calls k : Nat} (h : ((exchanges calls)[k]?).any isAnswer = true) :
    ∃ request after,
      exchanges calls = (exchanges calls).take k ++ ⟨.ask request, answer⟩ :: after ∧
        request.outputSchema = some schema := by
  obtain ⟨exchange, hexchange, hisAnswer⟩ := (Option.any_eq_true _ _).1 h
  obtain ⟨hk, rfl⟩ := List.getElem?_eq_some_iff.1 hexchange
  have hsplit := (List.take_append_drop k (exchanges calls)).symm
  rw [List.drop_eq_getElem_cons hk] at hsplit
  generalize (exchanges calls)[k] = exchange at *
  obtain ⟨effect, reply⟩ := exchange
  cases effect with
  | ask request =>
    simp only [isAnswer, Bool.and_eq_true, decide_eq_true_eq] at hisAnswer
    obtain ⟨hschema, rfl⟩ := hisAnswer
    exact ⟨request, _, hsplit, hschema⟩
  | _ => cases hisAnswer

/-- The answer satisfies the schema. -/
theorem answer_satisfies : answer.result = .ok turn ∧ turn.text = Json.compact (.map object) ∧
    (Value.map object).IsDocument Json.maxDepth ∧ ¬ Answer.fence <:+: turn.text.toList ∧
    Answer.Satisfies schema object := by
  refine ⟨by decide +kernel, by decide +kernel, ?_, by decide +kernel, ?_⟩
  · exact ⟨List.pairwise_singleton _ _, trivial, trivial⟩
  · rintro _ (_ | ⟨_, ⟨⟩⟩)
    exact ⟨"string", .string "short", rfl, rfl, List.mem_singleton_self _⟩

/-- The node is completed with an answer that comes after the tool was called. -/
theorem completes_after_call : ∃ before request after values,
    exchanges 1 = before ++ ⟨.ask request, answer⟩ :: after ∧
      result 1 = .ok (.complete { fields := values }) ∧
      Fetching.step.Supplies Fetching.node (Exchange.events before) object values := by
  have hanswer : ((exchanges 1)[7]?).any isAnswer = true := by decide +kernel
  obtain ⟨request, after, hexchanges, hschema⟩ := exists_eq_append hanswer
  obtain ⟨hreply, htext, hobject, hfence, hsatisfies⟩ := answer_satisfies
  have hnames : (Fetching.node.output.map OutputField.name).Nodup := by decide
  have hfilled : ∀ field ∈ Fetching.node.output,
      Fields.has field.name Fetching.step.rawToolOutput = true →
        Fetching.step.contents field.name (Exchange.events ((exchanges 1).take 7)) ≠ [] := by
    decide +kernel
  obtain ⟨⟨values, hresult, hsupplies⟩, -⟩ :=
    (transcript 1).completes_of_satisfies hnames hexchanges hschema hreply rfl hobject htext hfence
      hsatisfies hfilled
  exact ⟨_, request, after, values, hexchanges, hresult, hsupplies⟩

/-- The same answer is refused when it comes first, for a field that it was not asked for. -/
theorem refuses_unasked : ∃ request after,
    exchanges 0 = (exchanges 0).take 1 ++ ⟨.ask request, answer⟩ :: after ∧
      request.outputSchema = some schema ∧ answer.result = .ok turn ∧ turn.calls = [] ∧
      turn.text = Json.compact (.map object) ∧ (Value.map object).IsDocument Json.maxDepth ∧
      ¬ Answer.fence <:+: turn.text.toList ∧ Answer.Satisfies schema object ∧
      Fetching.step.Transcript setting Fetching.node (fun _ => none) none (exchanges 0)
        (.error (.unusableAnswer "ask" "missing field 'page'")) := by
  have hanswer : ((exchanges 0)[1]?).any isAnswer = true := by decide +kernel
  have hfailure : (match result 0 with
      | .error error => some error
      | .ok _ => none) = some (.unusableAnswer "ask" "missing field 'page'") := by decide +kernel
  obtain ⟨request, after, hexchanges, hschema⟩ := exists_eq_append hanswer
  obtain ⟨hreply, htext, hobject, hfence, hsatisfies⟩ := answer_satisfies
  have htranscript := transcript 0
  split at hfailure
  · rename_i error herror
    cases hfailure
    rw [herror] at htranscript
    exact ⟨request, after, hexchanges, hschema, hreply, rfl, htext, hobject, hfence, hsatisfies,
      htranscript⟩
  · cases hfailure

end Sample.Answering

end AgentFlow
