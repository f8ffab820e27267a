import AgentFlow.Proofs.Footprint
import AgentFlow.Proofs.Turns

/-!
# Fields that tools fill

A model node may have fields that are filled with what a tool returned. The observers are told of
every result in full, so that `ModelStep.contents` can be read off the events: the contents, in
order, of the successful results of the tools that fill a field. A conversation keeps the last of
them for each field, converted to the field's type (`Talk.Keeps`); every result that is noted keeps
this up, and nothing else that is said touches it. So does a suspension, since a checkpoint has the
conversation.

Whatever the model answers in the end is read into the fields that no result has filled. That a tool
is meant to fill a field does not keep the model from answering it, as the sample shows: what counts
is whether a result did fill it.
-/

namespace AgentFlow

variable {α β σ : Type}

/-! ## What tools returned -/

namespace ModelStep

/-- The full content of the result that an event tells of, if it fills a field. -/
def content? (step : ModelStep) (field : String) : Event → Option String
  | .toolEnd _ tool result =>
    if result.isError = false ∧ (field, tool) ∈ step.rawToolOutput then some result.content
    else none
  | _ => none

/-- The full contents of the results that fill a field, in order. -/
def contents (step : ModelStep) (field : String) (events : List Event) : List String :=
  events.filterMap (step.content? field)

/-- The contents in two stretches of events are those of the first one, and then those of the second
one. -/
theorem contents_append (step : ModelStep) (field : String) (events more : List Event) :
    step.contents field (events ++ more) = step.contents field events ++ step.contents field more :=
  List.filterMap_append

/-- An event that tells of no result for the field has no content for it. -/
theorem contents_eq_nil {step : ModelStep} {field : String} {event : Event}
    (h : step.content? field event = none) : step.contents field [event] = [] := by
  rw [contents, List.filterMap_cons_none h, List.filterMap_nil]

/-- A tool fills the fields that the step lists with it. -/
theorem mem_filledBy {step : ModelStep} {field tool : String} :
    field ∈ step.filledBy tool ↔ (field, tool) ∈ step.rawToolOutput := by
  simp [filledBy]

end ModelStep

/-- A conversation that keeps the last content for a field, as a value of the field. -/
def Talk.Keeps (node : Node) (field : String) (contents : List String) (talk : Talk) : Prop :=
  talk.captured.lookup field = contents.getLast?.map (rawValue node field)

/-- Behind pairs of names and their values, a name has its value. -/
theorem lookup_reverse_map (names : List String) (value : String → Value) (name : String) :
    (names.map fun n => (n, value n)).reverse.lookup name =
      if name ∈ names then some (value name) else none := by
  induction names with
  | nil => rfl
  | cons first rest ih =>
    rw [List.map_cons, List.reverse_cons, List.lookup_append, ih]
    by_cases hfirst : name = first
    · subst hfirst
      by_cases hrest : name ∈ rest <;> simp [hrest]
    · simp [hfirst, List.lookup_cons, beq_eq_false_iff_ne.mpr hfirst]

namespace Talk.Keeps

variable {node : Node} {step : ModelStep} {field : String} {contents : List String} {talk : Talk}

/-- A conversation begins with nothing filled. -/
theorem opening (node : Node) (field prompt : String) :
    (Talk.opening prompt).Keeps node field [] := rfl

/-- Observations for the model fill no field. -/
theorem observe (h : talk.Keeps node field contents) (call : ToolUse) (content : String)
    (isError : Bool) : (talk.observe call content isError).Keeps node field contents := h

/-- What is sent has the same fields filled. -/
theorem sent (h : talk.Keeps node field contents) : talk.sent.Keeps node field contents := by
  unfold Talk.sent
  split_ifs
  · exact h
  · exact h

/-- A result that is noted is kept if it fills the field. -/
theorem record (h : talk.Keeps node field contents) (limit : Nat) (call : ToolUse)
    (result : ToolResult) (name : String) :
    (talk.record node step limit call result).Keeps node field
      (contents ++ step.contents field [.toolEnd name call.name result]) := by
  have hfilled : field ∈ (if result.isError then [] else step.filledBy call.name) ↔
      result.isError = false ∧ (field, call.name) ∈ step.rawToolOutput := by
    rw [← ModelStep.mem_filledBy]
    cases result.isError <;> simp
  unfold Talk.Keeps Talk.record
  rw [Fields.lookup_putAll, lookup_reverse_map _ fun field => rawValue node field result.content]
  simp only [hfilled, ModelStep.contents, ModelStep.content?, List.filterMap_cons,
    List.filterMap_nil]
  split_ifs with hfills
  · simp
  · rw [List.append_nil]
    exact h

end Talk.Keeps

/-! ## Reading the answer -/

/-- Fields with the values picked for their names. -/
theorem OutputField.lookup_filterMap (fields : List OutputField) (pick : String → Option Value)
    (name : String) :
    (fields.filterMap fun f => (pick f.name).map (f.name, ·)).lookup name =
      if name ∈ fields.map OutputField.name then pick name else none := by
  induction fields with
  | nil => rfl
  | cons first rest ih =>
    simp only [List.filterMap_cons, List.map_cons, List.mem_cons]
    by_cases hfirst : name = first.name
    · subst hfirst
      cases hpick : pick first.name with
      | none => simp [ih, hpick]
      | some value => simp
    · cases hpick : pick first.name with
      | none => simp [ih, hfirst]
      | some value => simp [ih, hfirst, List.lookup_cons, beq_eq_false_iff_ne.mpr hfirst]

/-- Whatever the answer says, a field that was filled before has the value from before. -/
theorem Answer.lookup_parse {fields : List OutputField} {text : String}
    {captured values : List (String × Value)} (h : parse fields text captured = .ok values)
    {field : OutputField} (hfield : field ∈ fields) {value : Value}
    (hvalue : captured.lookup field.name = some value) :
    values.lookup field.name = some value := by
  obtain ⟨answered, -, rfl⟩ := exists_of_parse_eq_ok h
  rw [OutputField.lookup_filterMap fields fun name =>
    (captured.lookup name).or (answered.reverse.lookup name)]
  rw [if_pos (List.mem_map_of_mem hfield), hvalue]
  rfl

/-- Of the values from before, only those of declared fields matter. -/
theorem Answer.parse_congr {fields : List OutputField} {captured other : List (String × Value)}
    (text : String)
    (h : ∀ field ∈ fields, captured.lookup field.name = other.lookup field.name) :
    parse fields text captured = parse fields text other := by
  have hexpected : fields.filter (fun f => !Fields.has f.name captured) =
      fields.filter fun f => !Fields.has f.name other :=
    List.filter_congr fun field hfield => by rw [Fields.has, Fields.has, h field hfield]
  rw [parse_eq_map, parse_eq_map, hexpected]
  refine congrArg (Except.map · _) (funext fun answered => ?_)
  exact List.filterMap_congr fun field hfield => by rw [h field hfield]

/-! ## Following a conversation -/

/-- Collects the contents of the results that fill a field, as the observers are told of them. -/
def ModelStep.collecting (step : ModelStep) (field : String) : Monitor (List String) where
  allows _ _ := True
  after contents effect _ := contents ++ step.contents field effect.event?.toList

/-- Allows the effects of a kind. -/
def only (kind : Effect → Prop) : Monitor Unit where
  allows _ effect := kind effect
  after _ _ _ := ()

/-- The effects of talking to the model. -/
def Effect.IsTalk : Effect → Prop
  | .emit (.textDelta _ _) | .emit (.retryNotice _ _ _ _) | .ask _ | .sleep _ _ => True
  | _ => False

/-- The effects of using a tool. -/
def Effect.IsUse : Effect → Prop
  | .request _ | .act _ _ | .sleep _ _ => True
  | _ => False

namespace Activity

variable {kind : Effect → Prop}

/-- All effects are of a kind. -/
def Only (kind : Effect → Prop) (t : Activity α) : Prop :=
  t.Obeys (only kind) (fun _ _ => True) ()

/-- An activity that does nothing has no effect that could be of another kind. -/
theorem only_pure (a : α) : (pure a : Activity α).Only kind := trivial

/-- The effects of two activities in a row are of a kind if those of each are. -/
theorem Only.bind {t : Activity α} {f : α → Activity β} (ht : t.Only kind)
    (hf : ∀ a, (f a).Only kind) : (t >>= f).Only kind :=
  (obeys_bind _ _ _).2 (Obeys.mono ht fun _ a _ => hf a)

/-- A single effect is an activity of its kind. -/
theorem only_perform {effect : Effect} (h : kind effect) : (perform effect).Only kind :=
  ⟨h, fun _ => trivial⟩

/-- Effects that a monitor lets pass and takes no notice of leave it in its state. -/
theorem Only.obeys {γ : Type} {m : Monitor γ} {t : Activity α} (h : t.Only kind)
    (hm : ∀ g effect, kind effect → m.allows g effect ∧ ∀ reply, m.after g effect reply = g)
    (g : γ) : t.Obeys m (fun after _ => after = g) g := by
  induction t with
  | done a => rfl
  | step effect next ih =>
    obtain ⟨hallows, hafter⟩ := hm g effect h.1
    refine ⟨hallows, fun reply => ?_⟩
    rw [hafter reply]
    exact ih reply (h.2 reply)

end Activity

/-- All effects of the work are of a kind. -/
abbrev Work.Only (kind : Effect → Prop) (work : Work α) : Prop := work.activity.Only kind

/-- An activity before work has effects of a kind if both have. -/
theorem Work.only_lift_bind {kind : Effect → Prop} {t : Activity α} {f : α → Work β}
    (ht : t.Only kind) (hf : ∀ a, (f a).Only kind) : (Work.lift t >>= f).Only kind := by
  unfold Work.Only
  rw [activity_lift_bind]
  exact ht.bind hf

/-- The effects of two parts of work are of a kind if those of each are. -/
theorem Work.Only.bind {kind : Effect → Prop} {work : Work α} {f : α → Work β}
    (hw : work.Only kind) (hf : ∀ a, (f a).Only kind) : (work >>= f).Only kind :=
  Activity.Only.bind hw fun
    | .ok a => hf a
    | .error _ => trivial

/-- Within a call, a tool is used and nothing is told. -/
theorem ToolCall.only_invoke (call : ToolCall) (box : Toolbox) :
    (call.invoke box).Only Effect.IsUse := by
  have hsleep : ∀ (tool : ToolSpec) ms resumed,
      (CallEnd.timedOut tool call.tool <$> Activity.sleep ms resumed).Only Effect.IsUse :=
    fun tool ms resumed => ⟨trivial, fun _ => trivial⟩
  have hfinish : ∀ tool number waited, (call.finish tool number waited).Only Effect.IsUse :=
    fun tool number waited => .bind (Activity.only_perform trivial) fun
      | .answered result => Activity.only_pure _
      | .silent => hsleep tool _ _
  unfold invoke
  split
  · rename_i tool _
    unfold within
    refine .bind (Activity.only_perform trivial) fun receipt => ?_
    dsimp only
    split_ifs
    · exact hfinish tool _ _
    · refine .bind (Activity.only_perform trivial) fun cancelled => ?_
      cases cancelled with
      | true => exact Activity.only_pure _
      | false => exact hfinish tool _ _
    · exact hsleep tool _ _
  · exact Activity.only_pure _

namespace ModelStep

/-- Listening to the deltas of a reply is talk, as it only tells the text on. -/
theorem only_listen (node : String) :
    ∀ (draft : TurnDraft) (deltas : List Delta), (listen node draft deltas).Only Effect.IsTalk
  | _, [] => Activity.only_pure _
  | _, .text _ :: rest =>
    .bind (Activity.only_perform trivial) fun _ => only_listen node _ rest
  | _, .toolStart _ _ _ :: rest => only_listen node _ rest
  | _, .toolInput _ _ :: rest => only_listen node _ rest
  | _, .stop _ :: rest => only_listen node _ rest
  | _, .usage _ _ :: rest => only_listen node _ rest

/-- A single request to the model is nothing but talk. -/
theorem only_askOnce (node : String) (request : ModelRequest) :
    (askOnce node request).Only Effect.IsTalk := by
  unfold askOnce
  refine Work.only_lift_bind (Activity.only_perform trivial) fun reply => ?_
  refine Work.only_lift_bind (only_listen node _ _) fun draft => ?_
  cases reply.ending <;> exact trivial

/-- To ask the model, also again, is nothing but talk. -/
theorem only_askWithRetry (retry : RetryConfig) (node : String) (request : ModelRequest) :
    ∀ left, (askWithRetry retry node request left).Only Effect.IsTalk
  | 0 => only_askOnce node request
  | left + 1 => by
    rw [askWithRetry]
    refine Work.only_lift_bind (only_askOnce node request) fun result => ?_
    cases result with
    | ok turn => trivial
    | error error =>
      dsimp only
      split
      · trivial
      refine Work.only_lift_bind (Activity.only_perform trivial) fun _ => ?_
      refine Work.only_lift_bind (Activity.only_perform trivial) fun cancelled => ?_
      cases cancelled with
      | true => trivial
      | false => exact only_askWithRetry retry node request left

end ModelStep

/-! ## Work under a monitor -/

namespace Work

variable {γ : Type} {m : Monitor γ} {g : γ} {post : γ → α → Prop}

/-- The result, if there is one, and the monitor's state by then have the property. -/
def Obeys (m : Monitor γ) (post : γ → α → Prop) (work : Work α) (g : γ) : Prop :=
  work.activity.Obeys m (fun after => Holds (post after)) g

/-- Of what is known of errors besides, nothing is needed. -/
theorem obeys_of_activity {work : Work α} {post' : γ → Except Error α → Prop}
    (h : work.activity.Obeys m post' g) (hp : ∀ after a, post' after (.ok a) → post after a) :
    work.Obeys m post g :=
  Activity.Obeys.mono h fun after result hresult => by
    cases result with
    | ok a => exact hp after a hresult
    | error error => trivial

/-- Work in two parts has the property if the second part has it after every result of the first
one. -/
theorem Obeys.bind {work : Work α} {f : α → Work β} {post' : γ → β → Prop}
    (hw : work.Obeys m post g) (hf : ∀ after a, post after a → (f a).Obeys m post' after) :
    (work >>= f).Obeys m post' g :=
  (Activity.obeys_bind _ _ _).2 <| Activity.Obeys.mono hw fun after result hresult => by
    cases result with
    | ok a => exact hf after a hresult
    | error error => trivial

/-- A result that is there already takes no effects. -/
theorem obeys_ofExcept_bind {result : Except Error α} {f : α → Work β} {post : γ → β → Prop}
    (h : ∀ a, (f a).Obeys m post g) : (ofExcept result >>= f).Obeys m post g := by
  cases result with
  | ok a => exact h a
  | error error => trivial

/-- An activity before work has the property if the work has it after every result of the
activity. -/
theorem obeys_lift_bind {t : Activity α} {f : α → Work β} {post : γ → β → Prop}
    (h : t.Obeys m (fun after a => (f a).Obeys m post after) g) :
    (Work.lift t >>= f).Obeys m post g := by
  unfold Obeys
  rw [activity_lift_bind, Activity.obeys_bind]
  exact h

end Work

/-! ## What is collected -/

/-- The property of a result, if there is one, and of what was collected by then. -/
def Work.Collects (step : ModelStep) (field : String) (post : List String → α → Prop)
    (work : Work α) (contents : List String) : Prop :=
  work.activity.Obeys (step.collecting field) (fun after => Holds (post after)) contents

namespace Work

variable {step : ModelStep} {field : String} {contents : List String}
  {post : List String → α → Prop}

/-- Work that has its result at once collects nothing further. -/
theorem collects_pure {a : α} (h : post contents a) :
    (pure a : Work α).Collects step field post contents := h

/-- Of work that fails nothing is claimed. -/
theorem collects_throw (error : Error) :
    (throw error : Work α).Collects step field post contents := trivial

/-- What two parts of work collect is what the second part collects behind the first one. -/
theorem Collects.bind {work : Work α} {f : α → Work β} {post' : List String → β → Prop}
    (hw : work.Collects step field post contents)
    (hf : ∀ after a, post after a → (f a).Collects step field post' after) :
    (work >>= f).Collects step field post' contents :=
  Obeys.bind hw hf

/-- What an activity before work collects comes before what the work collects. -/
theorem collects_lift_bind {t : Activity α} {f : α → Work β} {post : List String → β → Prop}
    (h : t.Obeys (step.collecting field) (fun after a => (f a).Collects step field post after)
      contents) : (Work.lift t >>= f).Collects step field post contents :=
  obeys_lift_bind h

/-- Nothing is collected from an event that tells of no result. -/
theorem collects_emit {event : Event} (hevent : step.content? field event = none)
    {f : Unit → Work β} {post : List String → β → Prop}
    (h : (f ()).Collects step field post contents) :
    (Work.lift (Activity.emit event) >>= f).Collects step field post contents := by
  refine collects_lift_bind ((Activity.obeys_emit _ _).2 ⟨trivial, ?_⟩)
  simp only [ModelStep.collecting, Effect.event?, Option.toList_some,
    ModelStep.contents_eq_nil hevent, List.append_nil]
  exact h

end Work

/-- Where nothing is told of results, nothing is collected. -/
theorem Activity.Only.collects {t : Activity α} {kind : Effect → Prop} (h : t.Only kind)
    {step : ModelStep} {field : String}
    (hkind : ∀ effect, kind effect → step.contents field effect.event?.toList = [])
    (contents : List String) :
    t.Obeys (step.collecting field) (fun after _ => after = contents) contents :=
  h.obeys (fun g effect heffect => ⟨trivial, fun _ => by
    simp [ModelStep.collecting, hkind effect heffect]⟩) contents

/-- The use of a tool itself tells the observers of no result. -/
theorem ModelStep.contents_of_isUse {step : ModelStep} {field : String} (effect : Effect)
    (h : effect.IsUse) : step.contents field effect.event?.toList = [] := by
  cases effect <;> first | rfl | exact h.elim

/-- Talking to the model tells the observers of no result. -/
theorem ModelStep.contents_of_isTalk {step : ModelStep} {field : String} (effect : Effect)
    (h : effect.IsTalk) : step.contents field effect.event?.toList = [] := by
  cases effect with
  | emit event => cases event <;> first | rfl | exact h.elim
  | _ => rfl

namespace ModelStep

variable {setting : Setting} {node : Node} {step : ModelStep} {brief : Brief} {field : String}
  {contents : List String} {talk : Talk}

/-- A result that fills the field is collected when it is told. -/
theorem collects_observed (call : ToolCall) :
    (call.observed setting.toolbox).Collects step field (fun after result => after = contents ++
      step.contents field [.toolEnd call.node call.tool result]) contents := by
  unfold ToolCall.observed
  refine Work.collects_emit rfl (Work.collects_lift_bind ?_)
  refine Activity.Obeys.mono ((call.only_invoke _).collects contents_of_isUse contents) ?_
  rintro _ ended rfl
  cases ended with
  | interrupted => exact Work.collects_throw _
  | finished result =>
    exact Work.collects_lift_bind ((Activity.obeys_emit _ _).2 ⟨trivial, rfl⟩)

/-- A call that is run is noted with its result. -/
theorem collects_runCall (h : talk.Keeps node field contents) (call : ToolUse) :
    (runCall setting node step brief talk call).Collects step field
      (fun after talk => talk.Keeps node field after) contents := by
  refine (collects_observed ⟨call.name, call.input, node.name, brief.itemIndex⟩).bind
    fun after result hafter => Work.collects_pure ?_
  rw [hafter]
  exact h.record _ call result node.name

/-- What the handling of calls stops with keeps the last content. -/
def Handled.Keeps (node : Node) (field : String) (contents : List String) : Handled → Prop
  | .awaiting _ _ talk | .all talk => talk.Keeps node field contents

/-- The results of the calls of a turn are kept as they are told, the last one of each field. -/
theorem collects_handleCalls (calls : List ToolUse) (h : talk.Keeps node field contents) :
    (handleCalls setting node step brief talk calls).Collects step field
      (fun after handled => handled.Keeps node field after) contents := by
  induction calls generalizing talk contents with
  | nil => exact h
  | cons call rest ih =>
    rw [handleCalls]
    cases step.gate setting.config.approval call with
    | run => exact (collects_runCall h call).bind fun after talk htalk => ih htalk
    | refuse reason => exact ih (h.observe call reason true)
    | ask => exact h

/-- Where a conversation stops, the last content is kept: in the checkpoint, or as the value of the
field, if it is declared. -/
def Outcome.Keeps (node : Node) (field : String) (contents : List String) : ModelOutcome → Prop
  | .complete result => ∀ declared ∈ node.output, declared.name = field → ∀ content,
      contents.getLast? = some content →
        result.fields.lookup field = some (rawValue node field content)
  | .awaitApproval _ checkpoint => checkpoint.talk.Keeps node field contents

/-- An answer does not touch a field that was filled. -/
theorem outcome_keeps_of_parse {text : String} {values : List (String × Value)}
    (h : talk.Keeps node field contents)
    (hparse : Answer.parse node.output text talk.captured = .ok values) :
    Outcome.Keeps node field contents (.complete { fields := values }) := by
  rintro declared hdeclared rfl content hcontent
  refine Answer.lookup_parse hparse hdeclared ?_
  rw [h, hcontent]
  rfl

/-- While the model is asked, no results are collected. -/
theorem collects_askWithRetry (retry : RetryConfig) (name : String) (request : ModelRequest)
    (left : Nat) : (askWithRetry retry name request left).Collects step field
      (fun after _ => after = contents) contents :=
  Work.obeys_of_activity ((only_askWithRetry retry name request left).collects contents_of_isTalk
    contents) fun _ _ hafter => hafter

/-- What comes after a turn of the model keeps what was kept. -/
theorem keeps_of_weigh (h : talk.Keeps node field contents) (turn : Turn) :
    match weigh node talk turn with
    | .answer fields => Outcome.Keeps node field contents (.complete { fields })
    | .calls talk _ | .unusable talk _ => talk.Keeps node field contents := by
  have hsaid : (talk.say turn.message).Keeps node field contents := h
  unfold weigh
  dsimp only
  split_ifs
  · cases hparse : Answer.parse node.output turn.text (talk.say turn.message).captured with
    | ok fields => exact outcome_keeps_of_parse hsaid hparse
    | error fault => exact hsaid
  · exact hsaid

/-- What the calls lead to keeps the last content. -/
def Dealt.Keeps (node : Node) (field : String) (contents : List String) : Dealt → Prop
  | .stops outcome => Outcome.Keeps node field contents outcome
  | .asks talk => talk.Keeps node field contents

/-- What a turn of the model leads to keeps the last content, unless it is an error. -/
def Sequel.Keeps (node : Node) (field : String) (contents : List String) : Sequel → Prop
  | .completes fields => Outcome.Keeps node field contents (.complete { fields })
  | .fails _ => True
  | .calls talk _ | .retries talk _ => talk.Keeps node field contents

/-- What the calls lead to keeps what the handling of the calls has kept. -/
theorem keeps_deal {handled : Handled} (h : handled.Keeps node field contents)
    (steps attempts : Nat) :
    (deal node step brief steps attempts handled).Keeps node field contents := by
  cases handled with
  | awaiting call pending talk => exact h
  | all talk =>
    have hsent := Talk.Keeps.sent h
    unfold deal
    dsimp only
    split
    · -- The fields are all filled, so that there is nothing left to answer.
      rename_i hstop
      obtain ⟨values, hparse⟩ :=
        Talk.exists_parse_of_isComplete (Bool.and_eq_true_iff.1 hstop).2
      rw [hparse]
      exact outcome_keeps_of_parse hsent hparse
    · exact hsent

/-- What a turn of the model leads to keeps what the conversation has kept. -/
theorem keeps_followUp (h : talk.Keeps node field contents) (turn : Turn) (steps attempts : Nat) :
    (followUp setting node step brief steps attempts (weigh node talk turn)).Keeps node field
      contents := by
  have hweigh := keeps_of_weigh h turn
  cases hnext : weigh node talk turn with
  | answer fields =>
    rw [hnext] at hweigh
    exact hweigh
  | calls talk calls =>
    rw [hnext] at hweigh
    unfold followUp
    dsimp only
    split
    · exact hweigh
    · trivial
  | unusable talk fault =>
    rw [hnext] at hweigh
    unfold followUp
    dsimp only
    split
    · exact hweigh
    · trivial

/-- A conversation keeps the last content, over all its turns. -/
theorem collects_converse (steps attempts : Nat) (calls : List ToolUse)
    (h : talk.Keeps node field contents) :
    (converse setting node step brief steps attempts talk calls).Collects step field
      (fun after outcome => Outcome.Keeps node field after outcome) contents := by
  induction steps, attempts using rounds_induct setting step generalizing talk calls contents with
  | round steps attempts onCalls onRetry =>
    rw [converse_eq]
    refine Work.collects_lift_bind ((Activity.obeys_poll _).2 ⟨trivial, fun cancelled => ?_⟩)
    rw [show (step.collecting field).after contents .poll cancelled = contents from
      List.append_nil contents]
    cases cancelled with
    | true => exact Work.collects_throw _
    | false =>
      -- Of what is left of the round, only the handling of the calls collects anything.
      refine (collects_handleCalls calls h).bind fun after handled hhandled => ?_
      have hdealt : (deal node step brief steps attempts handled).Keeps node field after :=
        keeps_deal hhandled steps attempts
      cases hdeal : deal node step brief steps attempts handled with
      | stops outcome =>
        rw [hdeal] at hdealt
        exact hdealt
      | asks talk =>
        rw [hdeal] at hdealt
        refine (collects_askWithRetry _ _ _ _).bind fun later turn hlater => ?_
        subst hlater
        have hfollowed : (followUp setting node step brief steps attempts
            (weigh node talk turn)).Keeps node field later := keeps_followUp hdealt turn _ _
        cases hfollow : followUp setting node step brief steps attempts (weigh node talk turn) with
        | completes fields =>
          rw [hfollow] at hfollowed
          exact hfollowed
        | fails error => exact Work.collects_throw _
        | calls talk calls =>
          rw [hfollow] at hfollowed
          exact onCalls (lt_of_followUp_calls hfollow) calls hfollowed
        | retries talk message =>
          rw [hfollow] at hfollowed
          exact Work.collects_emit rfl (onRetry (lt_of_followUp_retries hfollow) [] hfollowed)

/-- A node starts with nothing filled. -/
theorem collects_start (vars : Lookup) (itemIndex : Option Nat) :
    (step.start setting node vars itemIndex).Collects step field
      (fun after outcome => Outcome.Keeps node field after outcome) [] := by
  unfold start
  refine Work.obeys_ofExcept_bind fun system => ?_
  refine Work.obeys_ofExcept_bind fun prompt => ?_
  exact collects_converse _ _ _ (.opening node field _)

/-- Whatever the caller decides, what is in the checkpoint is kept. -/
theorem collects_resume {checkpoint : Checkpoint} (h : checkpoint.talk.Keeps node field contents)
    (decision : Decision) :
    (step.resume setting node checkpoint decision).Collects step field
      (fun after outcome => Outcome.Keeps node field after outcome) contents := by
  unfold resume
  split
  · exact Work.collects_throw _
  · rename_i call _
    have hdecided : (applyDecision setting node step checkpoint.brief checkpoint.talk call
        decision).Collects step field (fun after talk => talk.Keeps node field after) contents := by
      cases decision with
      | approved => exact collects_runCall h call
      | denied reason => exact h.observe call _ true
    exact hdecided.bind fun after talk htalk => collects_converse _ _ _ htalk

/-! ## Whole executions -/

/-- The execution of a model node up to where it stopped last, with all that the observers were
told of it: the start, and what followed the caller's decisions. Every stretch may have a host and
a session of its own, so that anything can happen in between. -/
inductive Execution (setting : Setting) (node : Node) (step : ModelStep) (vars : Lookup)
    (itemIndex : Option Nat) : List Event → Except Error ModelOutcome → Prop where
  | start {σ : Type} (host : Host σ) (session : Session σ) :
    Execution setting node step vars itemIndex
      ((step.start setting node vars itemIndex).activity.events host session)
      ((step.start setting node vars itemIndex).activity.run host session).1
  | resume {events : List Event} {request : ApprovalRequest} {checkpoint : Checkpoint}
    (before : Execution setting node step vars itemIndex events
      (.ok (.awaitApproval request checkpoint)))
    (decision : Decision) {σ : Type} (host : Host σ) (session : Session σ) :
    Execution setting node step vars itemIndex
      (events ++ (step.resume setting node checkpoint decision).activity.events host session)
      ((step.resume setting node checkpoint decision).activity.run host session).1

end ModelStep

/-- Under a host, what is collected are the contents in the events. -/
theorem Work.Collects.run {step : ModelStep} {field : String} {post : List String → α → Prop}
    {work : Work α} {contents : List String} (h : work.Collects step field post contents)
    (host : Host σ) (session : Session σ) :
    Work.Holds (post (contents ++ step.contents field (work.activity.events host session)))
      (work.activity.run host session).1 := by
  -- At any time, the monitor has collected what is in the log since the start.
  let holds (collected : List String) (current : Session σ) : Prop :=
    ∃ events, current.log = session.log ++ events ∧
      collected = contents ++ step.contents field events
  have hstep : ∀ collected current effect, holds collected current →
      (step.collecting field).allows collected effect →
      holds ((step.collecting field).after collected effect (current.answer host effect).1)
        (current.answer host effect).2 := by
    rintro collected current effect ⟨events, hlog, rfl⟩ -
    refine ⟨events ++ effect.event?.toList, ?_, ?_⟩
    · rw [Activity.log_answer, hlog, List.append_assoc]
    · rw [ModelStep.contents_append, ← List.append_assoc]
      rfl
  have hstart : holds contents session := ⟨[], (List.append_nil _).symm, (List.append_nil _).symm⟩
  obtain ⟨⟨collected, ⟨events, hlog, rfl⟩, hpost⟩, -⟩ := Activity.Obeys.run hstep h hstart
  rwa [Activity.eq_events_of_log hlog] at hpost

namespace ModelStep.Execution

variable {setting : Setting} {node : Node} {step : ModelStep} {vars : Lookup}
  {itemIndex : Option Nat} {events : List Event} {result : Except Error ModelOutcome}

/-- Wherever an execution stops, the last content of every field is kept. -/
theorem keeps (h : Execution setting node step vars itemIndex events result) (field : String) :
    Work.Holds (Outcome.Keeps node field (step.contents field events)) result := by
  induction h with
  | start host session => exact (collects_start vars itemIndex).run host session
  | resume _ decision host session ih =>
    rw [contents_append]
    exact (collects_resume ih decision).run host session

/-- A node that is completed has, in every declared field that a tool filled, the full content of
the last successful result, converted to the field's type where that is possible. -/
theorem lookup_fields {outcome : NodeResult}
    (h : Execution setting node step vars itemIndex events (.ok (.complete outcome)))
    {field : OutputField} (hfield : field ∈ node.output) {content : String}
    (hlast : (step.contents field.name events).getLast? = some content) :
    outcome.fields.lookup field.name = some (rawValue node field.name content) :=
  h.keeps field.name field hfield rfl content hlast

end ModelStep.Execution

/-! ## A sample

A node with a field that a tool is to fill, and one that the model is to answer. -/

namespace Sample.Fetching

/-- A step whose tool fills a field. -/
def step : ModelStep := { prompt := "p", tools := ["fetch"], rawToolOutput := [("page", "fetch")] }

/-- A node of the step, with the filled field and one that the model is to answer. -/
def node : Node :=
  { name := "ask", kind := .model step, output := [{ name := "page" }, { name := "summary" }] }

/-- A setting with the tool. -/
def setting : Setting := ⟨{}, Toolbox.empty.register ⟨"fetch", "", .null, none, 30⟩⟩

/-- The answer of the model, which also has the field that it was not asked for. -/
def answer : String := "\x7b\"page\": \"made up\", \"summary\": \"short\"\x7d"

/-- A model that calls the tool a number of times before it answers. -/
def host : Host Nat where
  ask _ calls := match calls with
    | 0 => ⟨⟨[.text answer], .complete⟩, false, 0⟩
    | calls + 1 => ⟨⟨[.toolStart 0 "a" "fetch"], .complete⟩, false, calls⟩
  request _ calls := ⟨⟨0, 0⟩, false, calls⟩
  act _ _ calls :=
    ⟨.answered (.ok (.success (if calls = 0 then "last page" else "first page"))), false, calls⟩
  sleep _ calls := ⟨(), false, calls⟩
  freshId calls := ("i", calls)

/-- The node with a model that calls the tool so many times. -/
def run (calls : Nat) : Except Error ModelOutcome × Session Nat :=
  (step.start setting node (fun _ => none) none).activity.run host ⟨calls, false, []⟩

/-- What the observers are told. -/
def events (calls : Nat) : List Event :=
  (step.start setting node (fun _ => none) none).activity.events host ⟨calls, false, []⟩

/-- The fields with which the node is completed. -/
def fields (calls : Nat) : List (String × Value) :=
  match (run calls).1 with
  | .ok (.complete outcome) => outcome.fields
  | _ => []

/-- The run of the node with so many calls is an execution that is completed, if it has fields at
all. -/
theorem execution_of_fields {calls : Nat} (h : fields calls ≠ []) :
    ∃ outcome, outcome.fields = fields calls ∧
      step.Execution setting node (fun _ => none) none (events calls)
        (.ok (.complete outcome)) := by
  have hstart : step.Execution setting node (fun _ => none) none (events calls) (run calls).1 :=
    .start host _
  unfold fields at h ⊢
  split at h
  · rename_i outcome houtcome
    rw [houtcome] at hstart
    exact ⟨outcome, rfl, hstart⟩
  · exact absurd rfl h

/-- Of two pages that were fetched, the last one is kept. -/
theorem lookup_last_page :
    ∃ outcome, step.Execution setting node (fun _ => none) none (events 2)
        (.ok (.complete outcome)) ∧
      step.contents "page" (events 2) = ["first page", "last page"] ∧
      outcome.fields.lookup "page" = some (.string "last page") := by
  have hcontents : step.contents "page" (events 2) = ["first page", "last page"] := by
    decide +kernel
  have hfields : fields 2 ≠ [] := by decide +kernel
  obtain ⟨outcome, -, h⟩ := execution_of_fields hfields
  have hfield : ({ name := "page" } : OutputField) ∈ node.output := by decide
  have hlast : (step.contents "page" (events 2)).getLast? = some "last page" := by
    rw [hcontents]
    rfl
  exact ⟨outcome, h, hcontents, h.lookup_fields hfield hlast⟩

/-- If no page was fetched, the field that the tool was to fill has what the model answered. -/
theorem lookup_made_up_page :
    ∃ outcome, step.Execution setting node (fun _ => none) none (events 0)
        (.ok (.complete outcome)) ∧
      ("page", "fetch") ∈ step.rawToolOutput ∧ step.contents "page" (events 0) = [] ∧
      .textDelta "ask" answer ∈ events 0 ∧
      outcome.fields.lookup "page" = some (.string "made up") := by
  have hfields : fields 0 = [("page", .string "made up"), ("summary", .string "short")] := by
    decide +kernel
  have hnonempty : fields 0 ≠ [] := by simp [hfields]
  obtain ⟨outcome, houtcome, h⟩ := execution_of_fields hnonempty
  refine ⟨outcome, h, by decide, by decide +kernel, by decide +kernel, ?_⟩
  rw [houtcome, hfields]
  rfl

end Sample.Fetching

end AgentFlow
