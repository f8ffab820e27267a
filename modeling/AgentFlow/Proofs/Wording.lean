import AgentFlow.Proofs.Transcript

/-!
# What the model is shown of its turns

Every request to the model has all its turns so far, in order and word for word, and no message of
anyone else that is empty (`Repeats`). A turn is added to the messages as soon as it is taken, the
results of calls are sent only if there are any, and a checkpoint has the messages, so that neither
re-prompts nor suspensions change this (`Transcript.repeats`).

The message of a turn has its text only if there is some, so that no text in it is empty
(`Transcript.worded`). But a turn may have neither text nor calls. Its message is empty, and if the
model is asked once more, the empty message is sent, as the sample shows.
-/

namespace AgentFlow

variable {α : Type}

/-! ## The turns in some exchanges -/

/-- The turn that an exchange ends with, if it is a request that is answered. -/
def Exchange.turn? : Exchange → Option Turn
  | ⟨.ask _, reply⟩ => (ModelReply.result reply).toOption
  | _ => none

/-- The turns of the model in some exchanges. -/
def Exchange.turns (exchanges : List Exchange) : List Turn := exchanges.filterMap Exchange.turn?

/-- A turn with neither text nor calls. -/
structure Turn.IsVoid (turn : Turn) : Prop where
  text : turn.text = ""
  calls : turn.calls = []

/-- A turn without words or calls makes a message without content, and no other turn does. -/
theorem Turn.content_message_eq_nil_iff (turn : Turn) :
    turn.message.content = [] ↔ turn.IsVoid := by
  have hvoid : turn.IsVoid ↔ turn.text = "" ∧ turn.calls = [] :=
    ⟨fun h => ⟨h.text, h.calls⟩, fun h => ⟨h.1, h.2⟩⟩
  rw [hvoid, message]
  by_cases htext : turn.text = "" <;> simp [htext]

/-- An empty text is left out of a message. -/
theorem Turn.text_notMem_message (turn : Turn) : .text "" ∉ turn.message.content := by
  unfold message
  by_cases htext : turn.text = ""
  · simp [htext]
  · simp [htext, Ne.symm htext]

/-! ## Messages -/

/-- Messages that are the turns of the model, in order, and others that are not empty. -/
structure Repeats (turns : List Turn) (messages : List Message) : Prop where
  turns : messages.filter (fun message => message.role = .assistant) = turns.map Turn.message
  others : ∀ message ∈ messages, message.role ≠ .assistant → message.content ≠ []

namespace Repeats

variable {turns : List Turn} {messages : List Message}

/-- A conversation begins with no turn to be repeated. -/
theorem opening (prompt : String) : Repeats [] (Talk.opening prompt).messages where
  turns := rfl
  others message hmem _ := by
    obtain rfl := List.mem_singleton.1 hmem
    exact List.cons_ne_nil _ _

/-- A turn is repeated by its own message. -/
theorem turn (h : Repeats turns messages) (turn : Turn) :
    Repeats (turns ++ [turn]) (messages ++ [turn.message]) where
  turns := by
    rw [List.filter_append, h.turns, List.map_append]
    rfl
  others message hmem hrole := by
    rcases List.mem_append.1 hmem with hmem | hmem
    · exact h.others message hmem hrole
    · obtain rfl := List.mem_singleton.1 hmem
      exact absurd rfl hrole

/-- A message of the user that has content leaves the turns repeated. -/
theorem user (h : Repeats turns messages) {content : List Block} (hcontent : content ≠ []) :
    Repeats turns (messages ++ [⟨.user, content⟩]) where
  turns := by
    rw [List.filter_append, h.turns]
    exact List.append_nil _
  others message hmem hrole := by
    rcases List.mem_append.1 hmem with hmem | hmem
    · exact h.others message hmem hrole
    · obtain rfl := List.mem_singleton.1 hmem
      exact hcontent

/-- Results are sent only if there are some. -/
theorem sent {talk : Talk} (h : Repeats turns talk.messages) :
    Repeats turns talk.sent.messages := by
  unfold Talk.sent
  split_ifs with hresults
  · exact h.user (by simpa using hresults)
  · exact h

/-- The messages of the model are those of its turns. -/
theorem mem_turns (h : Repeats turns messages) {message : Message} (hmem : message ∈ messages)
    (hrole : message.role = .assistant) : ∃ turn ∈ turns, turn.message = message := by
  rw [← List.mem_map, ← h.turns]
  exact List.mem_filter.2 ⟨hmem, decide_eq_true hrole⟩

/-- Every turn that is repeated has its message. -/
theorem mem_messages (h : Repeats turns messages) {turn : Turn} (hmem : turn ∈ turns) :
    turn.message ∈ messages :=
  (List.mem_filter.1 (h.turns ▸ List.mem_map_of_mem hmem)).1

end Repeats

/-! ## Following a conversation -/

/-- Remembers the turns of the model, and allows to ask it only if they are repeated. -/
def repeating : Monitor (List Turn) where
  allows turns effect := ∀ request, effect = .ask request → Repeats turns request.messages
  after turns effect reply := turns ++ (Exchange.turn? ⟨effect, reply⟩).toList

/-- An effect that is no request is allowed, and brings no turn. -/
theorem repeating_of_not_isAsk (turns : List Turn) (effect : Effect) (h : effect.isAsk = false) :
    repeating.allows turns effect ∧ ∀ reply, repeating.after turns effect reply = turns := by
  cases effect with
  | ask request => cases h
  | _ =>
    refine ⟨?_, fun _ => List.append_nil _⟩
    rintro _ ⟨⟩

/-- The turns that are remembered are those in the exchanges. -/
theorem foldl_repeating (turns : List Turn) (exchanges : List Exchange) :
    exchanges.foldl (fun turns exchange =>
      repeating.after turns exchange.effect exchange.reply) turns =
      turns ++ Exchange.turns exchanges := by
  induction exchanges generalizing turns with
  | nil => exact (List.append_nil turns).symm
  | cons exchange later ih =>
    rw [List.foldl_cons, ih]
    show turns ++ exchange.turn?.toList ++ _ = _
    rw [List.append_assoc, Exchange.turns, Exchange.turns]
    cases hturn : exchange.turn? <;> simp [hturn]

/-- Whatever else is done first makes no difference. -/
theorem Activity.repeats_perform {effect : Effect} (hask : effect.isAsk = false) {turns : List Turn}
    {f : effect.Reply → Activity α} {post : List Turn → α → Prop}
    (h : ∀ reply, (f reply).Obeys repeating post turns) :
    (perform effect >>= f).Obeys repeating post turns := by
  obtain ⟨hallows, hafter⟩ := repeating_of_not_isAsk turns effect hask
  refine ⟨hallows, fun reply => ?_⟩
  rw [hafter]
  exact h reply

namespace ModelStep

variable {setting : Setting} {node : Node} {step : ModelStep} {brief : Brief} {turns : List Turn}
  {talk : Talk}

/-- Where the model is not asked, nothing is to be remembered. -/
theorem Quiet.repeats {work : Work α} (h : Quiet work) (turns : List Turn) :
    work.Obeys repeating (fun after _ => after = turns) turns := by
  have honly : work.activity.Only fun effect => effect.isAsk = false :=
    Activity.Obeys.mono h fun _ _ _ => trivial
  exact Work.obeys_of_activity (honly.obeys repeating_of_not_isAsk turns) fun _ _ hafter => hafter

/-- A call that is run leaves the turns repeated. -/
theorem repeats_runCall (h : Repeats turns talk.messages) (call : ToolUse) :
    (runCall setting node step brief talk call).Obeys repeating
      (fun after talk => Repeats after talk.messages) turns := by
  refine ((quiet_observed _ _).repeats turns).bind fun after result hafter => ?_
  subst hafter
  exact h

/-- What the handling of calls stops with repeats the turns. -/
def Handled.RepeatsTurns (turns : List Turn) : Handled → Prop
  | .awaiting _ _ talk | .all talk => Repeats turns talk.messages

/-- Handling the calls of a turn leaves the turns repeated. -/
theorem repeats_handleCalls (calls : List ToolUse) (h : Repeats turns talk.messages) :
    (handleCalls setting node step brief talk calls).Obeys repeating
      (fun after handled => handled.RepeatsTurns after) turns := by
  induction calls generalizing talk turns with
  | nil => exact h
  | cons call rest ih =>
    rw [handleCalls]
    cases step.gate setting.config.approval call with
    | run => exact (repeats_runCall h call).bind fun after talk htalk => ih htalk
    | refuse reason => exact ih h
    | ask => exact h

/-- Listening to an answer brings no turn yet. -/
theorem repeats_listen (name : String) (turns : List Turn) :
    ∀ (draft : TurnDraft) (deltas : List Delta),
      (listen name draft deltas).Obeys repeating
        (fun after ended => after = turns ∧ ended = draft.addAll deltas) turns
  | _, [] => ⟨rfl, rfl⟩
  | _, .text _ :: rest => Activity.repeats_perform rfl fun _ => repeats_listen name turns _ rest
  | _, .toolStart _ _ _ :: rest => repeats_listen name turns _ rest
  | _, .toolInput _ _ :: rest => repeats_listen name turns _ rest
  | _, .stop _ :: rest => repeats_listen name turns _ rest
  | _, .usage _ _ :: rest => repeats_listen name turns _ rest

/-- One request: if it ends with a turn, the turn is remembered. -/
theorem repeats_askOnce (name : String) {request : ModelRequest}
    (h : Repeats turns request.messages) :
    (askOnce name request).activity.Obeys repeating
      (fun after result => after = turns ++ result.toOption.toList) turns := by
  unfold askOnce
  rw [Work.activity_lift_bind, Activity.obeys_bind, Activity.obeys_ask]
  refine ⟨?_, fun reply => ?_⟩
  · rintro _ ⟨⟩
    exact h
  rw [Work.activity_lift_bind, Activity.obeys_bind]
  refine (repeats_listen name _ {} _).mono fun after draft hdraft => ?_
  obtain ⟨rfl, rfl⟩ := hdraft
  dsimp only [repeating, Exchange.turn?]
  unfold ModelReply.result
  cases reply.ending <;> rfl

/-- Asking again does not change what was asked. -/
theorem repeats_askWithRetry (retry : RetryConfig) (name : String) {request : ModelRequest}
    (h : Repeats turns request.messages) :
    ∀ left, (askWithRetry retry name request left).activity.Obeys repeating
      (fun after result => after = turns ++ result.toOption.toList) turns
  | 0 => repeats_askOnce name h
  | left + 1 => by
    rw [askWithRetry, Work.activity_lift_bind, Activity.obeys_bind]
    refine (repeats_askOnce name h).mono fun after result hafter => ?_
    cases result with
    | ok turn => exact hafter
    | error error =>
      -- There is no turn, and the next attempt asks the same.
      obtain rfl : turns = after := (hafter.trans (List.append_nil turns)).symm
      dsimp only
      split_ifs
      · exact (List.append_nil _).symm
      -- A notice and a wait, which may be cut short.
      rw [Work.activity_lift_bind]
      refine Activity.repeats_perform rfl fun _ => ?_
      rw [Work.activity_lift_bind]
      refine Activity.repeats_perform rfl fun cancelled => ?_
      cases cancelled with
      | true => exact (List.append_nil _).symm
      | false => exact repeats_askWithRetry retry name h left

/-! ## The rounds of a conversation -/

/-- Where a conversation stops, the turns are repeated in its checkpoint, if it has one. -/
def Outcome.RepeatsTurns (turns : List Turn) : ModelOutcome → Prop
  | .complete _ => True
  | .awaitApproval _ checkpoint => Repeats turns checkpoint.talk.messages

/-- What the calls lead to repeats the turns. -/
def Dealt.RepeatsTurns (turns : List Turn) : Dealt → Prop
  | .stops outcome => Outcome.RepeatsTurns turns outcome
  | .asks talk => Repeats turns talk.messages

/-- What a turn of the model leads to repeats the turns. -/
def Sequel.RepeatsTurns (turns : List Turn) : Sequel → Prop
  | .completes _ | .fails _ => True
  | .calls talk _ | .retries talk _ => Repeats turns talk.messages

/-- What the calls lead to repeats the turns that the handling of the calls did. -/
theorem repeats_deal {handled : Handled} (h : handled.RepeatsTurns turns) (steps attempts : Nat) :
    (deal node step brief steps attempts handled).RepeatsTurns turns := by
  cases handled with
  | awaiting call pending talk => exact h
  | all talk =>
    unfold deal
    dsimp only
    split
    · trivial
    · exact Repeats.sent h

/-- A turn is added to the messages, whatever it amounts to. -/
theorem repeats_followUp (h : Repeats turns talk.messages) (turn : Turn) (steps attempts : Nat) :
    (followUp setting node step brief steps attempts (weigh node talk turn)).RepeatsTurns
      (turns ++ [turn]) := by
  have hsaid : Repeats (turns ++ [turn]) (talk.say turn.message).messages := h.turn turn
  -- Whether the turn is of use is decided only when it is among the messages.
  unfold weigh
  dsimp only
  split
  · split
    · trivial
    · unfold followUp
      dsimp only
      split
      · exact hsaid.user (List.cons_ne_nil _ _)
      · trivial
  · unfold followUp
    dsimp only
    split
    · exact hsaid
    · trivial

/-- In every round the turns so far are repeated. -/
theorem repeats_converse (steps attempts : Nat) (calls : List ToolUse)
    (h : Repeats turns talk.messages) :
    (converse setting node step brief steps attempts talk calls).Obeys repeating
      (fun after outcome => Outcome.RepeatsTurns after outcome) turns := by
  induction steps, attempts using rounds_induct setting step generalizing talk calls turns with
  -- Every turn is added to the messages and to what is remembered in the same round.
  | round steps attempts onCalls onRetry =>
    rw [converse_eq]
    refine Work.obeys_lift_bind (Activity.repeats_perform rfl fun cancelled => ?_)
    cases cancelled with
    | true => trivial
    | false =>
      refine (repeats_handleCalls calls h).bind fun after handled hhandled => ?_
      have hdealt : (deal node step brief steps attempts handled).RepeatsTurns after :=
        repeats_deal hhandled steps attempts
      cases hdeal : deal node step brief steps attempts handled with
      | stops outcome =>
        rw [hdeal] at hdealt
        exact hdealt
      | asks talk =>
        rw [hdeal] at hdealt
        change Repeats after (request setting brief talk).messages at hdealt
        -- However often it takes to ask, one turn comes back, and is remembered.
        have hasked : (askWithRetry setting.config.retry node.name (request setting brief talk)
            setting.config.retry.maxRetries).Obeys repeating
              (fun later turn => later = after ++ [turn]) after :=
          Work.obeys_of_activity (repeats_askWithRetry _ _ hdealt _) fun _ _ hlater => hlater
        refine hasked.bind fun later turn hlater => ?_
        subst hlater
        have hfollowed : (followUp setting node step brief steps attempts
            (weigh node talk turn)).RepeatsTurns (after ++ [turn]) :=
          repeats_followUp hdealt turn _ _
        cases hfollow : followUp setting node step brief steps attempts (weigh node talk turn) with
        | completes fields => trivial
        | fails error => trivial
        | calls talk calls =>
          rw [hfollow] at hfollowed
          exact onCalls (lt_of_followUp_calls hfollow) calls hfollowed
        | retries talk message =>
          rw [hfollow] at hfollowed
          exact Work.obeys_lift_bind (Activity.repeats_perform rfl fun _ =>
            onRetry (lt_of_followUp_retries hfollow) [] hfollowed)

/-- A node starts with no turn. -/
theorem repeats_start (vars : Lookup) (itemIndex : Option Nat) :
    (step.start setting node vars itemIndex).Obeys repeating
      (fun after outcome => Outcome.RepeatsTurns after outcome) [] := by
  unfold start
  refine Work.obeys_ofExcept_bind fun system => ?_
  refine Work.obeys_ofExcept_bind fun prompt => ?_
  exact repeats_converse _ _ _ (.opening _)

/-- A conversation that was suspended has its turns, whatever the caller decides. -/
theorem repeats_resume {checkpoint : Checkpoint} (h : Repeats turns checkpoint.talk.messages)
    (decision : Decision) :
    (step.resume setting node checkpoint decision).Obeys repeating
      (fun after outcome => Outcome.RepeatsTurns after outcome) turns := by
  unfold resume
  split
  · trivial
  · rename_i call _
    have hdecided : (applyDecision setting node step checkpoint.brief checkpoint.talk call
        decision).Obeys repeating (fun after talk => Repeats after talk.messages) turns := by
      cases decision with
      | approved => exact repeats_runCall h call
      | denied reason => exact h
    exact hdecided.bind fun after talk htalk => repeats_converse _ _ _ htalk

/-! ## Whole executions -/

variable {vars : Lookup} {itemIndex : Option Nat} {exchanges : List Exchange}
  {result : Except Error ModelOutcome}

/-- Along a whole execution, every request repeats the turns so far. -/
theorem Transcript.repeats (h : step.Transcript setting node vars itemIndex exchanges result) :
    repeating.Admits [] exchanges ∧
      Work.Holds (Outcome.RepeatsTurns (Exchange.turns exchanges)) result := by
  induction h with
  | start path =>
    refine ⟨path.admits (repeats_start vars itemIndex), ?_⟩
    have hends := path.obeys (repeats_start vars itemIndex)
    rwa [foldl_repeating, List.nil_append] at hends
  | @resume earlier later _ checkpoint _ _ decision path ih =>
    refine ⟨(Monitor.admits_append earlier later).2 ⟨ih.1, ?_⟩, ?_⟩
    · rw [foldl_repeating, List.nil_append]
      exact path.admits (repeats_resume ih.2 decision)
    · have hends := path.obeys (repeats_resume ih.2 decision)
      rwa [foldl_repeating, Exchange.turns, Exchange.turns, ← List.filterMap_append] at hends

/-- Whatever the model says, no message of it in a request has an empty text. All messages have
content exactly if every turn so far had text or calls. -/
theorem Transcript.worded {before after : List Exchange} {request : ModelRequest}
    {reply : ModelReply} (h : step.Transcript setting node vars itemIndex
      (before ++ ⟨.ask request, reply⟩ :: after) result) :
    (∀ message ∈ request.messages, message.role = .assistant → .text "" ∉ message.content) ∧
    ((∀ message ∈ request.messages, message.content ≠ []) ↔
      ∀ turn ∈ Exchange.turns before, ¬ turn.IsVoid) := by
  have hadmits := ((Monitor.admits_append before _).1 h.repeats.1).2.1
  rw [foldl_repeating, List.nil_append] at hadmits
  have hrepeats : Repeats (Exchange.turns before) request.messages := hadmits request rfl
  refine ⟨fun message hmem hrole => ?_, fun hcontent turn hturn hvoid => ?_,
    fun hturns message hmem hempty => ?_⟩
  · obtain ⟨turn, -, rfl⟩ := hrepeats.mem_turns hmem hrole
    exact turn.text_notMem_message
  · exact hcontent _ (hrepeats.mem_messages hturn) (turn.content_message_eq_nil_iff.2 hvoid)
  · by_cases hrole : message.role = .assistant
    · obtain ⟨turn, hturn, rfl⟩ := hrepeats.mem_turns hmem hrole
      exact hturns turn hturn (turn.content_message_eq_nil_iff.1 hempty)
    · exact hrepeats.others message hmem hrole hempty

end ModelStep

/-! ## Samples

A node with one text field, whose model is asked again after a first turn of no use. -/

namespace Sample.Wording

/-- A step without tools. -/
def step : ModelStep := { prompt := "p" }

/-- A node of the step, with a field that the model is to answer. -/
def node : Node := { name := "ask", kind := .model step, output := [{ name := "answer" }] }

/-- A setting without tools. -/
def setting : Setting := ⟨{}, .empty⟩

/-- A model that answers with some pieces first, and then with a text. -/
def host (first : List Delta) : Host Nat where
  ask _ asked := ⟨⟨if asked = 0 then first else [.text "ok"], .complete⟩, false, asked + 1⟩
  request _ asked := ⟨⟨0, 0⟩, false, asked⟩
  act _ _ asked := ⟨.silent, false, asked⟩
  sleep _ asked := ⟨(), false, asked⟩
  freshId asked := ("i", asked)

/-- An execution in which the model answers with these pieces first. -/
def exchanges (first : List Delta) : List Exchange :=
  (step.start setting node (fun _ => none) none).activity.exchanges (host first) ⟨0, false, []⟩

/-- The exchanges are those of an execution, whatever it ends with. -/
theorem transcript (first : List Delta) : ∃ result,
    step.Transcript setting node (fun _ => none) none (exchanges first) result :=
  ⟨_, .start (Activity.path_run (host first) _ _)⟩

/-- What the model is asked in some exchanges. -/
def requests (exchanges : List Exchange) : List ModelRequest :=
  exchanges.filterMap fun exchange => match exchange.effect with
    | .ask request => some request
    | _ => none

/-- A request that is made has exchanges before it and behind it. -/
theorem exists_eq_append {exchanges : List Exchange} {request : ModelRequest}
    (h : request ∈ requests exchanges) :
    ∃ before reply after, exchanges = before ++ ⟨.ask request, reply⟩ :: after := by
  obtain ⟨⟨effect, reply⟩, hmem, hrequest⟩ := List.mem_filterMap.1 h
  cases effect with
  | ask other =>
    cases hrequest
    obtain ⟨before, after, hsplit⟩ := List.append_of_mem hmem
    exact ⟨before, reply, after, hsplit⟩
  | _ => cases hrequest

/-- What the model is told in every request. -/
def brief : Brief := ⟨none, [], Answer.schema? node.output, none⟩

/-- What the model is asked after its first turn. -/
def again (first : List Delta) : ModelRequest :=
  let opening : Talk := .opening (openingPrompt "p" node.output)
  ModelStep.request setting brief
    ((opening.say (Turn.ofDeltas first).message).say (.user (reprompt .empty brief.schema)))

/-- After a blank text, all messages have content. -/
theorem worded_blank : ∃ before reply after result,
    exchanges [.text " "] = before ++ ⟨.ask (again [.text " "]), reply⟩ :: after ∧
      step.Transcript setting node (fun _ => none) none (exchanges [.text " "]) result ∧
      ∀ message ∈ (again [.text " "]).messages, message.content ≠ [] := by
  have hrequest : again [.text " "] ∈ requests (exchanges [.text " "]) := by decide +kernel
  have hturns : Exchange.turns (exchanges [.text " "]) = [⟨" ", []⟩, ⟨"ok", []⟩] := by
    decide +kernel
  obtain ⟨before, reply, after, hsplit⟩ := exists_eq_append hrequest
  obtain ⟨result, htranscript⟩ := transcript [.text " "]
  refine ⟨before, reply, after, result, hsplit, htranscript, ?_⟩
  rw [hsplit] at htranscript
  refine htranscript.worded.2.2 fun turn hturn hvoid => ?_
  have hmem : turn ∈ Exchange.turns (exchanges [.text " "]) := by
    rw [hsplit, Exchange.turns, List.filterMap_append]
    exact List.mem_append_left _ hturn
  rw [hturns] at hmem
  have htext := hvoid.text
  rcases hmem with _ | ⟨_, _ | ⟨_, ⟨⟩⟩⟩ <;> exact absurd htext (by decide)

/-- After a turn with nothing in it, an empty message is sent. -/
theorem sent_void : ∃ before reply after result,
    exchanges [] = before ++ ⟨.ask (again []), reply⟩ :: after ∧
      step.Transcript setting node (fun _ => none) none (exchanges []) result ∧
      ⟨.assistant, []⟩ ∈ (again []).messages := by
  have hrequest : again [] ∈ requests (exchanges []) := by decide +kernel
  obtain ⟨before, reply, after, hsplit⟩ := exists_eq_append hrequest
  obtain ⟨result, htranscript⟩ := transcript []
  exact ⟨before, reply, after, result, hsplit, htranscript, by decide +kernel⟩

end Sample.Wording

end AgentFlow
