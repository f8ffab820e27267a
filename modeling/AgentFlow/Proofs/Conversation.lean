import AgentFlow.Proofs.Dialogue
import AgentFlow.Proofs.Failure
import AgentFlow.Proofs.Turns

/-!
# Conversations of model nodes

What a model node does to the outside: it calls tools that the gate lets pass, and asks the model
with dialogues only. Where it stops for approval, its checkpoint holds a call that the gate does
not let pass without the caller, the request shows that very call, and the calls behind it are
still to be handled (`Checkpoint.Sound`).

The conversation asks again after rounds of tool calls and after answers of no use, both of them
counted; `keeps_converse` is an induction on what is left of the two counts, and `Talk.Awaits` is
what it carries from round to round.
-/

namespace AgentFlow

variable {c : Contract}

/-! ## Calling tools -/

namespace ToolCall

/-- A call of a tool sends nothing to the model and starts no other call. -/
theorem keeps_within (call : ToolCall) (tool : ToolSpec) :
    (call.within tool).Keeps c fun _ => True := by
  have hfinish : ∀ number waited, (call.finish tool number waited).Keeps c fun _ => True := by
    intro number waited
    unfold finish
    simp only [Activity.keeps_bind, Activity.keeps_act]
    rintro (result | _)
    · trivial
    · simp only [Activity.keeps_bind, Activity.keeps_sleep, Activity.keeps_pure, implies_true]
  unfold within
  simp only [Activity.keeps_bind, Activity.keeps_request]
  rintro ⟨number, ms⟩
  dsimp only
  split_ifs
  · exact hfinish number 0
  · simp only [Activity.keeps_bind, Activity.keeps_sleep]
    rintro (_ | _)
    · exact hfinish number ms
    · trivial
  · simp only [Activity.keeps_bind, Activity.keeps_sleep, Activity.keeps_pure, implies_true]

/-- Within a call nothing is asked of the model, so that it keeps every contract. -/
theorem keeps_invoke (call : ToolCall) (box : Toolbox) :
    (call.invoke box).Keeps c fun _ => True := by
  unfold invoke
  split
  · exact call.keeps_within _
  · trivial

/-- A call after the observers were told that it starts. -/
def carryOut (call : ToolCall) (box : Toolbox) : Work ToolResult := do
  match ← Work.lift (call.invoke box) with
  | .interrupted => throw .cancelled
  | .finished result =>
    let result := ToolResult.ofExcept result
    Work.lift (Activity.emit (.toolEnd call.node call.tool result))
    return result

/-- A call is announced to the observers and then carried out. -/
theorem observed_eq (call : ToolCall) (box : Toolbox) :
    call.observed box =
      Work.lift (Activity.emit (.toolStart call.node call.tool call.input)) >>= fun _ =>
        call.carryOut box := rfl

/-- A call that is announced keeps every contract while it is carried out. -/
theorem keeps_carryOut (call : ToolCall) (box : Toolbox) :
    (call.carryOut box).Keeps c fun _ => True := by
  unfold carryOut
  simp only [Work.keeps_bind, Work.keeps_lift]
  refine (call.keeps_invoke box).mono ?_
  rintro (result | _) -
  · simp only [Work.keeps_bind, Work.keeps_lift, Activity.keeps_emit, Work.keeps_pure]
    exact ⟨trivial, trivial⟩
  · exact c.fault_of_not_structural id

/-- A call keeps a contract that allows to start it. -/
theorem keeps_observed (call : ToolCall) (box : Toolbox)
    (h : c.call call.node call.tool call.input) : (call.observed box).Keeps c fun _ => True := by
  rw [observed_eq]
  simp only [Work.keeps_bind, Work.keeps_lift, Activity.keeps_emit]
  exact ⟨h, call.keeps_carryOut box⟩

end ToolCall

/-! ## Asking the model -/

namespace ModelStep

/-- Listening to a reply keeps every contract, and ends with all its deltas taken in. -/
@[simp]
theorem keeps_listen (node : String) (post : TurnDraft → Prop) :
    ∀ (draft : TurnDraft) (deltas : List Delta),
      (listen node draft deltas).Keeps c post ↔ post (draft.addAll deltas)
  | _, [] => Iff.rfl
  | draft, .text chunk :: rest => by
    rw [listen]
    simp only [Activity.keeps_bind, Activity.keeps_emit]
    rw [keeps_listen]
    exact and_iff_right trivial
  | draft, .toolStart index id name :: rest => keeps_listen node post _ rest
  | draft, .toolInput index fragment :: rest => keeps_listen node post _ rest
  | draft, .stop reason :: rest => keeps_listen node post _ rest
  | draft, .usage input output :: rest => keeps_listen node post _ rest

/-- A request keeps a contract that allows it. -/
theorem keeps_askOnce (node : String) {request : ModelRequest} (h : c.request request) :
    (askOnce node request).Keeps c fun _ => True := by
  unfold askOnce
  simp only [Work.keeps_bind, Work.keeps_lift, Activity.keeps_ask, keeps_listen]
  refine ⟨h, fun reply hr => ?_⟩
  cases he : reply.ending with
  | complete => trivial
  | broken error => exact c.fault_of_reply hr he
  | interrupted => exact c.fault_of_not_structural id

/-- A request that is allowed keeps the contract, also when it is made again. -/
theorem keeps_askWithRetry (retry : RetryConfig) (node : String) {request : ModelRequest}
    (h : c.request request) :
    ∀ left, (askWithRetry retry node request left).Keeps c fun _ => True
  | 0 => keeps_askOnce node h
  | left + 1 => by
    rw [askWithRetry]
    simp only [Work.keeps_bind, Work.keeps_lift]
    refine Activity.Keeps.mono (keeps_askOnce node h) fun result hresult => ?_
    cases result with
    | ok turn => trivial
    | error error =>
      have hlater := keeps_askWithRetry retry node h left
      have hcancelled : c.fault .cancelled := c.fault_of_not_structural id
      dsimp only
      split_ifs
      · -- The failure is not worth another try.
        simp only [Work.keeps_bind, Work.keeps_throw]
        exact hresult
      · simp only [Work.keeps_bind, Work.keeps_lift, Activity.keeps_emit, Activity.keeps_sleep]
        refine ⟨trivial, fun cancelled => ?_⟩
        cases cancelled
        · exact hlater
        · exact hcancelled

end ModelStep

/-! ## Handling calls -/

/-- A contract that allows the calls that the gate of a model node lets pass. -/
def Contract.Passes (c : Contract) (setting : Setting) (node : Node) (step : ModelStep) : Prop :=
  ∀ call : ToolUse, step.gate setting.config.approval call = .run →
    c.call node.name call.name call.input

/-- A contract that allows to ask the model with dialogues on a prompt. -/
def Contract.Hears (c : Contract) (prompt : String) : Prop :=
  ∀ request : ModelRequest, Dialogue prompt request.messages → c.request request

/-- A conversation that waits for the caller's approval of the call in the request: the gate does
not let the call pass, and the calls behind it are still to be handled. -/
def Checkpoint.Sound (setting : Setting) (node : Node) (step : ModelStep) (prompt : String)
    (request : ApprovalRequest) (checkpoint : Checkpoint) : Prop :=
  ∃ call, checkpoint.awaiting = some call ∧ step.gate setting.config.approval call = .ask ∧
    request = ⟨node.name, call.name, call.input⟩ ∧
    checkpoint.talk.Awaits prompt (call :: checkpoint.pending)

namespace ModelStep

variable {setting : Setting} {node : Node} {step : ModelStep} {brief : Brief} {prompt : String}

/-- What handling calls leaves: a call that the gate does not let pass, or none. -/
def Handled.Sound (setting : Setting) (step : ModelStep) (prompt : String) : Handled → Prop
  | .awaiting call pending talk =>
    step.gate setting.config.approval call = .ask ∧ talk.Awaits prompt (call :: pending)
  | .all talk => talk.Awaits prompt []

/-- An outcome of a conversation, sound if it is an answer. -/
def Outcome.Sound (setting : Setting) (node : Node) (step : ModelStep) (prompt : String) :
    ModelOutcome → Prop
  | .complete _ => True
  | .awaitApproval request checkpoint => checkpoint.Sound setting node step prompt request

/-- The call that was handled gets its result. -/
theorem keeps_runCall {talk : Talk} {call : ToolUse} {rest : List ToolUse}
    (hcall : c.call node.name call.name call.input) (h : talk.Awaits prompt (call :: rest)) :
    (runCall setting node step brief talk call).Keeps c fun talk => talk.Awaits prompt rest := by
  unfold runCall
  simp only [Work.keeps_bind, Work.keeps_pure]
  exact (ToolCall.keeps_observed _ _ hcall).mono fun result _ => h.record node step _ result

/-- The calls of a turn are handled in order, up to the first that the gate does not let pass. -/
theorem keeps_handleCalls (hpasses : c.Passes setting node step) :
    ∀ (talk : Talk) (calls : List ToolUse), talk.Awaits prompt calls →
      (handleCalls setting node step brief talk calls).Keeps c (Handled.Sound setting step prompt)
  | talk, [], h => h
  | talk, call :: rest, h => by
    rw [handleCalls]
    cases hgate : step.gate setting.config.approval call with
    | run =>
      simp only [Work.keeps_bind]
      exact (keeps_runCall (hpasses call hgate) h).mono fun talk htalk =>
        keeps_handleCalls hpasses talk rest htalk
    | refuse reason => exact keeps_handleCalls hpasses _ rest (h.observe reason true)
    | ask => exact ⟨hgate, h⟩

/-! ## The conversation -/

/-- A conversation starts only calls that the gate lets pass, asks the model with dialogues, and
stops with an answer or at a sound checkpoint. -/
theorem keeps_converse (hpasses : c.Passes setting node step) (hhears : c.Hears prompt)
    (steps attempts : Nat) (talk : Talk) (calls : List ToolUse) (h : talk.Awaits prompt calls) :
    (converse setting node step brief steps attempts talk calls).Keeps c
      (Outcome.Sound setting node step prompt) := by
  induction steps, attempts using rounds_induct setting step generalizing talk calls with
  | round steps attempts onCalls onRetry =>
    rw [converse]
    simp only [Work.keeps_bind, Work.keeps_lift, Activity.keeps_poll]
    rintro (_ | _)
    · simp only [Bool.false_eq_true, if_false, Work.keeps_bind]
      refine (keeps_handleCalls hpasses talk calls h).mono fun handled hhandled => ?_
      rcases handled with ⟨call, pending, talk⟩ | talk
      · exact ⟨call, rfl, hhandled.1, rfl, hhandled.2⟩
      -- No call is left: what was noted is sent, and the conversation is a dialogue.
      obtain ⟨hdialogue, hnone⟩ := Talk.Awaits.feedBack hhandled
      dsimp only
      -- Of what is sent, only these two facts matter from here on.
      generalize (if !talk.observations.isEmpty then talk.feedBack else talk) = sent at *
      split
      · trivial
      simp only [Work.keeps_bind]
      refine (keeps_askWithRetry _ _ (hhears _ hdialogue) _).mono fun turn _ => ?_
      cases hweigh : weigh node sent turn with
      | answer fields => trivial
      | calls next asked =>
        have hnext := awaits_of_weigh_calls hdialogue hnone hweigh
        dsimp only
        split_ifs with hsteps
        · exact onCalls hsteps next asked hnext
        · exact c.fault_of_not_structural id
      | unusable next fault =>
        have hnext := awaits_of_weigh_unusable hdialogue hnone hweigh (reprompt fault brief.schema)
        dsimp only
        split_ifs with hattempts
        · simp only [Work.keeps_bind, Work.keeps_lift, Activity.keeps_emit]
          exact ⟨trivial, onRetry hattempts _ [] hnext⟩
        · exact c.fault_of_not_structural id
    · exact c.fault_of_not_structural id

/-- The opening prompt, filled in. -/
def rendered (step : ModelStep) (node : Node) (vars : Lookup) : Except Error String :=
  (Template.interpolate vars step.prompt).map fun prompt =>
    openingPrompt prompt (step.answered node.output)

/-- The conversation of a node is sound from its start. -/
theorem keeps_start {vars : Lookup} {itemIndex : Option Nat} (hpasses : c.Passes setting node step)
    (hhears : ∀ prompt, step.rendered node vars = .ok prompt → c.Hears prompt) :
    (step.start setting node vars itemIndex).Keeps c fun outcome =>
      ∃ prompt, step.rendered node vars = .ok prompt ∧
        Outcome.Sound setting node step prompt outcome := by
  unfold start
  simp only [Work.keeps_bind]
  refine Ordinary.keeps ?_ fun system _ => ?_
  · split
    · exact (Template.ordinary_interpolate vars _).map _
    · exact ordinary_ok _
  refine (Template.ordinary_interpolate vars step.prompt).keeps fun prompt hprompt => ?_
  have hrendered : step.rendered node vars =
      .ok (openingPrompt prompt (step.answered node.output)) := by
    unfold rendered
    rw [hprompt]
    rfl
  exact (keeps_converse hpasses (hhears _ hrendered) 0 0 _ [] (.opening _)).mono
    fun outcome h => ⟨_, hrendered, h⟩

variable {checkpoint : Checkpoint} {request : ApprovalRequest}

/-- An approved call is started at once, as it was shown to the caller; what follows starts only
calls that the gate lets pass. -/
theorem exists_resume_approved (h : checkpoint.Sound setting node step prompt request) :
    ∃ rest : Work ModelOutcome,
      step.resume setting node checkpoint .approved =
        Work.lift (Activity.emit (.toolStart request.node request.tool request.input)) >>=
          (fun _ => rest) ∧
      ∀ c : Contract, c.Passes setting node step → c.Hears prompt →
        rest.Keeps c (Outcome.Sound setting node step prompt) := by
  obtain ⟨call, hawaiting, -, rfl, htalk⟩ := h
  let toolCall : ToolCall := ⟨call.name, call.input, node.name, checkpoint.brief.itemIndex⟩
  refine ⟨toolCall.carryOut setting.toolbox >>= fun result =>
    converse setting node step checkpoint.brief checkpoint.steps checkpoint.parseAttempts
      (checkpoint.talk.record node step setting.config.engine.maxToolOutputChars call result)
      checkpoint.pending, ?_, fun c hpasses hhears => ?_⟩
  · -- Starting the call is the first effect of running it.
    unfold resume
    rw [hawaiting]
    simp only [applyDecision, runCall, ToolCall.observed_eq, bind_assoc, pure_bind]
    rfl
  · simp only [Work.keeps_bind]
    exact (toolCall.keeps_carryOut _).mono fun result _ =>
      keeps_converse hpasses hhears _ _ _ _ (htalk.record node step _ result)

/-- A sound checkpoint leads to sound outcomes, whatever the caller decides. -/
theorem keeps_resume (h : checkpoint.Sound setting node step prompt request) (decision : Decision)
    (hpasses : c.Passes setting node step) (hhears : c.Hears prompt)
    (happroved : decision = .approved → c.call request.node request.tool request.input) :
    (step.resume setting node checkpoint decision).Keeps c
      (Outcome.Sound setting node step prompt) := by
  cases decision with
  | approved =>
    obtain ⟨rest, heq, hrest⟩ := exists_resume_approved h
    rw [heq]
    simp only [Work.keeps_bind, Work.keeps_lift, Activity.keeps_emit]
    exact ⟨happroved rfl, hrest c hpasses hhears⟩
  | denied reason =>
    obtain ⟨call, hawaiting, -, -, htalk⟩ := h
    unfold resume
    rw [hawaiting]
    exact keeps_converse hpasses hhears _ _ _ _ (htalk.observe _ true)

/-! ## Whole executions -/

/-- The stretches of a node's execution between the caller's decisions: the start, and what follows
a decision on a checkpoint at which an earlier stretch stopped. Every stretch may have a host and a
session of its own, so that anything can happen in between. -/
inductive Stretch (setting : Setting) (node : Node) (step : ModelStep) (vars : Lookup)
    (itemIndex : Option Nat) : Work ModelOutcome → Prop where
  | start : Stretch setting node step vars itemIndex (step.start setting node vars itemIndex)
  | resume {earlier : Work ModelOutcome} {σ : Type} {host : Host σ} {session : Session σ}
      {request : ApprovalRequest} {checkpoint : Checkpoint}
      (before : Stretch setting node step vars itemIndex earlier)
      (stopped : (earlier.activity.run host session).1 = .ok (.awaitApproval request checkpoint))
      (decision : Decision) :
      Stretch setting node step vars itemIndex (step.resume setting node checkpoint decision)

/-- The contract of asking the model with dialogues only. -/
def speaking (step : ModelStep) (node : Node) (vars : Lookup) : Contract where
  call _ _ _ := True
  request request := ∃ prompt, step.rendered node vars = .ok prompt ∧
    Dialogue prompt request.messages
  reply _ := True

variable {vars : Lookup} {itemIndex : Option Nat} {work : Work ModelOutcome} {σ : Type}

/-- Every stretch asks the model with dialogues, and stops at sound checkpoints only. -/
theorem Stretch.keeps (h : Stretch setting node step vars itemIndex work) :
    work.Keeps (step.speaking node vars) fun outcome =>
      ∃ prompt, step.rendered node vars = .ok prompt ∧
        Outcome.Sound setting node step prompt outcome := by
  induction h with
  | start =>
    exact keeps_start (fun _ _ => trivial) fun prompt hprompt request hrequest =>
      ⟨prompt, hprompt, hrequest⟩
  | @resume _ _ host session _ _ before stopped decision ih =>
    have hmeets : host.Meets (step.speaking node vars) := fun _ _ => trivial
    have hsound := (Activity.Keeps.run hmeets ih session).1
    rw [stopped] at hsound
    obtain ⟨prompt, hprompt, hcheckpoint⟩ := hsound
    have hresume : (step.resume setting node _ decision).Keeps (step.speaking node vars)
        (Outcome.Sound setting node step prompt) :=
      keeps_resume hcheckpoint decision (fun _ _ => trivial)
        (fun request hrequest => ⟨prompt, hprompt, hrequest⟩) fun _ => trivial
    exact hresume.mono fun outcome houtcome => ⟨prompt, hprompt, houtcome⟩

/-- Whatever the model, the tools and the caller do, the messages of every request to the model are
a dialogue that starts with the node's prompt. -/
theorem Stretch.dialogue_of_ask (h : Stretch setting node step vars itemIndex work)
    (host : Host σ) (session : Session σ) {request : ModelRequest}
    (hask : .ask request ∈ work.activity.effects host session) :
    ∃ prompt, step.rendered node vars = .ok prompt ∧ Dialogue prompt request.messages :=
  (Activity.Keeps.run (fun _ _ => trivial) h.keeps session).2 _ hask

end ModelStep

/-! ## A sample

A node whose model calls the same tool in every turn, each call with the caller's approval. -/

namespace Sample

/-- A step with one tool, whose calls ask the caller first. -/
def step : ModelStep := { prompt := "p", tools := ["t"], requireApproval := true }

/-- A node of the step. -/
def node : Node := { name := "n", kind := .model step }

/-- A setting with the tool. -/
def setting : Setting := ⟨{}, Toolbox.empty.register ⟨"t", "", .null, none, 30⟩⟩

/-- A model that calls the tool at every turn, and a tool that answers. -/
def host : Host Unit where
  ask _ _ := ⟨⟨[.toolStart 0 "a" "t"], .complete⟩, false, ()⟩
  request _ _ := ⟨⟨0, 0⟩, false, ()⟩
  act _ _ _ := ⟨.answered (.ok (.success "r")), false, ()⟩
  sleep _ _ := ⟨(), false, ()⟩
  freshId _ := ("i", ())

/-- The turn in which the model calls the tool. -/
def turn : Message := ⟨.assistant, [.toolUse "a" "t" (.map [])]⟩

/-- Where the node stops in its first turn. -/
def checkpoint : Checkpoint where
  brief := ⟨none, [⟨"t", "", .null⟩], none, none⟩
  talk := { messages := [.user "p", turn] }
  awaiting := some ⟨"a", "t", .map []⟩
  pending := []
  steps := 1
  parseAttempts := 0

/-- What the model is asked once the call is approved. -/
def request : ModelRequest :=
  ⟨none, none, [.user "p", turn, .toolResult "a" "r" false], [⟨"t", "", .null⟩], none⟩

/-- The request after the approval is a dialogue. -/
theorem dialogue_request :
    .ask request ∈ (step.resume setting node checkpoint .approved).activity.effects host
        ⟨(), false, []⟩ ∧
      ∃ prompt, step.rendered node (fun _ => none) = .ok prompt ∧
        Dialogue prompt request.messages := by
  have hstopped : ((step.start setting node (fun _ => none) none).activity.run host
      ⟨(), false, []⟩).1 = .ok (.awaitApproval ⟨"n", "t", .map []⟩ checkpoint) := by
    with_unfolding_all rfl
  have heffects : (step.resume setting node checkpoint .approved).activity.effects host
      ⟨(), false, []⟩ = [.emit (.toolStart "n" "t" (.map [])),
        .request ⟨"t", .map [], "n", none⟩, .act ⟨"t", .map [], "n", none⟩ 0,
        .emit (.toolEnd "n" "t" (.success "r")), .poll, .ask request, .poll] := by
    with_unfolding_all rfl
  have hask : .ask request ∈ (step.resume setting node checkpoint .approved).activity.effects host
      ⟨(), false, []⟩ := by
    rw [heffects]
    simp
  exact ⟨hask, ModelStep.Stretch.dialogue_of_ask (.resume .start hstopped .approved) host _ hask⟩

end Sample

end AgentFlow
