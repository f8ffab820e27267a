import AgentFlow.Proofs.Capture

/-!
# Two executions that differ in hidden results

A result that fills a field is hidden from the model, which is told a short note instead. Here a
model node is executed twice, in environments that agree but for the contents of such results. What
is hidden makes no difference to what the model is asked, to the calls that are made, or to where
the execution stops and why; where it is completed, it makes a difference only to the fields that
were filled.

`Activity.Alike` relates the two executions as trees: effect by effect they are the same, but for
what the observers are told of hidden results, and where a tool acts, each goes on with a reply of
its own. The relation carries what was collected for every field by then, since whether a field was
filled, though not with what, is part of what the two have in common. `Activity.Alike.run` is the
way to hosts.
-/

namespace AgentFlow

variable {α α' β β' σ σ' : Type}

/-! ## Results that may differ -/

/-- Whether results of a tool are hidden, since they fill a field. -/
def ModelStep.Hides (step : ModelStep) (tool : String) : Prop :=
  ∃ field, (field, tool) ∈ step.rawToolOutput

/-- Two results that are the same, but for the content if they are successful and hidden. -/
inductive ToolResult.Alike (hidden : Prop) : ToolResult → ToolResult → Prop where
  | same (result : ToolResult) : Alike hidden result result
  | success (h : hidden) (content content' : String) :
    Alike hidden (.success content) (.success content')

/-- Two replies of a tool that are the same, but for hidden contents. -/
inductive ToolReply.Alike (hidden : Prop) : ToolReply → ToolReply → Prop where
  | same (reply : ToolReply) : Alike hidden reply reply
  | answered {result result' : ToolResult} (h : result.Alike hidden result') :
    Alike hidden (.answered (.ok result)) (.answered (.ok result'))

/-- Two ends of a call that are the same, but for hidden contents. -/
inductive CallEnd.Alike (hidden : Prop) : CallEnd → CallEnd → Prop where
  | same (ended : CallEnd) : Alike hidden ended ended
  | finished {result result' : ToolResult} (h : result.Alike hidden result') :
    Alike hidden (.finished (.ok result)) (.finished (.ok result'))

/-- Two effects that are the same, but for hidden contents that are told. -/
inductive Effect.Alike (step : ModelStep) : Effect → Effect → Prop where
  | same (effect : Effect) : Alike step effect effect
  | toolEnd (node : String) {tool : String} {result result' : ToolResult}
    (h : result.Alike (step.Hides tool) result') :
    Alike step (.emit (.toolEnd node tool result)) (.emit (.toolEnd node tool result'))

/-! ## Activities -/

/-- What was collected for every field, after an effect. -/
def ModelStep.gather (step : ModelStep) (contents : String → List String) (effect : Effect) :
    String → List String :=
  fun field => contents field ++ step.contents field effect.event?.toList

/-- An effect that tells of nothing collects nothing. -/
theorem ModelStep.gather_of_event? {step : ModelStep} (contents : String → List String)
    {effect : Effect} (h : effect.event? = none) : step.gather contents effect = contents :=
  funext fun field => by
    rw [gather, h]
    exact List.append_nil _

/-- Whether a tool acts. -/
def Effect.isAct : Effect → Bool
  | .act _ _ => true
  | _ => false

/-- Two activities with the same effects, but for hidden contents, whose results have the property
with what the first one has collected by then. -/
inductive Activity.Alike (step : ModelStep) (post : (String → List String) → α → α' → Prop) :
    (String → List String) → Activity α → Activity α' → Prop where
  | done {contents : String → List String} {a : α} {a' : α'} (h : post contents a a') :
    Alike step post contents (.done a) (.done a')
  | step {contents : String → List String} {effect : Effect} {next : effect.Reply → Activity α}
    {next' : effect.Reply → Activity α'} (hact : effect.isAct = false)
    (h : ∀ reply, Alike step post (step.gather contents effect) (next reply) (next' reply)) :
    Alike step post contents (.step effect next) (.step effect next')
  | act {contents : String → List String} (call : ToolCall) (number : Nat)
    {next : ToolReply → Activity α} {next' : ToolReply → Activity α'}
    (h : ∀ reply reply', reply.Alike (step.Hides call.tool) reply' →
      Alike step post contents (next reply) (next' reply')) :
    Alike step post contents (.step (.act call number) next) (.step (.act call number) next')
  | toolEnd {contents : String → List String} (node : String) {tool : String}
    {result result' : ToolResult} (hresult : result.Alike (step.Hides tool) result')
    {next : Unit → Activity α} {next' : Unit → Activity α'}
    (h : Alike step post (step.gather contents (.emit (.toolEnd node tool result)))
      (next ()) (next' ())) :
    Alike step post contents (.step (.emit (.toolEnd node tool result)) next)
      (.step (.emit (.toolEnd node tool result')) next')

namespace Activity.Alike

variable {step : ModelStep} {post : (String → List String) → α → α' → Prop}
  {contents : String → List String} {t : Activity α} {t' : Activity α'}

/-- Two activities in two parts are alike if the second parts are, after any results that the first
ones can have. -/
theorem bind {f : α → Activity β} {f' : α' → Activity β'}
    {post' : (String → List String) → β → β' → Prop} (h : t.Alike step post contents t')
    (hf : ∀ contents a a', post contents a a' → (f a).Alike step post' contents (f' a')) :
    (t >>= f).Alike step post' contents (t' >>= f') := by
  induction h with
  | done h => exact hf _ _ _ h
  | step hact _ ih => exact .step hact ih
  | act call number _ ih => exact .act call number ih
  | toolEnd node hresult _ ih => exact .toolEnd node hresult ih

/-- A weaker property of the results. -/
theorem mono {post' : (String → List String) → α → α' → Prop} (h : t.Alike step post contents t')
    (hp : ∀ contents a a', post contents a a' → post' contents a a') :
    t.Alike step post' contents t' := by
  induction h with
  | done h => exact .done (hp _ _ _ h)
  | step hact _ ih => exact .step hact ih
  | act call number _ ih => exact .act call number ih
  | toolEnd node hresult _ ih => exact .toolEnd node hresult ih

/-- An effect on both sides that tells of nothing. -/
theorem perform {effect : Effect} (hact : effect.isAct = false) (hevent : effect.event? = none)
    {f : effect.Reply → Activity α} {f' : effect.Reply → Activity α'}
    (h : ∀ reply, (f reply).Alike step post contents (f' reply)) :
    (Activity.perform effect >>= f).Alike step post contents (Activity.perform effect >>= f') := by
  refine .step hact fun reply => ?_
  rw [step.gather_of_event? contents hevent]
  exact h reply

end Activity.Alike

/-- Talking to the model is the same on both sides, and collects nothing. -/
theorem Activity.Only.alike {t : Activity α} (h : t.Only Effect.IsTalk) (step : ModelStep)
    (contents : String → List String) :
    t.Alike step (fun after a a' => after = contents ∧ a = a') contents t := by
  induction t with
  | done a => exact .done ⟨rfl, rfl⟩
  | step effect next ih =>
    have hgather : step.gather contents effect = contents := funext fun field => by
      rw [ModelStep.gather, ModelStep.contents_of_isTalk effect h.1, List.append_nil]
    refine .step ?_ fun reply => ?_
    · have htalk : effect.IsTalk := h.1
      cases effect <;> first | rfl | exact htalk.elim
    · rw [hgather]
      exact ih reply (h.2 reply)

/-! ## Under hosts -/

/-- Two answers with replies that have a property and worlds that are related. -/
structure Answered.Alike {ρ ρ' : Type} (replies : ρ → ρ' → Prop) (worlds : σ → σ' → Prop)
    (a : Answered ρ σ) (a' : Answered ρ' σ') : Prop where
  reply : replies a.reply a'.reply
  cancels : a.cancels = a'.cancels
  world : worlds a.world a'.world

/-- Two environments that agree, as long as their worlds are related, on everything but the contents
of successful results of tools that the node hides. -/
structure Host.Alike (step : ModelStep) (worlds : σ → σ' → Prop) (host : Host σ) (host' : Host σ') :
    Prop where
  ask : ∀ request {w w'}, worlds w w' →
    (host.ask request w).Alike Eq worlds (host'.ask request w')
  request : ∀ call {w w'}, worlds w w' →
    (host.request call w).Alike Eq worlds (host'.request call w')
  act : ∀ call number {w w'}, worlds w w' →
    (host.act call number w).Alike (ToolReply.Alike (step.Hides call.tool)) worlds
      (host'.act call number w')
  sleep : ∀ ms {w w'}, worlds w w' → (host.sleep ms w).Alike Eq worlds (host'.sleep ms w')
  freshId : ∀ {w w'}, worlds w w' → (host.freshId w).1 = (host'.freshId w').1 ∧
    worlds (host.freshId w).2 (host'.freshId w').2

/-- Two sessions that agree but for what the observers were told. -/
structure Session.Alike (worlds : σ → σ' → Prop) (s : Session σ) (s' : Session σ') : Prop where
  world : worlds s.world s'.world
  cancelled : s.cancelled = s'.cancelled

section Hosts

variable {step : ModelStep} {worlds : σ → σ' → Prop} {host : Host σ} {host' : Host σ'}
  {s : Session σ} {s' : Session σ'}

/-- After replies that are alike, sessions that were alike still are. -/
theorem Session.Alike.after {ρ ρ' : Type} {replies : ρ → ρ' → Prop} (hs : s.Alike worlds s')
    {a : Answered ρ σ} {a' : Answered ρ' σ'} (h : a.Alike replies worlds a') :
    (s.after a).Alike worlds (s'.after a') :=
  ⟨h.world, congrArg₂ (· || ·) hs.cancelled h.cancels⟩

/-- Sessions that agree answer alike, unless a tool acts, and agree afterwards. -/
theorem Host.Alike.answer (h : host.Alike step worlds host') (hs : s.Alike worlds s')
    {effect : Effect} (hact : effect.isAct = false) :
    (s.answer host effect).1 = (s'.answer host' effect).1 ∧
      (s.answer host effect).2.Alike worlds (s'.answer host' effect).2 := by
  cases effect with
  | emit event => exact ⟨rfl, hs.world, hs.cancelled⟩
  | act call number => cases hact
  | ask request =>
    have hasked := h.ask request hs.world
    refine ⟨hasked.reply, hs.after (h := ⟨hasked.reply, ?_, hasked.world⟩)⟩
    simp only [hasked.cancels, hasked.reply]
  | request call =>
    have hrequested := h.request call hs.world
    exact ⟨hrequested.reply, hs.after hrequested⟩
  | sleep ms resumed =>
    have hslept := hs.after (h.sleep ms hs.world)
    exact ⟨hslept.cancelled, hslept⟩
  | poll => exact ⟨hs.cancelled, hs⟩
  | cancel => exact ⟨rfl, hs.world, rfl⟩
  | freshId =>
    obtain ⟨hid, hworld⟩ := h.freshId hs.world
    exact ⟨hid, hworld, hs.cancelled⟩

/-- Two activities that come to the same under two hosts, but for hidden contents. -/
structure Activity.RunsAlike (step : ModelStep) (worlds : σ → σ' → Prop)
    (post : (String → List String) → α → α' → Prop) (contents : String → List String)
    (host : Host σ) (host' : Host σ') (t : Activity α) (t' : Activity α') (s : Session σ)
    (s' : Session σ') : Prop where
  effects : List.Forall₂ (Effect.Alike step) (t.effects host s) (t'.effects host' s')
  session : (t.run host s).2.Alike worlds (t'.run host' s').2
  result : post (fun field => contents field ++ step.contents field (t.events host s))
    (t.run host s).1 (t'.run host' s').1

/-- The events of an effect and of what follows it. -/
theorem Activity.events_step (effect : Effect) (next : effect.Reply → Activity α)
    (s : Session σ) : (Activity.step effect next).events host s = effect.event?.toList ++
      (next (s.answer host effect).1).events host (s.answer host effect).2 := by
  cases effect <;> rfl

/-- Alike effects in front of activities that come to the same. -/
theorem Activity.RunsAlike.cons {post : (String → List String) → α → α' → Prop}
    {contents : String → List String} {effect effect' : Effect}
    {next : effect.Reply → Activity α} {next' : effect'.Reply → Activity α'}
    (heffect : effect.Alike step effect')
    (h : RunsAlike step worlds post (step.gather contents effect) host host'
      (next (s.answer host effect).1) (next' (s'.answer host' effect').1)
      (s.answer host effect).2 (s'.answer host' effect').2) :
    RunsAlike step worlds post contents host host' (.step effect next) (.step effect' next') s
      s' := by
  have hcontents : (fun field => contents field ++
      step.contents field ((Activity.step effect next).events host s)) =
        fun field => step.gather contents effect field ++ step.contents field
          ((next (s.answer host effect).1).events host (s.answer host effect).2) :=
    funext fun field => by
      rw [Activity.events_step, ModelStep.contents_append, ModelStep.gather, List.append_assoc]
  refine ⟨.cons heffect h.effects, h.session, ?_⟩
  rw [hcontents]
  exact h.result

/-- Under hosts that agree, activities that are alike come to the same. -/
theorem Activity.Alike.run (h : host.Alike step worlds host')
    {post : (String → List String) → α → α' → Prop} {contents : String → List String}
    {t : Activity α} {t' : Activity α'} (ht : t.Alike step post contents t')
    (hs : s.Alike worlds s') : RunsAlike step worlds post contents host host' t t' s s' := by
  induction ht generalizing s s' with
  | @done contents a a' ha =>
    have hnone : (fun field => contents field ++ step.contents field []) = contents :=
      funext fun field => List.append_nil _
    exact ⟨.nil, hs, hnone.symm ▸ ha⟩
  | @step contents effect next next' hact _ ih =>
    obtain ⟨hreply, hsession⟩ := h.answer hs hact
    have hrest := ih (s.answer host effect).1 hsession
    refine .cons (.same effect) ?_
    rwa [hreply] at hrest ⊢
  | @act contents call number _ _ _ ih =>
    -- The one effect to which the two hosts may reply differently.
    have hacted := h.act call number hs.world
    refine .cons (.same _) ?_
    rw [step.gather_of_event? contents rfl]
    exact ih _ _ hacted.reply (hs.after hacted)
  | toolEnd node hresult _ ih =>
    exact .cons (.toolEnd node hresult) (ih ⟨hs.world, hs.cancelled⟩)

end Hosts

/-! ## Work that can fail -/

/-- Two results that have the property, or the same error. -/
inductive Work.SameEnd (post : α → α' → Prop) : Except Error α → Except Error α' → Prop where
  | ok {a : α} {a' : α'} (h : post a a') : SameEnd post (.ok a) (.ok a')
  | error (error : Error) : SameEnd post (.error error) (.error error)

/-- Two pieces of work that are alike, and fail alike. -/
def Work.Alike (step : ModelStep) (post : (String → List String) → α → α' → Prop)
    (contents : String → List String) (work : Work α) (work' : Work α') : Prop :=
  work.activity.Alike step (fun contents => SameEnd (post contents)) contents work'.activity

namespace Work

variable {step : ModelStep} {post : (String → List String) → α → α' → Prop}
  {contents : String → List String}

/-- Work that has its results at once is alike if the results are related. -/
theorem alike_pure {a : α} {a' : α'} (h : post contents a a') :
    Work.Alike step post contents (pure a) (pure a') := .done (.ok h)

/-- Work that fails at once with the same error is alike. -/
theorem alike_throw (error : Error) :
    Work.Alike step post contents (throw error : Work α) (throw error : Work α') :=
  .done (.error error)

/-- Work that takes a result from elsewhere is alike itself: it has no effects. -/
theorem alike_ofExcept (result : Except Error α) : Work.Alike step
    (fun after a a' => after = contents ∧ a = a') contents (ofExcept result) (ofExcept result) := by
  cases result with
  | ok a => exact .done (.ok ⟨rfl, rfl⟩)
  | error error => exact .done (.error error)

/-- Work in two parts is alike if the first parts are, and the second ones are after all results
that the first parts may have. -/
theorem Alike.bind {work : Work α} {work' : Work α'} {f : α → Work β} {f' : α' → Work β'}
    {post' : (String → List String) → β → β' → Prop} (h : work.Alike step post contents work')
    (hf : ∀ contents a a', post contents a a' → (f a).Alike step post' contents (f' a')) :
    (work >>= f).Alike step post' contents (work' >>= f') :=
  Activity.Alike.bind h fun contents result result' hresult => by
    cases hresult with
    | ok h => exact hf contents _ _ h
    | error error => exact .done (.error error)

/-- Activities that are alike may stand before work, if what follows is alike after all results that
they may have. -/
theorem alike_lift_bind {t : Activity α} {t' : Activity α'} {f : α → Work β} {f' : α' → Work β'}
    {post' : (String → List String) → β → β' → Prop} (h : t.Alike step post contents t')
    (hf : ∀ contents a a', post contents a a' → (f a).Alike step post' contents (f' a')) :
    (Work.lift t >>= f).Alike step post' contents (Work.lift t' >>= f') := by
  unfold Work.Alike
  rw [activity_lift_bind, activity_lift_bind]
  exact h.bind hf

/-- Talking to the model is the same on both sides. -/
theorem alike_of_only {work : Work α} (h : work.Only Effect.IsTalk) :
    work.Alike step (fun after a a' => after = contents ∧ a = a') contents work :=
  (h.alike step contents).mono fun after result result' hsame => by
    obtain ⟨hafter, rfl⟩ := hsame
    cases result with
    | ok a => exact .ok ⟨hafter, rfl⟩
    | error error => exact .error error

end Work

/-! ## Calls -/

namespace ToolCall

variable {step : ModelStep} {contents : String → List String}

/-- A call of a tool ends alike, and collects nothing. -/
theorem alike_invoke (call : ToolCall) (box : Toolbox) :
    (call.invoke box).Alike step (fun after ended ended' => after = contents ∧
      ended.Alike (step.Hides call.tool) ended') contents (call.invoke box) := by
  have hsleep : ∀ (tool : ToolSpec) (ms : Nat) (resumed : Bool),
      (CallEnd.timedOut tool call.tool <$> Activity.sleep ms resumed).Alike step
        (fun after ended ended' => after = contents ∧ ended.Alike (step.Hides call.tool) ended')
        contents (CallEnd.timedOut tool call.tool <$> Activity.sleep ms resumed) := by
    intro tool ms resumed
    rw [← bind_pure_comp]
    exact .perform rfl rfl fun cancelled => .done ⟨rfl, .same _⟩
  have hfinish : ∀ (tool : ToolSpec) (number waited : Nat),
      (call.finish tool number waited).Alike step
        (fun after ended ended' => after = contents ∧ ended.Alike (step.Hides call.tool) ended')
        contents (call.finish tool number waited) := by
    intro tool number waited
    -- Only here may the two replies differ, and only in what is hidden.
    refine .act call number fun reply reply' hreply => ?_
    cases hreply with
    | same =>
      cases reply with
      | answered result => exact .done ⟨rfl, .same _⟩
      | silent => exact hsleep tool _ _
    | answered hresult => exact .done ⟨rfl, .finished hresult⟩
  unfold invoke
  split
  · rename_i tool _
    unfold within
    refine .perform rfl rfl fun receipt => ?_
    dsimp only
    split_ifs
    · exact hfinish tool _ _
    · refine .perform rfl rfl fun cancelled => ?_
      cases cancelled with
      | true => exact .done ⟨rfl, .same _⟩
      | false => exact hfinish tool _ _
    · exact hsleep tool _ _
  · exact .done ⟨rfl, .same _⟩

/-- Calls that end alike are told alike, and their results are collected. -/
theorem alike_observed (call : ToolCall) (box : Toolbox) :
    (call.observed box).Alike step (fun after result result' =>
      result.Alike (step.Hides call.tool) result' ∧
      after = step.gather contents (.emit (.toolEnd call.node call.tool result))) contents
      (call.observed box) := by
  have hnone : step.gather contents (.emit (.toolStart call.node call.tool call.input)) =
      contents := funext fun field => List.append_nil _
  have hstart : (Activity.emit (.toolStart call.node call.tool call.input)).Alike step
      (fun after _ _ => after = contents) contents
      (Activity.emit (.toolStart call.node call.tool call.input)) :=
    .step rfl fun _ => .done hnone
  unfold observed
  refine Work.alike_lift_bind hstart fun after _ _ hafter => ?_
  subst after
  refine Work.alike_lift_bind (call.alike_invoke box) fun after ended ended' hended => ?_
  obtain ⟨hafter, hended⟩ := hended
  subst after
  -- What differs is first told, which is when it is collected.
  have htold : ∀ {result result' : ToolResult}, result.Alike (step.Hides call.tool) result' →
      Work.Alike step (fun after result result' => result.Alike (step.Hides call.tool) result' ∧
        after = step.gather contents (.emit (.toolEnd call.node call.tool result))) contents
        (do
          Work.lift (Activity.emit (.toolEnd call.node call.tool result))
          return result)
        (do
          Work.lift (Activity.emit (.toolEnd call.node call.tool result'))
          return result') := fun hresult =>
    .toolEnd call.node hresult (.done (.ok ⟨hresult, rfl⟩))
  cases hended with
  | same =>
    cases ended with
    | interrupted => exact Work.alike_throw _
    | finished result => exact htold (.same _)
  | finished hresult => exact htold hresult

end ToolCall

/-! ## Conversations -/

/-- Two conversations that say the same and have the same fields filled, the first one with the last
of the contents. -/
structure Talk.Alike (node : Node) (contents : String → List String) (talk talk' : Talk) :
    Prop where
  messages : talk.messages = talk'.messages
  observations : talk.observations = talk'.observations
  filled : ∀ field, Fields.has field talk.captured = Fields.has field talk'.captured
  keeps : ∀ field, talk.Keeps node field (contents field)

namespace Talk.Alike

variable {node : Node} {step : ModelStep} {contents : String → List String} {talk talk' : Talk}

/-- Conversations begin alike, with nothing collected. -/
theorem opening (node : Node) (prompt : String) :
    (Talk.opening prompt).Alike node (fun _ => []) (Talk.opening prompt) :=
  ⟨rfl, rfl, fun _ => rfl, fun field => .opening node field prompt⟩

/-- The same observation, of a call that the model is told about in both, leaves conversations
alike. -/
theorem observe (h : talk.Alike node contents talk') (call : ToolUse) (content : String)
    (isError : Bool) :
    (talk.observe call content isError).Alike node contents (talk'.observe call content isError) :=
  ⟨h.messages, congrArg (· ++ _) h.observations, h.filled, h.keeps⟩

/-- The same message, added to both, leaves conversations alike. -/
theorem say (h : talk.Alike node contents talk') (message : Message) :
    (talk.say message).Alike node contents (talk'.say message) :=
  ⟨congrArg (· ++ _) h.messages, h.observations, h.filled, h.keeps⟩

/-- Conversations are alike still when their observations are turned into a message. -/
theorem feedBack (h : talk.Alike node contents talk') :
    talk.feedBack.Alike node contents talk'.feedBack := by
  refine ⟨?_, rfl, h.filled, h.keeps⟩
  show talk.messages ++ _ = talk'.messages ++ _
  rw [h.messages, h.observations]

/-- Conversations are alike still as they are sent to the model. -/
theorem sent (h : talk.Alike node contents talk') : talk.sent.Alike node contents talk'.sent := by
  unfold Talk.sent
  rw [← h.observations]
  split
  · exact h.feedBack
  · exact h

/-- A result that may differ is noted alike: where it does, the note does not show it. -/
theorem record (h : talk.Alike node contents talk') (limit : Nat) (call : ToolUse)
    {result result' : ToolResult} (hresult : result.Alike (step.Hides call.name) result')
    (name : String) :
    (talk.record node step limit call result).Alike node
      (step.gather contents (.emit (.toolEnd name call.name result)))
      (talk'.record node step limit call result') := by
  have hkeeps : ∀ field, (talk.record node step limit call result).Keeps node field
      (step.gather contents (.emit (.toolEnd name call.name result)) field) :=
    fun field => (h.keeps field).record limit call result name
  have hfilled : ∀ (filled : List String) (content content' : String) (field : String),
      Fields.has field (Fields.putAll talk.captured
        (filled.map fun field => (field, rawValue node field content))) =
      Fields.has field (Fields.putAll talk'.captured
        (filled.map fun field => (field, rawValue node field content'))) := by
    intro filled content content' field
    have hbefore : (talk.captured.lookup field).isSome = (talk'.captured.lookup field).isSome :=
      h.filled field
    simp only [Fields.has, Fields.lookup_putAll]
    rw [lookup_reverse_map _ fun field => rawValue node field content,
      lookup_reverse_map _ fun field => rawValue node field content']
    split_ifs
    · rfl
    · exact hbefore
  cases hresult with
  | same =>
    exact ⟨h.messages, congrArg (· ++ _) h.observations, hfilled _ _ _, hkeeps⟩
  | success hhidden content content' =>
    refine ⟨h.messages, ?_, hfilled _ _ _, hkeeps⟩
    -- A tool whose results are hidden fills some field, which the note is about.
    obtain ⟨field, hfield⟩ := hhidden
    obtain ⟨last, hlast⟩ : ∃ last, (step.filledBy call.name).getLast? = some last :=
      ⟨_, List.getLast?_eq_some_getLast (List.ne_nil_of_mem (ModelStep.mem_filledBy.2 hfield))⟩
    simp [Talk.record, Talk.observe, ToolResult.success, hlast, h.observations]

/-- A field that is filled in one conversation is so in the other, so that they are complete
together. -/
theorem isComplete (h : talk.Alike node contents talk') :
    talk.isComplete node step = talk'.isComplete node step := by
  unfold Talk.isComplete
  simp only [h.filled]

/-- Where nothing was collected for a field, it is not filled. -/
theorem has_eq_false (h : talk.Alike node contents talk') {field : String}
    (hnone : contents field = []) : Fields.has field talk.captured = false := by
  have hkept := h.keeps field
  rw [hnone] at hkept
  rw [Fields.has, hkept]
  rfl

end Talk.Alike

/-- The same answer, read with the same fields filled: the same fault, or values that agree in the
other fields. -/
theorem Answer.parse_alike {captured captured' : List (String × Value)}
    (h : ∀ field, Fields.has field captured = Fields.has field captured')
    (fields : List OutputField) (text : String) :
    (∃ fault, parse fields text captured = .error fault ∧
      parse fields text captured' = .error fault) ∨
    ∃ values values', parse fields text captured = .ok values ∧
      parse fields text captured' = .ok values' ∧
      ∀ field, Fields.has field captured = false → values.lookup field = values'.lookup field := by
  simp only [parse_eq_map, ← h]
  cases readExpected (fields.filter fun f => !Fields.has f.name captured) text with
  | error fault => exact .inl ⟨fault, rfl, rfl⟩
  | ok answered =>
    refine .inr ⟨_, _, rfl, rfl, fun field hnone => ?_⟩
    have hleft : captured.lookup field = none :=
      Option.not_isSome_iff_eq_none.1 (Bool.eq_false_iff.1 hnone)
    have hright : captured'.lookup field = none :=
      Option.not_isSome_iff_eq_none.1 (Bool.eq_false_iff.1 ((h field).symm.trans hnone))
    rw [OutputField.lookup_filterMap fields fun name =>
      (captured.lookup name).or (answered.reverse.lookup name), OutputField.lookup_filterMap fields
      fun name => (captured'.lookup name).or (answered.reverse.lookup name), hleft, hright]

namespace ModelStep

variable {setting : Setting} {node : Node} {step : ModelStep} {brief : Brief}
  {contents : String → List String} {talk talk' : Talk}

/-- Two outcomes that are the same but for hidden contents: the fields of a completed node agree
where nothing was collected, and what waits for approval waits for the same. -/
inductive Outcome.Alike (node : Node) (contents : String → List String) :
    ModelOutcome → ModelOutcome → Prop where
  | complete {fields fields' : List (String × Value)}
    (names : fields.map Prod.fst = fields'.map Prod.fst)
    (agree : ∀ field, contents field = [] → fields.lookup field = fields'.lookup field) :
    Alike node contents (.complete { fields }) (.complete { fields := fields' })
  | awaitApproval (request : ApprovalRequest) {checkpoint checkpoint' : Checkpoint}
    (talk : checkpoint.talk.Alike node contents checkpoint'.talk)
    (rest : { checkpoint' with talk := checkpoint.talk } = checkpoint) :
    Alike node contents (.awaitApproval request checkpoint) (.awaitApproval request checkpoint')

/-- Two ways in which the handling of calls stops that are the same but for hidden contents. -/
inductive Handled.Alike (node : Node) (contents : String → List String) :
    Handled → Handled → Prop where
  | awaiting (call : ToolUse) (pending : List ToolUse) {talk talk' : Talk}
    (h : talk.Alike node contents talk') :
    Alike node contents (.awaiting call pending talk) (.awaiting call pending talk')
  | all {talk talk' : Talk} (h : talk.Alike node contents talk') :
    Alike node contents (.all talk) (.all talk')

/-- A call is run and noted alike. -/
theorem alike_runCall (h : talk.Alike node contents talk') (call : ToolUse) :
    (runCall setting node step brief talk call).Alike step
      (fun after talk talk' => talk.Alike node after talk') contents
      (runCall setting node step brief talk' call) := by
  refine (ToolCall.alike_observed ⟨call.name, call.input, node.name, brief.itemIndex⟩ _).bind
    fun after result result' hresult => Work.alike_pure ?_
  obtain ⟨hresult, hafter⟩ := hresult
  subst after
  exact h.record _ call hresult node.name

/-- The calls of a turn are handled alike, one after the other. -/
theorem alike_handleCalls (calls : List ToolUse) (h : talk.Alike node contents talk') :
    (handleCalls setting node step brief talk calls).Alike step
      (fun after handled handled' => handled.Alike node after handled') contents
      (handleCalls setting node step brief talk' calls) := by
  induction calls generalizing talk talk' contents with
  | nil => exact Work.alike_pure (.all h)
  | cons call rest ih =>
    rw [handleCalls, handleCalls]
    cases step.gate setting.config.approval call with
    | run => exact (alike_runCall h call).bind fun after talk talk' htalk => ih htalk
    | refuse reason => exact ih (h.observe call reason true)
    | ask => exact Work.alike_pure (.awaiting call rest h)

/-- What comes after a turn is the same but for hidden contents. -/
inductive AfterTurn.Alike (node : Node) (contents : String → List String) :
    AfterTurn → AfterTurn → Prop where
  | calls (calls : List ToolUse) {talk talk' : Talk} (h : talk.Alike node contents talk') :
    Alike node contents (.calls talk calls) (.calls talk' calls)
  | answer {fields fields' : List (String × Value)}
    (h : Outcome.Alike node contents (.complete { fields }) (.complete { fields := fields' })) :
    Alike node contents (.answer fields) (.answer fields')
  | unusable (fault : Answer.Fault) {talk talk' : Talk} (h : talk.Alike node contents talk') :
    Alike node contents (.unusable talk fault) (.unusable talk' fault)

/-- The same answer completes a node alike, or is of no use in both cases. -/
theorem alike_parse (h : talk.Alike node contents talk') (text : String) :
    (∃ fault, Answer.parse node.output text talk.captured = .error fault ∧
      Answer.parse node.output text talk'.captured = .error fault) ∨
    ∃ values values', Answer.parse node.output text talk.captured = .ok values ∧
      Answer.parse node.output text talk'.captured = .ok values' ∧
      Outcome.Alike node contents (.complete { fields := values })
        (.complete { fields := values' }) := by
  refine (Answer.parse_alike h.filled node.output text).imp_right ?_
  rintro ⟨values, values', hvalues, hvalues', hagree⟩
  have hnames := (Answer.map_fst_parse hvalues).trans (Answer.map_fst_parse hvalues').symm
  exact ⟨values, values', hvalues, hvalues',
    .complete hnames fun field hnone => hagree field (h.has_eq_false hnone)⟩

/-- The same turn of the model leads on alike, since an answer is looked at only for the fields that
are not filled. -/
theorem alike_weigh (h : talk.Alike node contents talk') (turn : Turn) :
    AfterTurn.Alike node contents (weigh node talk turn) (weigh node talk' turn) := by
  have hsaid := h.say turn.message
  unfold weigh
  dsimp only
  split_ifs
  · obtain ⟨fault, hleft, hright⟩ | ⟨values, values', hleft, hright, halike⟩ :=
      alike_parse hsaid turn.text
    · rw [hleft, hright]
      exact .unusable fault hsaid
    · rw [hleft, hright]
      exact .answer halike
  · exact .calls turn.calls hsaid

/-- The model is asked the same. -/
theorem request_eq (h : talk.Alike node contents talk') :
    request setting brief talk = request setting brief talk' := by
  unfold request
  rw [h.messages]

/-- What the calls lead to is the same but for hidden contents. -/
inductive Dealt.Alike (node : Node) (contents : String → List String) : Dealt → Dealt → Prop where
  | stops {outcome outcome' : ModelOutcome} (h : Outcome.Alike node contents outcome outcome') :
    Alike node contents (.stops outcome) (.stops outcome')
  | asks {talk talk' : Talk} (h : talk.Alike node contents talk') :
    Alike node contents (.asks talk) (.asks talk')

/-- What a turn of the model leads to is the same but for hidden contents. -/
inductive Sequel.Alike (node : Node) (contents : String → List String) :
    Sequel → Sequel → Prop where
  | completes {fields fields' : List (String × Value)}
    (h : Outcome.Alike node contents (.complete { fields }) (.complete { fields := fields' })) :
    Alike node contents (.completes fields) (.completes fields')
  | fails (error : Error) : Alike node contents (.fails error) (.fails error)
  | calls (calls : List ToolUse) {talk talk' : Talk} (h : talk.Alike node contents talk') :
    Alike node contents (.calls talk calls) (.calls talk' calls)
  | retries (message : String) {talk talk' : Talk} (h : talk.Alike node contents talk') :
    Alike node contents (.retries talk message) (.retries talk' message)

/-- The calls lead on alike: both executions ask again, or complete, or stop at the same call. -/
theorem alike_deal {handled handled' : Handled} (h : handled.Alike node contents handled')
    (steps attempts : Nat) :
    (deal node step brief steps attempts handled).Alike node contents
      (deal node step brief steps attempts handled') := by
  cases h with
  | awaiting call pending htalk => exact .stops (.awaitApproval _ htalk rfl)
  | @all talk talk' htalk =>
    have hsent := htalk.sent
    unfold deal
    dsimp only
    rw [← htalk.observations, ← hsent.isComplete]
    split
    · -- The fields are all filled, so that reading the empty answer fails in neither case.
      rename_i hstop
      obtain ⟨values, hvalues⟩ :=
        Talk.exists_parse_of_isComplete (Bool.and_eq_true_iff.1 hstop).2
      obtain ⟨fault, hfault, -⟩ | ⟨_, values', hleft, hright, halike⟩ := alike_parse hsent ""
      · rw [hvalues] at hfault
        cases hfault
      · rw [hleft, hright]
        exact .stops halike
    · exact .asks hsent

/-- What a turn of the model leads to is alike. -/
theorem alike_followUp {next next' : AfterTurn} (h : next.Alike node contents next')
    (steps attempts : Nat) :
    (followUp setting node step brief steps attempts next).Alike node contents
      (followUp setting node step brief steps attempts next') := by
  unfold followUp
  cases h with
  | answer halike => exact .completes halike
  | calls calls htalk =>
    dsimp only
    split
    · exact .calls calls htalk
    · exact .fails _
  | unusable fault htalk =>
    dsimp only
    split
    · exact .retries _ (htalk.say _)
    · exact .fails _

/-- The question whether the run is cancelled is alike in both executions. -/
theorem alike_poll (step : ModelStep) (contents : String → List String) :
    Activity.poll.Alike step (fun after (cancelled cancelled' : Bool) =>
      after = contents ∧ cancelled = cancelled') contents Activity.poll :=
  .perform rfl rfl fun _ => .done ⟨rfl, rfl⟩

/-- Two conversations that are alike go on alike, over all their turns. -/
theorem alike_converse (steps attempts : Nat) (calls : List ToolUse)
    (h : talk.Alike node contents talk') :
    (converse setting node step brief steps attempts talk calls).Alike step
      (fun after outcome outcome' => Outcome.Alike node after outcome outcome') contents
      (converse setting node step brief steps attempts talk' calls) := by
  induction steps, attempts using rounds_induct setting step
    generalizing talk talk' calls contents with
  -- Round by round, both parts are replaced by what is known of them: that they are alike.
  | round steps attempts onCalls onRetry =>
    rw [converse_eq, converse_eq]
    refine Work.alike_lift_bind (alike_poll step contents)
      fun after cancelled cancelled' hsame => ?_
    obtain ⟨hafter, hsame⟩ := hsame
    subst after cancelled'
    cases cancelled with
    | true => exact Work.alike_throw _
    | false =>
      refine (alike_handleCalls calls h).bind fun after handled handled' hhandled => ?_
      have hdealt : (deal node step brief steps attempts handled).Alike node after
          (deal node step brief steps attempts handled') := alike_deal hhandled steps attempts
      generalize deal node step brief steps attempts handled = dealt at hdealt ⊢
      generalize deal node step brief steps attempts handled' = dealt' at hdealt ⊢
      cases hdealt with
      | stops halike => exact Work.alike_pure halike
      | @asks talk talk' htalk =>
        unfold turnAfter
        dsimp only
        rw [← request_eq htalk]
        -- Asked the same, the model takes the same turn.
        refine (Work.alike_of_only (only_askWithRetry _ _ _ _)).bind
          fun later turn turn' hturn => ?_
        obtain ⟨hlater, rfl⟩ := hturn
        subst later
        have hfollowed : (followUp setting node step brief steps attempts
            (weigh node talk turn)).Alike node after
            (followUp setting node step brief steps attempts (weigh node talk' turn)) :=
          alike_followUp (alike_weigh htalk turn) steps attempts
        generalize hfollow : followUp setting node step brief steps attempts
          (weigh node talk turn) = sequel at hfollowed ⊢
        generalize followUp setting node step brief steps attempts
          (weigh node talk' turn) = sequel' at hfollowed ⊢
        cases hfollowed with
        | completes halike => exact Work.alike_pure halike
        | fails error => exact Work.alike_throw _
        | calls calls htalk => exact onCalls (lt_of_followUp_calls hfollow) calls htalk
        | retries message htalk =>
          have htold : (Activity.emit (.retryNotice node.name (attempts + 1)
              setting.config.retry.maxRetries message)).Only Effect.IsTalk :=
            Activity.only_perform trivial
          refine Work.alike_lift_bind (htold.alike step after) fun later _ _ hlater => ?_
          obtain ⟨hlater, -⟩ := hlater
          subst later
          exact onRetry (lt_of_followUp_retries hfollow) [] htalk

/-- A node starts alike. -/
theorem alike_start (vars : Lookup) (itemIndex : Option Nat) :
    (step.start setting node vars itemIndex).Alike step
      (fun after outcome outcome' => Outcome.Alike node after outcome outcome') (fun _ => [])
      (step.start setting node vars itemIndex) := by
  unfold start
  refine (Work.alike_ofExcept _).bind fun after system system' hsystem => ?_
  obtain ⟨hafter, rfl⟩ := hsystem
  subst after
  refine (Work.alike_ofExcept _).bind fun after prompt prompt' hprompt => ?_
  obtain ⟨hafter, rfl⟩ := hprompt
  subst after
  exact alike_converse _ _ _ (.opening node _)

/-- After the same decision, a node goes on alike. -/
theorem alike_resume {checkpoint checkpoint' : Checkpoint}
    (htalk : checkpoint.talk.Alike node contents checkpoint'.talk)
    (hrest : { checkpoint' with talk := checkpoint.talk } = checkpoint) (decision : Decision) :
    (step.resume setting node checkpoint decision).Alike step
      (fun after outcome outcome' => Outcome.Alike node after outcome outcome') contents
      (step.resume setting node checkpoint' decision) := by
  obtain ⟨brief, talk, awaiting, pending, steps, attempts⟩ := checkpoint
  obtain ⟨brief', talk', awaiting', pending', steps', attempts'⟩ := checkpoint'
  obtain ⟨rfl, -, rfl, rfl, rfl, rfl⟩ := Checkpoint.mk.inj hrest
  unfold resume
  cases awaiting' with
  | none => exact Work.alike_throw _
  | some call =>
    have hdecided : (applyDecision setting node step brief' talk call decision).Alike step
        (fun after talk talk' => talk.Alike node after talk') contents
        (applyDecision setting node step brief' talk' call decision) := by
      cases decision with
      | approved => exact alike_runCall htalk call
      | denied reason => exact Work.alike_pure (htalk.observe call _ true)
    exact hdecided.bind fun after talk talk' htalk => alike_converse _ _ _ htalk

/-! ## Whole executions -/

/-- A stretch of an execution: what was done, and where that stopped. -/
structure Leg where
  effects : List Effect
  outcome : Except Error ModelOutcome

/-- What the observers were told in a stretch. -/
def Leg.events (leg : Leg) : List Event := leg.effects.filterMap Effect.event?

/-- The stretches of an execution under a host. It is taken up again with the caller's decisions in
their order, as long as it waits for one. -/
def legs (setting : Setting) (node : Node) (step : ModelStep) (host : Host σ)
    (decisions : List Decision) (work : Work ModelOutcome) (session : Session σ) : List Leg :=
  ⟨work.activity.effects host session, (work.activity.run host session).1⟩ ::
    match decisions, (work.activity.run host session).1 with
    | decision :: decisions, .ok (.awaitApproval _ checkpoint) =>
      legs setting node step host decisions (step.resume setting node checkpoint decision)
        (work.activity.run host session).2
    | _, _ => []

/-- Two stretches stop alike: with the same error, waiting for the approval of the same call, or
completed with values for the same fields. -/
inductive StopsAlike : Except Error ModelOutcome → Except Error ModelOutcome → Prop where
  | error (error : Error) : StopsAlike (.error error) (.error error)
  | awaitApproval (request : ApprovalRequest) (checkpoint checkpoint' : Checkpoint) :
    StopsAlike (.ok (.awaitApproval request checkpoint)) (.ok (.awaitApproval request checkpoint'))
  | complete {outcome outcome' : NodeResult}
    (names : outcome.fields.map Prod.fst = outcome'.fields.map Prod.fst) :
    StopsAlike (.ok (.complete outcome)) (.ok (.complete outcome'))

/-- Two stretches that are the same but for hidden contents. -/
structure Leg.Alike (step : ModelStep) (leg leg' : Leg) : Prop where
  effects : List.Forall₂ (Effect.Alike step) leg.effects leg'.effects
  outcome : StopsAlike leg.outcome leg'.outcome

/-- Two executions that are the same but for hidden contents, the first one behind others in which
contents were collected already. -/
structure LegsAlike (step : ModelStep) (contents : String → List String) (legs legs' : List Leg) :
    Prop where
  /-- They have as many stretches, with the same effects, which stop alike. -/
  stretches : List.Forall₂ (Leg.Alike step) legs legs'
  /-- If they are completed, they agree in every field that was not filled. -/
  agree : ∀ outcome outcome',
    legs.getLast?.map Leg.outcome = some (.ok (.complete outcome)) →
    legs'.getLast?.map Leg.outcome = some (.ok (.complete outcome')) →
    ∀ field, contents field ++ step.contents field (legs.flatMap Leg.events) = [] →
      outcome.fields.lookup field = outcome'.fields.lookup field

/-- Where the ends of executions are alike, the executions stop alike. -/
theorem StopsAlike.of_outcome {contents : String → List String}
    {result result' : Except Error ModelOutcome}
    (h : Work.SameEnd (Outcome.Alike node contents) result result') :
    StopsAlike result result' := by
  cases h with
  | error error => exact .error error
  | ok h =>
    cases h with
    | complete names agree => exact .complete names
    | awaitApproval request talk rest => exact .awaitApproval request _ _

/-- Every execution has a first stretch. -/
theorem legs_ne_nil (host : Host σ) (decisions : List Decision) (work : Work ModelOutcome)
    (session : Session σ) : legs setting node step host decisions work session ≠ [] := by
  unfold legs
  exact List.cons_ne_nil _ _

section Hosts

variable {worlds : σ → σ' → Prop} {host : Host σ} {host' : Host σ'} {work work' : Work ModelOutcome}
  {s : Session σ} {s' : Session σ'}

/-- A last stretch. -/
theorem LegsAlike.last (h : Activity.RunsAlike step worlds
      (fun after => Work.SameEnd (Outcome.Alike node after)) contents host host' work.activity
      work'.activity s s') :
    LegsAlike step contents [⟨work.activity.effects host s, (work.activity.run host s).1⟩]
      [⟨work'.activity.effects host' s', (work'.activity.run host' s').1⟩] := by
  refine ⟨.cons ⟨h.effects, .of_outcome h.result⟩ .nil, fun outcome outcome' hleft hright => ?_⟩
  have hstop : (work.activity.run host s).1 = .ok (.complete outcome) := Option.some.inj hleft
  have hstop' : (work'.activity.run host' s').1 = .ok (.complete outcome') :=
    Option.some.inj hright
  have hresult := h.result
  rw [hstop, hstop'] at hresult
  cases hresult with
  | ok hresult =>
    cases hresult with
    | complete names agree =>
      intro field hnone
      refine agree field ?_
      rwa [List.flatMap_singleton] at hnone

/-- A stretch in front of others. -/
theorem LegsAlike.cons {leg leg' : Leg} (h : leg.Alike step leg') {later later' : List Leg}
    (hne : later ≠ []) (hne' : later' ≠ [])
    (hlater : LegsAlike step (fun field => contents field ++ step.contents field leg.events) later
      later') : LegsAlike step contents (leg :: later) (leg' :: later') := by
  refine ⟨.cons h hlater.stretches, fun outcome outcome' hleft hright field hnone => ?_⟩
  rw [List.getLast?_cons_of_ne_nil hne] at hleft
  rw [List.getLast?_cons_of_ne_nil hne'] at hright
  refine hlater.agree outcome outcome' hleft hright field ?_
  rwa [List.flatMap_cons, contents_append, ← List.append_assoc] at hnone

/-- Executions that go on alike under hosts that agree are the same but for hidden contents. -/
theorem legs_alike (hhost : host.Alike step worlds host') (decisions : List Decision)
    (hwork : work.Alike step (fun after => Outcome.Alike node after) contents work')
    (hs : s.Alike worlds s') :
    LegsAlike step contents (legs setting node step host decisions work s)
      (legs setting node step host' decisions work' s') := by
  induction decisions generalizing work work' contents s s' with
  | nil =>
    unfold legs
    exact .last (Activity.Alike.run hhost hwork hs)
  | cons decision decisions ih =>
    have hrun := Activity.Alike.run hhost hwork hs
    have hlast := LegsAlike.last hrun
    have hresult := hrun.result
    unfold legs
    -- Whether there is a further stretch depends on the result, which is alike in both.
    generalize (work.activity.run host s).1 = result at *
    generalize (work'.activity.run host' s').1 = result' at *
    cases hresult with
    | error error => exact hlast
    | ok hresult =>
      cases hresult with
      | complete names agree => exact hlast
      | awaitApproval request htalk hrest =>
        refine .cons ⟨hrun.effects, .awaitApproval request _ _⟩ (legs_ne_nil _ _ _ _)
          (legs_ne_nil _ _ _ _) ?_
        exact ih (alike_resume htalk hrest decision) hrun.session

end Hosts

/-- What is hidden from the model makes no difference to an execution but to the fields that it
fills. -/
theorem legs_start_alike (setting : Setting) (node : Node) (step : ModelStep) (vars : Lookup)
    (itemIndex : Option Nat) (worlds : σ → σ' → Prop) (host : Host σ) (host' : Host σ')
    (hhost : host.Alike step worlds host') (s : Session σ) (s' : Session σ')
    (hs : s.Alike worlds s') (decisions : List Decision) :
    LegsAlike step (fun _ => [])
      (legs setting node step host decisions (step.start setting node vars itemIndex) s)
      (legs setting node step host' decisions (step.start setting node vars itemIndex) s') :=
  legs_alike hhost decisions (alike_start vars itemIndex) hs

end ModelStep

/-! ## A sample

The node of `Sample.Fetching`, with calls that the caller has to approve, and with a tool that
returns other pages. -/

namespace Sample.Fetching

/-- The model node with a gate in front of its calls, so that every call asks the caller first. -/
def gated : ModelStep := { step with requireApproval := true }

/-- The node of the gated step. -/
def gatedNode : Node := { node with kind := .model gated }

/-- The same, but for the page that is fetched. -/
def otherHost : Host Nat :=
  { host with
    act := fun call number calls =>
      if call.tool = "fetch" then ⟨.answered (.ok (.success "another page")), false, calls⟩
      else host.act call number calls }

/-- The two hosts answer alike, but for the contents that fill the field. -/
theorem alike_otherHost : host.Alike gated Eq otherHost where
  ask _ _ _ h := ⟨by rw [h]; rfl, by rw [h]; rfl, by rw [h]; rfl⟩
  request _ _ _ h := ⟨rfl, rfl, h⟩
  act call _ w w' h := by
    obtain rfl : w = w' := h
    by_cases htool : call.tool = "fetch"
    · have hhidden : gated.Hides call.tool := ⟨"page", by rw [htool]; decide⟩
      simp only [otherHost, host, htool, if_true]
      exact ⟨.answered (.success (htool ▸ hhidden) _ _), rfl, rfl⟩
    · simp only [otherHost, host, htool, if_false]
      exact ⟨.same _, rfl, rfl⟩
  sleep _ _ _ h := ⟨rfl, rfl, h⟩
  freshId h := ⟨rfl, h⟩

/-- The stretches of the node, which fetches twice, each time with the caller's approval. -/
def stretches (host : Host Nat) : List ModelStep.Leg :=
  ModelStep.legs setting gatedNode gated host [.approved, .approved]
    (gated.start setting gatedNode (fun _ => none) none) ⟨2, false, []⟩

/-- The model is asked the same about other pages, and the caller is. -/
theorem stretches_alike :
    (stretches host).length = 3 ∧
      (stretches host).flatMap ModelStep.Leg.events ≠
        (stretches otherHost).flatMap ModelStep.Leg.events ∧
      ModelStep.LegsAlike gated (fun _ => []) (stretches host) (stretches otherHost) :=
  ⟨by decide +kernel, by decide +kernel,
    ModelStep.legs_start_alike setting gatedNode gated (fun _ => none) none Eq host otherHost
      alike_otherHost ⟨2, false, []⟩ ⟨2, false, []⟩ ⟨rfl, rfl⟩ [.approved, .approved]⟩

end Sample.Fetching

end AgentFlow
