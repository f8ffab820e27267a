import AgentFlow.Proofs.Capture

/-!
# Transcripts of executions

An execution of a model node as what was asked of the environment and what came back, from its start
to where it stopped last, over any number of the caller's decisions. Nothing is assumed of the
replies: `Activity.Path` is any way through the tree of an activity, and a host takes one of them
(`path_run`). `exists_of_path_bind` and its like take a way through a sequence apart, so that a
statement about an execution can follow the code; what is known of a whole tree by a monitor is
known of every way through it (`Path.obeys`).
-/

namespace AgentFlow

variable {α β γ σ : Type}

/-- An effect and what came back for it. -/
structure Exchange where
  effect : Effect
  reply : effect.Reply

/-- The events that were told in some exchanges. -/
def Exchange.events (exchanges : List Exchange) : List Event :=
  exchanges.filterMap fun exchange => exchange.effect.event?

/-- The event of the first exchange, if it has one, comes before those of the others. -/
theorem Exchange.events_cons (exchange : Exchange) (later : List Exchange) :
    events (exchange :: later) = exchange.effect.event?.toList ++ events later := by
  unfold events
  cases hevent : exchange.effect.event? <;> simp [hevent]

/-- Every effect in some exchanges is allowed when its turn comes. -/
def Monitor.Admits (m : Monitor γ) : γ → List Exchange → Prop
  | _, [] => True
  | g, exchange :: later => m.allows g exchange.effect ∧
      m.Admits (m.after g exchange.effect exchange.reply) later

/-- A monitor admits two stretches if it admits the first one, and then the second one from the
state behind that. -/
theorem Monitor.admits_append {m : Monitor γ} {g : γ} (first later : List Exchange) :
    m.Admits g (first ++ later) ↔ m.Admits g first ∧
      m.Admits (first.foldl (fun g exchange => m.after g exchange.effect exchange.reply) g)
        later := by
  induction first generalizing g with
  | nil => exact (and_iff_right trivial).symm
  | cons exchange rest ih => exact (and_congr_right fun _ => ih).trans and_assoc.symm

/-! ## Paths -/

namespace Activity

/-- A way through an activity: its effects with some replies, and what it ends with. -/
inductive Path : Activity α → List Exchange → α → Prop where
  | done (result : α) : Path (.done result) [] result
  | step {effect : Effect} {next : effect.Reply → Activity α} {reply : effect.Reply}
    {later : List Exchange} {result : α} (rest : Path (next reply) later result) :
    Path (.step effect next) (⟨effect, reply⟩ :: later) result

/-- The exchanges of an activity under a host. -/
def exchanges (host : Host σ) : Activity α → Session σ → List Exchange
  | done _, _ => []
  | step effect next, session =>
    ⟨effect, (session.answer host effect).1⟩ ::
      (next (session.answer host effect).1).exchanges host (session.answer host effect).2

/-- A host takes one of the ways through an activity. -/
theorem path_run (host : Host σ) (t : Activity α) (session : Session σ) :
    t.Path (t.exchanges host session) (t.run host session).1 := by
  induction t generalizing session with
  | done a => exact .done a
  | step effect next ih => exact .step (ih _ _)

/-- The replies in the exchanges under a host are the host's. -/
theorem exists_of_mem_exchanges {host : Host σ} {t : Activity α} {session : Session σ}
    {effect : Effect} {reply : effect.Reply} (h : ⟨effect, reply⟩ ∈ t.exchanges host session) :
    ∃ session : Session σ, reply = (session.answer host effect).1 := by
  induction t generalizing session with
  | done a => cases h
  | step first next ih =>
    rcases List.mem_cons.1 h with hfirst | hlater
    · cases hfirst
      exact ⟨session, rfl⟩
    · exact ih _ hlater

variable {t : Activity α} {exchanges : List Exchange} {result : α}

/-- A host that gives these replies, one after the other, starting from a session. -/
def Gives (host : Host σ) : Session σ → List Exchange → Prop
  | _, [] => True
  | session, exchange :: later => (session.answer host exchange.effect).1 = exchange.reply ∧
      Gives host (session.answer host exchange.effect).2 later

/-- A host that gives the replies of a way takes it. -/
theorem Path.run_of_gives {host : Host σ} {session : Session σ} {more : List Exchange}
    (h : t.Path exchanges result) (hgives : Gives host session (exchanges ++ more)) :
    t.exchanges host session = exchanges ∧ (t.run host session).1 = result ∧
      Gives host (t.run host session).2 more := by
  induction h generalizing session with
  | done _ => exact ⟨rfl, rfl, hgives⟩
  | @step effect next reply later result rest ih =>
    obtain ⟨rfl, hlater⟩ : (session.answer host effect).1 = reply ∧
      Gives host (session.answer host effect).2 (later ++ more) := hgives
    obtain ⟨hexchanges, hrun⟩ := ih hlater
    exact ⟨congrArg (List.cons _) hexchanges, hrun⟩

/-- A way through one activity and a way through what follows make a way through both. -/
theorem Path.bind {f : α → Activity β} {later : List Exchange} {b : β} (h : t.Path exchanges result)
    (hf : (f result).Path later b) : (t >>= f).Path (exchanges ++ later) b := by
  induction h with
  | done _ => exact hf
  | step rest ih => exact .step (ih hf)

/-- A way through two parts is one through each. -/
theorem exists_of_path_bind {f : α → Activity β} {result : β}
    (h : (t >>= f).Path exchanges result) :
    ∃ first a later, t.Path first a ∧ (f a).Path later result ∧ exchanges = first ++ later := by
  induction t generalizing exchanges with
  | done a => exact ⟨[], a, exchanges, .done a, h, rfl⟩
  | step effect next ih =>
    cases h with
    | @step _ _ reply later _ rest =>
      obtain ⟨first, a, after, hfirst, hafter, rfl⟩ := ih reply rest
      exact ⟨_, a, after, .step hfirst, hafter, rfl⟩

/-- A way through an effect and what follows starts with a reply to the effect. -/
theorem exists_of_path_perform {effect : Effect} {f : effect.Reply → Activity α}
    (h : (perform effect >>= f).Path exchanges result) :
    ∃ reply later, (f reply).Path later result ∧ exchanges = ⟨effect, reply⟩ :: later := by
  cases h with
  | step rest => exact ⟨_, _, rest, rfl⟩

/-- Where all effects are of a kind, those of every way through are. -/
theorem Path.kind {kind : Effect → Prop} (h : t.Path exchanges result) (honly : t.Only kind) :
    ∀ exchange ∈ exchanges, kind exchange.effect := by
  induction h with
  | done _ => exact fun _ hmem => absurd hmem List.not_mem_nil
  | step rest ih =>
    intro exchange hmem
    rcases List.mem_cons.1 hmem with rfl | hmem
    · exact honly.1
    · exact ih (honly.2 _) exchange hmem

/-- A monitor that an activity obeys ends, after every way through, in a state with the property. -/
theorem Path.obeys {m : Monitor γ} {post : γ → α → Prop} {g : γ} (h : t.Path exchanges result)
    (hobeys : t.Obeys m post g) :
    post (exchanges.foldl (fun g exchange => m.after g exchange.effect exchange.reply) g)
      result := by
  induction h generalizing g with
  | done _ => exact hobeys
  | step rest ih => exact ih (hobeys.2 _)

/-- A monitor that an activity obeys allows every way through it. -/
theorem Path.admits {m : Monitor γ} {post : γ → α → Prop} {g : γ} (h : t.Path exchanges result)
    (hobeys : t.Obeys m post g) : m.Admits g exchanges := by
  induction h generalizing g with
  | done _ => trivial
  | step rest ih => exact ⟨hobeys.1, ih (hobeys.2 _)⟩

end Activity

namespace Work

variable {work : Work α} {exchanges : List Exchange}

/-- A way through work that has a result, and a way through what follows, make a way through
both. -/
theorem path_bind {f : α → Work β} {a : α} {later : List Exchange} {result : Except Error β}
    (h : work.activity.Path exchanges (.ok a)) (hf : (f a).activity.Path later result) :
    (work >>= f).activity.Path (exchanges ++ later) result :=
  Activity.Path.bind h hf

/-- A way through work that fails is a way through it with anything behind it. -/
theorem path_bind_error {f : α → Work β} {error : Error}
    (h : work.activity.Path exchanges (.error error)) :
    (work >>= f).activity.Path exchanges (.error error) := by
  rw [← List.append_nil exchanges]
  exact Activity.Path.bind h (.done _)

/-- A way through an activity, and a way through the work that follows, make a way through both. -/
theorem path_lift_bind {t : Activity α} {f : α → Work β} {a : α} {later : List Exchange}
    {result : Except Error β} (h : t.Path exchanges a) (hf : (f a).activity.Path later result) :
    (Work.lift t >>= f).activity.Path (exchanges ++ later) result := by
  rw [activity_lift_bind]
  exact h.bind hf

/-- An effect with a reply, and a way through the work that follows it, make a way through both. -/
theorem path_perform_bind {effect : Effect} {f : effect.Reply → Work α} {reply : effect.Reply}
    {result : Except Error α} (h : (f reply).activity.Path exchanges result) :
    (Work.lift (Activity.perform effect) >>= f).activity.Path (⟨effect, reply⟩ :: exchanges)
      result := by
  rw [activity_lift_bind]
  exact .step h

/-- A way through two parts of work ends in the first one if that fails. -/
theorem exists_of_path_bind {f : α → Work β} {result : Except Error β}
    (h : (work >>= f).activity.Path exchanges result) :
    (∃ error, work.activity.Path exchanges (.error error) ∧ result = .error error) ∨
      ∃ first a later, work.activity.Path first (.ok a) ∧ (f a).activity.Path later result ∧
        exchanges = first ++ later := by
  obtain ⟨first, ended, later, hfirst, hlater, rfl⟩ := Activity.exists_of_path_bind h
  cases ended with
  | ok a => exact .inr ⟨first, a, later, hfirst, hlater, rfl⟩
  | error error =>
    cases hlater
    rw [List.append_nil]
    exact .inl ⟨error, hfirst, rfl⟩

/-- A way through an activity and the work that follows is one through each. -/
theorem exists_of_path_lift {t : Activity α} {f : α → Work β} {result : Except Error β}
    (h : (Work.lift t >>= f).activity.Path exchanges result) :
    ∃ first a later, t.Path first a ∧ (f a).activity.Path later result ∧
      exchanges = first ++ later := by
  rw [activity_lift_bind] at h
  exact Activity.exists_of_path_bind h

/-- A way through an effect and the work that follows starts with a reply to the effect. -/
theorem exists_of_path_perform {effect : Effect} {f : effect.Reply → Work α}
    {result : Except Error α}
    (h : (Work.lift (Activity.perform effect) >>= f).activity.Path exchanges result) :
    ∃ reply later, (f reply).activity.Path later result ∧
      exchanges = ⟨effect, reply⟩ :: later := by
  rw [activity_lift_bind] at h
  exact Activity.exists_of_path_perform h

/-- A result or an error that is there takes no exchange. -/
theorem path_ofExcept {result ended : Except Error α}
    (h : (ofExcept result).activity.Path exchanges ended) : exchanges = [] ∧ ended = result := by
  cases h
  exact ⟨rfl, rfl⟩

/-- What is collected along a way are the contents in the events that were told. -/
theorem Collects.path {step : ModelStep} {field : String} {post : List String → α → Prop}
    {contents : List String} {result : Except Error α} (h : work.Collects step field post contents)
    (path : work.activity.Path exchanges result) :
    Holds (post (contents ++ step.contents field (Exchange.events exchanges))) result := by
  -- The monitor appends what each event adds, so that it may start from any contents.
  have hall : ∀ (exchanges : List Exchange) (contents : List String),
      exchanges.foldl (fun g exchange =>
        (step.collecting field).after g exchange.effect exchange.reply) contents =
      contents ++ step.contents field (Exchange.events exchanges) := by
    intro exchanges
    induction exchanges with
    | nil => exact fun contents => (List.append_nil contents).symm
    | cons exchange later ih =>
      intro contents
      rw [List.foldl_cons, ih]
      show contents ++ step.contents field exchange.effect.event?.toList ++ _ = _
      rw [List.append_assoc, ← ModelStep.contents_append, Exchange.events_cons]
  rw [← hall]
  exact Activity.Path.obeys path h

end Work

/-! ## Which effects are requests to the model -/

/-- Whether an effect is a request to the model. -/
def Effect.isAsk : Effect → Bool
  | .ask _ => true
  | _ => false

/-- Whether an effect tells a text of the model on. -/
def Effect.isTextDelta : Effect → Bool
  | .emit (.textDelta _ _) => true
  | _ => false

/-- To tell a text of the model on is talk, and no request. -/
theorem Effect.isTalk_of_isTextDelta {effect : Effect} (h : effect.isTextDelta) :
    effect.IsTalk ∧ effect.isAsk = false := by
  cases effect with
  | emit event => cases event <;> first | exact ⟨trivial, rfl⟩ | cases h
  | _ => cases h

/-- What a reply of the model comes to. -/
def ModelReply.result (reply : ModelReply) : Except Error Turn :=
  match reply.ending with
  | .complete => .ok (.ofDeltas reply.deltas)
  | .broken error => .error error
  | .interrupted => .error .cancelled

/-- Effects of a kind are of every wider kind. -/
theorem Activity.Only.mono {kind kind' : Effect → Prop} {t : Activity α} (h : t.Only kind)
    (hkind : ∀ effect, kind effect → kind' effect) : t.Only kind' := by
  induction t with
  | done a => exact trivial
  | step effect next ih => exact ⟨hkind _ h.1, fun reply => ih reply (h.2 reply)⟩

namespace ModelStep

variable {setting : Setting} {node : Node} {step : ModelStep} {brief : Brief}

/-- Work that does not ask the model, and fails only if the run is cancelled. -/
def Quiet (work : Work α) : Prop :=
  work.activity.Obeys (only fun effect => effect.isAsk = false)
    (fun _ result => ∀ error, result = .error error → error = .cancelled) ()

/-- Work in two parts is quiet if both parts are. -/
theorem Quiet.bind {work : Work α} {f : α → Work β} (h : Quiet work) (hf : ∀ a, Quiet (f a)) :
    Quiet (work >>= f) :=
  (Activity.obeys_bind _ _ _).2 <| Activity.Obeys.mono h fun _ result hresult => by
    cases result with
    | ok a => exact hf a
    | error error => exact fun other hother => hresult other (by cases hother; rfl)

/-- An activity without requests, in front of quiet work, is quiet. -/
theorem quiet_lift_bind {t : Activity α} {f : α → Work β}
    (ht : t.Only fun effect => effect.isAsk = false) (hf : ∀ a, Quiet (f a)) :
    Quiet (Work.lift t >>= f) := by
  unfold Quiet
  rw [Work.activity_lift_bind, Activity.obeys_bind]
  exact Activity.Obeys.mono ht fun _ a _ => hf a

/-- A result that is there is quiet. -/
theorem quiet_pure (a : α) : Quiet (pure a : Work α) := nofun

/-- To fail because the run is cancelled is quiet. -/
theorem quiet_cancelled : Quiet (throw .cancelled : Work α) := by
  rintro _ ⟨⟩
  rfl

/-- The model is not asked while a tool is called. -/
theorem quiet_observed (call : ToolCall) (box : Toolbox) : Quiet (call.observed box) := by
  have hinvoke : (call.invoke box).Only fun effect => effect.isAsk = false :=
    (call.only_invoke box).mono fun effect h => by
      cases effect <;> first | rfl | exact h.elim
  unfold ToolCall.observed
  -- A notice, the call itself, and a notice of its result.
  refine quiet_lift_bind (Activity.only_perform rfl) fun _ => ?_
  refine quiet_lift_bind hinvoke fun ended => ?_
  cases ended with
  | interrupted => exact quiet_cancelled
  | finished result =>
    exact quiet_lift_bind (Activity.only_perform rfl) fun _ => quiet_pure _

/-- A call that is run and noted is quiet. -/
theorem quiet_runCall (talk : Talk) (call : ToolUse) :
    Quiet (runCall setting node step brief talk call) :=
  (quiet_observed _ _).bind fun _ => quiet_pure _

/-- The model is not asked while the calls of a turn are handled. -/
theorem quiet_handleCalls : ∀ (talk : Talk) (calls : List ToolUse),
    Quiet (handleCalls setting node step brief talk calls)
  | _, [] => quiet_pure _
  | talk, call :: rest => by
    rw [handleCalls]
    cases step.gate setting.config.approval call with
    | run => exact (quiet_runCall talk call).bind fun talk => quiet_handleCalls talk rest
    | refuse reason => exact quiet_handleCalls _ rest
    | ask => exact quiet_pure _

/-- A way through quiet work has no request, and ends in no other error than that the run is
cancelled. -/
theorem Quiet.path {work : Work α} (h : Quiet work) {exchanges : List Exchange}
    {result : Except Error α} (path : work.activity.Path exchanges result) :
    (∀ exchange ∈ exchanges, exchange.effect.isAsk = false) ∧
      ∀ error, result = .error error → error = .cancelled :=
  ⟨path.kind (Activity.Obeys.mono h fun _ _ _ => trivial), path.obeys h⟩

/-- Listening to an answer only tells its texts, and takes up all its pieces. -/
theorem path_listen {name : String} {deltas : List Delta} {draft ended : TurnDraft}
    {exchanges : List Exchange} (h : (listen name draft deltas).Path exchanges ended) :
    (∀ exchange ∈ exchanges, exchange.effect.isTextDelta) ∧ ended = draft.addAll deltas := by
  induction deltas generalizing draft exchanges with
  | nil =>
    cases h
    exact ⟨fun _ hmem => absurd hmem List.not_mem_nil, rfl⟩
  | cons delta rest ih =>
    cases delta with
    | text chunk =>
      obtain ⟨_, later, hlater, rfl⟩ := Activity.exists_of_path_perform h
      obtain ⟨htold, hended⟩ := ih hlater
      refine ⟨fun exchange hmem => ?_, hended⟩
      rcases List.mem_cons.1 hmem with rfl | hmem
      · rfl
      · exact htold exchange hmem
    | toolStart index id name => exact ih h
    | toolInput index fragment => exact ih h
    | stop reason => exact ih h
    | usage input output => exact ih h

/-- One request is a reply, whose texts are told. -/
theorem path_askOnce {name : String} {request : ModelRequest} {exchanges : List Exchange}
    {result : Except Error Turn} (h : (askOnce name request).activity.Path exchanges result) :
    ∃ (reply : ModelReply) (told : List Exchange),
      exchanges = ⟨.ask request, reply⟩ :: told ∧
      (∀ exchange ∈ told, exchange.effect.isTextDelta) ∧ result = reply.result := by
  unfold askOnce at h
  obtain ⟨reply, later, hlater, rfl⟩ := Work.exists_of_path_perform h
  obtain ⟨told, draft, last, htold, hlast, rfl⟩ := Work.exists_of_path_lift hlater
  obtain ⟨htexts, rfl⟩ := path_listen htold
  refine ⟨reply, told ++ last, rfl, ?_⟩
  unfold ModelReply.result
  -- However the answer ends, the work does nothing more.
  cases hending : reply.ending <;> rw [hending] at hlast <;> cases hlast <;>
    · rw [List.append_nil]
      exact ⟨htexts, rfl⟩

/-- Asking with another attempt left is one request, and if it fails perhaps, after a notice and a
wait, asking again. -/
theorem path_askWithRetry {retry : RetryConfig} {name : String} {request : ModelRequest}
    {left : Nat} {exchanges : List Exchange} {result : Except Error Turn}
    (h : (askWithRetry retry name request (left + 1)).activity.Path exchanges result) :
    (askOnce name request).activity.Path exchanges result ∨
      ∃ first error waiting later, exchanges = first ++ (waiting ++ later) ∧
        (askOnce name request).activity.Path first (.error error) ∧
        (∀ exchange ∈ waiting, exchange.effect.IsTalk ∧ exchange.effect.isAsk = false) ∧
        (later = [] ∧ result = .error .cancelled ∨
          (askWithRetry retry name request left).activity.Path later result) := by
  rw [askWithRetry] at h
  obtain ⟨first, ended, later, hfirst, hlater, rfl⟩ := Work.exists_of_path_lift h
  cases ended with
  | ok turn =>
    cases hlater
    rw [List.append_nil]
    exact .inl hfirst
  | error error =>
    dsimp only at hlater
    split_ifs at hlater with hretryable
    · -- The failure is not worth another try.
      cases hlater
      rw [List.append_nil]
      exact .inl hfirst
    -- The notice, then the wait, which may be cut short.
    obtain ⟨told, slept, hslept, rfl⟩ := Work.exists_of_path_perform hlater
    obtain ⟨cancelled, rest, hrest, rfl⟩ := Work.exists_of_path_perform hslept
    refine .inr ⟨first, error, [⟨_, told⟩, ⟨_, cancelled⟩], rest, rfl, hfirst, ?_, ?_⟩
    · rintro _ (_ | ⟨_, _ | ⟨_, ⟨⟩⟩⟩) <;> exact ⟨trivial, rfl⟩
    · cases cancelled with
      | true =>
        cases hrest
        exact .inl ⟨rfl, rfl⟩
      | false => exact .inr hrest

/-! ## Executions -/

/-- The execution of a model node up to where it stopped last: the start, and what followed the
caller's decisions, whatever the replies. -/
inductive Transcript (setting : Setting) (node : Node) (step : ModelStep) (vars : Lookup)
    (itemIndex : Option Nat) : List Exchange → Except Error ModelOutcome → Prop where
  | start {exchanges : List Exchange} {result : Except Error ModelOutcome}
    (path : (step.start setting node vars itemIndex).activity.Path exchanges result) :
    Transcript setting node step vars itemIndex exchanges result
  | resume {earlier later : List Exchange} {request : ApprovalRequest} {checkpoint : Checkpoint}
    {result : Except Error ModelOutcome}
    (before : Transcript setting node step vars itemIndex earlier
      (.ok (.awaitApproval request checkpoint)))
    (decision : Decision)
    (path : (step.resume setting node checkpoint decision).activity.Path later result) :
    Transcript setting node step vars itemIndex (earlier ++ later) result

end ModelStep

end AgentFlow
