import AgentFlow.Activity.Host
import AgentFlow.FanOut.Slice

/-!
# Contracts of activities

An activity reaches the outside through its effects. A `Contract` says which tool calls it may
start and which requests it may send to the model, and what it may expect of the model's replies.
`Activity.Keeps` is a statement about the whole tree: as long as the replies are as expected,
the activity does only what is allowed, and what it ends with has a property. It is computed from
the tree, so that the laws of sequencing are equivalences, by which `simp` takes an activity apart.

`Activity.effects` is the sequence of effects under a host, and `Activity.Keeps.run` is the way
from trees to hosts: under a host that replies as expected, an activity that keeps a contract has
only allowed effects.
-/

namespace AgentFlow

variable {α β σ : Type}

/-- The errors that say that a flow, or a step of it, is malformed. -/
def Error.IsStructural : Error → Prop
  | .structural _ => True
  | _ => False

/-- What an activity may do to the outside, and what it may expect of the model. -/
structure Contract where
  /-- The tool calls that may be started, by node, tool and input. -/
  call : String → String → Value → Prop
  /-- The requests that may be sent to the model. -/
  request : ModelRequest → Prop
  /-- The replies that the model is expected to give. -/
  reply : ModelReply → Prop

namespace Contract

variable (c : Contract)

/-- The effects that the contract allows. -/
def allows : Effect → Prop
  | .emit (.toolStart node tool input) => c.call node tool input
  | .ask request => c.request request
  | _ => True

/-- The replies that the contract expects. -/
def expects : (effect : Effect) → effect.Reply → Prop
  | .ask _, reply => c.reply reply
  | _, _ => True

/-- The errors with which work may fail: a structural one only if the model may give it. -/
def fault (error : Error) : Prop :=
  error.IsStructural → ∃ reply, c.reply reply ∧ reply.ending = .broken error

/-- A result that has the property, or an error that is no breach. -/
def accepts (post : α → Prop) : Except Error α → Prop
  | .ok a => post a
  | .error error => c.fault error

/-- An error that is not structural is no breach of a contract. -/
theorem fault_of_not_structural {error : Error} (h : ¬ error.IsStructural) : c.fault error :=
  fun hs => absurd hs h

/-- An error of an expected reply is no breach of a contract. -/
theorem fault_of_reply {reply : ModelReply} {error : Error} (hr : c.reply reply)
    (he : reply.ending = .broken error) : c.fault error :=
  fun _ => ⟨reply, hr, he⟩

end Contract

/-! ## Activities -/

namespace Activity

/-- As long as the replies are as the contract expects, the activity has only effects that it
allows, and ends with a result that has the property. -/
def Keeps (c : Contract) (post : α → Prop) : Activity α → Prop
  | done result => post result
  | step effect next =>
    c.allows effect ∧ ∀ reply, c.expects effect reply → (next reply).Keeps c post

variable {c : Contract}

/-- An activity that does nothing keeps every contract, and ends with what it is given. -/
@[simp]
theorem keeps_pure (post : α → Prop) (a : α) : (pure a : Activity α).Keeps c post ↔ post a :=
  Iff.rfl

/-- An activity in two parts keeps a contract if the second part does after every result that the
first one can have. -/
@[simp]
theorem keeps_bind (post : β → Prop) (f : α → Activity β) (t : Activity α) :
    (t >>= f).Keeps c post ↔ t.Keeps c fun a => (f a).Keeps c post := by
  induction t with
  | done a => exact Iff.rfl
  | step effect next ih =>
    exact and_congr_right fun _ => forall_congr' fun reply => imp_congr_right fun _ => ih reply

/-- What becomes of the result of an activity is nothing to a contract. -/
@[simp]
theorem keeps_map (post : β → Prop) (f : α → β) (t : Activity α) :
    (f <$> t).Keeps c post ↔ t.Keeps c fun a => post (f a) := by
  rw [← bind_pure_comp, keeps_bind]
  simp only [keeps_pure]

/-- A weaker property of the result. -/
theorem Keeps.mono {post post' : α → Prop} {t : Activity α} (h : t.Keeps c post)
    (hp : ∀ a, post a → post' a) : t.Keeps c post' := by
  induction t with
  | done a => exact hp a h
  | step effect next ih => exact ⟨h.1, fun reply hr => ih reply (h.2 reply hr)⟩

/-- An effect that the contract says nothing about has any reply. -/
theorem keeps_perform (effect : Effect) (ha : c.allows effect)
    (he : ∀ reply, c.expects effect reply) (post : effect.Reply → Prop) :
    (perform effect).Keeps c post ↔ ∀ reply, post reply :=
  ⟨fun h reply => h.2 reply (he reply), fun h => ⟨ha, fun reply _ => h reply⟩⟩

/-- Telling the observers of anything but the start of a call is always allowed. -/
@[simp]
theorem keeps_emit (post : Unit → Prop) (event : Event) :
    (emit event).Keeps c post ↔ c.allows (.emit event) ∧ post () :=
  and_congr_right fun _ => ⟨fun h => h () trivial, fun h _ _ => h⟩

/-- A request has to be allowed, and its reply may be expected to be as the contract says. -/
@[simp]
theorem keeps_ask (post : ModelReply → Prop) (request : ModelRequest) :
    (ask request).Keeps c post ↔ c.request request ∧ ∀ reply, c.reply reply → post reply :=
  Iff.rfl

/-- A tool may take up any call: the contract has judged the event of its start. -/
@[simp]
theorem keeps_request (post : Receipt → Prop) (call : ToolCall) :
    (request call).Keeps c post ↔ ∀ receipt, post receipt :=
  keeps_perform (.request call) trivial (fun _ => trivial) post

/-- Of what a tool does nothing is expected. -/
@[simp]
theorem keeps_act (post : ToolReply → Prop) (call : ToolCall) (number : Nat) :
    (act call number).Keeps c post ↔ ∀ reply, post reply :=
  keeps_perform (.act call number) trivial (fun _ => trivial) post

/-- Waiting is allowed, and the run may be cancelled by its end. -/
@[simp]
theorem keeps_sleep (post : Bool → Prop) (ms : Nat) (resumed : Bool) :
    (sleep ms resumed).Keeps c post ↔ ∀ cancelled, post cancelled :=
  keeps_perform (.sleep ms resumed) trivial (fun _ => trivial) post

/-- The question whether the run is cancelled is allowed, and has either answer. -/
@[simp]
theorem keeps_poll (post : Bool → Prop) : poll.Keeps c post ↔ ∀ cancelled, post cancelled :=
  keeps_perform .poll trivial (fun _ => trivial) post

/-- Cancelling the run is allowed. -/
@[simp]
theorem keeps_cancel (post : Unit → Prop) : cancel.Keeps c post ↔ ∀ reply, post reply :=
  keeps_perform .cancel trivial (fun _ => trivial) post

/-- Taking a name is allowed, and nothing is expected of it. -/
@[simp]
theorem keeps_freshId (post : String → Prop) : freshId.Keeps c post ↔ ∀ id, post id :=
  keeps_perform .freshId trivial (fun _ => trivial) post

end Activity

/-! ## Work that can fail -/

namespace Work

/-- Work that keeps a contract: its result has the property, or it fails without a breach. -/
def Keeps (c : Contract) (post : α → Prop) (work : Work α) : Prop :=
  work.activity.Keeps c (c.accepts post)

variable {c : Contract}

/-- Work that has its result keeps every contract. -/
@[simp]
theorem keeps_pure (post : α → Prop) (a : α) : (pure a : Work α).Keeps c post ↔ post a := Iff.rfl

/-- Work that fails keeps a contract if its error is no breach. -/
@[simp]
theorem keeps_throw (post : α → Prop) (error : Error) :
    (throw error : Work α).Keeps c post ↔ c.fault error :=
  Iff.rfl

/-- Work that has its result, or has failed, keeps a contract if either is as it should be. -/
theorem keeps_ofExcept (post : α → Prop) (result : Except Error α) :
    (ofExcept result).Keeps c post ↔
      (∀ a, result = .ok a → post a) ∧ ∀ error, result = .error error → c.fault error := by
  cases result with
  | ok a =>
    refine ⟨fun h => ⟨fun _ ha => ?_, nofun⟩, fun h => h.1 a rfl⟩
    cases ha
    exact h
  | error error =>
    refine ⟨fun h => ⟨nofun, fun _ he => ?_⟩, fun h => h.2 error rfl⟩
    cases he
    exact h

/-- An activity that does not fail keeps a contract as work does. -/
@[simp]
theorem keeps_lift (post : α → Prop) (t : Activity α) :
    (Work.lift t).Keeps c post ↔ t.Keeps c post := by
  simp only [Keeps, activity, Work.lift, ExceptT.run_lift, Activity.keeps_map, Contract.accepts]

/-- Work in two parts keeps a contract if the second part does after every result of the first one;
an error of the first one is the error of the whole. -/
@[simp]
theorem keeps_bind (post : β → Prop) (f : α → Work β) (work : Work α) :
    (work >>= f).Keeps c post ↔ work.Keeps c fun a => (f a).Keeps c post := by
  simp only [Keeps, activity, ExceptT.run_bind, Activity.keeps_bind]
  refine iff_of_eq (congrArg (Activity.Keeps c · _) (funext fun result => ?_))
  cases result <;> rfl

/-- What becomes of the result of work is nothing to a contract. -/
@[simp]
theorem keeps_map (post : β → Prop) (f : α → β) (work : Work α) :
    (f <$> work).Keeps c post ↔ work.Keeps c fun a => post (f a) := by
  rw [← bind_pure_comp, keeps_bind]
  simp only [keeps_pure]

/-- A weaker property of the result. -/
theorem Keeps.mono {post post' : α → Prop} {work : Work α} (h : work.Keeps c post)
    (hp : ∀ a, post a → post' a) : work.Keeps c post' := by
  refine Activity.Keeps.mono h fun result hr => ?_
  cases result with
  | ok a => exact hp a hr
  | error error => exact hr

end Work

/-! ## Slices -/

/-- A slice keeps a contract if its result has the property, or what is left of the activity
keeps the contract. -/
def Slice.Keeps {t : Activity α} (c : Contract) (post : α → Prop) : Slice t → Prop
  | .ended result => post result
  | .asleep _ _ rest _ => rest.Keeps c post

namespace Activity

variable {c : Contract} {post : α → Prop}

/-- A worker who does not see that the run is cancelled keeps the contract of its activity. -/
theorem Keeps.slice {t : Activity α} (h : t.Keeps c post) :
    t.slice.Keeps c (Slice.Keeps c post) := by
  induction t with
  | done a => exact h
  | step effect next ih =>
    -- Whatever follows an expected reply is a slice as before, of a longer activity.
    have later (reply : effect.Reply) (hr : c.expects effect reply) :
        ((next reply).slice.bind fun s => done s.before :
          Activity (Slice (step effect next))).Keeps c (Slice.Keeps c post) := by
      refine (keeps_bind _ _ _).2 ((ih reply (h.2 reply hr)).mono fun s hs => ?_)
      cases s <;> exact hs
    cases effect with
    | sleep ms resumed =>
      unfold Activity.slice
      split
      · exact later false trivial
      · exact h.2 false trivial
    | poll => exact later false trivial
    | emit event => exact ⟨h.1, later⟩
    | ask request => exact ⟨h.1, later⟩
    | request call => exact ⟨h.1, later⟩
    | act call number => exact ⟨h.1, later⟩
    | cancel => exact ⟨h.1, later⟩
    | freshId => exact ⟨h.1, later⟩

end Activity

/-! ## Under a host -/

/-- The event that an effect tells the observers. -/
def Effect.event? : Effect → Option Event
  | .emit event => some event
  | _ => none

namespace Activity

/-- The effects of an activity under a host, in order. -/
def effects (host : Host σ) : Activity α → Session σ → List Effect
  | done _, _ => []
  | step effect next, session =>
    let (reply, session) := session.answer host effect
    effect :: (next reply).effects host session

/-- The events of an activity under a host, in order. -/
def events (host : Host σ) (t : Activity α) (session : Session σ) : List Event :=
  (t.effects host session).filterMap Effect.event?

/-- The effects of an activity in two parts are those of the parts. -/
theorem effects_bind (host : Host σ) (f : α → Activity β) (t : Activity α) (session : Session σ) :
    (t >>= f).effects host session = t.effects host session ++
      (f (t.run host session).1).effects host (t.run host session).2 := by
  induction t generalizing session with
  | done a => rfl
  | step effect next ih =>
    exact congrArg (effect :: ·) (ih _ _)

/-- The events of an activity in two parts are those of the parts. -/
@[simp]
theorem events_bind (host : Host σ) (f : α → Activity β) (t : Activity α) (session : Session σ) :
    (t >>= f).events host session = t.events host session ++
      (f (t.run host session).1).events host (t.run host session).2 := by
  simp only [events, effects_bind, List.filterMap_append]

/-- Every event is told by an effect. -/
theorem emit_mem_effects {host : Host σ} {t : Activity α} {session : Session σ} {event : Event}
    (h : event ∈ t.events host session) : .emit event ∈ t.effects host session := by
  obtain ⟨effect, heffect, hevent⟩ := List.mem_filterMap.1 h
  cases effect with
  | emit event' =>
    obtain rfl : event' = event := by simpa [Effect.event?] using hevent
    exact heffect
  | _ => simp [Effect.event?] at hevent

/-- An effect adds its event to the log, and nothing else. -/
theorem log_answer (host : Host σ) (session : Session σ) (effect : Effect) :
    (session.answer host effect).2.log = session.log ++ effect.event?.toList := by
  cases effect <;> simp [Session.answer, Session.after, Effect.event?]

/-- The log grows by the events of the activity. -/
theorem log_run (host : Host σ) (t : Activity α) (session : Session σ) :
    (t.run host session).2.log = session.log ++ t.events host session := by
  induction t generalizing session with
  | done a => simp [run, events, effects]
  | step effect next ih =>
    have rest := ih (session.answer host effect).1 (session.answer host effect).2
    -- The first effect tells at most one event, before those of what follows.
    have here : (step effect next).events host session = effect.event?.toList ++
        (next (session.answer host effect).1).events host (session.answer host effect).2 := by
      cases effect <;> rfl
    rw [here, ← List.append_assoc, ← log_answer]
    exact rest

end Activity

/-- A host whose model replies as a contract expects. -/
def Host.Meets (host : Host σ) (c : Contract) : Prop :=
  ∀ request world, c.reply (host.ask request world).reply

/-- A host that meets a contract gives expected replies to all effects. -/
theorem Host.Meets.expects_answer {host : Host σ} {c : Contract} (hm : host.Meets c)
    (session : Session σ) (effect : Effect) :
    c.expects effect (session.answer host effect).1 := by
  cases effect with
  | ask request => exact hm request session.world
  | _ => trivial

/-- Under a host that meets the contract, an activity that keeps it has only allowed effects, and a
result with the property. -/
theorem Activity.Keeps.run {c : Contract} {post : α → Prop} {host : Host σ} (hm : host.Meets c)
    {t : Activity α} (h : t.Keeps c post) (session : Session σ) :
    post (t.run host session).1 ∧ ∀ effect ∈ t.effects host session, c.allows effect := by
  induction t generalizing session with
  | done a => exact ⟨h, fun _ he => absurd he List.not_mem_nil⟩
  | step effect next ih =>
    have rest := h.2 _ (hm.expects_answer session effect)
    obtain ⟨hpost, hall⟩ := ih (session.answer host effect).1 rest (session.answer host effect).2
    refine ⟨hpost, fun e he => ?_⟩
    rcases List.mem_cons.1 he with rfl | he
    · exact h.1
    · exact hall e he

/-- Under a host that meets the contract, only calls that it allows are started. -/
theorem Activity.Keeps.call_of_mem_events {c : Contract} {post : α → Prop} {host : Host σ}
    (hm : host.Meets c) {t : Activity α} (h : t.Keeps c post) {session : Session σ}
    {node tool : String} {input : Value}
    (hevent : .toolStart node tool input ∈ t.events host session) : c.call node tool input :=
  (h.run hm session).2 _ (emit_mem_effects hevent)

end AgentFlow
