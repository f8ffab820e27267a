import AgentFlow.Activity.Basic

/-!
# Hosts

Who answers an activity: a model, tools, a clock and a source of names over a world of their own. A
session is the world together with what a run needs to remember of it: whether it is cancelled,
and what the observers were told.
-/

namespace AgentFlow

/-- A reply together with what it does to the world. -/
structure Answered (ρ σ : Type) where
  reply : ρ
  /-- Whether the run was cancelled meanwhile. -/
  cancels : Bool := false
  world : σ

/-- The answers to the effects that leave the run. -/
structure Host (σ : Type) where
  ask : ModelRequest → σ → Answered ModelReply σ
  request : ToolCall → σ → Answered Receipt σ
  act : ToolCall → Nat → σ → Answered ToolReply σ
  sleep : Nat → σ → Answered Unit σ
  freshId : σ → String × σ

/-- A world with a run in it. -/
structure Session (σ : Type) where
  world : σ
  cancelled : Bool := false
  /-- The events so far, in order. -/
  log : List Event := []

namespace Session

variable {σ ρ : Type}

/-- Takes over what an answer did. -/
def after (session : Session σ) (answered : Answered ρ σ) : Session σ :=
  { session with
    world := answered.world
    cancelled := session.cancelled || answered.cancels }

/-- Answers one effect. -/
def answer (host : Host σ) (session : Session σ) : (effect : Effect) → effect.Reply × Session σ
  | .emit event => ((), { session with log := session.log ++ [event] })
  | .ask request =>
    let answered := host.ask request session.world
    -- A stream that is cut off was cut off by cancelling the run.
    let cut := answered.reply.ending == .interrupted
    (answered.reply, session.after { answered with cancels := answered.cancels || cut })
  | .request call =>
    let answered := host.request call session.world
    (answered.reply, session.after answered)
  | .act call number =>
    let answered := host.act call number session.world
    (answered.reply, session.after answered)
  | .sleep ms _ =>
    let session := session.after (host.sleep ms session.world)
    (session.cancelled, session)
  | .poll => (session.cancelled, session)
  | .cancel => ((), { session with cancelled := true })
  | .freshId =>
    let (id, world) := host.freshId session.world
    (id, { session with world })

/-- No effect takes back a cancellation. -/
theorem cancelled_answer (host : Host σ) {session : Session σ} (h : session.cancelled = true)
    (effect : Effect) : (session.answer host effect).2.cancelled = true := by
  cases effect <;> simp [answer, after, h]

end Session

namespace Activity

variable {σ α β : Type}

/-- Answers the effects of an activity in order, to its end. -/
def run (host : Host σ) : Activity α → Session σ → α × Session σ
  | done result, session => (result, session)
  | step effect next, session =>
    let (reply, session) := session.answer host effect
    (next reply).run host session

/-- A host answers the first effect, and then what follows its reply. -/
theorem run_step (host : Host σ) (effect : Effect) (next : effect.Reply → Activity α)
    (session : Session σ) : (step effect next).run host session =
      (next (session.answer host effect).1).run host (session.answer host effect).2 :=
  rfl

/-- An activity in two parts is answered part by part. -/
theorem run_bind (host : Host σ) (f : α → Activity β) :
    (t : Activity α) → (session : Session σ) →
      (t.bind f).run host session =
        (f (t.run host session).1).run host (t.run host session).2
  | done _, _ => rfl
  | step effect next, session =>
    run_bind host f (next (session.answer host effect).1) (session.answer host effect).2

/-- Nothing is answered where nothing is done. -/
@[simp]
theorem run_pure (host : Host σ) (a : α) (session : Session σ) :
    (pure a : Activity α).run host session = (a, session) := rfl

/-- A sequence is answered part by part. -/
@[simp]
theorem run_then (host : Host σ) (f : α → Activity β) (t : Activity α) (session : Session σ) :
    (t >>= f).run host session =
      (f (t.run host session).1).run host (t.run host session).2 :=
  run_bind host f t session

/-- What becomes of the result is nothing to the host. -/
@[simp]
theorem run_map (host : Host σ) (f : α → β) (t : Activity α) (session : Session σ) :
    (f <$> t).run host session = (f (t.run host session).1, (t.run host session).2) :=
  run_bind host (fun a => done (f a)) t session

/-- The session answers whether the run is cancelled. -/
@[simp]
theorem run_poll (host : Host σ) (session : Session σ) :
    poll.run host session = (session.cancelled, session) := rfl

/-- What is told goes to the end of the log. -/
@[simp]
theorem run_emit (host : Host σ) (event : Event) (session : Session σ) :
    (emit event).run host session = ((), { session with log := session.log ++ [event] }) := rfl

/-- A cancelled run is remembered as such. -/
@[simp]
theorem run_cancel (host : Host σ) (session : Session σ) :
    cancel.run host session = ((), { session with cancelled := true }) := rfl

end Activity

end AgentFlow
