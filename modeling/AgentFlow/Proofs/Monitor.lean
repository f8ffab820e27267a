import AgentFlow.Proofs.Contract

/-!
# Monitors

A contract judges every effect of an activity for itself. What a run may do next often depends on
what it did before: on the last answer to the question whether it is cancelled, on the events told
so far. A `Monitor` has a state of its own, which changes with every effect and its reply, and says
which effects it allows in a state.

`Activity.Obeys` is a statement about the whole tree, as `Activity.Keeps` is, and computed from the
tree in the same way, so that the laws of sequencing are equivalences. `Activity.Obeys.run` is the
way to hosts: whatever relates the monitor's state to the session and survives every effect holds
at every moment of a run, and at its end.
-/

namespace AgentFlow

variable {α β γ σ : Type}

/-- Watches effects one by one. -/
structure Monitor (γ : Type) where
  /-- The effects that are allowed in a state. -/
  allows : γ → Effect → Prop
  /-- The state after an effect and its reply. -/
  after : γ → (effect : Effect) → effect.Reply → γ

namespace Activity

/-- Whatever the replies are, every effect is allowed when its turn comes, and the result and the
monitor's last state have the property. -/
def Obeys (m : Monitor γ) (post : γ → α → Prop) : Activity α → γ → Prop
  | done result, g => post g result
  | step effect next, g =>
    m.allows g effect ∧ ∀ reply, (next reply).Obeys m post (m.after g effect reply)

variable {m : Monitor γ} {g : γ}

/-- An activity that does nothing leaves a monitor in its state. -/
@[simp]
theorem obeys_pure (post : γ → α → Prop) (a : α) :
    (pure a : Activity α).Obeys m post g ↔ post g a :=
  Iff.rfl

/-- An activity in two parts obeys a monitor if the second part does, from every state and after
every result that the first one can have. -/
@[simp]
theorem obeys_bind (post : γ → β → Prop) (f : α → Activity β) (t : Activity α) :
    (t >>= f).Obeys m post g ↔ t.Obeys m (fun g a => (f a).Obeys m post g) g := by
  induction t generalizing g with
  | done a => exact Iff.rfl
  | step effect next ih => exact and_congr_right fun _ => forall_congr' fun reply => ih reply

/-- What becomes of the result of an activity is nothing to a monitor. -/
@[simp]
theorem obeys_map (post : γ → β → Prop) (f : α → β) (t : Activity α) :
    (f <$> t).Obeys m post g ↔ t.Obeys m (fun g a => post g (f a)) g := by
  rw [← bind_pure_comp, obeys_bind]
  simp only [obeys_pure]

/-- A weaker property of the end. -/
theorem Obeys.mono {post post' : γ → α → Prop} {t : Activity α} (h : t.Obeys m post g)
    (hp : ∀ g a, post g a → post' g a) : t.Obeys m post' g := by
  induction t generalizing g with
  | done a => exact hp g a h
  | step effect next ih => exact ⟨h.1, fun reply => ih reply (h.2 reply)⟩

/-- An event has to be allowed, and has no reply to tell apart. -/
@[simp]
theorem obeys_emit (post : γ → Unit → Prop) (event : Event) :
    (emit event).Obeys m post g ↔
      m.allows g (.emit event) ∧ post (m.after g (.emit event) ()) () :=
  and_congr_right fun _ => ⟨fun h => h (), fun h _ => h⟩

/-- The question whether the run is cancelled may have either answer. -/
@[simp]
theorem obeys_poll (post : γ → Bool → Prop) :
    poll.Obeys m post g ↔
      m.allows g .poll ∧ ∀ cancelled : Bool, post (m.after g .poll cancelled) cancelled :=
  Iff.rfl

/-- The model may give any reply to a request that is allowed. -/
@[simp]
theorem obeys_ask (post : γ → ModelReply → Prop) (request : ModelRequest) :
    (ask request).Obeys m post g ↔ m.allows g (.ask request) ∧
      ∀ reply : ModelReply, post (m.after g (.ask request) reply) reply :=
  Iff.rfl

/-- A tool may take up a call that is allowed under any number, after any time. -/
@[simp]
theorem obeys_request (post : γ → Receipt → Prop) (call : ToolCall) :
    (request call).Obeys m post g ↔ m.allows g (.request call) ∧
      ∀ receipt : Receipt, post (m.after g (.request call) receipt) receipt :=
  Iff.rfl

/-- A tool may do anything about a call that it is allowed to act on. -/
@[simp]
theorem obeys_act (post : γ → ToolReply → Prop) (call : ToolCall) (number : Nat) :
    (act call number).Obeys m post g ↔ m.allows g (.act call number) ∧
      ∀ reply : ToolReply, post (m.after g (.act call number) reply) reply :=
  Iff.rfl

/-- The run may be cancelled by the end of a wait that is allowed, or not. -/
@[simp]
theorem obeys_sleep (post : γ → Bool → Prop) (ms : Nat) (resumed : Bool) :
    (sleep ms resumed).Obeys m post g ↔ m.allows g (.sleep ms resumed) ∧
      ∀ cancelled : Bool, post (m.after g (.sleep ms resumed) cancelled) cancelled :=
  Iff.rfl

/-- A cancellation has to be allowed, and has no reply to tell apart. -/
@[simp]
theorem obeys_cancel (post : γ → Unit → Prop) :
    cancel.Obeys m post g ↔ m.allows g .cancel ∧ post (m.after g .cancel ()) () :=
  and_congr_right fun _ => ⟨fun h => h (), fun h _ => h⟩

/-- Any name may be given away. -/
@[simp]
theorem obeys_freshId (post : γ → String → Prop) :
    freshId.Obeys m post g ↔
      m.allows g .freshId ∧ ∀ id : String, post (m.after g .freshId id) id :=
  Iff.rfl

/-! ## Under a host -/

/-- The effects of an activity under a host, each with the session in which it is answered. -/
def moments (host : Host σ) : Activity α → Session σ → List (Session σ × Effect)
  | done _, _ => []
  | step effect next, session =>
    (session, effect) ::
      (next (session.answer host effect).1).moments host (session.answer host effect).2

/-- What relates the monitor's state to the session and survives every allowed effect holds at every
moment of an activity that obeys the monitor, and at its end. -/
theorem Obeys.run {host : Host σ} {holds : γ → Session σ → Prop}
    (hstep : ∀ g session effect, holds g session → m.allows g effect →
      holds (m.after g effect (session.answer host effect).1) (session.answer host effect).2)
    {post : γ → α → Prop} {t : Activity α} (h : t.Obeys m post g) {session : Session σ}
    (hg : holds g session) :
    (∃ g, holds g (t.run host session).2 ∧ post g (t.run host session).1) ∧
      ∀ moment ∈ t.moments host session, ∃ g, holds g moment.1 ∧ m.allows g moment.2 := by
  induction t generalizing g session with
  | done a => exact ⟨⟨g, hg, h⟩, fun _ hmem => absurd hmem List.not_mem_nil⟩
  | step effect next ih =>
    have hnext := hstep g session effect hg h.1
    obtain ⟨hend, hmoments⟩ := ih (session.answer host effect).1 (h.2 _) hnext
    refine ⟨hend, fun moment hmem => ?_⟩
    rcases List.mem_cons.1 hmem with rfl | hmem
    · exact ⟨g, hg, h.1⟩
    · exact hmoments moment hmem

end Activity

end AgentFlow
