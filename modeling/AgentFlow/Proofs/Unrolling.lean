import AgentFlow.Proofs.Footprint

/-!
# Activities that stop and are taken up again

An activity may stop with a result that asks to be taken up again. Taken up as often as it stops, it
may come to the same as another activity that does everything at one stretch: the same effects with
the same replies in the same order, but for those that only serve the stopping, and the same result
at the end. `Activity.Unrolls` says so of two trees. The rules follow the trees effect by effect;
the effects that do not show are passed over on either side.

`Activity.Unrolls.exists_matches` carries the relation over to hosts. It needs a host whose answers
depend only on what is in view, so that the effects that do not show make no difference to it, and
which does not cancel the run.
-/

namespace AgentFlow

variable {α β σ ω : Type}

/-! ## Effects that do not show -/

/-- Whether an event is about asking the caller for approval. -/
def Event.isApproval : Event → Bool
  | .approvalRequested _ _ | .approvalResolved _ _ => true
  | _ => false

/-- Whether an effect only serves the stopping and going on. -/
def Effect.isTacit : Effect → Bool
  | .emit event => event.isApproval
  | .poll | .freshId => true
  | _ => false

/-- Whether an effect has the same reply for two activities at the same point. A name is given away
only once, and a cancelled run does not go on. -/
def Effect.isSteady : Effect → Bool
  | .freshId | .cancel => false
  | _ => true

/-- The replies that do not say that the run is cancelled. -/
def Effect.Undisturbed : (effect : Effect) → effect.Reply → Prop
  | .poll, cancelled => cancelled = false
  | .sleep _ _, cancelled => cancelled = false
  | _, _ => True

/-- Work within a node neither takes a name nor cancels the run, so that its effects have the same
replies for both activities. -/
theorem Effect.IsInner.isSteady {effect : Effect} (h : effect.IsInner) : effect.isSteady := by
  cases effect <;> first | rfl | exact h.elim

namespace Activity

/-! ## Taking up again -/

/-- An activity that is taken up again where it stops, at most so many times. -/
def exhaust (again : α → Option (Activity α)) : Nat → Activity α → Activity α
  | 0, t => t
  | n + 1, t => t >>= fun a =>
    match again a with
    | none => return a
    | some rest => exhaust again n rest

variable {again : α → Option (Activity α)}

/-- An activity that may be taken up again does its own part, and then is taken up if it stops. -/
theorem exhaust_succ (n : Nat) (t : Activity α) :
    exhaust again (n + 1) t = t >>= fun a =>
      match again a with
      | none => return a
      | some rest => exhaust again n rest :=
  rfl

/-- Effects are performed before it matters how often an activity is taken up again. -/
theorem exhaust_step (n : Nat) (effect : Effect) (next : effect.Reply → Activity α) :
    exhaust again n (step effect next) = step effect fun reply => exhaust again n (next reply) := by
  cases n <;> rfl

/-- A result with which nothing is taken up again is the end. -/
theorem exhaust_done_of_none {a : α} (h : again a = none) (n : Nat) :
    exhaust again n (done a) = done a := by
  cases n with
  | zero => rfl
  | succ n =>
    change (match again a with | none => done a | some rest => exhaust again n rest) = done a
    rw [h]

/-- A result with which something is taken up again uses up one of the times. -/
theorem exhaust_done_of_some {a : α} {t : Activity α} (h : again a = some t) (n : Nat) :
    exhaust again (n + 1) (done a) = exhaust again n t := by
  change (match again a with | none => done a | some rest => exhaust again n rest) = _
  rw [h]

/-- The first activity, taken up again wherever it stops, comes to the same as the second one, as
long as no reply says that the run is cancelled. -/
inductive Unrolls (again : α → Option (Activity α)) : Activity α → Activity α → Prop where
  | done {a : α} (h : again a = none) : Unrolls again (done a) (done a)
  /-- The first one stopped and goes on. -/
  | goOn {a : α} {t t' : Activity α} (h : again a = some t) (ht : Unrolls again t t') :
    Unrolls again (done a) t'
  | left {effect : Effect} {next : effect.Reply → Activity α} {t' : Activity α}
    (htacit : effect.isTacit)
    (h : ∀ reply, effect.Undisturbed reply → Unrolls again (next reply) t') :
    Unrolls again (step effect next) t'
  | right {effect : Effect} {next : effect.Reply → Activity α} {t : Activity α}
    (htacit : effect.isTacit)
    (h : ∀ reply, effect.Undisturbed reply → Unrolls again t (next reply)) :
    Unrolls again t (step effect next)
  | both {effect : Effect} {next next' : effect.Reply → Activity α} (hsteady : effect.isSteady)
    (h : ∀ reply, effect.Undisturbed reply → Unrolls again (next reply) (next' reply)) :
    Unrolls again (step effect next) (step effect next')

namespace Unrolls

/-- Work within a node that both activities do is done in step. -/
theorem bind {t : Activity β} (ht : t.Inside) {f f' : β → Activity α}
    (h : ∀ b, Unrolls again (f b) (f' b)) : Unrolls again (t >>= f) (t >>= f') := by
  induction t with
  | done b => exact h b
  | step effect next ih => exact .both ht.1.isSteady fun reply _ => ih reply (ht.2 reply)

/-- Both tell the observers the same. -/
theorem emit {event : Event} {f f' : Unit → Activity α} (h : Unrolls again (f ()) (f' ())) :
    Unrolls again (Activity.emit event >>= f) (Activity.emit event >>= f') :=
  .both rfl fun _ _ => h

/-- Both ask whether the run is cancelled. It is not. -/
theorem poll {f f' : Bool → Activity α} (h : Unrolls again (f false) (f' false)) :
    Unrolls again (Activity.poll >>= f) (Activity.poll >>= f') :=
  .both rfl fun reply (hreply : reply = false) => hreply ▸ h

/-- Only the first one asks whether the run is cancelled. It is not. -/
theorem poll_left {f : Bool → Activity α} {t' : Activity α} (h : Unrolls again (f false) t') :
    Unrolls again (Activity.poll >>= f) t' :=
  .left rfl fun reply (hreply : reply = false) => hreply ▸ h

/-- Only the first one takes a name, whatever it is. -/
theorem freshId_left {f : String → Activity α} {t' : Activity α}
    (h : ∀ id, Unrolls again (f id) t') : Unrolls again (Activity.freshId >>= f) t' :=
  .left rfl fun id _ => h id

/-- Only the first one tells of an approval. -/
theorem emit_left {event : Event} (hevent : event.isApproval) {f : Unit → Activity α}
    {t' : Activity α} (h : Unrolls again (f ()) t') :
    Unrolls again (Activity.emit event >>= f) t' :=
  .left hevent fun _ _ => h

end Unrolls

/-! ## Under a host -/

/-- The effects of an activity under a host that show. -/
def shown (host : Host σ) (t : Activity α) (session : Session σ) : List Effect :=
  (t.effects host session).filter fun effect => !effect.isTacit

/-- Of an effect and what follows, the effect shows first, unless it is tacit. -/
theorem shown_step (host : Host σ) (effect : Effect) (next : effect.Reply → Activity α)
    (s : Session σ) : (step effect next).shown host s =
      (if effect.isTacit then [] else [effect]) ++
        (next (s.answer host effect).1).shown host (s.answer host effect).2 := by
  refine List.filter_cons.trans ?_
  cases effect.isTacit <;> rfl

end Activity

/-- Two answers with the same reply that leave the same in view. -/
def Answered.Same {ρ : Type} (view : σ → ω) (a a' : Answered ρ σ) : Prop :=
  a.reply = a'.reply ∧ view a.world = view a'.world

/-- A host that answers by what is in view, of which names are no part. -/
structure Host.AnswersBy (host : Host σ) (view : σ → ω) : Prop where
  ask : ∀ request {w w'}, view w = view w' →
    (host.ask request w).Same view (host.ask request w')
  request : ∀ call {w w'}, view w = view w' →
    (host.request call w).Same view (host.request call w')
  act : ∀ call number {w w'}, view w = view w' →
    (host.act call number w).Same view (host.act call number w')
  sleep : ∀ ms {w w'}, view w = view w' → (host.sleep ms w).Same view (host.sleep ms w')
  freshId : ∀ w, view (host.freshId w).2 = view w

/-- A host that never cancels the run. -/
structure Host.NeverCancels (host : Host σ) : Prop where
  ask : ∀ request w, (host.ask request w).cancels = false ∧
    (host.ask request w).reply.ending ≠ .interrupted
  request : ∀ call w, (host.request call w).cancels = false
  act : ∀ call number w, (host.act call number w).cancels = false
  sleep : ∀ ms w, (host.sleep ms w).cancels = false

/-- Two sessions of runs that are not cancelled, with the same in view. -/
structure Session.Agrees (view : σ → ω) (s s' : Session σ) : Prop where
  view : view s.world = view s'.world
  left : s.cancelled = false
  right : s'.cancelled = false

namespace Session.Agrees

variable {host : Host σ} {view : σ → ω} {s s' : Session σ}

/-- Sessions agree in both directions. -/
theorem symm (h : s.Agrees view s') : s'.Agrees view s := ⟨h.view.symm, h.right, h.left⟩

/-- An effect that does not show leaves alone what is in view. -/
theorem answer_left (hhost : host.AnswersBy view) (h : s.Agrees view s') {effect : Effect}
    (htacit : effect.isTacit) :
    effect.Undisturbed (s.answer host effect).1 ∧ (s.answer host effect).2.Agrees view s' := by
  cases effect with
  | poll => exact ⟨h.left, h⟩
  | freshId => exact ⟨trivial, (hhost.freshId s.world).trans h.view, h.left, h.right⟩
  | emit event => exact ⟨trivial, h.view, h.left, h.right⟩
  | _ => simp [Effect.isTacit] at htacit

/-- Sessions that agree answer alike, and agree afterwards. -/
theorem answer (hhost : host.AnswersBy view) (hnever : host.NeverCancels) (h : s.Agrees view s')
    {effect : Effect} (hsteady : effect.isSteady) :
    (s.answer host effect).1 = (s'.answer host effect).1 ∧
      effect.Undisturbed (s.answer host effect).1 ∧
      (s.answer host effect).2.Agrees view (s'.answer host effect).2 := by
  obtain ⟨hview, hleft, hright⟩ := h
  cases effect with
  | emit event => exact ⟨rfl, trivial, hview, hleft, hright⟩
  | poll => exact ⟨hleft.trans hright.symm, hleft, hview, hleft, hright⟩
  -- A steady effect takes no name and does not cancel.
  | freshId => simp [Effect.isSteady] at hsteady
  | cancel => simp [Effect.isSteady] at hsteady
  | ask request =>
    obtain ⟨hreply, hworld⟩ := hhost.ask request hview
    have hcancels : ∀ w, ((host.ask request w).cancels ||
        (host.ask request w).reply.ending == .interrupted) = false := fun w => by
      simp [(hnever.ask request w).1, (hnever.ask request w).2]
    exact ⟨hreply, trivial, hworld, by simp [Session.answer, Session.after, hleft, hcancels],
      by simp [Session.answer, Session.after, hright, hcancels]⟩
  | request call =>
    obtain ⟨hreply, hworld⟩ := hhost.request call hview
    exact ⟨hreply, trivial, hworld,
      by simp [Session.answer, Session.after, hleft, hnever.request],
      by simp [Session.answer, Session.after, hright, hnever.request]⟩
  | act call number =>
    obtain ⟨hreply, hworld⟩ := hhost.act call number hview
    exact ⟨hreply, trivial, hworld,
      by simp [Session.answer, Session.after, hleft, hnever.act],
      by simp [Session.answer, Session.after, hright, hnever.act]⟩
  | sleep ms resumed =>
    obtain ⟨-, hworld⟩ := hhost.sleep ms hview
    have hl : (s.after (host.sleep ms s.world)).cancelled = false := by
      simp [Session.after, hleft, hnever.sleep]
    have hr : (s'.after (host.sleep ms s'.world)).cancelled = false := by
      simp [Session.after, hright, hnever.sleep]
    exact ⟨hl.trans hr.symm, hl, hworld, hl, hr⟩

end Session.Agrees

namespace Activity

variable {host : Host σ} {view : σ → ω} {s s' : Session σ}

/-- It makes no difference that an activity may be taken up more often than it stops. -/
theorem run_exhaust_of_le {again : α → Option (Activity α)} {t : Activity α} {n m : Nat}
    (h : again ((exhaust again n t).run host s).1 = none) (hle : n ≤ m) :
    (exhaust again m t).run host s = (exhaust again n t).run host s := by
  induction n generalizing t s m with
  | zero =>
    have hnone : again (t.run host s).1 = none := h
    cases m with
    | zero => rfl
    | succ m =>
      rw [exhaust_succ, run_then, hnone]
      rfl
  | succ n ih =>
    obtain ⟨m, rfl⟩ : ∃ k, m = k + 1 := ⟨m - 1, by omega⟩
    rw [exhaust_succ, run_then] at h ⊢
    rw [exhaust_succ, run_then]
    cases hagain : again (t.run host s).1 with
    | none => rfl
    | some rest =>
      rw [hagain] at h
      exact ih h (by omega)

/-- Two activities that come to the same under a host: the same result, the same effects that show,
and sessions that agree. -/
structure Matches (host : Host σ) (view : σ → ω) (t : Activity α) (s : Session σ)
    (t' : Activity α) (s' : Session σ) : Prop where
  result : (t.run host s).1 = (t'.run host s').1
  session : (t.run host s).2.Agrees view (t'.run host s').2
  shown : t.shown host s = t'.shown host s'

/-- Results that are there match in sessions that agree. -/
theorem matches_done (a : α) (h : s.Agrees view s') :
    Matches host view (done a) s (done a) s' := ⟨rfl, h, rfl⟩

/-- Two activities in two parts that match part by part. -/
theorem Matches.bind {t t' : Activity α} {f f' : α → Activity β} (h : Matches host view t s t' s')
    (hf : Matches host view (f (t.run host s).1) (t.run host s).2
      (f' (t.run host s).1) (t'.run host s').2) :
    Matches host view (t >>= f) s (t' >>= f') s' := by
  refine ⟨?_, ?_, ?_⟩
  · rw [run_then, run_then, ← h.result]
    exact hf.result
  · rw [run_then, run_then, ← h.result]
    exact hf.session
  · have hshown := h.shown
    have hshown' := hf.shown
    unfold Activity.shown at hshown hshown' ⊢
    rw [effects_bind, effects_bind, List.filter_append, List.filter_append, ← h.result, hshown,
      hshown']

/-- An effect with the same reply in front of activities that match. -/
theorem Matches.step {effect : Effect} {next next' : effect.Reply → Activity α}
    (hsame : (s.answer host effect).1 = (s'.answer host effect).1)
    (h : Matches host view (next (s.answer host effect).1) (s.answer host effect).2
      (next' (s.answer host effect).1) (s'.answer host effect).2) :
    Matches host view (step effect next) s (step effect next') s' := by
  rw [hsame] at h
  refine ⟨?_, ?_, ?_⟩
  · rw [run_step, run_step, hsame]
    exact h.result
  · rw [run_step, run_step, hsame]
    exact h.session
  · rw [shown_step, shown_step, hsame, h.shown]

variable {again : α → Option (Activity α)}

/-- An activity that unrolls to another one matches it under a host, if it is taken up again often
enough. It does not stop there. -/
theorem Unrolls.exists_matches (hhost : host.AnswersBy view) (hnever : host.NeverCancels)
    {t t' : Activity α} (h : Unrolls again t t') (hs : s.Agrees view s') :
    again (t'.run host s').1 = none ∧
      ∃ n, ∀ m, n ≤ m → Matches host view (exhaust again m t) s t' s' := by
  induction h generalizing s s' with
  | done hnone =>
    refine ⟨hnone, 0, fun m _ => ?_⟩
    rw [exhaust_done_of_none hnone]
    exact matches_done _ hs
  -- Where the first one stops, one of the times is used up, so that it needs one more than what
  -- follows.
  | goOn hsome _ ih =>
    obtain ⟨hnone, n, hn⟩ := ih hs
    refine ⟨hnone, n + 1, fun m hm => ?_⟩
    obtain ⟨m, rfl⟩ : ∃ k, m = k + 1 := ⟨m - 1, by omega⟩
    rw [exhaust_done_of_some hsome]
    exact hn m (by omega)
  | @left effect next t' htacit _ ih =>
    obtain ⟨hreply, hagrees⟩ := hs.answer_left hhost htacit
    obtain ⟨hnone, n, hn⟩ := ih _ hreply hagrees
    refine ⟨hnone, n, fun m hm => ?_⟩
    obtain ⟨hresult, hsession, hshown⟩ := hn m hm
    rw [exhaust_step]
    refine ⟨hresult, hsession, ?_⟩
    rw [shown_step, if_pos htacit, List.nil_append, hshown]
  | @right effect next t htacit _ ih =>
    obtain ⟨hreply, hagrees⟩ := hs.symm.answer_left hhost htacit
    obtain ⟨hnone, n, hn⟩ := ih _ hreply hagrees.symm
    refine ⟨hnone, n, fun m hm => ?_⟩
    obtain ⟨hresult, hsession, hshown⟩ := hn m hm
    refine ⟨hresult, hsession, ?_⟩
    rw [shown_step, if_pos htacit, List.nil_append, hshown]
  -- An effect of both leaves sessions that agree, and the activities go on with the same reply.
  | @both effect next next' hsteady _ ih =>
    obtain ⟨hsame, hreply, hagrees⟩ := hs.answer hhost hnever hsteady
    obtain ⟨hnone, n, hn⟩ := ih _ hreply hagrees
    refine ⟨?_, n, fun m hm => ?_⟩
    · rw [hsame] at hnone
      exact hnone
    · rw [exhaust_step]
      exact .step hsame (hn m hm)

end Activity

end AgentFlow
