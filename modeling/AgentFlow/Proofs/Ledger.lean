import AgentFlow.Proofs.Monitor
import AgentFlow.Proofs.Pool
import AgentFlow.Tool.Invoke

/-!
# The calls of a node are ended

Every call of a tool is told twice, when it starts and when it ends, whatever comes of it: a result,
a failed result, an error, or nothing within its time limit. Only a cancelled run leaves calls
without an end, since it does not wait for them. The workers of a node that fans out call tools at
the same time, but each of them ends its own calls, and none of them sees that the run is cancelled.

`ledger` is the monitor that counts the open calls of one tool on behalf of one node, and lets no
call be ended that is not open. Work that serves a node (`Activity.Serves`) tells of that node only
and leaves as many calls open as there were, unless the run is found to be cancelled. The rules for
it cover sequences, calls and pools; for a pool, every sleeper owes the ends of the calls that it
has started (`Owing`), and a stretch of its work pays or adds to what it owes.
-/

namespace AgentFlow

variable {α β σ : Type} {node tool : String}

/-- Whether an event tells of the work within a node of that name. -/
def Event.IsWithin (node : String) : Event → Prop
  | .textDelta name _ | .toolStart name _ _ | .toolEnd name _ _ | .retryNotice name _ _ _
  | .fanOutProgress name _ => name = node
  | _ => False

/-- Whether an event tells of the start of a call. -/
def Event.startsCall (node tool : String) : Event → Bool
  | .toolStart name called _ => name = node && called = tool
  | _ => false

/-- Whether an event tells of the end of a call. -/
def Event.endsCall (node tool : String) : Event → Bool
  | .toolEnd name called _ => name = node && called = tool
  | _ => false

/-- Whether an event tells of a call of a tool. -/
def Event.isCall : Event → Bool
  | .toolStart _ _ _ | .toolEnd _ _ _ => true
  | _ => false

/-- The start of a call tells of a call. -/
theorem Event.isCall_of_startsCall {event : Event} (h : event.startsCall node tool) :
    event.isCall := by
  cases event <;> first | rfl | cases h

/-- The end of a call tells of a call. -/
theorem Event.isCall_of_endsCall {event : Event} (h : event.endsCall node tool) : event.isCall := by
  cases event <;> first | rfl | cases h

/-- The effects of the work within a node of that name. -/
def Effect.IsWithin (node : String) : Effect → Prop
  | .emit event => event.IsWithin node
  | .cancel | .freshId => False
  | _ => True

/-- The open calls after an effect. Nothing is counted any more once the run is found to be
cancelled. -/
def Effect.countCall (node tool : String) (opened : Option Nat) :
    (effect : Effect) → effect.Reply → Option Nat
  | .emit event, _ =>
    if event.startsCall node tool then opened.map (· + 1)
    else if event.endsCall node tool then opened.map (· - 1)
    else opened
  | .poll, (cancelled : Bool) | .sleep _ _, (cancelled : Bool) =>
    if cancelled then none else opened
  | _, _ => opened

/-- Counts the open calls of a tool on behalf of a node: none is ended that is not open. -/
def ledger (node tool : String) : Monitor (Option Nat) where
  allows opened effect := effect.IsWithin node ∧
    ∀ event, effect = .emit event → event.endsCall node tool → opened ≠ some 0
  after := Effect.countCall node tool

/-- Once nothing is counted, nothing is counted any more. -/
theorem countCall_none (effect : Effect) (reply : effect.Reply) :
    effect.countCall node tool none reply = none := by
  cases effect with
  | emit event => simp [Effect.countCall]
  | poll => exact ite_self none
  | sleep ms resumed => exact ite_self none
  | _ => rfl

/-- Of what is done within a node only the ends of calls can be forbidden. -/
theorem ledger_allows {opened : Option Nat} {effect : Effect} (h : effect.IsWithin node)
    (hopened : ∀ event, effect = .emit event → event.endsCall node tool → opened ≠ some 0) :
    (ledger node tool).allows opened effect :=
  ⟨h, hopened⟩

namespace Activity

/-- Work on behalf of a node: it tells of nothing else, ends the calls that it starts, and has a
result with the property. -/
def Serves (node : String) (post : α → Prop) (t : Activity α) : Prop :=
  ∀ tool opened, t.Obeys (ledger node tool)
    (fun left a => (left = none ∨ left = opened) ∧ post a) opened

variable {post : α → Prop}

/-- Where nothing is done, no call is left open. -/
theorem serves_pure {a : α} (h : post a) : (pure a : Activity α).Serves node post :=
  fun _ _ => ⟨.inr rfl, h⟩

/-- Two parts, each of which ends its own calls, do so together. -/
theorem Serves.bind {t : Activity α} {f : α → Activity β} {post' : β → Prop}
    (ht : t.Serves node post) (hf : ∀ a, post a → (f a).Serves node post') :
    (t >>= f).Serves node post' := by
  intro tool opened
  rw [obeys_bind]
  refine (ht tool opened).mono fun left a hleft => ?_
  obtain ⟨rfl | rfl, ha⟩ := hleft
  · exact (hf a ha tool none).mono fun left b hb => ⟨.inl (hb.1.elim id id), hb.2⟩
  · exact hf a ha tool left

/-- A weaker property of the result. -/
theorem Serves.mono {post' : α → Prop} {t : Activity α} (h : t.Serves node post)
    (hp : ∀ a, post a → post' a) : t.Serves node post' :=
  fun tool opened => (h tool opened).mono fun _ a ha => ⟨ha.1, hp a ha.2⟩

/-- An effect that is neither the start nor the end of a call. -/
theorem serves_perform (effect : Effect) (h : effect.IsWithin node)
    (hquiet : ∀ event, effect = .emit event → ¬ event.isCall) :
    (perform effect).Serves node fun _ => True := by
  intro tool opened
  have hends : ∀ event, effect = .emit event → ¬ event.endsCall node tool :=
    fun event hevent hends => hquiet event hevent (Event.isCall_of_endsCall hends)
  refine ⟨⟨h, fun event hevent hend => absurd hend (hends event hevent)⟩, fun reply => ?_⟩
  refine ⟨?_, trivial⟩
  show effect.countCall node tool opened reply = none ∨
    effect.countCall node tool opened reply = opened
  cases effect with
  | emit event =>
    have hstarts : ¬ event.startsCall node tool :=
      fun hstarts => hquiet event rfl (Event.isCall_of_startsCall hstarts)
    rw [Effect.countCall, if_neg hstarts, if_neg (hends event rfl)]
    exact .inr rfl
  | poll => exact (em (reply = true)).imp (fun h => if_pos h) fun h => if_neg h
  | sleep ms resumed => exact (em (reply = true)).imp (fun h => if_pos h) fun h => if_neg h
  | _ => exact .inr rfl

/-- The question whether the run is cancelled opens no call. -/
theorem serves_poll : poll.Serves node fun _ => True :=
  serves_perform .poll trivial fun _ h => nomatch h

/-- Waiting opens no call. -/
theorem serves_sleep (ms : Nat) (resumed : Bool) :
    (sleep ms resumed).Serves node fun _ => True :=
  serves_perform (.sleep ms resumed) trivial fun _ h => nomatch h

/-- Asking the model opens no call. -/
theorem serves_ask (request : ModelRequest) : (ask request).Serves node fun _ => True :=
  serves_perform (.ask request) trivial fun _ h => nomatch h

/-- To tell of anything but a call. -/
theorem serves_emit {event : Event} (h : event.IsWithin node) (hquiet : ¬ event.isCall) :
    (emit event).Serves node fun _ => True :=
  serves_perform (.emit event) h fun _ hevent => Effect.emit.inj hevent ▸ hquiet

/-- A node may tell of the text of an answer. -/
theorem serves_textDelta (text : String) :
    (emit (.textDelta node text)).Serves node fun _ => True :=
  serves_emit rfl Bool.false_ne_true

/-- A node may tell that it tries again. -/
theorem serves_retryNotice (attempt maxRetries : Nat) (reason : String) :
    (emit (.retryNotice node attempt maxRetries reason)).Serves node fun _ => True :=
  serves_emit rfl Bool.false_ne_true

end Activity

/-! ## Work that can fail -/

namespace Work

/-- A result with the property, if there is one. -/
def Holds (post : α → Prop) : Except Error α → Prop
  | .ok a => post a
  | .error _ => True

/-- Work on behalf of a node, whose result has the property if it does not fail. -/
def Serves (node : String) (post : α → Prop) (work : Work α) : Prop :=
  work.activity.Serves node (Holds post)

variable {post : α → Prop}

/-- Work that has its result leaves no call open. -/
theorem serves_pure {a : α} (h : post a) : (pure a : Work α).Serves node post :=
  Activity.serves_pure (a := Except.ok a) h

/-- Work that fails leaves no call open, and owes no result. -/
theorem serves_throw (error : Error) : (throw error : Work α).Serves node post :=
  Activity.serves_pure (a := Except.error error) trivial

/-- Work that has its result or has failed leaves no call open. -/
theorem serves_ofExcept {result : Except Error α} (h : ∀ a, result = .ok a → post a) :
    (ofExcept result).Serves node post := by
  refine Activity.serves_pure (a := result) ?_
  cases result with
  | ok a => exact h a rfl
  | error error => trivial

/-- Two parts of work, each of which ends its own calls, do so together. -/
theorem Serves.bind {work : Work α} {f : α → Work β} {post' : β → Prop}
    (hw : work.Serves node post) (hf : ∀ a, post a → (f a).Serves node post') :
    (work >>= f).Serves node post' :=
  Activity.Serves.bind hw fun
    | .ok a, ha => hf a ha
    | .error error, _ => Activity.serves_pure (a := Except.error error) trivial

/-- A weaker property of the result. -/
theorem Serves.mono {work : Work α} {post' : α → Prop} (hw : work.Serves node post)
    (hp : ∀ a, post a → post' a) : work.Serves node post' :=
  Activity.Serves.mono hw fun
    | .ok a, ha => hp a ha
    | .error _, _ => trivial

/-- What becomes of the result of work opens no call. -/
theorem Serves.map {work : Work α} {f : α → β} {post' : β → Prop} (hw : work.Serves node post)
    (hf : ∀ a, post a → post' (f a)) : (f <$> work).Serves node post' := by
  rw [← bind_pure_comp]
  exact hw.bind fun a ha => serves_pure (hf a ha)

/-- Behind an activity that does not fail, work goes on with its result. -/
theorem activity_lift_bind (t : Activity α) (f : α → Work β) :
    (Work.lift t >>= f).activity = t >>= fun a => (f a).activity := by
  unfold activity Work.lift
  rw [ExceptT.run_bind, ExceptT.run_lift, bind_map_left]

/-- An activity that ends its calls, and then work that does. -/
theorem serves_lift_bind {t : Activity α} {f : α → Work β} {post' : β → Prop}
    (ht : t.Serves node post) (hf : ∀ a, post a → (f a).Serves node post') :
    (Work.lift t >>= f).Serves node post' := by
  unfold Serves
  rw [activity_lift_bind]
  exact ht.bind hf

end Work

/-! ## Calls -/

namespace ToolCall

open Activity

/-- A call that is interrupted finds the run cancelled. -/
theorem obeys_invoke (call : ToolCall) (box : Toolbox) (opened : Option Nat) :
    (call.invoke box).Obeys (ledger node tool)
      (fun left ended => left = none ∨ left = opened ∧ ended ≠ .interrupted) opened := by
  have hsleep : ∀ (spec : ToolSpec) (ms : Nat) (resumed : Bool),
      (CallEnd.timedOut spec call.tool <$> sleep ms resumed).Obeys (ledger node tool)
        (fun left ended => left = none ∨ left = opened ∧ ended ≠ .interrupted) opened := by
    intro spec ms resumed
    rw [obeys_map, obeys_sleep]
    refine ⟨ledger_allows trivial nofun, fun cancelled => ?_⟩
    cases cancelled with
    -- A wait in which the run is cancelled makes the ledger void.
    | true => exact .inl rfl
    | false => exact .inr ⟨rfl, nofun⟩
  have hfinish : ∀ spec number waited, (call.finish spec number waited).Obeys (ledger node tool)
      (fun left ended => left = none ∨ left = opened ∧ ended ≠ .interrupted) opened := by
    intro spec number waited
    unfold finish
    rw [obeys_bind, obeys_act]
    refine ⟨ledger_allows trivial nofun, fun reply => ?_⟩
    cases reply with
    | answered result => exact .inr ⟨rfl, nofun⟩
    | silent => exact hsleep spec _ _
  unfold invoke
  split
  · rename_i spec _
    unfold within
    rw [obeys_bind, obeys_request]
    refine ⟨ledger_allows trivial nofun, fun receipt => ?_⟩
    dsimp only
    split_ifs
    · exact hfinish spec _ _
    · rw [obeys_bind, obeys_sleep]
      refine ⟨ledger_allows trivial nofun, fun cancelled => ?_⟩
      cases cancelled with
      | true => exact .inl rfl
      | false => exact hfinish spec _ _
    · exact hsleep spec _ _
  · exact .inr ⟨rfl, nofun⟩

/-- A call that is told is ended: its end closes what its start has opened. -/
theorem serves_observed (call : ToolCall) (box : Toolbox) :
    (call.observed box).Serves call.node fun _ => True := by
  intro tool opened
  let during : Option Nat := if call.tool = tool then opened.map (· + 1) else opened
  have hstart : (Effect.emit (.toolStart call.node call.tool call.input)).countCall call.node tool
      opened () = during := by
    simp [Effect.countCall, Event.startsCall, Event.endsCall, during]
  have hend : ∀ result, (Effect.emit (.toolEnd call.node call.tool result)).countCall call.node tool
      during () = opened := by
    intro result
    by_cases htool : call.tool = tool <;> cases opened <;>
      simp [Effect.countCall, Event.startsCall, Event.endsCall, during, htool]
  have hallowed : ∀ result, (ledger call.node tool).allows during
      (.emit (.toolEnd call.node call.tool result)) := by
    refine fun result => ledger_allows rfl fun event hevent hends => ?_
    obtain rfl := Effect.emit.inj hevent
    have htool : call.tool = tool := by simpa [Event.endsCall] using hends
    simp [during, htool]
  unfold observed
  rw [Work.activity_lift_bind, obeys_bind, obeys_emit]
  refine ⟨ledger_allows rfl nofun, ?_⟩
  rw [Work.activity_lift_bind, obeys_bind]
  show (call.invoke box).Obeys _ _ ((Effect.emit _).countCall call.node tool opened ())
  rw [hstart]
  refine (obeys_invoke call box during).mono fun left ended hleft => ?_
  cases ended with
  | interrupted =>
    -- The run is cancelled, and the call is left open.
    obtain rfl := hleft.resolve_right fun h => h.2 rfl
    exact ⟨.inl rfl, trivial⟩
  | finished result =>
    show (Work.lift _ >>= fun _ => _).activity.Obeys _ _ _
    rw [Work.activity_lift_bind, obeys_bind, obeys_emit]
    obtain rfl | ⟨rfl, -⟩ := hleft
    · have hleft : ∀ effect reply, (ledger call.node tool).after none effect reply = none :=
        countCall_none
      exact ⟨ledger_allows rfl nofun, .inl (hleft _ _), trivial⟩
    · exact ⟨hallowed _, .inr (hend _), trivial⟩

end ToolCall

/-! ## Pools -/

namespace Activity

/-- What is left of some work whose calls of a tool are open: it ends them, and leaves as many open
as there were besides. -/
def Owes (node tool : String) (t : Activity α) (due : Nat) : Prop :=
  ∀ opened : Option Nat, t.Obeys (ledger node tool)
    (fun left _ => left = none ∨ left = opened) (opened.map (· + due))

variable {due : Nat}

/-- Work that serves a node owes nothing at its start. -/
theorem Serves.owes {post : α → Prop} {t : Activity α} (h : t.Serves node post) :
    t.Owes node tool 0 := by
  intro opened
  have hnone : opened.map (· + 0) = opened := Option.map_id'
  rw [hnone]
  exact (h tool opened).mono fun _ _ hleft => hleft.1

/-- What is owed behind an effect and its reply, unless the reply says that the run is
cancelled. -/
theorem Owes.exists_next {effect : Effect} {next : effect.Reply → Activity α}
    (h : (step effect next).Owes node tool due) (reply : effect.Reply)
    (hreply : effect.countCall node tool (some 0) reply ≠ none) :
    ∃ due', (next reply).Owes node tool due' ∧ ∀ opened : Option Nat,
      effect.countCall node tool (opened.map (· + due)) reply = opened.map (· + due') := by
  obtain ⟨due', hdue⟩ : ∃ due', ∀ opened : Option Nat,
      effect.countCall node tool (opened.map (· + due)) reply = opened.map (· + due') := by
    cases effect with
    | emit event =>
      simp only [Effect.countCall, Option.map_map]
      by_cases hstarts : event.startsCall node tool
      · refine ⟨due + 1, fun opened => ?_⟩
        rw [if_pos hstarts]
        rfl
      by_cases hends : event.endsCall node tool
      · -- The call that is ended is one of those that are due.
        have hopen : (some 0).map (· + due) ≠ some 0 := (h (some 0)).1.2 event rfl hends
        refine ⟨due - 1, fun opened => ?_⟩
        rw [if_neg hstarts, if_pos hends]
        congr 1
        funext count
        have hdue : due ≠ 0 := fun hzero => hopen (by simp [hzero])
        show count + due - 1 = count + (due - 1)
        omega
      · refine ⟨due, fun opened => ?_⟩
        rw [if_neg hstarts, if_neg hends]
    | poll =>
      cases reply with
      | true => exact absurd rfl hreply
      | false => exact ⟨due, fun _ => rfl⟩
    | sleep ms resumed =>
      cases reply with
      | true => exact absurd rfl hreply
      | false => exact ⟨due, fun _ => rfl⟩
    | _ => exact ⟨due, fun _ => rfl⟩
  refine ⟨due', fun opened => ?_, hdue⟩
  rw [← hdue opened]
  exact (h opened).2 reply

end Activity

/-- What is open behind a slice, next to the calls that were open besides, unless the run was found
to be cancelled: what is left of the activity owes it. -/
def Slice.Owes {t : Activity α} (node tool : String) (opened left : Option Nat) : Slice t → Prop
  | .ended _ => left = none ∨ left = opened
  | .asleep _ _ later _ =>
    ∃ due, later.Owes node tool due ∧ (left = none ∨ left = opened.map (· + due))

namespace Activity

variable {due : Nat} {t : Activity α} {opened left : Option Nat}

/-- What is owed is paid, whether or not the run was found to be cancelled before. -/
theorem Owes.obeys (h : t.Owes node tool due)
    (hleft : left = none ∨ left = opened.map (· + due)) :
    t.Obeys (ledger node tool) (fun left _ => left = none ∨ left = opened) left := by
  obtain rfl | rfl := hleft
  · exact (h none).mono fun _ _ hnone => .inl (hnone.elim id id)
  · exact h opened

/-- A worker does not see that the run is cancelled, and thus ends its calls in any case. -/
theorem Owes.slice_obeys (h : t.Owes node tool due) (opened : Option Nat) :
    t.slice.Obeys (ledger node tool) (fun left slice => slice.Owes node tool opened left)
      (opened.map (· + due)) := by
  induction t generalizing due with
  | done a => exact h opened
  | step effect next ih =>
    -- What holds behind each reply carries over to the slice, as long as the reply does not void
    -- the ledger.
    have later (reply : effect.Reply) (hreply : effect.countCall node tool (some 0) reply ≠ none) :
        ((next reply).slice.bind fun s => done s.before :
          Activity (Slice (step effect next))).Obeys (ledger node tool)
            (fun left slice => slice.Owes node tool opened left)
            (effect.countCall node tool (opened.map (· + due)) reply) := by
      obtain ⟨due', hnext, hsame⟩ := h.exists_next reply hreply
      rw [hsame opened]
      refine (obeys_bind _ _ _).2 (Obeys.mono (ih reply hnext) fun left s hs => ?_)
      cases s <;> exact hs
    have hallowed := (h opened).1
    cases effect with
    | sleep ms resumed =>
      unfold Activity.slice
      split
      · exact later false (Option.some_ne_none _)
      -- The worker falls asleep: what it owes by then is what the rest of it still owes.
      · obtain ⟨due', hnext, hsame⟩ := h.exists_next false (Option.some_ne_none _)
        exact ⟨due', hnext, .inr (hsame opened)⟩
    -- A worker is told that the run is not cancelled, whatever is the case.
    | poll => exact later false (Option.some_ne_none _)
    | cancel => exact hallowed.1.elim
    | freshId => exact hallowed.1.elim
    | emit event =>
      refine ⟨hallowed, fun reply => later reply ?_⟩
      simp only [Effect.countCall]
      split_ifs <;> exact Option.some_ne_none _
    | ask request => exact ⟨hallowed, fun reply => later reply (Option.some_ne_none _)⟩
    | request call => exact ⟨hallowed, fun reply => later reply (Option.some_ne_none _)⟩
    | act call number => exact ⟨hallowed, fun reply => later reply (Option.some_ne_none _)⟩

/-- What is owed may be paid behind work that owes nothing. -/
theorem Serves.bind_owes {post : α → Prop} {f : α → Activity β} (ht : t.Serves node post)
    (hf : ∀ a, post a → (f a).Owes node tool due) : (t >>= f).Owes node tool due := by
  intro opened
  rw [obeys_bind]
  exact (ht tool _).mono fun left a hleft => (hf a hleft.2).obeys hleft.1

/-- A stretch of some work, and then whatever else is owed with what is left of it. -/
theorem Owes.slice_bind {rest : Nat} {f : Slice t → Activity β} (ht : t.Owes node tool due)
    (hended : ∀ result, (f (.ended result)).Owes node tool rest)
    (hasleep : ∀ ms resumed later below due', later.Owes node tool due' →
      (f (.asleep ms resumed later below)).Owes node tool (rest + due')) :
    (t.slice >>= f).Owes node tool (rest + due) := by
  intro opened
  have hadd : ∀ due, opened.map (· + (rest + due)) = (opened.map (· + rest)).map (· + due) := by
    intro due
    rw [Option.map_map]
    refine congrArg (Option.map · opened) (funext fun count => ?_)
    exact (Nat.add_assoc count rest due).symm
  rw [obeys_bind, hadd]
  refine (ht.slice_obeys _).mono fun left slice hslice => ?_
  cases slice with
  | ended result => exact (hended result).obeys hslice
  | asleep ms resumed later below =>
    obtain ⟨due', hlater, hleft⟩ := hslice
    exact (hasleep ms resumed later below due' hlater).obeys (hadd due' ▸ hleft)

end Activity

/-- What sleepers owe together. -/
inductive Owing (node tool : String) : List (Sleeper α) → Nat → Prop where
  | nil : Owing node tool [] 0
  | cons {s : Sleeper α} {asleep : List (Sleeper α)} {due rest : Nat}
    (h : s.rest.Owes node tool due) (hrest : Owing node tool asleep rest) :
    Owing node tool (s :: asleep) (due + rest)

namespace Owing

variable {asleep : List (Sleeper α)} {due total : Nat}

/-- One more sleeper behind the others. -/
theorem append (h : Owing node tool asleep total) {s : Sleeper α} (hs : s.rest.Owes node tool due) :
    Owing node tool (asleep ++ [s]) (total + due) := by
  induction h with
  | nil => exact Nat.add_comm due 0 ▸ .cons hs .nil
  | cons hfirst _ ih => exact Nat.add_assoc _ _ _ ▸ .cons hfirst ih

/-- What one of the sleepers owes, and what the others owe, with or without another one in its
place. -/
theorem split (h : Owing node tool asleep total) (i : Nat) (hi : i < asleep.length) :
    ∃ due rest, asleep[i].rest.Owes node tool due ∧ total = rest + due ∧
      Owing node tool (asleep.eraseIdx i) rest ∧
      ∀ (s : Sleeper α) (due' : Nat), s.rest.Owes node tool due' →
        Owing node tool (asleep.set i s) (rest + due') := by
  induction h generalizing i with
  | nil => exact absurd hi (Nat.not_lt_zero i)
  | cons hfirst hrest ih =>
    cases i with
    | zero =>
      refine ⟨_, _, hfirst, Nat.add_comm _ _, hrest, fun s due' hs => ?_⟩
      exact Nat.add_comm due' _ ▸ .cons hs hrest
    | succ i =>
      obtain ⟨due, rest, hdue, rfl, herase, hset⟩ := ih i (Nat.lt_of_succ_lt_succ hi)
      refine ⟨due, _, hdue, (Nat.add_assoc _ rest due).symm, .cons hfirst herase,
        fun s due' hs => ?_⟩
      exact Nat.add_assoc _ rest due' ▸ .cons hfirst (hset s due' hs)

end Owing

namespace Pool

open Activity

/-- To tell how far a pool is neither starts nor ends a call. -/
theorem serves_report (pool : Pool α) : pool.report.Serves pool.node fun _ => True :=
  serves_emit rfl Bool.false_ne_true

/-- A pool that does nothing more has nobody asleep. -/
theorem asleep_of_next {pool : Pool α} {waiting : List (Job α)}
    (h : pool.next waiting = .finished) : pool.asleep = [] := by
  cases waiting with
  | nil => exact finished_of_wakeNext h
  | cons job waiting =>
    simp only [next] at h
    split at h
    · cases h
    · exact finished_of_wakeNext h

/-- A pool ends the calls that its sleepers owe, and those of its jobs. -/
theorem owes_run (pool : Pool α) (waiting : List (Job α))
    (hwaiting : ∀ job ∈ waiting, job.activity.Owes pool.node tool 0) {total : Nat}
    (hasleep : Owing pool.node tool pool.asleep total) :
    (pool.run waiting).Owes pool.node tool total := by
  induction pool, waiting using Pool.run.induct generalizing total with
  | case1 pool waiting hnext =>
    rw [asleep_of_next hnext] at hasleep
    cases hasleep
    unfold run
    rw [hnext]
    exact fun opened => .inr Option.map_id'
  | case2 pool job waiting hnext ih_skip ih_ended ih_asleep =>
    have hrest : ∀ job ∈ waiting, job.activity.Owes pool.node tool 0 := fun other hother =>
      hwaiting other (List.mem_cons_of_mem _ hother)
    have hjob := hwaiting job List.mem_cons_self
    unfold run
    rw [hnext]
    refine serves_poll.bind_owes fun cancelled _ => ?_
    split_ifs
    · exact ih_skip hrest hasleep
    refine (serves_report pool.start).bind_owes fun _ _ => ?_
    refine Owes.slice_bind hjob (fun result => ?_) fun ms resumed later below due hlater => ?_
    · exact (serves_report _).bind_owes fun _ _ => ih_ended result hrest hasleep
    · exact ih_asleep ms later hrest (hasleep.append hlater)
  | case3 pool waiting sleeper hnext ih_ended ih_asleep =>
    -- The sleeper that wakes takes its share of what is owed along.
    obtain ⟨due, rest, hdue, rfl, herase, hset⟩ := hasleep.split sleeper sleeper.isLt
    unfold run
    rw [hnext]
    refine (serves_sleep _ _).bind_owes fun _ _ => ?_
    refine Owes.slice_bind hdue (fun result => ?_) fun ms resumed later below due' hlater => ?_
    · exact (serves_report _).bind_owes fun _ _ => ih_ended result hwaiting herase
    · exact ih_asleep ms resumed later below hwaiting (hset _ due' hlater)

/-- A pool that starts with jobs that serve its node serves its node. -/
theorem serves_run (pool : Pool α) (waiting : List (Job α)) (hnode : pool.node = node)
    (hasleep : pool.asleep = [])
    (hwaiting : ∀ job ∈ waiting, job.activity.Serves node fun _ => True) :
    (pool.run waiting).Serves node fun _ => True := by
  subst hnode
  intro tool opened
  have howes : (pool.run waiting).Owes pool.node tool 0 :=
    pool.owes_run waiting (fun job hjob => (hwaiting job hjob).owes) (hasleep ▸ .nil)
  exact (howes.obeys (.inr Option.map_id'.symm)).mono fun left _ hleft => ⟨hleft, trivial⟩

end Pool

/-! ## Under a host -/

/-- Calls in order: none is ended before it is started, and in the end all are. The k-th end of the
tool's calls is thus behind the k-th start. -/
structure Balanced (node tool : String) (events : List Event) : Prop where
  sane : ∀ before, before <+: events →
    before.countP (Event.endsCall node tool) ≤ before.countP (Event.startsCall node tool)
  settled : events.countP (Event.endsCall node tool) = events.countP (Event.startsCall node tool)

/-- Where there are no events, no call is open. -/
theorem balanced_nil (node tool : String) : Balanced node tool [] := by
  refine ⟨fun before hbefore => ?_, rfl⟩
  rw [List.prefix_nil.1 hbefore]
  exact Nat.le_refl 0

/-- No event is both the start and the end of a call. -/
theorem Event.not_endsCall {event : Event} (h : event.startsCall node tool) :
    ¬ event.endsCall node tool := by
  cases event <;> simp_all [startsCall, endsCall]

/-- The count of open calls is true of the events since the start, unless the run is cancelled. -/
structure Tallies (node tool : String) (start : Session σ) (opened : Option Nat)
    (session : Session σ) (events : List Event) : Prop where
  log : session.log = start.log ++ events
  within : ∀ event ∈ events, event.IsWithin node
  tally : session.cancelled = false → ∃ count, opened = some count ∧
    events.countP (Event.endsCall node tool) + count =
      events.countP (Event.startsCall node tool) ∧
    ∀ before, before <+: events →
      before.countP (Event.endsCall node tool) ≤ before.countP (Event.startsCall node tool)

/-- An event that is told is counted. -/
theorem Tallies.emit {host : Host σ} {start session : Session σ} {opened : Option Nat}
    {events : List Event} (h : Tallies node tool start opened session events) {event : Event}
    (hallowed : (ledger node tool).allows opened (.emit event)) :
    Tallies node tool start ((ledger node tool).after opened (.emit event) ())
      (session.answer host (.emit event)).2 (events ++ [event]) := by
  refine ⟨?_, ?_, fun hcancelled => ?_⟩
  · rw [Activity.log_answer, h.log, List.append_assoc]
    rfl
  · simp only [List.mem_append, List.mem_singleton]
    rintro other (hother | rfl)
    · exact h.within other hother
    · exact hallowed.1
  · obtain ⟨count, rfl, hcount, hsane⟩ := h.tally hcancelled
    have hopen : event.endsCall node tool → count ≠ 0 := fun hends hzero =>
      hallowed.2 event rfl hends (congrArg some hzero)
    -- The count goes up with a start and down with an end.
    obtain ⟨count', hafter, hcount'⟩ : ∃ count', (ledger node tool).after (some count)
        (.emit event) () = some count' ∧
          (events ++ [event]).countP (Event.endsCall node tool) + count' =
            (events ++ [event]).countP (Event.startsCall node tool) := by
      show ∃ count', (Effect.emit event).countCall node tool (some count) () = some count' ∧ _
      simp only [Effect.countCall, List.countP_append, List.countP_singleton]
      by_cases hstarts : event.startsCall node tool
      · have hends := Event.not_endsCall hstarts
        exact ⟨count + 1, by simp [hstarts], by simp only [hstarts, hends, if_true]; simp; omega⟩
      by_cases hends : event.endsCall node tool
      · have := hopen hends
        exact ⟨count - 1, by simp [hstarts, hends], by simp [hstarts, hends]; omega⟩
      · exact ⟨count, by simp [hstarts, hends], by simp [hstarts, hends, hcount]⟩
    refine ⟨count', hafter, hcount', fun before hbefore => ?_⟩
    rcases List.prefix_concat_iff.1 hbefore with rfl | hbefore
    · omega
    · exact hsane before hbefore

/-- What is not told is not counted, as long as the run is not cancelled. -/
theorem Tallies.untold {start session session' : Session σ} {opened opened' : Option Nat}
    {events : List Event} (h : Tallies node tool start opened session events)
    (hlog : session'.log = session.log)
    (hcancelled : session'.cancelled = false → session.cancelled = false ∧ opened' = opened) :
    Tallies node tool start opened' session' events := by
  refine ⟨hlog.trans h.log, h.within, fun hopen => ?_⟩
  obtain ⟨hbefore, rfl⟩ := hcancelled hopen
  exact h.tally hbefore

/-- The count stays true with every effect. -/
theorem Tallies.answer {host : Host σ} {start session : Session σ} {opened : Option Nat}
    {events : List Event} (h : Tallies node tool start opened session events) {effect : Effect}
    (hallowed : (ledger node tool).allows opened effect) :
    ∃ events, Tallies node tool start
      ((ledger node tool).after opened effect (session.answer host effect).1)
      (session.answer host effect).2 events := by
  cases effect with
  | emit event => exact ⟨_, h.emit hallowed⟩
  | cancel => exact hallowed.1.elim
  | freshId => exact hallowed.1.elim
  | poll => exact ⟨events, h.untold rfl fun hopen => ⟨hopen, if_neg (Bool.eq_false_iff.1 hopen)⟩⟩
  | sleep ms resumed =>
    refine ⟨events, h.untold rfl fun hopen => ⟨?_, if_neg (Bool.eq_false_iff.1 hopen)⟩⟩
    exact (Bool.or_eq_false_iff.1 hopen).1
  | ask request =>
    exact ⟨events, h.untold rfl fun hopen => ⟨(Bool.or_eq_false_iff.1 hopen).1, rfl⟩⟩
  | request call =>
    exact ⟨events, h.untold rfl fun hopen => ⟨(Bool.or_eq_false_iff.1 hopen).1, rfl⟩⟩
  | act call number =>
    exact ⟨events, h.untold rfl fun hopen => ⟨(Bool.or_eq_false_iff.1 hopen).1, rfl⟩⟩

namespace Activity

/-- The events behind the log at the start are those of the activity. -/
theorem eq_events_of_log {host : Host σ} {t : Activity α} {session : Session σ}
    {events : List Event} (h : (t.run host session).2.log = session.log ++ events) :
    events = t.events host session := by
  rw [Activity.log_run] at h
  exact (List.append_cancel_left h).symm

/-- Under any host, work that serves a node tells of nothing else, and its calls are balanced unless
the run is cancelled. -/
theorem Serves.run {post : α → Prop} {t : Activity α} (h : t.Serves node post) (host : Host σ)
    (session : Session σ) :
    post (t.run host session).1 ∧ (∀ event ∈ t.events host session, event.IsWithin node) ∧
      ((t.run host session).2.cancelled = false →
        ∀ tool, Balanced node tool (t.events host session)) := by
  have hstart : ∀ tool, Tallies node tool session (some 0) session [] := fun tool =>
    ⟨(List.append_nil _).symm, List.forall_mem_nil _,
      fun _ => ⟨0, rfl, rfl, (balanced_nil node tool).sane⟩⟩
  -- The tallies of every tool are kept from effect to effect, and tell the events of the run.
  have hend : ∀ tool, ∃ left, Tallies node tool session left (t.run host session).2
      (t.events host session) ∧ (left = none ∨ left = some 0) ∧ post (t.run host session).1 := by
    intro tool
    have hstep : ∀ (opened : Option Nat) (session' : Session σ) (effect : Effect),
        (∃ events, Tallies node tool session opened session' events) →
          (ledger node tool).allows opened effect →
          ∃ events, Tallies node tool session
            ((ledger node tool).after opened effect (session'.answer host effect).1)
            (session'.answer host effect).2 events := by
      rintro opened session' effect ⟨events, htallies⟩ hallowed
      exact htallies.answer hallowed
    obtain ⟨⟨left, ⟨events, htallies⟩, hleft⟩, -⟩ :=
      (h tool (some 0)).run hstep ⟨[], hstart tool⟩
    obtain rfl := eq_events_of_log htallies.log
    exact ⟨left, htallies, hleft⟩
  -- What does not depend on a tool is read off the tallies of any.
  obtain ⟨_, htallies, -, hpost⟩ := hend ""
  refine ⟨hpost, htallies.within, fun hcancelled tool => ?_⟩
  obtain ⟨left, htallies, hleft, -⟩ := hend tool
  obtain ⟨count, rfl, hcount, hsane⟩ := htallies.tally hcancelled
  obtain rfl : count = 0 := by simpa using hleft
  exact ⟨hsane, hcount⟩

end Activity

end AgentFlow
