import AgentFlow.Proofs.ApprovalGate
import AgentFlow.Proofs.Safety
import AgentFlow.Proofs.Transcript

/-!
# Calls stand behind their events

What is known of the calls of a run is known from its events: that they are on the list of their
node, that the caller approved them, that their tools are at hand. This carries over to the calls
themselves. A tool takes up a call directly behind the event of its start, and acts on calls only
that it took up (`Announced`), in every run and also where a node fans out: the event and the call
stand in one stretch of a worker, so that no other worker comes between them.

`docket` is the monitor that remembers the last event and the calls that were taken up. What it
allows it also allows when more is known, so that `Activity.Announces` goes through sequences and
pools without a word about what the other workers do. `Runner.announced_carryOut` is the statement
about runs; since every call has an event of its own (`handovers_sublist`), what the gate and the
binding guarantee of events holds of calls (`Runner.Guards.handovers_granted`,
`Runner.Safe.contains_of_handover`).
-/

namespace AgentFlow

variable {α β σ : Type}

/-- The event of starting a call. -/
def ToolCall.started (call : ToolCall) : Event := .toolStart call.node call.tool call.input

/-- The call that a tool takes up with an effect. -/
def Effect.handover? : Effect → Option ToolCall
  | .request call => some call
  | _ => none

/-- Whether an effect that concerns a call may stand behind some exchanges: a call is taken up
directly behind the event of its start, and acted on under the number that it was given then. -/
def Effect.IsAnnounced (before : List Exchange) : Effect → Prop
  | .request call => before.getLast?.map Exchange.effect = some (.emit call.started)
  | .act call number => ∃ receipt : Receipt, receipt.number = number ∧
      ⟨.request call, receipt⟩ ∈ before
  | _ => True

/-- Every call in some exchanges stands where it may. -/
def Announced (exchanges : List Exchange) : Prop :=
  ∀ before exchange later, exchanges = before ++ exchange :: later →
    exchange.effect.IsAnnounced before

/-! ## The monitor -/

/-- What is known of the calls of a run. -/
structure Docket where
  /-- The event that was told last, if nothing was done since. -/
  last : Option Event
  /-- The calls that tools took up, with the numbers that they were given. -/
  taken : List (ToolCall × Nat)

namespace Docket

/-- The effects that fit what is known of the calls. -/
def allows (known : Docket) : Effect → Prop
  | .request call => known.last = some call.started
  | .act call number => (call, number) ∈ known.taken
  | _ => True

/-- What is known after an effect. -/
def after (known : Docket) : (effect : Effect) → effect.Reply → Docket
  | .emit event, _ => { known with last := some event }
  | .request call, (receipt : Receipt) => ⟨none, known.taken ++ [(call, receipt.number)]⟩
  | _, _ => { known with last := none }

/-- Less is known, or the same. -/
structure Le (known more : Docket) : Prop where
  last : ∀ event, known.last = some event → more.last = some event
  taken : known.taken ⊆ more.taken

variable {known more : Docket}

/-- What fits what is known fits what more is known. -/
theorem Le.allows (h : known.Le more) {effect : Effect} (ha : known.allows effect) :
    more.allows effect := by
  cases effect with
  | request call => exact h.last _ ha
  | act call number => exact h.taken ha
  | _ => trivial

/-- An effect adds the same to what is known, however much that is. -/
theorem Le.after (h : known.Le more) (effect : Effect) (reply : effect.Reply) :
    (known.after effect reply).Le (more.after effect reply) := by
  cases effect with
  | emit event => exact ⟨fun _ hlast => hlast, h.taken⟩
  | request call => exact ⟨nofun, List.append_subset.2
      ⟨List.subset_append_of_subset_left _ h.taken, List.subset_append_right _ _⟩⟩
  | _ => exact ⟨nofun, h.taken⟩

/-- A call that was taken up remains known. -/
theorem taken_subset_after (known : Docket) (effect : Effect) (reply : effect.Reply) :
    known.taken ⊆ (known.after effect reply).taken := by
  cases effect with
  | request call => exact List.subset_append_left _ _
  | _ => exact fun _ hmem => hmem

end Docket

/-- Allows a call only where its event was just told, and acting only on calls that were taken
up. -/
def docket : Monitor Docket where
  allows := Docket.allows
  after := Docket.after

namespace Activity

variable {known more : Docket} {taken : List (ToolCall × Nat)}

/-- An activity whose calls fit what is known does so when more is known, and forgets none. -/
theorem Obeys.of_le {t : Activity α} (h : t.Obeys docket (fun _ _ => True) known)
    (hle : known.Le more) : t.Obeys docket (fun after _ => more.taken ⊆ after.taken) more := by
  induction t generalizing known more with
  | done a => exact List.Subset.refl _
  | step effect next ih =>
    refine ⟨hle.allows h.1, fun reply => ?_⟩
    exact (ih reply (h.2 reply) (hle.after effect reply)).mono fun after _ hsub =>
      List.Subset.trans (more.taken_subset_after effect reply) hsub

/-- Every call is taken up directly behind its event, and acted on only if it was taken up: by the
activity, or before. -/
def Announces (taken : List (ToolCall × Nat)) (t : Activity α) : Prop :=
  t.Obeys docket (fun _ _ => True) ⟨none, taken⟩

/-- Where nothing is done, no call is. -/
theorem announces_pure (a : α) : (pure a : Activity α).Announces taken := trivial

/-- With more calls taken up before, more can be acted on. -/
theorem Announces.mono {t : Activity α} (h : t.Announces taken) {taken' : List (ToolCall × Nat)}
    (hsub : taken ⊆ taken') : t.Announces taken' :=
  (Obeys.of_le h ⟨nofun, hsub⟩).mono fun _ _ _ => trivial

/-- An activity has its calls behind their events after others, whatever these did last. -/
theorem Announces.obeys {t : Activity α} (h : t.Announces taken) (hsub : taken ⊆ known.taken) :
    t.Obeys docket (fun after _ => known.taken ⊆ after.taken) known :=
  Obeys.of_le h ⟨nofun, hsub⟩

/-- Two activities in a row have their calls behind their events if each of them does. -/
theorem Announces.bind {t : Activity α} {f : α → Activity β} (ht : t.Announces taken)
    (hf : ∀ a, (f a).Announces taken) : (t >>= f).Announces taken :=
  (obeys_bind _ _ _).2 <| (ht.obeys (List.Subset.refl _)).mono fun _ a hsub =>
    ((hf a).obeys hsub).mono fun _ _ _ => trivial

/-- What becomes of the result is no call. -/
theorem Announces.map {t : Activity α} (ht : t.Announces taken) (f : α → β) :
    (f <$> t).Announces taken := by
  rw [← bind_pure_comp]
  exact ht.bind fun a => announces_pure (f a)

/-- An effect that concerns no call stands anywhere. -/
theorem announces_perform {effect : Effect} (h : ∀ known : Docket, known.allows effect) :
    (perform effect).Announces taken :=
  ⟨h _, fun _ => trivial⟩

/-- An effect that concerns no call may stand in front of what has its calls behind their events. -/
theorem announces_step {effect : Effect} {f : effect.Reply → Activity α}
    (h : ∀ known : Docket, known.allows effect) (hf : ∀ reply, (f reply).Announces taken) :
    (perform effect >>= f).Announces taken :=
  (announces_perform h).bind hf

/-- Waiting is no call. -/
theorem announces_sleep (ms : Nat) (resumed : Bool) : (sleep ms resumed).Announces taken :=
  announces_perform fun _ => trivial

/-- Any number of effects that concern no calls stand anywhere. -/
theorem Only.announces {kind : Effect → Prop} {t : Activity α} (h : t.Only kind)
    (hkind : ∀ effect, kind effect → ∀ known : Docket, known.allows effect) :
    t.Announces taken := by
  have hall : ∀ (t : Activity α) (known : Docket), t.Only kind →
      t.Obeys docket (fun _ _ => True) known := by
    intro t
    induction t with
    | done a => exact fun _ _ => trivial
    | step effect next ih =>
      exact fun known h => ⟨hkind effect h.1 known, fun reply => ih reply _ (h.2 reply)⟩
  exact hall t _ h

end Activity

/-! ## Work that can fail -/

namespace Work

variable {taken : List (ToolCall × Nat)}

/-- Every call of the work is taken up directly behind its event, and acted on only if it was
taken up. -/
abbrev Announces (taken : List (ToolCall × Nat)) (work : Work α) : Prop :=
  work.activity.Announces taken

/-- A result that is there already takes no calls. -/
theorem announces_ofExcept (result : Except Error α) : (ofExcept result).Announces taken := trivial

/-- Two parts of work have their calls behind their events if each of them does. -/
theorem Announces.bind {work : Work α} {f : α → Work β} (hw : work.Announces taken)
    (hf : ∀ a, (f a).Announces taken) : (work >>= f).Announces taken :=
  Activity.Announces.bind hw fun
    | .ok a => hf a
    | .error _ => trivial

/-- What becomes of the result of work is no call. -/
theorem Announces.map {work : Work α} (hw : work.Announces taken) (f : α → β) :
    (f <$> work).Announces taken := by
  rw [← bind_pure_comp]
  exact hw.bind fun _ => trivial

/-- An activity that does not fail, and the work behind it, have their calls behind their events. -/
theorem announces_lift_bind {t : Activity α} {f : α → Work β} (ht : t.Announces taken)
    (hf : ∀ a, (f a).Announces taken) : (Work.lift t >>= f).Announces taken := by
  unfold Announces
  rw [activity_lift_bind]
  exact ht.bind hf

/-- An effect that concerns no call may stand in front of work. -/
theorem announces_step {effect : Effect} {f : effect.Reply → Work α}
    (h : ∀ known : Docket, known.allows effect) (hf : ∀ reply, (f reply).Announces taken) :
    (Work.lift (Activity.perform effect) >>= f).Announces taken :=
  announces_lift_bind (Activity.announces_perform h) hf

end Work

/-! ## Calls -/

namespace ToolCall

open Activity

variable {taken : List (ToolCall × Nat)}

/-- A tool acts on the call that it took up. -/
theorem announces_finish (call : ToolCall) (tool : ToolSpec) {number : Nat} (waited : Nat)
    (h : (call, number) ∈ taken) : (call.finish tool number waited).Announces taken := by
  refine ⟨h, fun reply => ?_⟩
  cases reply with
  | answered result => trivial
  | silent => exact (announces_sleep _ _).map (CallEnd.timedOut tool call.tool)

/-- A call may be taken up where its event was just told. -/
theorem obeys_within (call : ToolCall) (tool : ToolSpec) :
    (call.within tool).Obeys docket (fun _ _ => True) ⟨some call.started, taken⟩ := by
  unfold within
  rw [obeys_bind, obeys_request]
  refine ⟨rfl, fun receipt => ?_⟩
  obtain ⟨number, ms⟩ := receipt
  have hfinish : ∀ waited, (call.finish tool number waited).Announces (taken ++ [(call, number)]) :=
    fun waited => call.announces_finish tool waited (List.mem_concat_self ..)
  dsimp only
  split_ifs
  · exact hfinish 0
  · refine (announces_sleep ms false).bind fun cancelled => ?_
    cases cancelled with
    | true => exact announces_pure _
    | false => exact hfinish ms
  · exact (announces_sleep tool.timeoutMs false).map (CallEnd.timedOut tool call.tool)

/-- A call is told to the observers, and then it is taken up. -/
theorem announces_observed (call : ToolCall) (box : Toolbox) :
    (call.observed box).Announces taken := by
  have hinvoke : (call.invoke box).Obeys docket (fun _ _ => True)
      ⟨some call.started, taken⟩ := by
    unfold invoke
    split
    · exact call.obeys_within _
    · trivial
  unfold observed
  rw [Work.Announces, Work.activity_lift_bind, Announces, obeys_bind, obeys_emit]
  refine ⟨trivial, ?_⟩
  rw [Work.activity_lift_bind, obeys_bind]
  have hsame : (⟨some call.started, taken⟩ : Docket).Le ⟨some call.started, taken⟩ :=
    ⟨fun _ hlast => hlast, List.Subset.refl _⟩
  refine (Obeys.of_le hinvoke hsame).mono fun known ended _ => ?_
  -- What is left tells how the call ended.
  cases ended with
  | interrupted => trivial
  | finished result =>
    have htell : (Work.lift (emit (.toolEnd call.node call.tool (.ofExcept result))) >>= fun _ =>
        (pure (.ofExcept result) : Work ToolResult)).Announces [] :=
      Work.announces_step (fun _ => trivial) fun _ => trivial
    exact (htell.obeys (List.nil_subset _)).mono fun _ _ _ => trivial

end ToolCall

variable {taken : List (ToolCall × Nat)}

/-- A tool node calls its tool behind the event. -/
theorem ToolStep.announces_run (node : Node) (step : ToolStep) (box : Toolbox) (vars : Lookup)
    (itemIndex : Option Nat) : (step.run node box vars itemIndex).Announces taken :=
  (Work.announces_ofExcept _).bind fun _ => (ToolCall.announces_observed _ box).bind fun _ =>
    Work.announces_ofExcept _

/-! ## Conversations -/

namespace ModelStep

variable (setting : Setting) (node : Node) (step : ModelStep)

/-- To ask the model is no call. -/
theorem announces_askWithRetry (retry : RetryConfig) (name : String) (request : ModelRequest)
    (left : Nat) : (askWithRetry retry name request left).Announces taken :=
  (only_askWithRetry retry name request left).announces fun effect htalk known => by
    cases effect <;> trivial

/-- A call of the model is run behind its event. -/
theorem announces_runCall (brief : Brief) (talk : Talk) (call : ToolUse) :
    (runCall setting node step brief talk call).Announces taken :=
  (ToolCall.announces_observed _ _).bind fun _ => trivial

/-- The calls of a turn are run one behind the other, each behind its event. -/
theorem announces_handleCalls (brief : Brief) :
    ∀ (talk : Talk) (calls : List ToolUse),
      (handleCalls setting node step brief talk calls).Announces taken
  | _, [] => trivial
  | talk, call :: rest => by
    rw [handleCalls]
    cases step.gate setting.config.approval call with
    | run =>
      exact (announces_runCall setting node step brief talk call).bind fun talk =>
        announces_handleCalls brief talk rest
    | refuse reason => exact announces_handleCalls brief _ rest
    | ask => trivial

/-- In a conversation, the calls of the model are run one behind the other. -/
theorem announces_converse (brief : Brief) (steps attempts : Nat) (talk : Talk)
    (calls : List ToolUse) :
    (converse setting node step brief steps attempts talk calls).Announces taken := by
  induction steps, attempts using rounds_induct setting step generalizing talk calls with
  | round steps attempts onCalls onRetry =>
    rw [converse_eq]
    refine Work.announces_step (fun _ => trivial) fun cancelled => ?_
    cases cancelled with
    | true => trivial
    | false =>
      refine (announces_handleCalls setting node step brief talk calls).bind fun handled => ?_
      cases deal node step brief steps attempts handled with
      | stops outcome => trivial
      | asks talk =>
        refine (announces_askWithRetry _ _ _ _).bind fun turn => ?_
        cases hsequel : followUp setting node step brief steps attempts (weigh node talk turn) with
        | completes fields => trivial
        | fails error => trivial
        | calls talk calls => exact onCalls (lt_of_followUp_calls hsequel) talk calls
        | retries talk message =>
          exact Work.announces_step (fun _ => trivial) fun _ =>
            onRetry (lt_of_followUp_retries hsequel) talk []

/-- The calls of a model node stand behind their events from its start. -/
theorem announces_start (vars : Lookup) (itemIndex : Option Nat) :
    (step.start setting node vars itemIndex).Announces taken :=
  (Work.announces_ofExcept _).bind fun _ => (Work.announces_ofExcept _).bind fun _ =>
    announces_converse _ _ _ _ _ _ _ _

/-- After the caller's decision the calls of a model node stand behind their events, also the one
that was decided on. -/
theorem announces_resume (checkpoint : Checkpoint) (decision : Decision) :
    (step.resume setting node checkpoint decision).Announces taken := by
  unfold resume
  split
  · trivial
  · refine Work.Announces.bind ?_ fun _ => announces_converse _ _ _ _ _ _ _ _
    cases decision with
    | approved => exact announces_runCall _ _ _ _ _ _
    | denied reason => trivial

end ModelStep

/-! ## Pools -/

/-- What is left of an activity behind a slice. -/
def Slice.Announces {t : Activity α} (taken : List (ToolCall × Nat)) : Slice t → Prop
  | .ended _ => True
  | .asleep _ _ rest _ => rest.Announces taken

namespace Activity

/-- In a stretch of work a call stands behind its event, as in the whole: a stretch ends at a sleep,
and no sleep is between the two. -/
theorem Obeys.slice {known : Docket} {t : Activity α}
    (h : t.Obeys docket (fun _ _ => True) known) :
    t.slice.Obeys docket
      (fun after slice => known.taken ⊆ after.taken ∧ slice.Announces after.taken) known := by
  induction t generalizing known with
  | done a => exact ⟨List.Subset.refl _, trivial⟩
  | step effect next ih =>
    have later {before known : Docket} (reply : effect.Reply) (hsub : before.taken ⊆ known.taken)
        (hnext : (next reply).Obeys docket (fun _ _ => True) known) :
        ((next reply).slice.bind fun s => done s.before :
          Activity (Slice (step effect next))).Obeys docket
            (fun after slice => before.taken ⊆ after.taken ∧ slice.Announces after.taken)
            known := by
      refine (obeys_bind _ _ _).2 ((ih reply hnext).mono fun after s hs => ?_)
      refine ⟨List.Subset.trans hsub hs.1, ?_⟩
      cases s with
      | ended result => trivial
      | asleep ms resumed rest below => exact hs.2
    -- A question that the worker does not ask leaves the last event in place.
    have skipped (reply : effect.Reply) (hnext : (next reply).Announces known.taken) :=
      later reply (List.Subset.refl _)
        ((hnext.obeys (List.Subset.refl _)).mono fun _ _ _ => trivial)
    have answered (reply : effect.Reply) :=
      later reply (known.taken_subset_after effect reply) (h.2 reply)
    cases effect with
    | sleep ms resumed =>
      unfold Activity.slice
      split
      · exact skipped false (h.2 false)
      · exact ⟨List.Subset.refl _, h.2 false⟩
    | poll => exact skipped false (h.2 false)
    | emit event => exact ⟨h.1, answered⟩
    | ask request => exact ⟨h.1, answered⟩
    | request call => exact ⟨h.1, answered⟩
    | act call number => exact ⟨h.1, answered⟩
    | cancel => exact ⟨h.1, answered⟩
    | freshId => exact ⟨h.1, answered⟩

/-- A stretch of work has its calls behind their events together with what is done with the rest, if
that does with all that was taken up. -/
theorem Announces.slice_bind {t : Activity α} {f : Slice t → Activity β} (ht : t.Announces taken)
    (hended : ∀ result taken', taken ⊆ taken' → (f (.ended result)).Announces taken')
    (hasleep : ∀ ms resumed rest below taken', taken ⊆ taken' → rest.Announces taken' →
      (f (.asleep ms resumed rest below)).Announces taken') :
    (t.slice >>= f).Announces taken := by
  refine (obeys_bind _ _ _).2 ((Obeys.slice ht).mono fun known s hs => ?_)
  obtain ⟨hsub, hrest⟩ := hs
  have hf : (f s).Announces known.taken := by
    cases s with
    | ended result => exact hended result _ hsub
    | asleep ms resumed rest below => exact hasleep ms resumed rest below _ hsub hrest
  exact (hf.obeys (List.Subset.refl _)).mono fun _ _ _ => trivial

end Activity

namespace Pool

open Activity

/-- In a pool, calls of all workers stand behind their events, and every worker acts on the calls
that it took up before it slept. -/
theorem announces_run (pool : Pool α) (waiting : List (Job α))
    (hwaiting : ∀ job ∈ waiting, job.activity.Announces taken)
    (hasleep : ∀ sleeper ∈ pool.asleep, sleeper.rest.Announces taken) :
    (pool.run waiting).Announces taken := by
  induction pool, waiting using Pool.run.induct generalizing taken with
  | case1 pool waiting hnext =>
    unfold run
    rw [hnext]
    exact announces_pure _
  | case2 pool job waiting hnext ih_skip ih_ended ih_asleep =>
    -- The next job is started, unless the run was cancelled.
    obtain ⟨hjob, hrest⟩ := List.forall_mem_cons.1 hwaiting
    unfold run
    rw [hnext]
    refine announces_step (fun _ => trivial) fun cancelled => ?_
    split_ifs
    · exact ih_skip hrest hasleep
    refine announces_step (fun _ => trivial) fun _ => ?_
    refine hjob.slice_bind (fun result taken' hsub => ?_)
      fun ms resumed rest below taken' hsub hlater => ?_
    · exact announces_step (fun _ => trivial) fun _ => ih_ended result
        (fun other hother => (hrest other hother).mono hsub)
        fun sleeper hsleeper => (hasleep sleeper hsleeper).mono hsub
    · refine ih_asleep ms rest (fun other hother => (hrest other hother).mono hsub) ?_
      refine List.forall_mem_append.2 ⟨fun sleeper hsleeper => (hasleep sleeper hsleeper).mono hsub,
        List.forall_mem_singleton.2 hlater⟩
  | case3 pool waiting sleeper hnext ih_ended ih_asleep =>
    -- A sleeper wakes, goes on, and has ended or sleeps again.
    unfold run
    rw [hnext]
    refine announces_step (fun _ => trivial) fun _ => ?_
    refine (hasleep _ (List.get_mem pool.asleep sleeper)).slice_bind (fun result taken' hsub => ?_)
      fun ms resumed rest below taken' hsub hlater => ?_
    · exact announces_step (fun _ => trivial) fun _ => ih_ended result
        (fun job hjob => (hwaiting job hjob).mono hsub)
        fun other hother => (hasleep other (List.mem_of_mem_eraseIdx hother)).mono hsub
    · refine ih_asleep ms resumed rest below (fun job hjob => (hwaiting job hjob).mono hsub)
        fun other hother => ?_
      rcases List.mem_or_eq_of_mem_set hother with hother | rfl
      · exact (hasleep other hother).mono hsub
      · exact hlater

end Pool

/-! ## Nodes -/

namespace Node

/-- An item calls tools behind the events, as its node does alone. -/
theorem announces_runItem (setting : Setting) (node : Node) (vars : Lookup) (index : Nat) :
    (node.runItem setting vars index).Announces taken := by
  unfold runItem
  split
  · exact ToolStep.announces_run _ _ _ _ _
  · refine (ModelStep.announces_start _ _ _ _ _).bind fun outcome => ?_
    cases outcome <;> trivial
  · trivial

/-- All items together announce their calls, in whatever order they sleep and wake. -/
theorem announces_fanOut (setting : Setting) (node : Node) (each : ForEach) (state : Store) :
    (node.fanOut setting each state).Announces taken := by
  refine (Work.announces_ofExcept _).bind fun items => ?_
  refine Work.announces_lift_bind (Pool.announces_run _ _ (fun job hjob => ?_) nofun)
    fun _ => trivial
  obtain ⟨⟨item, index⟩, -, rfl⟩ := List.mem_map.1 hjob
  exact node.announces_runItem setting _ index

/-- Executing a node, its calls stand behind their events, whatever the node is for. -/
theorem announces_execute (setting : Setting) (node : Node) (state : Store)
    (supplied : Option Value) : (node.execute setting state supplied).Announces taken := by
  unfold execute
  cases node.forEach with
  | some each => exact (node.announces_fanOut setting each state).map _
  | none =>
    dsimp only
    cases node.kind with
    | input step =>
      refine (Work.announces_ofExcept _).bind fun request => ?_
      cases supplied with
      | none => trivial
      | some value => exact (Work.announces_ofExcept _).map _
    | model step => exact (ModelStep.announces_start _ _ _ _ _).map _
    | tool step => exact (ToolStep.announces_run _ _ _ _ _).map _
    | output lines => exact (Work.announces_ofExcept _).map _
    | update step => exact (Work.announces_ofExcept _).map _

end Node

/-! ## Runs -/

open Activity

namespace Run

variable (run : Run)

/-- Failing is no call. -/
theorem announces_fail (place : Option String) (error : Error) :
    (run.fail place error).Announces taken :=
  announces_step (fun _ => trivial) fun _ => announces_pure _

/-- Ending a run is no call. -/
theorem announces_finish : run.finish.Announces taken :=
  announces_step (fun _ => trivial) fun _ => announces_pure _

/-- Asking the caller is no call. -/
theorem announces_suspend (name : String) (pending : Pending) :
    (run.suspend name pending).Announces taken := by
  cases pending <;> exact announces_step (fun _ => trivial) fun _ => announces_pure _

end Run

namespace Node

/-- Writing a result is no call. -/
theorem announces_commit (node : Node) (run : Run) (result : NodeResult) :
    (node.commit run result).Announces taken := by
  have hfields : ∀ fields, (node.showFields fields).Announces taken := by
    intro fields
    induction fields with
    | nil => exact announces_pure ()
    | cons field rest ih =>
      unfold showFields
      split
      · exact announces_step (fun _ => trivial) fun _ => ih
      · exact ih
  have hlines : ∀ lines, (node.showLines lines).Announces taken := by
    intro lines
    induction lines with
    | nil => exact announces_pure ()
    | cons line rest ih => exact announces_step (fun _ => trivial) fun _ => ih
  exact (hfields _).bind fun _ => (hlines _).bind fun _ =>
    announces_step (fun _ => trivial) fun _ => announces_pure _

/-- Applying what came of a node is no call. -/
theorem announces_settle (node : Node) (run : Run) (result : Except Error StepEnd) :
    (node.settle run result).Announces taken := by
  unfold settle
  cases result with
  | error error => exact (run.announces_fail _ _).map _
  | ok result =>
    refine announces_step (fun _ => trivial) fun cancelled => ?_
    split_ifs
    · exact (run.announces_fail _ _).map _
    cases result with
    | complete result => exact (node.announces_commit run result).map _
    | awaitInput request => exact (run.announces_suspend _ _).map _
    | awaitApproval request checkpoint =>
      exact announces_step (fun _ => trivial) fun id => (run.announces_suspend _ _).map _

/-- The calls of a node that is entered stand behind their events. -/
theorem announces_enter (setting : Setting) (node : Node) (run : Run) :
    (node.enter setting run).Announces taken := by
  unfold enter
  cases node.countExecution run.state with
  | error error => exact node.announces_settle run _
  | ok state =>
    exact announces_step (fun _ => trivial) fun _ =>
      Announces.bind (node.announces_execute setting _ _) fun result =>
        node.announces_settle _ result

end Node

namespace Runner

variable (runner : Runner) (run : Run)

/-- Choosing the next node is no call; what is done there is left to `enter`. -/
theorem announces_leaveBy (source : String) {enter : String → Node → Activity (Status × Run)}
    (henter : ∀ name node, (enter name node).Announces taken) :
    (runner.leaveBy run source enter).Announces taken := by
  unfold leaveBy
  refine announces_step (fun _ => trivial) fun cancelled => ?_
  split_ifs
  · exact run.announces_fail _ _
  cases runner.flow.selectRoute source run.state.get? with
  | error error => exact run.announces_fail _ _
  | ok target =>
    dsimp only
    split_ifs
    · exact run.announces_finish
    cases runner.flow.node? target with
    | none => exact run.announces_fail _ _
    | some node => exact henter target node

/-- Going on from node to node, every call stands behind its event, by induction on the executions
that are left. -/
theorem announces_leave (source : String) (left : Nat) :
    (runner.leave run source left).Announces taken := by
  induction left generalizing run source with
  | zero =>
    rw [leave]
    exact runner.announces_leaveBy run source fun name node => run.announces_fail _ _
  | succ left ih =>
    rw [leave]
    refine runner.announces_leaveBy run source fun name node => ?_
    refine (node.announces_enter runner.setting _).bind fun settled => ?_
    cases settled with
    | goesOn run => exact ih run node.name
    | stops status run => exact announces_pure _

/-- Taking a run on, every call stands behind its event. -/
theorem announces_advance : (runner.advance run).Announces taken := by
  unfold advance
  cases run.cursor with
  | leaving source => exact runner.announces_leave run source _
  | suspended name pending =>
    refine announces_step (fun _ => trivial) fun cancelled => ?_
    split_ifs
    · exact run.announces_fail _ _
    · exact announces_pure _
  | closed => exact announces_pure _

/-- What comes of the execution of a node after an answer has its calls behind their events. -/
theorem announces_answered (node : Node) (result : Except Error StepEnd) :
    (node.settle run result >>= fun settled => (fun left : Status × Run => (.ok left.1, left.2)) <$>
      runner.goOn settled : Activity (Except Error Status × Run)).Announces taken := by
  refine (node.announces_settle run result).bind fun settled => Announces.map ?_ _
  cases settled with
  | goesOn run => exact runner.announces_advance run
  | stops status run => exact announces_pure _

/-- After a decision, the calls of the node stand behind their events. -/
theorem announces_decided (node : Node) (checkpoint : Checkpoint) (decision : Decision) :
    (runner.decided node checkpoint decision).Announces taken := by
  unfold decided
  split
  · exact (ModelStep.announces_resume _ _ _ _ _).map _
  · trivial

/-- Answering a suspension, every call stands behind its event. -/
theorem announces_resume (answer : Resume) : (runner.resume run answer).Announces taken := by
  unfold resume
  cases run.cursor with
  | leaving source => exact announces_pure _
  | closed => exact announces_pure _
  | suspended name pending =>
    refine announces_step (fun _ => trivial) fun cancelled => ?_
    split_ifs
    · exact (run.announces_fail _ _).map _
    cases runner.flow.node? name with
    | none => exact (run.announces_fail _ _).map _
    | some node =>
      cases pending with
      | input request =>
        cases answer with
        | approval decision => exact announces_pure _
        | input value =>
          dsimp only
          cases node.acceptInput request value with
          | error error => exact announces_pure _
          | ok result => exact runner.announces_answered run node _
      | approval id request checkpoint =>
        cases answer with
        | input value => exact announces_pure _
        | approval decision =>
          exact announces_step (fun _ => trivial) fun _ =>
            Announces.bind (runner.announces_decided node checkpoint decision) fun result =>
              runner.announces_answered run node result

/-- Carrying out a command, every call stands behind its event. -/
theorem announces_carryOut (command : Command) : (runner.carryOut run command).Announces taken := by
  unfold carryOut
  cases command with
  | provideInput name value => exact announces_pure _
  | advance => exact (runner.announces_advance run).map _
  | resume answer => exact (runner.announces_resume run answer).bind fun left => announces_pure _
  | cancel =>
    refine Announces.map ?_ _
    refine announces_step (fun _ => trivial) fun _ => ?_
    cases run.node? with
    | none => exact announces_pure _
    | some name => exact run.announces_fail _ _
  | signalCancel => exact announces_step (fun _ => trivial) fun _ => announces_pure _

end Runner

/-! ## Under a host -/

/-- What is known of the calls is true of what was exchanged. -/
structure Docket.Agrees (known : Docket) (before : List Exchange) : Prop where
  last : ∀ event, known.last = some event →
    before.getLast?.map Exchange.effect = some (.emit event)
  taken : ∀ call number, (call, number) ∈ known.taken →
    ∃ receipt : Receipt, receipt.number = number ∧ ⟨.request call, receipt⟩ ∈ before

namespace Docket

variable {known : Docket} {before : List Exchange}

/-- What is known of the calls stays true with every exchange. -/
theorem Agrees.after (h : known.Agrees before) (exchange : Exchange) :
    (known.after exchange.effect exchange.reply).Agrees (before ++ [exchange]) := by
  have hkept : ∀ call number, (call, number) ∈ known.taken → ∃ receipt : Receipt,
      receipt.number = number ∧ ⟨.request call, receipt⟩ ∈ before ++ [exchange] := by
    intro call number hmem
    obtain ⟨receipt, hnumber, hreceipt⟩ := h.taken call number hmem
    exact ⟨receipt, hnumber, List.mem_append_left _ hreceipt⟩
  obtain ⟨effect, reply⟩ := exchange
  cases effect with
  | emit event =>
    refine ⟨fun other hlast => ?_, hkept⟩
    obtain rfl : event = other := Option.some.inj hlast
    simp
  | request call =>
    refine ⟨nofun, fun other number hmem => ?_⟩
    rcases List.mem_append.1 hmem with hmem | hmem
    · exact hkept other number hmem
    · obtain ⟨rfl, rfl⟩ := Prod.mk.inj (List.mem_singleton.1 hmem)
      exact ⟨reply, rfl, List.mem_append_right _ (List.mem_singleton_self _)⟩
  | _ => exact ⟨nofun, hkept⟩

/-- What fits what is known stands where it may. -/
theorem Agrees.isAnnounced (h : known.Agrees before) {effect : Effect}
    (hallowed : known.allows effect) : effect.IsAnnounced before := by
  cases effect with
  | request call => exact h.last _ hallowed
  | act call number => exact h.taken call number hallowed
  | _ => trivial

/-- Exchanges that fit what is known of those before them stand where they may. -/
theorem Agrees.announced (h : known.Agrees before) {exchanges : List Exchange}
    (hadmits : docket.Admits known exchanges) {early later : List Exchange} {exchange : Exchange}
    (hsplit : exchanges = early ++ exchange :: later) :
    exchange.effect.IsAnnounced (before ++ early) := by
  induction early generalizing known before exchanges with
  | nil =>
    subst hsplit
    rw [List.append_nil]
    exact h.isAnnounced hadmits.1
  | cons first early ih =>
    subst hsplit
    rw [List.append_cons]
    exact ih (h.after first) hadmits.2 rfl

/-- The calls that are taken up have events of their own, in the same order: those of the exchanges,
and the one that was told last before them. -/
theorem handovers_sublist {exchanges : List Exchange} (hadmits : docket.Admits known exchanges) :
    (exchanges.filterMap fun exchange => exchange.effect.handover?.map ToolCall.started).Sublist
      (known.last.toList ++ Exchange.events exchanges) := by
  induction exchanges generalizing known with
  | nil => exact List.nil_sublist _
  | cons exchange later ih =>
    obtain ⟨effect, reply⟩ := exchange
    obtain ⟨hallowed, hlater⟩ := hadmits
    have hnext := ih hlater
    rw [Exchange.events_cons]
    cases effect with
    | emit event => exact hnext.trans (List.sublist_append_right _ _)
    | request call =>
      -- The event was told last.
      have hlast : known.last = some call.started := hallowed
      rw [hlast]
      exact hnext.cons_cons _
    | _ => exact hnext.trans (List.sublist_append_right _ _)

end Docket

namespace Activity

variable {host : Host σ} {t : Activity α} {session : Session σ}

/-- The effects of an activity are those of its exchanges. -/
theorem map_effect_exchanges (host : Host σ) (t : Activity α) (session : Session σ) :
    (t.exchanges host session).map Exchange.effect = t.effects host session := by
  induction t generalizing session with
  | done a => rfl
  | step effect next ih => exact congrArg (effect :: ·) (ih _ _)

/-- The calls that tools take up under a host, in order. -/
def handovers (host : Host σ) (t : Activity α) (session : Session σ) : List ToolCall :=
  (t.effects host session).filterMap Effect.handover?

/-- Under any host, every call stands behind its event. -/
theorem Announces.announced (h : t.Announces []) (host : Host σ) (session : Session σ) :
    Announced (t.exchanges host session) := by
  have hstart : (⟨none, []⟩ : Docket).Agrees [] := ⟨nofun, nofun⟩
  exact fun before exchange later hsplit =>
    hstart.announced ((path_run host t session).admits h) hsplit

/-- Under any host, every call has an event of its own. -/
theorem Announces.handovers_sublist (h : t.Announces []) (host : Host σ) (session : Session σ) :
    ((t.handovers host session).map ToolCall.started).Sublist (t.events host session) := by
  have hsub := Docket.handovers_sublist ((path_run host t session).admits h)
  rw [handovers, events, List.map_filterMap, ← map_effect_exchanges, List.filterMap_map,
    List.filterMap_map]
  exact hsub

end Activity

namespace Runner

variable {runner : Runner} {host : Host σ} {run : Run} {session : Session σ} {command : Command}

/-- Whatever the model, the tools and the caller do, a tool takes up a call directly behind the
event of its start, and acts only on calls that it took up. -/
theorem announced_carryOut (runner : Runner) (host : Host σ) (run : Run) (session : Session σ)
    (command : Command) : Announced ((runner.carryOut run command).exchanges host session) :=
  (runner.announces_carryOut run command).announced host session

/-- Of a call that a tool takes up, the observers were told. -/
theorem started_mem_events {call : ToolCall}
    (h : call ∈ (runner.carryOut run command).handovers host session) :
    call.started ∈ (runner.carryOut run command).events host session :=
  ((runner.announces_carryOut run command).handovers_sublist host session).subset
    (List.mem_map_of_mem h)

/-- The calls that model nodes hand to tools are on their list and not denied. -/
theorem Guards.handovers_listed (h : runner.Guards host run session command) {call : ToolCall}
    (hcall : call ∈ (runner.carryOut run command).handovers host session) {node : Node}
    (hnode : runner.flow.node? call.node = some node) {step : ModelStep}
    (hkind : node.kind = .model step) :
    call.tool ∈ step.tools ∧ call.tool ∉ runner.setting.config.approval.deny :=
  h.listed call.node call.tool call.input node step (started_mem_events hcall) hnode hkind

/-- The calls that need approval and are handed to tools are the one that the command approves, at
most once, and none if it approves none. -/
theorem Guards.handovers_granted (h : runner.Guards host run session command) :
    ((((runner.carryOut run command).handovers host session).filter fun call =>
      runner.isGated call.started).map ToolCall.started).Sublist
        ((run.granted? session.cancelled command).toList.map ApprovalRequest.started) := by
  have hsub := ((runner.announces_carryOut run command).handovers_sublist host session).filter
    runner.isGated
  rw [List.filter_map] at hsub
  exact h.granted ▸ hsub

/-- A call that the caller denies is not handed to its tool, with this input or another one. -/
theorem Guards.not_mem_handovers (h : runner.Guards host run session command)
    {reason node id : String} {request : ApprovalRequest}
    (hcommand : command = .resume (.approval (.denied reason)))
    (hsuspension : run.suspension? = some (.awaitingApproval node id request)) {call : ToolCall}
    (hsame : call.node = request.node ∧ call.tool = request.tool) :
    call ∉ (runner.carryOut run command).handovers host session := by
  intro hcall
  have hevent := started_mem_events hcall
  rw [ToolCall.started, hsame.1, hsame.2] at hevent
  exact h.denied reason node id request hcommand hsuspension call.input hevent

/-- Tools to which calls are handed are at hand. -/
theorem Safe.contains_of_handover (h : runner.Safe host run session command) {call : ToolCall}
    (hcall : call ∈ (runner.carryOut run command).handovers host session) :
    runner.setting.toolbox.contains call.tool :=
  h.tools call.node call.tool call.input (started_mem_events hcall)

end Runner

end AgentFlow
