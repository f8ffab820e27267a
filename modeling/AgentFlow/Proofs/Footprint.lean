import AgentFlow.Proofs.Ledger
import AgentFlow.Proofs.Turns
import AgentFlow.Proofs.Writes

/-!
# Footprints of executions

What a node can do to the outside while it works: ask the model, call tools, wait, and tell of just
that. It does not cancel the run, takes no names, and tells nothing of the run's own progress, such
as that a node is completed or that the caller is asked; all that is left to the runner, which
judges it by what it knows of the run. What it tells of is its own work, in which every call that is
started is ended, and what it wants written in the end are the names that it writes.

`Activity.Serves` says so of an activity, and the lemmas go from one call of a tool up to whole
executions (`Node.serves_execute`, `Runner.serves_decided`). Nothing is assumed of the node.
`Activity.Inside` is what is left of it where neither calls nor results matter.
-/

namespace AgentFlow

variable {α β : Type}

/-! ## Work within some node -/

/-- Whether an event tells of the work within a node. -/
def Event.isInner : Event → Bool
  | .textDelta _ _ | .toolStart _ _ _ | .toolEnd _ _ _ | .retryNotice _ _ _ _
  | .fanOutProgress _ _ => true
  | _ => false

/-- The effects of the work within a node. -/
def Effect.IsInner : Effect → Prop
  | .emit event => event.isInner
  | .cancel | .freshId => False
  | _ => True

/-- Allows the effects of the work within a node, and no others. -/
def inside : Monitor Unit where
  allows _ effect := effect.IsInner
  after _ _ _ := ()

/-- What tells of the work within one node tells of work within a node. -/
theorem Event.IsWithin.isInner {node : String} {event : Event} (h : event.IsWithin node) :
    event.isInner := by
  cases event <;> first | rfl | exact h.elim

/-- What is done within one node is work within a node. -/
theorem Effect.IsWithin.isInner {node : String} {effect : Effect} (h : effect.IsWithin node) :
    effect.IsInner := by
  cases effect with
  | emit event => exact Event.IsWithin.isInner h
  | _ => exact h

namespace Activity

/-- All effects are of the work within a node. -/
def Inside (t : Activity α) : Prop := t.Obeys inside (fun _ _ => True) ()

/-- What serves a node is work within it. -/
theorem Serves.inside {node : String} {post : α → Prop} {t : Activity α}
    (h : t.Serves node post) : t.Inside := by
  have hall : ∀ {opened : Option Nat} {post : Option Nat → α → Prop} (t : Activity α),
      t.Obeys (ledger node "") post opened → t.Inside := by
    intro opened post t
    induction t generalizing opened with
    | done a => exact fun _ => trivial
    | step effect next ih => exact fun h => ⟨h.1.1.isInner, fun reply => ih reply (h.2 reply)⟩
  exact hall t (h "" none)

end Activity

/-- All effects are of the work within a node. -/
abbrev Work.Inside (work : Work α) : Prop := work.activity.Inside

/-- A result that is there already takes no effects. -/
theorem Work.inside_ofExcept (result : Except Error α) : (ofExcept result).Inside := trivial

/-! ## Calling tools -/

/-- A tool node writes the fields of its declaration. -/
theorem ToolStep.serves_run (node : Node) (step : ToolStep) (box : Toolbox) (vars : Lookup)
    (itemIndex : Option Nat) :
    (step.run node box vars itemIndex).Serves node.name fun result =>
      result.fields.map Prod.fst = node.output.map OutputField.name := by
  refine (Work.serves_ofExcept fun _ _ => trivial).bind fun args (_ : True) => ?_
  refine (ToolCall.serves_observed _ box).bind fun result _ => ?_
  exact Work.serves_ofExcept fun result hresult => Node.map_fst_assignResult hresult

/-! ## Conversations -/

/-- A conversation that is completed has a value for every declared field. -/
def ModelOutcome.Fits (node : Node) : ModelOutcome → Prop
  | .complete result => result.fields.map Prod.fst = node.output.map OutputField.name
  | .awaitApproval _ _ => True

namespace ModelStep

/-- Of an answer that comes in, a node tells the texts. -/
theorem serves_listen (node : String) :
    ∀ (draft : TurnDraft) (deltas : List Delta),
      (listen node draft deltas).Serves node fun _ => True
  | _, [] => Activity.serves_pure trivial
  | _, .text _ :: rest =>
    (Activity.serves_textDelta _).bind fun _ _ => serves_listen node _ rest
  | _, .toolStart _ _ _ :: rest => serves_listen node _ rest
  | _, .toolInput _ _ :: rest => serves_listen node _ rest
  | _, .stop _ :: rest => serves_listen node _ rest
  | _, .usage _ _ :: rest => serves_listen node _ rest

/-- A request to the model is work on behalf of its node, and opens no call. -/
theorem serves_askOnce (node : String) (request : ModelRequest) :
    (askOnce node request).Serves node fun _ => True := by
  unfold askOnce
  refine Work.serves_lift_bind (Activity.serves_ask request) fun reply _ => ?_
  refine Work.serves_lift_bind (serves_listen node _ _) fun draft _ => ?_
  cases reply.ending with
  | complete => exact Work.serves_pure trivial
  | broken error => exact Work.serves_throw error
  | interrupted => exact Work.serves_throw _

/-- Asking the model again opens no call either, by induction on the attempts that are left. -/
theorem serves_askWithRetry (retry : RetryConfig) (node : String) (request : ModelRequest) :
    ∀ left, (askWithRetry retry node request left).Serves node fun _ => True
  | 0 => serves_askOnce node request
  | left + 1 => by
    rw [askWithRetry]
    refine Work.serves_lift_bind (serves_askOnce node request) fun result _ => ?_
    cases result with
    | ok turn => exact Work.serves_pure trivial
    | error error =>
      dsimp only
      split
      · -- The failure is not worth another try.
        exact Work.serves_throw error
      refine Work.serves_lift_bind (Activity.serves_retryNotice _ _ _) fun _ _ => ?_
      refine Work.serves_lift_bind (Activity.serves_sleep _ _) fun cancelled _ => ?_
      cases cancelled with
      | true => exact Work.serves_throw _
      | false => exact serves_askWithRetry retry node request left

variable (setting : Setting) (node : Node) (step : ModelStep)

/-- A call of the model is started and ended on behalf of the node. -/
theorem serves_runCall (brief : Brief) (talk : Talk) (call : ToolUse) :
    (runCall setting node step brief talk call).Serves node.name fun _ => True :=
  (ToolCall.serves_observed _ _).bind fun _ _ => Work.serves_pure trivial

/-- The calls of a turn are started and ended one by one. -/
theorem serves_handleCalls (brief : Brief) :
    ∀ (talk : Talk) (calls : List ToolUse),
      (handleCalls setting node step brief talk calls).Serves node.name fun _ => True
  | _, [] => Work.serves_pure trivial
  | talk, call :: rest => by
    rw [handleCalls]
    cases step.gate setting.config.approval call with
    | run =>
      exact (serves_runCall setting node step brief talk call).bind fun talk _ =>
        serves_handleCalls brief talk rest
    | refuse reason => exact serves_handleCalls brief _ rest
    | ask => exact Work.serves_pure trivial

/-- A turn that is an answer has a value for every declared field. -/
theorem map_fst_of_weigh {node : Node} {talk : Talk} {turn : Turn}
    {fields : List (String × Value)} (h : weigh node talk turn = .answer fields) :
    fields.map Prod.fst = node.output.map OutputField.name := by
  unfold weigh at h
  dsimp only at h
  split_ifs at h
  split at h
  · rename_i values hparse
    obtain rfl := AfterTurn.answer.inj h
    exact Answer.map_fst_parse hparse
  · cases h

/-- A conversation ends the calls of every round before it asks again, and what it is completed with
are the declared fields. -/
theorem serves_converse (brief : Brief) (steps attempts : Nat) (talk : Talk)
    (calls : List ToolUse) :
    (converse setting node step brief steps attempts talk calls).Serves node.name
      (ModelOutcome.Fits node) := by
  induction steps, attempts using rounds_induct setting step generalizing talk calls with
  | round steps attempts onCalls onRetry =>
    rw [converse]
    refine Work.serves_lift_bind Activity.serves_poll fun cancelled _ => ?_
    cases cancelled with
    | true => exact Work.serves_throw _
    | false =>
      refine (serves_handleCalls setting node step brief talk calls).bind fun handled _ => ?_
      cases handled with
      | awaiting call pending talk => exact Work.serves_pure trivial
      | all talk =>
        dsimp only
        generalize (if !talk.observations.isEmpty then talk.feedBack else talk) = sent
        split
        · -- The raw results of the tools are the answer.
          rename_i hcomplete
          exact Work.serves_pure (Talk.map_fst_captured (Bool.and_eq_true_iff.1 hcomplete).2)
        refine (serves_askWithRetry _ _ _ _).bind fun turn _ => ?_
        cases hweigh : weigh node sent turn with
        | answer fields => exact Work.serves_pure (map_fst_of_weigh hweigh)
        | calls talk calls =>
          by_cases hsteps : steps < step.stepLimit setting.config
          · simp only [hsteps, if_true]
            exact onCalls hsteps _ _
          · simp only [hsteps, if_false]
            exact Work.serves_throw _
        | unusable talk fault =>
          by_cases hattempts : attempts < setting.config.retry.maxRetries
          · simp only [hattempts, if_true]
            exact Work.serves_lift_bind (Activity.serves_retryNotice _ _ _) fun _ _ =>
              onRetry hattempts _ _
          · simp only [hattempts, if_false]
            exact Work.serves_throw _

/-- From its start, a model node ends its calls and writes the declared fields. -/
theorem serves_start (vars : Lookup) (itemIndex : Option Nat) :
    (step.start setting node vars itemIndex).Serves node.name (ModelOutcome.Fits node) :=
  (Work.serves_ofExcept fun _ _ => trivial).bind fun _ (_ : True) =>
    (Work.serves_ofExcept fun _ _ => trivial).bind fun _ (_ : True) =>
      serves_converse _ _ _ _ _ _ _ _

/-- After the caller's decision too, a model node ends its calls and writes the declared fields. -/
theorem serves_resume (checkpoint : Checkpoint) (decision : Decision) :
    (step.resume setting node checkpoint decision).Serves node.name (ModelOutcome.Fits node) := by
  unfold resume
  split
  · exact Work.serves_throw _
  · refine Work.Serves.bind ?_ fun _ (_ : True) => serves_converse _ _ _ _ _ _ _ _
    cases decision with
    | approved => exact serves_runCall _ _ _ _ _ _
    | denied reason => exact Work.serves_pure trivial

end ModelStep

/-! ## Fanning out -/

/-- An item that is worked on ends its calls. -/
theorem Node.serves_runItem (setting : Setting) (node : Node) (vars : Lookup) (index : Nat) :
    (node.runItem setting vars index).Serves node.name fun _ => True := by
  unfold runItem
  split
  · exact (ToolStep.serves_run _ _ _ _ _).mono fun _ _ => trivial
  · refine (ModelStep.serves_start _ _ _ _ _).bind fun outcome _ => ?_
    cases outcome with
    | complete result => exact Work.serves_pure trivial
    | awaitApproval request checkpoint => exact Work.serves_throw _
  · exact Work.serves_throw _

/-- A node that fans out writes the list of results, and nothing else. -/
theorem Node.serves_fanOut (setting : Setting) (node : Node) (each : ForEach) (state : Store) :
    (node.fanOut setting each state).Serves node.name fun result =>
      result.fields.map Prod.fst = [each.output] := by
  refine (Work.serves_ofExcept fun _ _ => trivial).bind fun items (_ : True) => ?_
  refine Work.serves_lift_bind ?_ fun results (_ : True) => Work.serves_pure rfl
  refine Pool.serves_run _ _ rfl rfl fun job hjob => ?_
  obtain ⟨⟨item, index⟩, -, rfl⟩ := List.mem_map.1 hjob
  exact Activity.Serves.mono (node.serves_runItem setting _ index) fun _ _ => trivial

/-! ## Whole executions -/

/-- A conversation of a node that does not fan out is an execution of it. -/
theorem StepEnd.fits_ofModel {node : Node} {step : ModelStep} (heach : node.forEach = none)
    (hkind : node.kind = .model step) (state : Store) {outcome : ModelOutcome}
    (h : outcome.Fits node) : (StepEnd.ofModel outcome).Fits node state := by
  cases outcome with
  | complete result =>
    have hwrites : node.writes = node.output.map OutputField.name := by
      simp only [Node.writes, heach, hkind]
    exact node.yields_of_map_fst state (fun _ hupdate => by simp [hkind] at hupdate)
      (h.trans hwrites.symm)
  | awaitApproval request checkpoint => exact ⟨heach, step, hkind⟩

/-- Executing a node is work within it, and yields what the node writes. -/
theorem Node.serves_execute (setting : Setting) (node : Node) (state : Store)
    (supplied : Option Value) :
    (node.execute setting state supplied).Serves node.name (StepEnd.Fits node state) := by
  -- By the kind of node: what it does is work within it, and what it yields has the declared names.
  unfold execute
  cases heach : node.forEach with
  | some each =>
    refine (node.serves_fanOut setting each state).map fun result hnames => ⟨?_, ?_⟩
    · simp only [writes, heach, hnames]
    · exact fun hnone => by simp [heach] at hnone
  | none =>
    dsimp only
    cases hkind : node.kind with
    | input step =>
      refine (Work.serves_ofExcept fun _ _ => trivial).bind fun request (_ : True) => ?_
      cases supplied with
      | none => exact Work.serves_pure ⟨heach, step, hkind⟩
      | some value =>
        exact Work.Serves.map (Work.serves_ofExcept fun result hresult => hresult)
          fun result hresult => AsksInput.yields ⟨heach, step, hkind⟩ state hresult
    | model step =>
      exact (ModelStep.serves_start _ _ _ _ _).map fun outcome =>
        StepEnd.fits_ofModel heach hkind state
    | tool step =>
      refine (ToolStep.serves_run _ _ _ _ _).map fun result hnames =>
        node.yields_of_map_fst state (fun _ hupdate => by simp [hkind] at hupdate) ?_
      simp only [writes, heach, hkind, hnames]
    | output lines =>
      refine Work.Serves.map (Work.serves_ofExcept fun result hresult => hresult)
        fun result hresult =>
          node.yields_of_map_fst state (fun _ hupdate => by simp [hkind] at hupdate) ?_
      simp only [writes, heach, hkind, fields_runOutput hresult, List.map_nil]
    | update step =>
      exact Work.Serves.map (Work.serves_ofExcept fun result hresult => hresult)
        fun result hresult => UpdateStep.yields_run heach hkind hresult

/-- Executing a node is work within it. -/
theorem Node.inside_execute (setting : Setting) (node : Node) (state : Store)
    (supplied : Option Value) : (node.execute setting state supplied).Inside :=
  (node.serves_execute setting state supplied).inside

/-- Going on after the caller's decision is work within a node, and yields what the node writes. -/
theorem Runner.serves_decided (runner : Runner) (node : Node) (heach : node.forEach = none)
    (state : Store) (checkpoint : Checkpoint) (decision : Decision) :
    (runner.decided node checkpoint decision).Serves node.name (StepEnd.Fits node state) := by
  unfold decided
  split
  · rename_i step hkind
    exact (ModelStep.serves_resume _ _ _ _ _).map fun outcome =>
      StepEnd.fits_ofModel heach hkind state
  · exact Work.serves_throw _

/-- Going on after the caller's decision is work within a node, whether or not the node is one that
fans out. -/
theorem Runner.inside_decided (runner : Runner) (node : Node) (checkpoint : Checkpoint)
    (decision : Decision) : (runner.decided node checkpoint decision).Inside := by
  unfold decided
  split
  · rename_i step _
    have hserves : (StepEnd.ofModel <$> step.resume runner.setting node checkpoint decision).Serves
        node.name fun _ => True :=
      (ModelStep.serves_resume _ _ _ _ _).map fun _ _ => trivial
    exact hserves.inside
  · trivial

end AgentFlow
