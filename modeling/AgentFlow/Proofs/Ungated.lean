import AgentFlow.Proofs.Unrolling

/-!
# Conversations without approval

A model node with and without the flag that makes tool calls wait for the caller. The gate refuses
the same calls of both; a call that one of them stops at is run by the other. When the caller
approves of it, the first one runs the call as well and goes on with the calls behind it, from the
checkpoint it left. So nothing may be lost at a checkpoint: what was said and noted so far, the
calls that are still to be handled, and how often the model was asked.

`ModelStep.unrolls_converse` says so of conversations, whatever is done with their result, and
`Node.unrolls_execute` of the nodes of a flow.
-/

namespace AgentFlow

variable {α β γ : Type} {again : α → Option (Activity α)}

/-! ## Dropping the flag -/

/-- A step whose calls need no approval. -/
def ModelStep.ungated (step : ModelStep) : ModelStep := { step with requireApproval := false }

/-- A node whose calls need no approval. -/
def Node.ungated (node : Node) : Node :=
  { node with
    kind := match node.kind with
      | .model step => .model step.ungated
      | kind => kind }

section Fields

variable (node : Node) (step : ModelStep)

/-- A node keeps its name without approval. -/
@[simp]
theorem Node.name_ungated : node.ungated.name = node.name := rfl

/-- A model node may take as many steps without approval. -/
@[simp]
theorem ModelStep.stepLimit_ungated (config : Config) :
    step.ungated.stepLimit config = step.stepLimit config := rfl

/-- A turn of the model amounts to the same without approval. -/
@[simp]
theorem ModelStep.weigh_ungated (talk : Talk) (turn : Turn) :
    ModelStep.weigh node.ungated talk turn = ModelStep.weigh node talk turn := rfl

/-- A conversation is complete without approval exactly if it is with it. -/
@[simp]
theorem Talk.isComplete_ungated (talk : Talk) :
    talk.isComplete node.ungated step.ungated = talk.isComplete node step := rfl

end Fields

/-- A node that requires no approval already. -/
theorem Node.ungated_of_not_requiresApproval {node : Node} (h : ¬ node.requiresApproval) :
    node.ungated = node := by
  obtain ⟨name, kind, output, limit, counter, each⟩ := node
  cases kind with
  | model step =>
    obtain ⟨system, prompt, tools, requireApproval, raw, maxSteps⟩ := step
    obtain rfl : requireApproval = false := by simpa [requiresApproval] using h
    rfl
  | _ => rfl

/-- Without the flag, the gate lets calls pass that would otherwise have to wait, and judges all
others as before. -/
theorem ModelStep.gate_ungated (step : ModelStep) (policy : ApprovalPolicy) (call : ToolUse) :
    step.ungated.gate policy call =
      match step.gate policy call with
      | .ask => .run
      | gate => gate := by
  simp only [gate, ungated, ApprovalPolicy.decide]
  by_cases htool : step.tools.contains call.name
  · by_cases hdeny : policy.deny.contains call.name
    · simp only [htool, hdeny, Bool.not_true, Bool.false_eq_true, if_false, if_true]
    · by_cases hauto : !step.requireApproval || policy.autoApprove.contains call.name <;>
        simp only [htool, hdeny, hauto, Bool.not_true, Bool.not_false, Bool.true_or,
          Bool.false_eq_true, if_false, if_true]
  · simp only [htool, Bool.not_false, if_true]

/-! ## Work in two parts -/

namespace Work

/-- What is done after work that can fail, done part by part. -/
theorem activity_bind_then (w : Work β) (f : β → Work γ) (k : Except Error γ → Activity α) :
    (w >>= f).activity >>= k =
      w.activity >>= fun
        | .ok b => (f b).activity >>= k
        | .error error => k (.error error) := by
  unfold activity
  rw [ExceptT.run_bind, bind_assoc]
  congr 1
  funext result
  cases result <;> simp

/-- What is done after work that starts with an activity that does not fail. -/
theorem activity_lift_then (t : Activity β) (f : β → Work γ) (k : Except Error γ → Activity α) :
    (Work.lift t >>= f).activity >>= k = t >>= fun b => (f b).activity >>= k := by
  rw [activity_lift_bind, bind_assoc]

/-- What is done after work whose result is only wrapped up. -/
theorem activity_map_then (w : Work β) (f : β → γ) (k : Except Error γ → Activity α) :
    (f <$> w).activity >>= k = w.activity >>= fun result => k (f <$> result) := by
  unfold activity
  rw [ExceptT.run_map, bind_map_left]
  rfl

/-- Work within a node that both activities do first. -/
theorem unrolls_bind {w : Work β} (hw : w.Inside) {f f' : β → Work γ}
    {k k' : Except Error γ → Activity α}
    (herror : ∀ error, Activity.Unrolls again (k (.error error)) (k' (.error error)))
    (h : ∀ b, Activity.Unrolls again ((f b).activity >>= k) ((f' b).activity >>= k')) :
    Activity.Unrolls again ((w >>= f).activity >>= k) ((w >>= f').activity >>= k') := by
  rw [activity_bind_then, activity_bind_then]
  refine .bind hw fun result => ?_
  cases result with
  | ok b => exact h b
  | error error => exact herror error

/-- Work within a node whose result is only wrapped up. -/
theorem unrolls_map {w : Work β} (hw : w.Inside) (f : β → γ)
    {k k' : Except Error γ → Activity α}
    (herror : ∀ error, Activity.Unrolls again (k (.error error)) (k' (.error error)))
    (h : ∀ b, Activity.Unrolls again (k (.ok (f b))) (k' (.ok (f b)))) :
    Activity.Unrolls again ((f <$> w).activity >>= k) ((f <$> w).activity >>= k') := by
  rw [activity_map_then, activity_map_then]
  refine .bind hw fun result => ?_
  cases result with
  | ok b => exact h b
  | error error => exact herror error

end Work

/-! ## Conversations -/

namespace ModelStep

variable {setting : Setting} {node : Node} {step : ModelStep} {brief : Brief}

/-- Calls are handled alike, but for those that the gate stops at. There the first activity has to
come to the same as running the call and handling those behind it. -/
theorem unrolls_handleCalls {k k' : Except Error Handled → Activity α}
    (herror : ∀ error, Activity.Unrolls again (k (.error error)) (k' (.error error)))
    (hall : ∀ talk, Activity.Unrolls again (k (.ok (.all talk))) (k' (.ok (.all talk))))
    (hask : ∀ talk call pending,
      (∀ talk, Activity.Unrolls again
        ((handleCalls setting node step brief talk pending).activity >>= k)
        ((handleCalls setting node.ungated step.ungated brief talk pending).activity >>= k')) →
      Activity.Unrolls again (k (.ok (.awaiting call pending talk)))
        ((runCall setting node step brief talk call >>= fun talk =>
          handleCalls setting node.ungated step.ungated brief talk pending).activity >>= k'))
    (talk : Talk) (calls : List ToolUse) :
    Activity.Unrolls again ((handleCalls setting node step brief talk calls).activity >>= k)
      ((handleCalls setting node.ungated step.ungated brief talk calls).activity >>= k') := by
  induction calls generalizing talk with
  | nil => exact hall talk
  | cons call rest ih =>
    simp only [handleCalls, gate_ungated]
    cases step.gate setting.config.approval call with
    | run => exact Work.unrolls_bind (serves_runCall _ _ _ _ _ _).inside herror ih
    | refuse reason => exact ih _
    | ask => exact hask talk call rest ih

section Converse

variable {k k' : Except Error ModelOutcome → Activity α}
  (hdone : ∀ result, (∀ request checkpoint, result ≠ .ok (.awaitApproval request checkpoint)) →
    Activity.Unrolls again (k result) (k' result))
  (hask : ∀ request checkpoint t',
    Activity.Unrolls again
      ((step.resume setting node checkpoint .approved).activity >>= k) t' →
    Activity.Unrolls again (k (.ok (.awaitApproval request checkpoint))) t')
include hdone hask

/-- A conversation that is taken up again after every approval comes to the same as one without. -/
theorem unrolls_converse (steps attempts : Nat) (talk : Talk) (calls : List ToolUse) :
    Activity.Unrolls again
      ((converse setting node step brief steps attempts talk calls).activity >>= k)
      ((converse setting node.ungated step.ungated brief steps attempts talk calls).activity
        >>= k') := by
  have herror : ∀ error, Activity.Unrolls again (k (.error error)) (k' (.error error)) :=
    fun error => hdone _ (by simp)
  induction steps, attempts using rounds_induct setting step generalizing talk calls with
  | round steps attempts onCalls onRetry =>
    rw [converse, converse, Work.activity_lift_then, Work.activity_lift_then]
    refine .poll ?_
    simp only [Bool.false_eq_true, if_false]
    rw [Work.activity_bind_then, Work.activity_bind_then]
    refine unrolls_handleCalls herror (fun talk => ?_) (fun talk call pending hrest => ?_) talk
      calls
    · dsimp only
      generalize (if (!talk.observations.isEmpty) = true then talk.feedBack else talk) = sent
      rw [Talk.isComplete_ungated]
      by_cases hcomplete : (!talk.observations.isEmpty && sent.isComplete node step) = true
      · rw [if_pos hcomplete, if_pos hcomplete]
        exact hdone (.ok (.complete _)) (by simp)
      · rw [if_neg hcomplete, if_neg hcomplete]
        -- Both ask the model the same and weigh the same turn.
        simp only [Node.name_ungated, weigh_ungated]
        refine Work.unrolls_bind (serves_askWithRetry _ _ _ _).inside herror fun turn => ?_
        cases weigh node sent turn with
        | answer fields => exact hdone (.ok (.complete _)) (by simp)
        | calls talk calls =>
          -- The counters are the same in both, so that they come to their bounds together.
          by_cases hsteps : steps < step.stepLimit setting.config
          · simp only [stepLimit_ungated, hsteps, if_true]
            exact onCalls hsteps _ _
          · simp only [stepLimit_ungated, hsteps, if_false]
            exact herror _
        | unusable talk fault =>
          by_cases hattempts : attempts < setting.config.retry.maxRetries
          · simp only [hattempts, if_true]
            rw [Work.activity_lift_then, Work.activity_lift_then]
            exact .emit (onRetry hattempts _ _)
          · simp only [hattempts, if_false]
            exact herror _
    · -- The checkpoint has all that the conversation goes on with.
      refine hask _ _ _ ?_
      change Activity.Unrolls again ((runCall setting node step brief talk call >>= fun talk =>
        converse setting node step brief steps attempts talk pending).activity >>= k) _
      rw [Work.activity_bind_then, Work.activity_bind_then]
      refine .bind (serves_runCall _ _ _ _ _ _).inside fun result => ?_
      cases result with
      | error error => exact herror error
      | ok talk =>
        dsimp only
        rw [converse, Work.activity_lift_then]
        refine .poll_left ?_
        simp only [Bool.false_eq_true, if_false]
        rw [Work.activity_bind_then]
        exact hrest talk

/-- A conversation from its start. -/
theorem unrolls_start (vars : Lookup) (itemIndex : Option Nat) :
    Activity.Unrolls again ((step.start setting node vars itemIndex).activity >>= k)
      ((step.ungated.start setting node.ungated vars itemIndex).activity >>= k') := by
  have herror : ∀ error, Activity.Unrolls again (k (.error error)) (k' (.error error)) :=
    fun error => hdone _ (by simp)
  exact Work.unrolls_bind (Work.inside_ofExcept _) herror fun _ =>
    Work.unrolls_bind (Work.inside_ofExcept _) herror fun _ => unrolls_converse hdone hask _ _ _ _

end Converse

end ModelStep

/-! ## Nodes -/

namespace Node

variable {setting : Setting} {node : Node} {k k' : Except Error StepEnd → Activity α}

/-- The execution of a node that is taken up again after every approval comes to the same as that of
the node without the flag, whatever is done with the result. -/
theorem unrolls_execute (hfan : node.forEach.isSome → ¬ node.requiresApproval)
    (hdone : ∀ result, (∀ request checkpoint, result ≠ .ok (.awaitApproval request checkpoint)) →
      Activity.Unrolls again (k result) (k' result))
    (hask : ∀ step, node.kind = .model step → ∀ request checkpoint t',
      Activity.Unrolls again
        ((StepEnd.ofModel <$> step.resume setting node checkpoint .approved).activity >>= k) t' →
      Activity.Unrolls again (k (.ok (.awaitApproval request checkpoint))) t')
    (state : Store) (supplied : Option Value) :
    Activity.Unrolls again ((node.execute setting state supplied).activity >>= k)
      ((node.ungated.execute setting state supplied).activity >>= k') := by
  have herror : ∀ error, Activity.Unrolls again (k (.error error)) (k' (.error error)) :=
    fun error => hdone _ (by simp)
  have hcomplete : ∀ {work : Work NodeResult}, work.Inside →
      Activity.Unrolls again ((StepEnd.complete <$> work).activity >>= k)
        ((StepEnd.complete <$> work).activity >>= k') := fun hwork =>
    Work.unrolls_map hwork _ herror fun result => hdone (.ok (.complete result)) (by simp)
  cases heach : node.forEach with
  | some each =>
    rw [ungated_of_not_requiresApproval (hfan (by rw [heach]; rfl)), execute, heach]
    exact hcomplete (node.serves_fanOut setting each state).inside
  | none =>
    obtain ⟨name, kind, output, limit, counter, each⟩ := node
    obtain rfl : each = none := heach
    -- Only model nodes have the flag; all others are the same without.
    cases kind with
    | model step =>
      change Activity.Unrolls again
        ((StepEnd.ofModel <$> step.start setting _ _ none).activity >>= k)
        ((StepEnd.ofModel <$> step.ungated.start setting (ungated _) _ none).activity >>= k')
      rw [Work.activity_map_then, Work.activity_map_then]
      refine ModelStep.unrolls_start (fun result hresult => ?_) (fun request checkpoint t' h => ?_)
        _ _
      · rcases result with error | result | ⟨request, checkpoint⟩
        · exact herror error
        · exact hdone (.ok (.complete result)) (by simp)
        · exact absurd rfl (hresult request checkpoint)
      · rw [← Work.activity_map_then] at h
        exact hask step rfl request checkpoint t' h
    | input step =>
      refine Work.unrolls_bind (Work.inside_ofExcept (step.request state.get?)) herror
        fun request => ?_
      cases supplied with
      | none => exact hdone (.ok (.awaitInput request)) (by simp)
      | some value => exact hcomplete (Work.inside_ofExcept _)
    | tool step =>
      exact hcomplete (ToolStep.serves_run _ step setting.toolbox state.get? none).inside
    | output lines => exact hcomplete (Work.inside_ofExcept (runOutput lines state.get?))
    | update step => exact hcomplete (Work.inside_ofExcept _)

end Node

end AgentFlow
