import AgentFlow.Proofs.Run

/-!
# The approval gate is never bypassed

A call of a model that needs approval is started by one command only: the approval of the very call
that the run waits for. The gate is asked when a turn of the model is handled, and not again when
the caller has approved, so the argument is about what lies between: the checkpoint still holds
the call that the request shows (`Cursor.Sound`).

An approval is cut into three (`exists_resume_approved_eq`): the observers are told of it, the
approved call is started, and the rest starts only calls that the gate lets pass. Everything else
that a command can do starts only such calls, too.
-/

namespace AgentFlow

/-- The event of starting the call of a request. -/
def ApprovalRequest.started (request : ApprovalRequest) : Event :=
  .toolStart request.node request.tool request.input

/-- The request that a command approves: the one that the run waits for, unless it is cancelled. -/
def Run.granted? (run : Run) (cancelled : Bool) : Command → Option ApprovalRequest
  | .resume (.approval .approved) =>
    match run.suspension? with
    | some (.awaitingApproval _ _ request) => if cancelled then none else some request
    | _ => none
  | _ => none

namespace Run

variable {run : Run}

/-- A run tells its caller that it awaits an approval exactly when it is suspended with a checkpoint
in front of that request. -/
theorem suspension?_eq_awaitingApproval_iff {name id : String} {request : ApprovalRequest} :
    run.suspension? = some (.awaitingApproval name id request) ↔
      ∃ checkpoint, run.cursor = .suspended name (.approval id request checkpoint) := by
  unfold suspension?
  rcases run.cursor with source | ⟨name, request | ⟨id, request, checkpoint⟩⟩ | _ <;>
    simp [Suspension.ofPending]

/-- A command approves the request that the run shows, if it approves one. -/
theorem granted?_eq_some_iff {cancelled : Bool} {command : Command} {request : ApprovalRequest} :
    run.granted? cancelled command = some request ↔
      command = .resume (.approval .approved) ∧ cancelled = false ∧
        ∃ name id, run.suspension? = some (.awaitingApproval name id request) := by
  unfold granted?
  split
  · split
    · rename_i hsuspension
      cases cancelled <;> simp [hsuspension]
    · rename_i hother
      simp only [reduceCtorEq, true_and, false_iff, not_and, not_exists]
      exact fun _ name id hsuspension => hother name id request hsuspension
  · rename_i hother
    simp only [reduceCtorEq, false_iff, not_and]
    exact fun hcommand => absurd hcommand hother

end Run

/-- Whether an event starts a call that needs the caller's approval. -/
def Runner.isGated (runner : Runner) : Event → Bool
  | .toolStart name tool _ =>
    (runner.flow.node? name).any fun node =>
      node.requiresApproval && !runner.setting.config.approval.autoApprove.contains tool
  | _ => false

/-- What the gate guarantees of the events of a command that is given to a run. -/
structure Runner.Guards {σ : Type} (runner : Runner) (host : Host σ) (run : Run)
    (session : Session σ) (command : Command) : Prop where
  /-- Model nodes call tools on their list that are not denied. -/
  listed : ∀ name tool input node step,
    .toolStart name tool input ∈ (runner.carryOut run command).events host session →
      runner.flow.node? name = some node → node.kind = .model step →
        tool ∈ step.tools ∧ tool ∉ runner.setting.config.approval.deny
  /-- The calls that need approval are the one that the command approves, if there is one. -/
  granted : ((runner.carryOut run command).events host session).filter runner.isGated =
    (run.granted? session.cancelled command).toList.map ApprovalRequest.started
  /-- The approved call is started at once. -/
  direct : ∀ request, run.granted? session.cancelled command = some request →
    ∃ id, [.approvalResolved id true, request.started] <+:
      (runner.carryOut run command).events host session
  /-- A denied call is not started, with this input or another one. -/
  denied : ∀ reason node id request, command = .resume (.approval (.denied reason)) →
    run.suspension? = some (.awaitingApproval node id request) → ∀ input,
      .toolStart request.node request.tool input ∉
        (runner.carryOut run command).events host session
  /-- A run that waits for approval awaits a call, the one that it shows, so that no answer finds
  the call missing. -/
  awaited : ∀ name id request checkpoint,
    run.cursor = .suspended name (.approval id request checkpoint) →
      ∃ call, checkpoint.awaiting = some call ∧ request = ⟨name, call.name, call.input⟩

namespace Runner

variable {runner : Runner} {run : Run} {σ : Type} {host : Host σ}

/-- The contract of starting no call that needs approval, and for model nodes only listed ones that
are not denied. -/
def gating (runner : Runner) : Contract where
  call name tool input :=
    (∀ node step, runner.flow.node? name = some node → node.kind = .model step →
      tool ∈ step.tools ∧ tool ∉ runner.setting.config.approval.deny) ∧
    runner.isGated (.toolStart name tool input) = false
  request _ := True
  reply _ := True

/-- What the gate lets pass needs no approval. -/
theorem ready_gating (hflow : runner.flow.Sound) : runner.Ready runner.gating := by
  refine ⟨hflow, fun node hnode => ⟨fun step hkind call hgate => ?_,
    fun _ _ _ _ _ _ _ => trivial, fun step hkind input => ?_⟩⟩
  · have hfound := hflow.node?_eq hnode
    obtain ⟨hlist, hdeny, happroval⟩ := ModelStep.gate_eq_run_iff.1 hgate
    refine ⟨fun other step' hother hkind' => ?_, ?_⟩
    · obtain rfl : node = other := Option.some.inj (hfound.symm.trans hother)
      obtain rfl : step = step' := NodeKind.model.inj (hkind.symm.trans hkind')
      exact ⟨hlist, hdeny⟩
    · simp only [isGated, hfound, Option.any_some, Node.requiresApproval, hkind,
        Bool.and_eq_false_imp, Bool.not_eq_false', List.contains_iff_mem]
      exact happroval
  · have hfound := hflow.node?_eq hnode
    refine ⟨fun other step' hother hkind' => ?_, ?_⟩
    · obtain rfl : node = other := Option.some.inj (hfound.symm.trans hother)
      rw [hkind] at hkind'
      exact absurd hkind' (by simp)
    · simp [isGated, hfound, Node.requiresApproval, hkind]

/-! ## Waiting for approval -/

section Suspended

variable {name id : String} {request : ApprovalRequest} {checkpoint : Checkpoint}
  (hcursor : run.cursor = .suspended name (.approval id request checkpoint))
  (hsound : run.cursor.Sound runner)
include hcursor hsound

/-- The call that a run waits for needs approval, whatever its input. -/
theorem isGated_of_sound (input : Value) :
    runner.isGated (.toolStart request.node request.tool input) = true := by
  obtain ⟨node, step, call, hnode, hkind, -, hgate, rfl⟩ := hsound.exists_call hcursor
  obtain ⟨-, -, happroval, hauto⟩ := ModelStep.gate_eq_ask_iff.1 hgate
  simp [isGated, hnode, Node.requiresApproval, hkind, happroval, hauto]

/-- An approval is told to the observers, then the approved call is started, and what is left keeps
every contract that allows what needs no approval. -/
theorem exists_resume_approved_eq : ∃ rest : Activity (Except Error Status × Run),
    runner.resume run (.approval .approved) = Activity.poll >>= (fun cancelled =>
      if cancelled then
        (fun left : Status × Run => (.ok left.1, left.2)) <$> run.fail name .cancelled
      else Activity.emit (.approvalResolved id true) >>= fun _ =>
        Activity.emit request.started >>= fun _ => rest) ∧
    ∀ c, runner.Ready c → rest.Keeps c (runner.Answers c) := by
  rw [hcursor] at hsound
  obtain ⟨node, hnode, step, vars, prompt, hkind, hprompt, hcheckpoint⟩ := hsound
  obtain ⟨hmem, rfl⟩ := Flow.mem_of_node? hnode
  -- The conversation itself starts with the approved call; the event of the decision comes before
  -- it.
  obtain ⟨rest, hresume, hrest⟩ := ModelStep.exists_resume_approved hcheckpoint
  have hdecided : (runner.decided node checkpoint .approved).activity =
      Activity.emit request.started >>= fun _ => (StepEnd.ofModel <$> rest).activity := by
    unfold decided
    rw [hkind]
    dsimp only
    rw [hresume]
    rfl
  refine ⟨(StepEnd.ofModel <$> rest).activity >>= fun result =>
    node.settle run result >>= fun settled =>
      (fun left : Status × Run => (.ok left.1, left.2)) <$> runner.goOn settled, ?_, ?_⟩
  · unfold resume
    rw [hcursor]
    simp only [hnode, hdecided, bind_assoc]
    rfl
  · intro c hready
    have hadmits := hready.admits node hmem
    have hkeeps : (StepEnd.ofModel <$> rest).Keeps c (StepEnd.Sound runner.setting node) := by
      simp only [Work.keeps_map]
      refine (hrest c (hadmits.passes step hkind)
        (hadmits.hears step hkind vars prompt hprompt)).mono fun outcome houtcome => ?_
      exact StepEnd.sound_ofModel hkind hprompt houtcome
    exact (Activity.keeps_bind _ _ _).2
      (Activity.Keeps.mono hkeeps fun result hresult => keeps_answered hready hnode hresult)

end Suspended

/-! ## Events of a command -/

/-- The command to resume a run tells the observers what resuming it does. -/
theorem events_carryOut_resume (answer : Resume) (session : Session σ) :
    (runner.carryOut run (.resume answer)).events host session =
      (runner.resume run answer).events host session := by
  unfold carryOut
  rw [Activity.events_bind]
  exact List.append_nil _

/-- Events of what keeps the contract contain no call that needs approval. -/
theorem filter_isGated_eq_nil {α : Type} {post : α → Prop} {t : Activity α}
    (h : t.Keeps runner.gating post) (session : Session σ) :
    (t.events host session).filter runner.isGated = [] := by
  refine List.filter_eq_nil_iff.2 fun event hevent hgated => ?_
  cases event with
  | toolStart node tool input =>
    have hcall := h.call_of_mem_events (fun _ _ => trivial) hevent
    exact absurd hgated (by simp [hcall.2])
  | _ => simp [isGated] at hgated

/-- A run that waits for approval awaits the call that it shows. -/
theorem awaited_of_sound (hsound : run.cursor.Sound runner) (name id : String)
    (request : ApprovalRequest) (checkpoint : Checkpoint)
    (hcursor : run.cursor = .suspended name (.approval id request checkpoint)) :
    ∃ call, checkpoint.awaiting = some call ∧ request = ⟨name, call.name, call.input⟩ := by
  obtain ⟨_, _, call, -, -, hawaiting, -, hrequest⟩ := hsound.exists_call hcursor
  exact ⟨call, hawaiting, hrequest⟩

/-- The events of an approval: none but the failure of a cancelled run, or first the approved call
and then calls that the gate lets pass. -/
theorem guards_of_approved (hflow : runner.flow.Sound) (hsound : run.cursor.Sound runner)
    {name id : String} {request : ApprovalRequest} {checkpoint : Checkpoint}
    (hcursor : run.cursor = .suspended name (.approval id request checkpoint))
    (session : Session σ) :
    runner.Guards host run session (.resume (.approval .approved)) := by
  obtain ⟨rest, hresume, hrest⟩ := exists_resume_approved_eq hcursor hsound
  have hkeeps := hrest runner.gating (ready_gating hflow)
  -- Events and grants are cut along the same line: whether the run is cancelled.
  have hevents : (runner.carryOut run (.resume (.approval .approved))).events host session =
      if session.cancelled then [.runFailed .cancelled]
      else .approvalResolved id true :: request.started ::
        rest.events host { session with
          log := session.log ++ [.approvalResolved id true] ++ [request.started] } := by
    rw [events_carryOut_resume, hresume]
    simp only [Activity.events_bind]
    show (if session.cancelled then _ else _ : Activity _).events host session = _
    split_ifs <;> rfl
  have hgranted : run.granted? session.cancelled (.resume (.approval .approved)) =
      if session.cancelled then none else some request := by
    unfold Run.granted?
    rw [Run.suspension?_eq_awaitingApproval_iff.2 ⟨checkpoint, hcursor⟩]
  refine ⟨fun other tool input node step hevent hnode hkind => ?_, ?_, fun shown hshown => ?_,
    fun reason _ _ _ hcommand => ?_, awaited_of_sound hsound⟩
  · rw [hevents] at hevent
    split_ifs at hevent
    · simp at hevent
    rcases List.mem_cons.1 hevent with hevent | hevent
    · simp at hevent
    rcases List.mem_cons.1 hevent with hevent | hevent
    · -- The approved call was on the list and not denied when the run stopped for it.
      obtain ⟨waiting, step', call, hwaiting, hkind', -, hgate, rfl⟩ :=
        hsound.exists_call hcursor
      obtain ⟨rfl, rfl, rfl⟩ := Event.toolStart.inj hevent
      obtain rfl : node = waiting := Option.some.inj (hnode.symm.trans hwaiting)
      obtain rfl : step = step' := NodeKind.model.inj (hkind.symm.trans hkind')
      obtain ⟨hlist, hdeny, -⟩ := ModelStep.gate_eq_ask_iff.1 hgate
      exact ⟨hlist, hdeny⟩
    · exact (hkeeps.call_of_mem_events (fun _ _ => trivial) hevent).1 node step hnode hkind
  · -- The approved call is the only one that needs approval: the rest keeps the contract.
    have hgated : runner.isGated request.started = true := isGated_of_sound hcursor hsound _
    rw [hevents, hgranted]
    split_ifs
    · rfl
    · rw [List.filter_cons_of_neg (by simp [isGated]), List.filter_cons_of_pos hgated,
        filter_isGated_eq_nil hkeeps]
      rfl
  · rw [hgranted] at hshown
    rw [hevents]
    split_ifs at hshown ⊢
    obtain rfl : request = shown := Option.some.inj hshown
    exact ⟨id, _, rfl⟩
  · simp at hcommand

/-- What the gate guarantees holds of every command that is given to a run that stands where it
can. -/
theorem guards_of_sound (hflow : runner.flow.Sound) (hsound : run.cursor.Sound runner)
    (session : Session σ) (command : Command) : runner.Guards host run session command := by
  by_cases happroval : ∃ name id request checkpoint,
      run.cursor = .suspended name (.approval id request checkpoint) ∧
        command = .resume (.approval .approved)
  · obtain ⟨name, id, request, checkpoint, hcursor, rfl⟩ := happroval
    exact guards_of_approved hflow hsound hcursor session
  · -- Nothing is approved, so that everything keeps the contract.
    have hkeeps : (runner.carryOut run command).Keeps runner.gating
        (runner.Carried runner.gating) :=
      keeps_carryOut (ready_gating hflow) hsound command
        fun name id request checkpoint hcursor hcommand =>
          absurd ⟨name, id, request, checkpoint, hcursor, hcommand⟩ happroval
    have hmeets : host.Meets runner.gating := fun _ _ => trivial
    have hnone : run.granted? session.cancelled command = none := by
      refine Option.eq_none_iff_forall_ne_some.2 fun request hgranted => ?_
      obtain ⟨hcommand, -, name, id, hsuspension⟩ := Run.granted?_eq_some_iff.1 hgranted
      obtain ⟨checkpoint, hcursor⟩ := Run.suspension?_eq_awaitingApproval_iff.1 hsuspension
      exact happroval ⟨name, id, request, checkpoint, hcursor, hcommand⟩
    refine ⟨fun name tool input node step hevent => ?_, ?_, ?_, ?_, awaited_of_sound hsound⟩
    · exact (hkeeps.call_of_mem_events hmeets hevent).1 node step
    · rw [hnone, filter_isGated_eq_nil hkeeps]
      rfl
    · rw [hnone]
      exact nofun
    · intro reason name id request _ hsuspension input hevent
      obtain ⟨checkpoint, hcursor⟩ := Run.suspension?_eq_awaitingApproval_iff.1 hsuspension
      have hgated := isGated_of_sound hcursor hsound input
      rw [(hkeeps.call_of_mem_events hmeets hevent).2] at hgated
      simp at hgated

/-- In every run of a compiled flow, whatever the model, the tools and the caller do, calls that
need approval are started by the approval of just that call, and by nothing else. -/
theorem guards_of_compile {definition : Definition} {flow : Flow}
    (hcompile : Flow.compile definition = .ok flow) (setting : Setting) (host : Host σ) (world : σ)
    (params inputs : List (String × Value)) (commands : List Command) (command : Command) :
    let runner : Runner := ⟨flow, setting⟩
    let left := runner.after host world params inputs commands
    runner.Guards host left.1 left.2 command := by
  have hflow := Flow.sound_of_compile hcompile
  exact guards_of_sound hflow (sound_after hflow host world params inputs commands) _ command

end Runner

/-- After one step the sample waits for approval, and approving starts the call that it shows. -/
theorem Sample.guards_approval :
    let left := (Runner.mk flow setting).after host () [] [] [.advance]
    Flow.compile definition = .ok flow ∧
      left.1.granted? left.2.cancelled (.resume (.approval .approved)) =
        some ⟨"n", "t", .map []⟩ ∧
      (Runner.mk flow setting).Guards host left.1 left.2 (.resume (.approval .approved)) := by
  have hcompile : Flow.compile definition = .ok flow := rfl
  exact ⟨hcompile, by decide +kernel,
    Runner.guards_of_compile hcompile setting host () [] [] [.advance] _⟩

end AgentFlow
