import AgentFlow.Proofs.Course
import AgentFlow.Proofs.Ungated

/-!
# Approval is transparent

A caller who approves of every tool call gets from a flow just what it would get from the flow
without any approval: the same reports, the same state and transcript, the same requests to the
model and the same calls of tools. Between two stops the runner's own part of a run must therefore
survive as well: the state, the steps counted, and the place to go on from.

The driven run of a flow unrolls to the plain run of the flow without the flags
(`Runner.unrolls_carryOut`), which is shown function by function, from the application of a node's
result up to whole commands; `Runner.unrolls_advance` takes the run from node to node by induction
on the executions left. Two flows that differ in their flags alone are compared by way of the flow
without.
-/

namespace AgentFlow

variable {σ ω : Type}

/-! ## Flows without approval -/

/-- A definition whose nodes require no approval. -/
def Definition.ungated (definition : Definition) : Definition :=
  { definition with nodes := definition.nodes.map Node.ungated }

/-- A flow whose nodes require no approval. -/
def Flow.ungated (flow : Flow) : Flow := { flow with nodes := flow.nodes.map Node.ungated }

/-- A runner of the flow without approval. -/
def Runner.ungated (runner : Runner) : Runner := { runner with flow := runner.flow.ungated }

/-- Without approval, a flow has its nodes under the same names. -/
theorem Flow.node?_ungated (flow : Flow) (name : String) :
    flow.ungated.node? name = (flow.node? name).map Node.ungated := by
  unfold Flow.node? Flow.ungated
  rw [List.find?_map]
  rfl

/-- Definitions that differ only in which nodes require approval are compiled to flows that differ
only in that. -/
theorem Flow.ungated_eq_of_compile {definition definition' : Definition} {flow flow' : Flow}
    (h : definition.ungated = definition'.ungated) (hflow : compile definition = .ok flow)
    (hflow' : compile definition' = .ok flow') : flow.ungated = flow'.ungated := by
  obtain ⟨-, rfl⟩ := compile_eq_ok_iff.1 hflow
  obtain ⟨-, rfl⟩ := compile_eq_ok_iff.1 hflow'
  have hnames : ∀ d : Definition, d.ungated.nodeNames = d.nodeNames := fun d => by
    simp [Definition.nodeNames, Definition.ungated, Function.comp_def]
  have htable : ∀ d : Definition, d.ungated.table = d.table := fun d => by
    unfold Definition.table
    rw [hnames]
    rfl
  have hdescription : definition.ungated.description = definition'.ungated.description :=
    congrArg Definition.description h
  have hnodes : definition.ungated.nodes = definition'.ungated.nodes :=
    congrArg Definition.nodes h
  have hsame : definition.table = definition'.table := by
    rw [← htable definition, ← htable definition', h]
  change (⟨definition.ungated.description, definition.ungated.nodes, definition.table⟩ : Flow) = _
  rw [hdescription, hnodes, hsame]
  rfl

/-! ## Driving a run with approvals -/

/-- Whether a run waits for approval. -/
def Run.awaitsApproval (run : Run) : Bool :=
  match run.cursor with
  | .suspended _ (.approval _ _ _) => true
  | _ => false

namespace Runner

/-- What a caller does who approves of everything. -/
def again (runner : Runner) (left : Option (Except Error Status) × Run) :
    Option (Activity (Option (Except Error Status) × Run)) :=
  if left.2.awaitsApproval then some (runner.carryOut left.2 (.resume (.approval .approved)))
  else none

/-- Carries out commands in order. After each, approval is given as often as the run waits for it,
at most `n` times. -/
def drive (runner : Runner) (n : Nat) (run : Run) :
    List Command → Activity (List (Option (Except Error Status)) × Run)
  | [] => return ([], run)
  | command :: rest => do
    let (result, run) ← Activity.exhaust runner.again n (runner.carryOut run command)
    let (results, run) ← drive runner n run rest
    return (result :: results, run)

/-- Applies what came of the execution of a node, goes on and reports. -/
def proceed (runner : Runner) (node : Node) (run : Run) (result : Except Error StepEnd) :
    Activity (Option (Except Error Status) × Run) := do
  let settled ← node.settle run result
  reported <$> runner.goOn settled

variable {runner : Runner} {node : Node} {run : Run}

/-- It does not matter where a run stands when the result of a node is applied. -/
theorem proceed_cursor (cursor : Cursor) (result : Except Error StepEnd) :
    runner.proceed node { run with cursor } result = runner.proceed node run result := by
  rcases result with error | result | request | ⟨request, checkpoint⟩ <;> rfl

/-! ## One node -/

section Node

variable (hnode : runner.flow.node? node.name = some node)
include hnode

/-- Giving approval to a run that waits in a model node goes on with the conversation. -/
theorem unrolls_approve {step : ModelStep} (hkind : node.kind = .model step) {id : String}
    {request : ApprovalRequest} {checkpoint : Checkpoint}
    (hcursor : run.cursor = .suspended node.name (.approval id request checkpoint))
    {t' : Activity (Option (Except Error Status) × Run)}
    (h : Activity.Unrolls runner.again
      ((StepEnd.ofModel <$> step.resume runner.setting node checkpoint .approved).activity >>=
        runner.proceed node run) t') :
    Activity.Unrolls runner.again (runner.carryOut run (.resume (.approval .approved))) t' := by
  have hcarryOut : runner.carryOut run (.resume (.approval .approved)) =
      Activity.poll >>= fun cancelled =>
        if cancelled then reported <$> run.fail node.name .cancelled
        else Activity.emit (.approvalResolved id true) >>= fun _ =>
          (runner.decided node checkpoint .approved).activity >>= runner.proceed node run := by
    unfold carryOut resume
    rw [hcursor]
    simp only [hnode, bind_assoc]
    congr 1
    funext cancelled
    cases cancelled with
    | true =>
      simp only [if_true, bind_pure_comp, Functor.map_map]
      rfl
    | false =>
      simp only [Bool.false_eq_true, if_false, bind_pure_comp, map_bind, Functor.map_map]
      rfl
  -- The question, and the event of the approval, are what only the gated run does.
  rw [hcarryOut]
  refine .poll_left (.emit_left rfl ?_)
  unfold decided
  rw [hkind]
  exact h

/-- A node that stops for approval goes on with the conversation when approval is given. -/
theorem unrolls_awaitApproval {step : ModelStep} (hkind : node.kind = .model step)
    {request : ApprovalRequest} {checkpoint : Checkpoint}
    {t' : Activity (Option (Except Error Status) × Run)}
    (h : Activity.Unrolls runner.again
      ((StepEnd.ofModel <$> step.resume runner.setting node checkpoint .approved).activity >>=
        runner.proceed node run) t') :
    Activity.Unrolls runner.again
      (runner.proceed node run (.ok (.awaitApproval request checkpoint))) t' := by
  refine .poll_left (.freshId_left fun id => .left rfl fun _ _ => .goOn rfl ?_)
  refine unrolls_approve hnode hkind rfl ?_
  -- The run is the one before the stop, but for where it stands.
  have hcursor : runner.proceed node
      { run with cursor := .suspended node.name (.approval id request checkpoint) } =
        runner.proceed node run := funext fun result => proceed_cursor _ result
  exact hcursor ▸ h

end Node

/-! ## From node to node -/

section Commit

variable {α : Type} {again : α → Option (Activity α)} {f f' : Unit → Activity α}

/-- The observers are told the same of the fields of a node. -/
theorem unrolls_showFields (h : Activity.Unrolls again (f ()) (f' ()))
    (fields : List (String × Value)) :
    Activity.Unrolls again (node.showFields fields >>= f)
      (node.ungated.showFields fields >>= f') := by
  induction fields with
  | nil => exact h
  | cons field rest ih =>
    obtain ⟨name, value⟩ := field
    have hfield : node.ungated.field? name = node.field? name := rfl
    rw [Node.showFields, Node.showFields, hfield]
    by_cases hshown : (node.field? name).any (·.userMessage)
    · simp only [hshown, if_true, bind_assoc]
      exact .emit ih
    · simp only [hshown]
      exact ih

/-- The observers are told the same of the lines of a node. -/
theorem unrolls_showLines (h : Activity.Unrolls again (f ()) (f' ())) (lines : List String) :
    Activity.Unrolls again (node.showLines lines >>= f) (node.ungated.showLines lines >>= f') := by
  induction lines with
  | nil => exact h
  | cons line rest ih => exact .emit ih

end Commit

section Going

variable {steps : Nat}
  (hgo : ∀ next : Run, next.steps = steps → (∃ source, next.cursor = .leaving source) →
    Activity.Unrolls runner.again (reported <$> runner.advance next)
      (reported <$> runner.ungated.advance next))
  (hsteps : run.steps = steps)
include hgo hsteps

/-- What came of the execution of a node is applied alike, if the run goes on alike. -/
theorem unrolls_proceed (result : Except Error StepEnd)
    (hresult : ∀ request checkpoint, result ≠ .ok (.awaitApproval request checkpoint)) :
    Activity.Unrolls runner.again (runner.proceed node run result)
      (runner.ungated.proceed node.ungated run result) := by
  rcases result with error | result | request | ⟨request, checkpoint⟩
  · exact .emit (.done rfl)
  · refine .poll ?_
    change Activity.Unrolls runner.again
      ((Settled.goesOn <$> node.commit run result) >>= fun settled =>
        reported <$> runner.goOn settled)
      ((Settled.goesOn <$> node.ungated.commit run result) >>= fun settled =>
        reported <$> runner.ungated.goOn settled)
    rw [bind_map_left, bind_map_left]
    simp only [Node.commit, bind_assoc]
    refine unrolls_showFields (unrolls_showLines (.emit ?_) _) _
    exact hgo { run with
      cursor := .leaving node.name
      state := run.state.merge result.fields
      transcript := run.transcript ++ result.lines } hsteps ⟨node.name, rfl⟩
  · exact .poll (.emit (.done rfl))
  · exact absurd rfl (hresult request checkpoint)

/-- A node is executed alike from its start. -/
theorem unrolls_enter (hnode : runner.flow.node? node.name = some node)
    (hfan : node.forEach.isSome → ¬ node.requiresApproval) :
    Activity.Unrolls runner.again
      (node.enter runner.setting run >>= fun settled => reported <$> runner.goOn settled)
      (node.ungated.enter runner.setting run >>= fun settled =>
        reported <$> runner.ungated.goOn settled) := by
  have hcount : node.ungated.countExecution run.state = node.countExecution run.state := rfl
  have htakes : node.ungated.takesInput = node.takesInput := by
    obtain ⟨name, kind, output, limit, counter, each⟩ := node
    cases kind <;> rfl
  unfold Node.enter
  rw [hcount, htakes]
  cases node.countExecution run.state with
  | error error => exact unrolls_proceed hgo hsteps (.error error) (by simp)
  | ok state =>
    simp only [bind_assoc]
    refine .emit (node.unrolls_execute hfan (fun result hresult => ?_)
      (fun step hkind request checkpoint t' h => ?_) _ _)
    · change Activity.Unrolls runner.again (runner.proceed node _ result)
        (runner.ungated.proceed node.ungated _ result)
      refine unrolls_proceed hgo ?_ result hresult
      exact hsteps
    · exact unrolls_awaitApproval hnode hkind h

end Going

/-- The next node is chosen alike. -/
theorem unrolls_leaveBy {source : String} {enter enter' : String → Node → Activity (Status × Run)}
    (h : ∀ name node, runner.flow.node? name = some node →
      Activity.Unrolls runner.again (reported <$> enter name node)
        (reported <$> enter' name node.ungated)) :
    Activity.Unrolls runner.again (reported <$> runner.leaveBy run source enter)
      (reported <$> runner.ungated.leaveBy run source enter') := by
  have hroute : runner.ungated.flow.selectRoute source run.state.get? =
      runner.flow.selectRoute source run.state.get? := rfl
  have hnode : ∀ name, runner.ungated.flow.node? name =
      (runner.flow.node? name).map Node.ungated := runner.flow.node?_ungated
  unfold leaveBy
  rw [map_bind, map_bind]
  refine .poll ?_
  simp only [Bool.false_eq_true, if_false, hroute]
  cases runner.flow.selectRoute source run.state.get? with
  | error error => exact .emit (.done rfl)
  | ok target =>
    by_cases hend : target = endName
    · simp only [hend, if_true]
      exact .emit (.done rfl)
    · simp only [hend, if_false, hnode]
      cases hfound : runner.flow.node? target with
      | none => exact .emit (.done rfl)
      | some node => exact h target node hfound

/-- A run is taken on alike, from node to node. -/
theorem unrolls_advance (hflow : runner.flow.Sound) {source : String}
    (hcursor : run.cursor = .leaving source) :
    Activity.Unrolls runner.again (reported <$> runner.advance run)
      (reported <$> runner.ungated.advance run) := by
  induction hleft : runner.left run generalizing run source with
  | zero =>
    have hleft' : runner.ungated.left run = 0 := hleft
    rw [advance_eq hcursor, advance_eq hcursor, hleft, hleft']
    exact unrolls_leaveBy fun _ _ _ => .emit (.done rfl)
  | succ left ih =>
    have hleft' : runner.ungated.left run = left + 1 := hleft
    rw [advance_eq hcursor, advance_eq hcursor, hleft, hleft']
    refine unrolls_leaveBy fun name node hnode => ?_
    obtain ⟨hmem, rfl⟩ := Flow.mem_of_node? hnode
    -- No node that fans out requires approval.
    have hfan : node.forEach.isSome → ¬ node.requiresApproval := fun hsome => by
      obtain ⟨each, heach⟩ := Option.isSome_iff_exists.1 hsome
      exact ((hflow.nodes node hmem).forEach each heach).approval
    have hgo : ∀ next : Run, next.steps = run.steps + 1 →
        (∃ source, next.cursor = .leaving source) →
          Activity.Unrolls runner.again (reported <$> runner.advance next)
            (reported <$> runner.ungated.advance next) := by
      rintro next hsteps ⟨source, hcursor⟩
      refine ih hcursor ?_
      unfold Runner.left at hleft ⊢
      omega
    dsimp only
    rw [map_bind, map_bind]
    exact unrolls_enter hgo rfl hnode hfan

end Runner

/-! ## Commands -/

/-- Whether a command does not cancel the run. -/
def Command.isCalm : Command → Bool
  | .cancel | .signalCancel => false
  | _ => true

namespace Runner

variable {runner : Runner} {run : Run}

/-- A driven run is left alone once it does not wait for approval. -/
theorem again_eq_none_iff {left : Option (Except Error Status) × Run} :
    runner.again left = none ↔ left.2.awaitsApproval = false := by
  unfold again
  cases left.2.awaitsApproval <;> simp

/-- An answer to a run that does not wait for approval is taken up alike. -/
theorem unrolls_resume (hflow : runner.flow.Sound) (hawaits : run.awaitsApproval = false)
    (answer : Resume) :
    Activity.Unrolls runner.again (runner.carryOut run (.resume answer))
      (runner.ungated.carryOut run (.resume answer)) := by
  -- A refusal leaves the run where it does not wait for approval, so that nothing is taken up
  -- again.
  have hrefused : ∀ error : Error, Activity.Unrolls runner.again
      (pure (some (.error error), run)) (pure (some (.error error), run)) := fun error =>
    .done (again_eq_none_iff.2 hawaits)
  unfold carryOut resume
  cases hcursor : run.cursor with
  | leaving source => exact hrefused _
  | closed => exact hrefused _
  | suspended name pending =>
    dsimp only
    rw [bind_assoc, bind_assoc]
    refine .poll ?_
    simp only [Bool.false_eq_true, if_false]
    have hnode : runner.ungated.flow.node? name = (runner.flow.node? name).map Node.ungated :=
      runner.flow.node?_ungated name
    rw [hnode]
    cases hfound : runner.flow.node? name with
    | none => exact .emit (.done rfl)
    | some node =>
      cases pending with
      | approval id request checkpoint => simp [Run.awaitsApproval, hcursor] at hawaits
      | input request =>
        cases answer with
        | approval decision => exact hrefused _
        | input value =>
          -- Values are checked against the declared fields, which do not depend on the flag.
          have haccept : node.ungated.acceptInput request value = node.acceptInput request value :=
            rfl
          simp only [Option.map_some, haccept]
          cases node.acceptInput request value with
          | error error => exact hrefused _
          | ok result =>
            simp only [bind_pure_comp, map_bind, Functor.map_map]
            refine unrolls_proceed (fun next _ hleaving => ?_) rfl (.ok (.complete result))
              (by simp)
            obtain ⟨_, hleaving⟩ := hleaving
            exact unrolls_advance hflow hleaving

/-- A command to a run that does not wait for approval is carried out alike. -/
theorem unrolls_carryOut (hflow : runner.flow.Sound) (hawaits : run.awaitsApproval = false)
    {command : Command} (hcalm : command.isCalm) :
    Activity.Unrolls runner.again (runner.carryOut run command)
      (runner.ungated.carryOut run command) := by
  cases command with
  | provideInput name value => exact .done (again_eq_none_iff.2 hawaits)
  | resume answer => exact unrolls_resume hflow hawaits answer
  | advance =>
    cases hcursor : run.cursor with
    | leaving source => exact unrolls_advance hflow hcursor
    | closed =>
      unfold carryOut advance
      rw [hcursor]
      exact .done (again_eq_none_iff.2 hawaits)
    | suspended name pending =>
      unfold carryOut advance
      rw [hcursor]
      dsimp only
      rw [map_bind]
      exact .poll (.done (again_eq_none_iff.2 hawaits))
  | cancel => simp [Command.isCalm] at hcalm
  | signalCancel => simp [Command.isCalm] at hcalm

/-! ## Whole runs -/

variable {host : Host σ} {view : σ → ω} {s s' : Session σ}

/-- A run that is driven with approvals, each command often enough, matches the run of the flow
without the flags. -/
theorem exists_matches_drive (hflow : runner.flow.Sound) (hhost : host.AnswersBy view)
    (hnever : host.NeverCancels) (hs : s.Agrees view s') (hawaits : run.awaitsApproval = false)
    {commands : List Command} (hcalm : ∀ command ∈ commands, command.isCalm) :
    ((runner.ungated.carryOutAll run commands).run host s').1.2.awaitsApproval = false ∧
      ∃ n, ∀ m, n ≤ m → Activity.Matches host view (runner.drive m run commands) s
        (runner.ungated.carryOutAll run commands) s' := by
  induction commands generalizing run s s' with
  | nil => exact ⟨hawaits, 0, fun m _ => Activity.matches_done _ hs⟩
  | cons command rest ih =>
    obtain ⟨hnone, n, hn⟩ := (unrolls_carryOut hflow hawaits
      (hcalm command List.mem_cons_self)).exists_matches hhost hnever hs
    obtain ⟨hresult, hsession, -⟩ := hn n (Nat.le_refl n)
    obtain ⟨hrest, n', hn'⟩ := ih hsession (again_eq_none_iff.1 (hresult ▸ hnone))
      fun command hmem => hcalm command (List.mem_cons_of_mem _ hmem)
    refine ⟨?_, max n n', fun m hm => ?_⟩
    · rw [hresult] at hrest
      rw [carryOutAll, Activity.run_then, Activity.run_then]
      exact hrest
    · -- Approval given more often than it is asked for makes no difference.
      have hsame := Activity.run_exhaust_of_le (hresult ▸ hnone) (show n ≤ m by omega)
      have hfirst := hn m (by omega)
      rw [drive, carryOutAll]
      refine hfirst.bind (.bind ?_ (Activity.matches_done _ ?_))
      · rw [hsame]
        exact hn' m (by omega)
      · rw [hsame]
        exact (hn' m (by omega)).session

/-- A run from its start, driven with approvals. -/
def driven (runner : Runner) (params inputs : List (String × Value)) (n : Nat)
    (commands : List Command) : Activity (List (Option (Except Error Status)) × Run) := do
  let run ← runner.start params inputs
  runner.drive n run commands

/-- A run from its start, without further approvals. -/
def plain (runner : Runner) (params inputs : List (String × Value)) (commands : List Command) :
    Activity (List (Option (Except Error Status)) × Run) := do
  let run ← runner.start params inputs
  runner.carryOutAll run commands

/-- A driven run matches the run of the flow without the flags from the start. -/
theorem exists_matches_driven (hflow : runner.flow.Sound) (hhost : host.AnswersBy view)
    (hnever : host.NeverCancels) (hs : s.Agrees view s') (params inputs : List (String × Value))
    {commands : List Command} (hcalm : ∀ command ∈ commands, command.isCalm) :
    ((runner.ungated.plain params inputs commands).run host s').1.2.awaitsApproval = false ∧
      ∃ n, ∀ m, n ≤ m → Activity.Matches host view (runner.driven params inputs m commands) s
        (runner.ungated.plain params inputs commands) s' := by
  -- Both start by telling the observers of the run.
  have hstart : Activity.Matches host view (runner.start params inputs) s
      (runner.ungated.start params inputs) s' :=
    .step rfl (Activity.matches_done _ ⟨hs.1, hs.2, hs.3⟩)
  have hawaits : ((Run.ofParams params).withInputs inputs).awaitsApproval = false := rfl
  obtain ⟨hsettled, n, hn⟩ :=
    exists_matches_drive hflow hhost hnever hstart.session hawaits hcalm
  exact ⟨hsettled, n, fun m hm => hstart.bind (hn m hm)⟩

end Runner

/-! ## Two flows -/

/-- What the model is asked. -/
def Effect.question? : Effect → Option ModelRequest
  | .ask asked => some asked
  | _ => none

/-- The tool call that a tool takes up. -/
def Effect.call? : Effect → Option ToolCall
  | .request call => some call
  | _ => none

/-- What the observers are told of anything but approvals. -/
def Effect.news? (effect : Effect) : Option Event :=
  effect.event?.filter fun event => !event.isApproval

/-- Two driven runs that come to the same for the caller, the model, the tools and the observers. -/
structure Runner.Concurs (host : Host σ) (session : Session σ)
    (t t' : Activity (List (Option (Except Error Status)) × Run)) : Prop where
  /-- The caller is told the same after each command. -/
  reports : (t.run host session).1.1 = (t'.run host session).1.1
  /-- The state, the transcript, the steps and all else of the run are the same. -/
  run : (t.run host session).1.2 = (t'.run host session).1.2
  /-- The model is asked the same, in the same order. -/
  questions : (t.effects host session).filterMap Effect.question? =
    (t'.effects host session).filterMap Effect.question?
  /-- The same tools are called with the same inputs, in the same order. -/
  calls : (t.effects host session).filterMap Effect.call? =
    (t'.effects host session).filterMap Effect.call?
  /-- The observers are told the same, but for what is told of approvals. -/
  news : (t.effects host session).filterMap Effect.news? =
    (t'.effects host session).filterMap Effect.news?
  /-- No approval is left to be given. -/
  settled : (t.run host session).1.2.awaitsApproval = false

namespace Activity

variable {α : Type} {host : Host σ} {session : Session σ}

/-- What does not tell of tacit effects is told by the effects that show. -/
theorem filterMap_shown {β : Type} {f : Effect → Option β}
    (hf : ∀ effect : Effect, effect.isTacit → f effect = none) (t : Activity α) :
    (t.shown host session).filterMap f = (t.effects host session).filterMap f := by
  unfold shown
  rw [List.filterMap_filter]
  refine List.filterMap_congr fun effect _ => ?_
  cases htacit : effect.isTacit with
  | true => simp [hf effect htacit]
  | false => simp

end Activity

namespace Runner

variable {host : Host σ} {session : Session σ}

/-- Results and shown effects are all that matters. -/
theorem concurs_of_shown {t t' : Activity (List (Option (Except Error Status)) × Run)}
    (hresult : (t.run host session).1 = (t'.run host session).1)
    (hshown : t.shown host session = t'.shown host session)
    (hsettled : (t'.run host session).1.2.awaitsApproval = false) :
    Concurs host session t t' := by
  have hfilter : ∀ {β : Type} (f : Effect → Option β),
      (∀ effect : Effect, effect.isTacit → f effect = none) →
        (t.effects host session).filterMap f = (t'.effects host session).filterMap f := by
    intro β f hf
    rw [← Activity.filterMap_shown hf t, ← Activity.filterMap_shown hf t', hshown]
  refine ⟨by rw [hresult], by rw [hresult], hfilter _ ?_, hfilter _ ?_, hfilter _ ?_,
    by rw [hresult]; exact hsettled⟩
  · intro effect htacit
    cases effect <;> first | rfl | simp [Effect.isTacit] at htacit
  · intro effect htacit
    cases effect <;> first | rfl | simp [Effect.isTacit] at htacit
  · intro effect htacit
    cases effect with
    | emit event =>
      have happroval : event.isApproval = true := htacit
      simp [Effect.news?, Effect.event?, happroval]
    | _ => rfl

/-- Two flows that differ only in which model nodes require approval come to the same under a host
that answers by what is in view and does not cancel the run, if approval is given whenever it is
asked for. A flow that requires no approval needs none. -/
theorem transparent_of_compile {definition definition' : Definition} {flow flow' : Flow}
    (hsame : definition.ungated = definition'.ungated)
    (hflow : Flow.compile definition = .ok flow) (hflow' : Flow.compile definition' = .ok flow')
    (setting : Setting) (host : Host σ) {view : σ → ω} (hhost : host.AnswersBy view)
    (hnever : host.NeverCancels) (world : σ) (params inputs : List (String × Value))
    (commands : List Command) (hcalm : ∀ command ∈ commands, command.isCalm) :
    let runner : Runner := ⟨flow, setting⟩
    let runner' : Runner := ⟨flow', setting⟩
    ∃ n, ∀ m, n ≤ m →
      (∀ m', n ≤ m' → Concurs host ⟨world, false, []⟩ (runner.driven params inputs m commands)
        (runner'.driven params inputs m' commands)) ∧
      ((∀ node ∈ flow'.nodes, ¬ node.requiresApproval) → Concurs host ⟨world, false, []⟩
        (runner.driven params inputs m commands) (runner'.plain params inputs commands)) := by
  intro runner runner'
  -- Both are compared with the flow without any flags.
  have hplain : runner.ungated = runner'.ungated :=
    congrArg (Runner.mk · setting) (Flow.ungated_eq_of_compile hsame hflow hflow')
  have hs : Session.Agrees view (⟨world, false, []⟩ : Session σ) ⟨world, false, []⟩ :=
    ⟨rfl, rfl, rfl⟩
  have hsound : runner.flow.Sound := Flow.sound_of_compile hflow
  have hsound' : runner'.flow.Sound := Flow.sound_of_compile hflow'
  obtain ⟨hsettled, n, hn⟩ := exists_matches_driven hsound hhost hnever hs params inputs hcalm
  obtain ⟨-, n', hn'⟩ := exists_matches_driven hsound' hhost hnever hs params inputs hcalm
  refine ⟨max n n', fun m hm => ⟨fun m' hm' => ?_, fun hnone => ?_⟩⟩
  · have hleft := hn m (by omega)
    have hright := hn' m' (by omega)
    rw [← hplain] at hright
    refine concurs_of_shown (hleft.result.trans hright.result.symm)
      (hleft.shown.trans hright.shown.symm) ?_
    rw [hright.result]
    exact hsettled
  · have hungated : runner'.ungated = runner' := by
      refine congrArg (Runner.mk · setting) (congrArg (Flow.mk flow'.description · flow'.table) ?_)
      exact (List.map_congr_left fun node hmem =>
        Node.ungated_of_not_requiresApproval (hnone node hmem)).trans (List.map_id' _)
    rw [← hungated, ← hplain]
    have hleft := hn m (by omega)
    exact concurs_of_shown hleft.result hleft.shown hsettled

end Runner

/-- The sample stops for approval, and driven with approvals comes to the same as without the
flag. -/
theorem Sample.transparent_approval :
    let gated : Runner := ⟨flow, setting⟩
    let ungated : Runner := ⟨flow.ungated, setting⟩
    ((gated.plain [] [] [.advance]).run host ⟨(), false, []⟩).1.2.awaitsApproval = true ∧
      ∃ n, ∀ m, n ≤ m → Runner.Concurs host ⟨(), false, []⟩
        (gated.driven [] [] m [.advance]) (ungated.plain [] [] [.advance]) := by
  intro gated ungated
  have hstops : ((gated.plain [] [] [.advance]).run host ⟨(), false, []⟩).1.2.awaitsApproval =
      true := by decide +kernel
  have hsame : definition.ungated = definition.ungated.ungated := rfl
  have hcompile : Flow.compile definition = .ok flow := rfl
  have hcompile' : Flow.compile definition.ungated = .ok flow.ungated := rfl
  have hhost : host.AnswersBy id :=
    ⟨fun _ _ _ _ => ⟨rfl, rfl⟩, fun _ _ _ _ => ⟨rfl, rfl⟩, fun _ _ _ _ _ => ⟨rfl, rfl⟩,
      fun _ _ _ _ => ⟨rfl, rfl⟩, fun _ => rfl⟩
  have hnever : host.NeverCancels :=
    ⟨fun _ _ => ⟨rfl, by simp [host]⟩, fun _ _ => rfl, fun _ _ _ => rfl, fun _ _ => rfl⟩
  obtain ⟨n, hn⟩ := Runner.transparent_of_compile hsame hcompile hcompile' setting host hhost
    hnever () [] [] [.advance] (by decide)
  refine ⟨hstops, n, fun m hm => (hn m hm).2 ?_⟩
  decide

end AgentFlow
