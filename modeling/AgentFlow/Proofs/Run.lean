import AgentFlow.Proofs.Execution
import AgentFlow.Run.Command

/-!
# Runs stay sound

Where a run of a compiled flow can stand: behind the start or a node of the flow, in a node of the
flow that waits for a value, or in a model node at a checkpoint that was left as it should be
(`Cursor.Sound`). One lemma for each function of the runner says that it leaves a run so, with a
status that reports no breach of the contract; `keeps_leave` takes the run from node to node by
induction on the executions left, and `keeps_carryOut` sums up what a command can do.

`Runner.after` is the run that a list of commands leads to. Its cursor is sound whatever the host
does (`Runner.sound_after`), so that a statement about the next command is a statement about every
command of a run.
-/

namespace AgentFlow

variable {c : Contract} {runner : Runner} {run : Run} {node : Node}

/-- A compiled flow under a contract that allows what its nodes may do without approval. -/
structure Runner.Ready (runner : Runner) (c : Contract) : Prop where
  flow : runner.flow.Sound
  admits : ∀ node ∈ runner.flow.nodes, c.Admits runner.setting node

/-- Where a run of the runner can stand. -/
def Cursor.Sound (runner : Runner) : Cursor → Prop
  | .leaving source => source = startName ∨ ∃ node, runner.flow.node? source = some node
  | .suspended name (.input _) => ∃ node, runner.flow.node? name = some node
  | .suspended name (.approval _ request checkpoint) =>
    ∃ node, runner.flow.node? name = some node ∧ node.WaitsFor runner.setting request checkpoint
  | .closed => True

/-- A run is suspended in a node of its flow. -/
theorem Cursor.Sound.exists_node {name : String} {pending : Pending}
    (h : (Cursor.suspended name pending).Sound runner) :
    ∃ node, runner.flow.node? name = some node := by
  cases pending with
  | input request => exact h
  | approval id request checkpoint => exact h.imp fun node hnode => hnode.1

/-- A run that waits for approval shows the call that it awaits, which the gate does not let
pass. -/
theorem Cursor.Sound.exists_call (h : run.cursor.Sound runner) {name id : String}
    {request : ApprovalRequest} {checkpoint : Checkpoint}
    (hcursor : run.cursor = .suspended name (.approval id request checkpoint)) :
    ∃ node step call, runner.flow.node? name = some node ∧ node.kind = .model step ∧
      checkpoint.awaiting = some call ∧
      step.gate runner.setting.config.approval call = .ask ∧
      request = ⟨name, call.name, call.input⟩ := by
  rw [hcursor] at h
  obtain ⟨node, hnode, step, _, _, hkind, -, call, hawaiting, hgate, rfl, -⟩ := h
  obtain ⟨-, rfl⟩ := Flow.mem_of_node? hnode
  exact ⟨node, step, call, hnode, hkind, hawaiting, hgate, rfl⟩

/-- A status that does not report a breach of the contract. -/
def Status.Sound (c : Contract) : Status → Prop
  | .failed failure => c.fault failure.error
  | _ => True

/-- How a run is left: with a status that is no breach, and standing where it can. -/
def Runner.Leaves (runner : Runner) (c : Contract) (left : Status × Run) : Prop :=
  left.1.Sound c ∧ left.2.cursor.Sound runner

/-! ## Ends of a run -/

namespace Run

/-- A run that fails, with an error that is no breach, is left as it should be. -/
theorem keeps_fail (place : Option String) {error : Error} (h : c.fault error) :
    (run.fail place error).Keeps c (runner.Leaves c) := by
  unfold fail
  simp only [Activity.keeps_bind, Activity.keeps_emit, Activity.keeps_pure]
  exact ⟨trivial, h, trivial⟩

/-- A run that is completed is left as it should be. -/
theorem keeps_finish : run.finish.Keeps c (runner.Leaves c) := by
  unfold finish
  simp only [Activity.keeps_bind, Activity.keeps_emit, Activity.keeps_pure]
  exact ⟨trivial, trivial, trivial⟩

/-- A run that is suspended where it can be is left as it should be. -/
theorem keeps_suspend (name : String) {pending : Pending}
    (h : (Cursor.suspended name pending).Sound runner) :
    (run.suspend name pending).Keeps c (runner.Leaves c) := by
  unfold suspend
  cases pending <;> simp only [Activity.keeps_bind, Activity.keeps_emit, Activity.keeps_pure] <;>
    exact ⟨trivial, trivial, h⟩

end Run

/-! ## One node -/

/-- How a run stands after the execution of a node. -/
def Settled.Sound (runner : Runner) (c : Contract) (node : Node) : Settled → Prop
  | .goesOn run => run.cursor = .leaving node.name
  | .stops status run => runner.Leaves c (status, run)

namespace Node

/-- Writing a result tells the observers and leaves the run behind the node. -/
theorem keeps_commit (result : NodeResult) :
    (node.commit run result).Keeps c fun run => run.cursor = .leaving node.name := by
  have hfields : ∀ fields, (node.showFields fields).Keeps c fun _ => True := by
    intro fields
    induction fields with
    | nil => trivial
    | cons field rest ih =>
      obtain ⟨name, value⟩ := field
      unfold showFields
      split
      · simp only [Activity.keeps_bind, Activity.keeps_emit]
        exact ⟨trivial, ih⟩
      · exact ih
  have hlines : ∀ lines, (node.showLines lines).Keeps c fun _ => True := by
    intro lines
    induction lines with
    | nil => trivial
    | cons line rest ih =>
      unfold showLines
      simp only [Activity.keeps_bind, Activity.keeps_emit]
      exact ⟨trivial, ih⟩
  unfold commit
  simp only [Activity.keeps_bind, Activity.keeps_emit, Activity.keeps_pure]
  exact (hfields _).mono fun _ _ => (hlines _).mono fun _ _ => ⟨trivial, trivial⟩

/-- Applying what came of the execution of a node leaves the run sound. -/
theorem keeps_settle (hnode : runner.flow.node? node.name = some node)
    {result : Except Error StepEnd}
    (hresult : c.accepts (StepEnd.Sound runner.setting node) result) :
    (node.settle run result).Keeps c (Settled.Sound runner c node) := by
  unfold settle
  rcases result with error | stepEnd
  · simp only [Activity.keeps_map]
    exact Run.keeps_fail _ hresult
  -- What came of the node counts unless the run was cancelled meanwhile.
  simp only [Activity.keeps_bind, Activity.keeps_poll]
  rintro (_ | _)
  · rcases stepEnd with result | request | ⟨request, checkpoint⟩
    · simp only [Bool.false_eq_true, if_false, Activity.keeps_map]
      exact keeps_commit result
    · simp only [Bool.false_eq_true, if_false, Activity.keeps_map]
      exact Run.keeps_suspend _ ⟨node, hnode⟩
    · simp only [Bool.false_eq_true, if_false, Activity.keeps_bind, Activity.keeps_freshId,
        Activity.keeps_map]
      exact fun id => Run.keeps_suspend _ ⟨node, hnode, hresult⟩
  · simp only [if_true, Activity.keeps_map]
    exact Run.keeps_fail _ (c.fault_of_not_structural id)

end Node

namespace Runner

variable (hready : runner.Ready c)
include hready

/-- Executing a node leaves the run sound. -/
theorem keeps_enter {name : String} (hnode : runner.flow.node? name = some node) :
    (node.enter runner.setting run).Keeps c (Settled.Sound runner c node) := by
  obtain ⟨hmem, rfl⟩ := Flow.mem_of_node? hnode
  unfold Node.enter
  have hcount := (node.ordinary_countExecution run.state).notStructural
  cases hstate : node.countExecution run.state with
  | error error => exact Node.keeps_settle hnode (c.fault_of_not_structural (hcount error hstate))
  | ok state =>
    simp only [Activity.keeps_bind, Activity.keeps_emit]
    refine ⟨trivial, ?_⟩
    exact Activity.Keeps.mono
      (Node.keeps_execute (hready.admits node hmem) (hready.flow.nodes node hmem) _ _)
      fun result hresult => Node.keeps_settle hnode hresult

/-! ## The whole run -/

/-- A route leads to the end or to a node. -/
theorem target_of_selectRoute {source target : String} {vars : Lookup}
    (h : runner.flow.selectRoute source vars = .ok target) :
    target = endName ∨ ∃ node, runner.flow.node? target = some node := by
  have hroute : ∀ (tried : List String) (routes : List Route),
      Flow.firstTarget source vars tried routes = .ok target →
        ∃ route ∈ routes, route.target = target := by
    intro tried routes
    induction routes generalizing tried with
    | nil => nofun
    | cons route rest ih =>
      intro hfirst
      cases route with
      | always next =>
        obtain rfl : next = target := by simpa [Flow.firstTarget] using hfirst
        exact ⟨_, List.mem_cons_self, rfl⟩
      | «when» condition next =>
        rw [Flow.firstTarget] at hfirst
        split at hfirst
        · simp at hfirst
        · obtain rfl : next = target := by simpa using hfirst
          exact ⟨_, List.mem_cons_self, rfl⟩
        · obtain ⟨route, hmem, htarget⟩ := ih _ hfirst
          exact ⟨route, List.mem_cons_of_mem _ hmem, htarget⟩
  exact (hready.flow.targets source target (hroute [] _ h)).imp_right Flow.exists_node?

/-- Choosing the next node fails neither structurally nor with a name of no node. -/
theorem keeps_leaveBy (source : String) {enter : String → Node → Activity (Status × Run)}
    (henter : ∀ name node, runner.flow.node? name = some node →
      (enter name node).Keeps c (runner.Leaves c)) :
    (runner.leaveBy run source enter).Keeps c (runner.Leaves c) := by
  unfold leaveBy
  simp only [Activity.keeps_bind, Activity.keeps_poll]
  rintro (_ | _)
  · simp only [Bool.false_eq_true, if_false]
    cases hroute : runner.flow.selectRoute source run.state.get? with
    | error error =>
      refine Run.keeps_fail _ (c.fault_of_not_structural ?_)
      exact (Flow.ordinary_firstTarget source run.state.get? [] _).notStructural error hroute
    | ok target =>
      dsimp only
      split_ifs with hend
      · exact Run.keeps_finish
      -- A target that is not the end is a node, so that the lookup does not fail.
      obtain ⟨node, hnode⟩ := (target_of_selectRoute hready hroute).resolve_left hend
      rw [hnode]
      exact henter target node hnode
  · exact Run.keeps_fail _ (c.fault_of_not_structural id)

/-- Going on behind a node leaves the run sound, wherever it stops. -/
theorem keeps_leave (source : String) (left : Nat) :
    (runner.leave run source left).Keeps c (runner.Leaves c) := by
  induction left generalizing run source with
  | zero =>
    rw [leave]
    exact keeps_leaveBy hready source fun name node _ =>
      Run.keeps_fail _ (c.fault_of_not_structural id)
  | succ left ih =>
    rw [leave]
    refine keeps_leaveBy hready source fun name node hnode => ?_
    simp only [Activity.keeps_bind]
    refine (keeps_enter hready hnode).mono fun settled hsettled => ?_
    cases settled with
    | goesOn run => exact ih _
    | stops status run => exact hsettled

/-- Taking a run on leaves it sound. -/
theorem keeps_advance (h : run.cursor.Sound runner) :
    (runner.advance run).Keeps c (runner.Leaves c) := by
  unfold advance
  cases hcursor : run.cursor with
  | leaving source => exact keeps_leave hready source _
  | suspended name pending =>
    simp only [Activity.keeps_bind, Activity.keeps_poll]
    rintro (_ | _)
    · exact ⟨trivial, h⟩
    · exact Run.keeps_fail _ (c.fault_of_not_structural id)
  | closed => exact ⟨c.fault_of_not_structural id, h⟩

/-- Going on after the execution of a node leaves the run sound. -/
theorem keeps_goOn (hnode : runner.flow.node? node.name = some node) {settled : Settled}
    (h : settled.Sound runner c node) : (runner.goOn settled).Keeps c (runner.Leaves c) := by
  cases settled with
  | goesOn run =>
    refine keeps_advance hready ?_
    have hcursor : run.cursor = .leaving node.name := h
    rw [hcursor]
    exact .inr ⟨node, hnode⟩
  | stops status run => exact h

/-- Going on with a conversation after the caller's decision: of the calls that the gate does not
let pass, only the approved one is started. -/
theorem keeps_decided (hmem : node ∈ runner.flow.nodes) {request : ApprovalRequest}
    {checkpoint : Checkpoint} (h : node.WaitsFor runner.setting request checkpoint)
    (decision : Decision)
    (happroved : decision = .approved → c.call request.node request.tool request.input) :
    (runner.decided node checkpoint decision).Keeps c (StepEnd.Sound runner.setting node) := by
  obtain ⟨step, vars, prompt, hkind, hprompt, hsound⟩ := h
  have hadmits := hready.admits node hmem
  unfold decided
  rw [hkind]
  simp only [Work.keeps_map]
  refine (ModelStep.keeps_resume hsound decision (hadmits.passes step hkind)
    (hadmits.hears step hkind vars prompt hprompt) happroved).mono fun outcome houtcome => ?_
  exact StepEnd.sound_ofModel hkind hprompt houtcome

/-- What may come of an answer: a status as of any run, or a refusal that is no breach. -/
def Answers (runner : Runner) (c : Contract) (left : Except Error Status × Run) : Prop :=
  c.accepts (Status.Sound c) left.1 ∧ left.2.cursor.Sound runner

/-- What comes of the execution of a node after an answer. -/
theorem keeps_answered (hnode : runner.flow.node? node.name = some node)
    {result : Except Error StepEnd}
    (hresult : c.accepts (StepEnd.Sound runner.setting node) result) :
    (node.settle run result >>= fun settled => (fun left : Status × Run => (.ok left.1, left.2)) <$>
      runner.goOn settled).Keeps c (runner.Answers c) := by
  simp only [Activity.keeps_bind, Activity.keeps_map]
  exact (Node.keeps_settle hnode hresult).mono fun settled hsettled =>
    keeps_goOn hready hnode hsettled

/-- Answering a suspension leaves the run sound. Of the calls that the gate does not let pass, only
the approved one is started. -/
theorem keeps_resume (h : run.cursor.Sound runner) (answer : Resume)
    (happroved : ∀ name id request checkpoint,
      run.cursor = .suspended name (.approval id request checkpoint) →
        answer = .approval .approved → c.call request.node request.tool request.input) :
    (runner.resume run answer).Keeps c (runner.Answers c) := by
  have hcursor := h
  unfold resume
  rcases hplace : run.cursor with source | ⟨name, pending⟩ | _
  · exact ⟨c.fault_of_not_structural id, h⟩
  · rw [hplace] at hcursor
    obtain ⟨node, hnode⟩ := hcursor.exists_node
    obtain ⟨hmem, rfl⟩ := Flow.mem_of_node? hnode
    simp only [Activity.keeps_bind, Activity.keeps_poll]
    rintro (_ | _)
    · simp only [Bool.false_eq_true, if_false, hnode]
      -- An answer of the wrong kind is refused, and the run waits on.
      have hmismatch : ∀ suspension : Suspension,
          (pure (.error (mismatch suspension node.name answer), run) :
            Activity (Except Error Status × Run)).Keeps c (runner.Answers c) := fun suspension =>
        ⟨c.fault_of_not_structural (by cases answer <;> exact id), h⟩
      rcases pending with request | ⟨id, request, checkpoint⟩ <;>
        rcases answer with value | decision
      · dsimp only
        cases haccept : node.acceptInput request value with
        | error error =>
          exact ⟨c.fault_of_not_structural (node.notStructural_acceptInput _ _ _ haccept), h⟩
        | ok result => exact keeps_answered hready hnode trivial
      · exact hmismatch _
      · exact hmismatch _
      · -- The node that is found is the one that waits.
        obtain ⟨waiting, hwaiting, hwaits⟩ := hcursor
        obtain rfl : node = waiting := Option.some.inj (hnode.symm.trans hwaiting)
        simp only [Activity.keeps_bind, Activity.keeps_emit]
        refine ⟨trivial, ?_⟩
        refine Activity.Keeps.mono (keeps_decided hready hmem hwaits decision fun hdecision =>
          happroved _ id request checkpoint hplace (congrArg Resume.approval hdecision)) ?_
        intro result hresult
        exact (Activity.keeps_bind _ _ _).1 (keeps_answered hready hnode hresult)
    · exact (Activity.keeps_map _ _ _).2 (Run.keeps_fail _ (c.fault_of_not_structural id))
  · exact ⟨c.fault_of_not_structural id, h⟩

omit hready in
/-- Cancelling a run leaves it sound. -/
theorem keeps_cancel (h : run.cursor.Sound runner) :
    (runner.cancel run).Keeps c (runner.Leaves c) := by
  unfold cancel
  simp only [Activity.keeps_bind, Activity.keeps_cancel]
  intro _
  cases hplace : run.node? with
  | none => exact ⟨c.fault_of_not_structural id, h⟩
  | some name => exact Run.keeps_fail _ (c.fault_of_not_structural id)

/-! ## Commands -/

/-- What may come of a command: nothing to tell, or what may come of an answer. -/
def Carried (runner : Runner) (c : Contract) (left : Option (Except Error Status) × Run) : Prop :=
  (∀ result, left.1 = some result → c.accepts (Status.Sound c) result) ∧
    left.2.cursor.Sound runner

/-- Carrying out a command leaves the run sound. Of the calls that the gate does not let pass, only
the approved one is started. -/
theorem keeps_carryOut (h : run.cursor.Sound runner) (command : Command)
    (happroved : ∀ name id request checkpoint,
      run.cursor = .suspended name (.approval id request checkpoint) →
        command = .resume (.approval .approved) →
          c.call request.node request.tool request.input) :
    (runner.carryOut run command).Keeps c (runner.Carried c) := by
  have hreported : ∀ left : Status × Run, runner.Leaves c left →
      runner.Carried c (reported left) := fun left hleft =>
    ⟨fun result hresult => Option.some.inj hresult ▸ hleft.1, hleft.2⟩
  unfold carryOut
  cases command with
  | provideInput node value => exact ⟨fun _ hresult => absurd hresult (by simp), h⟩
  | advance =>
    simp only [Activity.keeps_map]
    exact (keeps_advance hready h).mono hreported
  | resume answer =>
    simp only [Activity.keeps_bind]
    refine (keeps_resume hready h answer fun name id request checkpoint hcursor hanswer =>
      happroved name id request checkpoint hcursor (congrArg Command.resume hanswer)).mono ?_
    rintro ⟨result, run⟩ ⟨hresult, hcursor⟩
    exact ⟨fun _ hr => Option.some.inj hr ▸ hresult, hcursor⟩
  | cancel =>
    simp only [Activity.keeps_map]
    exact (keeps_cancel h).mono hreported
  | signalCancel =>
    simp only [Activity.keeps_bind, Activity.keeps_cancel]
    exact fun _ => ⟨fun _ hresult => absurd hresult (by simp), h⟩

omit hready

/-- The contract that allows everything. -/
def anything : Contract where
  call _ _ _ := True
  request _ := True
  reply _ := True

/-- A compiled flow is ready under the contract that allows everything. -/
theorem ready_anything (h : runner.flow.Sound) : runner.Ready anything :=
  ⟨h, fun _ _ => ⟨fun _ _ _ _ => trivial, fun _ _ _ _ _ _ _ => trivial, fun _ _ _ => trivial⟩⟩

/-- Carrying out commands in order leaves the run sound. -/
theorem keeps_carryOutAll (hflow : runner.flow.Sound) :
    ∀ (commands : List Command) (run : Run), run.cursor.Sound runner →
      (runner.carryOutAll run commands).Keeps anything fun left => left.2.cursor.Sound runner
  | [], _, h => h
  | command :: rest, run, h => by
    rw [carryOutAll]
    simp only [Activity.keeps_bind]
    refine (keeps_carryOut (ready_anything hflow) h command fun _ _ _ _ _ _ => trivial).mono ?_
    rintro ⟨result, run⟩ ⟨-, hcursor⟩
    exact (keeps_carryOutAll hflow rest run hcursor).mono fun _ hleft => hleft

variable {σ : Type}

/-- The run that a list of commands leads to, in its session. -/
def after (runner : Runner) (host : Host σ) (world : σ) (params inputs : List (String × Value))
    (commands : List Command) : Run × Session σ :=
  let (run, session) := (runner.start params inputs).run host ⟨world, false, []⟩
  let ((_, run), session) := (runner.carryOutAll run commands).run host session
  (run, session)

/-- What holds of a run when it starts, and goes over to what every command leaves, holds of the run
that a list of commands leads to. -/
theorem forall_after {host : Host σ} {P : Run → Prop}
    (hcommand : ∀ run session command, P run →
      P ((runner.carryOut run command).run host session).1.2)
    (world : σ) (params inputs : List (String × Value))
    (hstart : P ((Run.ofParams params).withInputs inputs)) (commands : List Command) :
    P (runner.after host world params inputs commands).1 := by
  have hall : ∀ (commands : List Command) (run : Run) (session : Session σ), P run →
      P ((runner.carryOutAll run commands).run host session).1.2 := by
    intro commands
    induction commands with
    | nil => exact fun _ _ h => h
    | cons command rest ih =>
      intro run session h
      rw [carryOutAll]
      simp only [Activity.run_then, Activity.run_pure]
      exact ih _ _ (hcommand run session command h)
  exact hall commands _ _ hstart

/-- Whatever is done to a run of a compiled flow, it stands where it can. -/
theorem sound_after (hflow : runner.flow.Sound) (host : Host σ) (world : σ)
    (params inputs : List (String × Value)) (commands : List Command) :
    (runner.after host world params inputs commands).1.cursor.Sound runner := by
  have hstart : ((Run.ofParams params).withInputs inputs).cursor.Sound runner := Or.inl rfl
  exact (Activity.Keeps.run (fun _ _ => trivial)
    (keeps_carryOutAll hflow commands _ hstart) _).1

end Runner

namespace Runner

/-- The contract of asking the model with dialogues on the prompts of the flow's nodes. -/
def speaking (runner : Runner) : Contract where
  call _ _ _ := True
  request request := ∃ node ∈ runner.flow.nodes, ∃ step vars prompt, node.kind = .model step ∧
    step.rendered node vars = .ok prompt ∧ Dialogue prompt request.messages
  reply _ := True

/-- Whatever is done to a run of a compiled flow, the model is asked with dialogues only, each of
which starts with the prompt of a node of the flow. -/
theorem exists_dialogue_of_ask (hflow : runner.flow.Sound) (hsound : run.cursor.Sound runner)
    {σ : Type} (host : Host σ) (session : Session σ) (command : Command) {request : ModelRequest}
    (hask : .ask request ∈ (runner.carryOut run command).effects host session) :
    ∃ node ∈ runner.flow.nodes, ∃ step vars prompt, node.kind = .model step ∧
      step.rendered node vars = .ok prompt ∧ Dialogue prompt request.messages := by
  have hready : runner.Ready runner.speaking := by
    refine ⟨hflow, fun node hmem => ⟨fun _ _ _ _ => trivial, ?_, fun _ _ _ => trivial⟩⟩
    intro step hkind vars prompt hprompt request hdialogue
    exact ⟨node, hmem, step, vars, prompt, hkind, hprompt, hdialogue⟩
  have hkeeps := keeps_carryOut hready hsound command fun _ _ _ _ _ _ => trivial
  exact (hkeeps.run (fun _ _ => trivial) session).2 _ hask

end Runner

/-! ## A sample -/

namespace Sample

/-- The flow of one node whose calls need approval. -/
def definition : Definition where
  nodes := [Sample.node]
  edges := [.always startName "n", .always "n" endName]

/-- What the definition is compiled to. -/
def flow : Flow := ⟨"", [Sample.node], [("START", [.always "n"]), ("n", [.always endName])]⟩

end Sample

end AgentFlow
