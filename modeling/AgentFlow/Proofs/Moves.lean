import AgentFlow.Proofs.Course
import AgentFlow.Proofs.Footprint

/-!
# What a stride does

A stride leaves a run alone, ends it, executes the node that comes next, or goes on with the node
that waits. `Runner.Moves` says what each of them does to the run and what the observers are told,
and `Runner.moves_next` that there is nothing else, whatever the host replies. Statements about
whole runs are shown by induction on the strides (`Leads.induct`), with a case for each kind of move
and no look at the runner's code.

What is told of a node that is executed falls into three parts: its start, its own work, which
tells of nothing else (`Node.Works`), and how it was left (`Node.Leaves`).
-/

namespace AgentFlow

section

variable {σ : Type} {host : Host σ} {runner : Runner} {node : Node} {run : Run}

/-! ## Events -/

namespace Event

/-- Whether an event tells that a node was started. -/
def isStart : Event → Bool
  | nodeStarted _ => true
  | _ => false

/-- Whether an event tells that a node was started or completed. -/
def isMark : Event → Bool
  | nodeStarted _ | nodeCompleted _ => true
  | _ => false

/-- Whether an event tells that the run has ended. -/
def isEnding : Event → Bool
  | runCompleted _ | runFailed _ => true
  | _ => false

/-- Whether an event tells what a node wrote, or of a question to the caller and its answer. -/
def isNews : Event → Bool
  | userMessage _ _ _ | output _ _ | inputRequested _ _ _ | approvalRequested _ _
  | approvalResolved _ _ => true
  | _ => false

end Event

/-! ## Nodes -/

/-- A merge leaves alone what it has no value for. -/
theorem Store.get?_merge_of_notMem {store : Store} {values : List (String × Value)} {key : String}
    (h : key ∉ values.map Prod.fst) : (store.merge values).get? key = store.get? key := by
  rw [get?_merge, List.lookup_eq_none_iff.2, Option.none_or]
  refine fun entry hentry => bne_iff_ne.2 ?_
  rintro rfl
  exact h (List.mem_map_of_mem (List.mem_reverse.1 hentry))

/-- A node that can wait for what is pending. -/
def Node.AsksFor (node : Node) : Pending → Prop
  | .input _ => node.AsksInput
  | .approval _ _ _ => node.AsksApproval

/-- What is told of the work within a node, in which all calls are ended unless the run is
cancelled. -/
structure Node.Works (node : Node) (inner : List Event) (cancelled : Bool) : Prop where
  within : ∀ event ∈ inner, event.IsWithin node.name
  balanced : cancelled = false → ∀ tool, Balanced node.name tool inner

/-- How a run is left by a node that was executed, and what is told of it. -/
inductive Node.Leaves (node : Node) (run : Run) : List Event → Run → Prop where
  | fails (error : Error) :
    node.Leaves run [.runFailed error] { run with cursor := .closed, state := .empty }
  | completes {news : List Event} {result : NodeResult} (hnews : ∀ event ∈ news, event.isNews)
    (hyields : node.Yields run.state result) :
    node.Leaves run (news ++ [.nodeCompleted node.name]) { run with
      cursor := .leaving node.name
      state := run.state.merge result.fields
      transcript := run.transcript ++ result.lines }
  | suspends {question : Event} {pending : Pending} (hquestion : question.isNews)
    (hasks : node.AsksFor pending) :
    node.Leaves run [question] { run with cursor := .suspended node.name pending }

namespace Node.Leaves

variable {run' : Run} {told : List Event}

/-- Leaving a node takes no step. -/
theorem steps (h : node.Leaves run told run') : run'.steps = run.steps := by
  cases h <;> rfl

/-- A run that is still open has the state of before, but for what the node writes. -/
theorem get?_of_notMem (h : node.Leaves run told run') (hopen : run'.cursor ≠ .closed)
    {key : String} (hkey : key ∉ node.writes) : run'.state.get? key = run.state.get? key := by
  cases h with
  | fails error => exact absurd rfl hopen
  | completes _ hyields => exact Store.get?_merge_of_notMem (hyields.names ▸ hkey)
  | suspends _ _ => rfl

end Node.Leaves

namespace Node

/-- The fields of a node are news. -/
theorem exists_run_showFields (host : Host σ) (node : Node) (fields : List (String × Value))
    (session : Session σ) : ∃ news, (node.showFields fields).run host session =
      ((), { session with log := session.log ++ news }) ∧ ∀ event ∈ news, event.isNews := by
  induction fields generalizing session with
  | nil => exact ⟨[], by simp [showFields], nofun⟩
  | cons field rest ih =>
    obtain ⟨name, value⟩ := field
    unfold showFields
    by_cases hshown : (node.field? name).any (·.userMessage)
    · obtain ⟨news, hrun, hnews⟩ := ih { session with
        log := session.log ++ [.userMessage node.name name value] }
      refine ⟨.userMessage node.name name value :: news, ?_, ?_⟩
      · simp [hshown, hrun]
      · exact List.forall_mem_cons.2 ⟨rfl, hnews⟩
    · obtain ⟨news, hrun, hnews⟩ := ih session
      exact ⟨news, by simp [hshown, hrun], hnews⟩

/-- The lines of a node are news. -/
theorem exists_run_showLines (host : Host σ) (node : Node) (lines : List String)
    (session : Session σ) : ∃ news, (node.showLines lines).run host session =
      ((), { session with log := session.log ++ news }) ∧ ∀ event ∈ news, event.isNews := by
  induction lines generalizing session with
  | nil => exact ⟨[], by simp [showLines], nofun⟩
  | cons line rest ih =>
    obtain ⟨news, hrun, hnews⟩ := ih { session with
      log := session.log ++ [.output node.name line] }
    refine ⟨.output node.name line :: news, ?_, List.forall_mem_cons.2 ⟨rfl, hnews⟩⟩
    unfold showLines
    simp [hrun]

/-- A result that is written leaves the run behind the node. -/
theorem leaves_commit (host : Host σ) {result : NodeResult}
    (hyields : node.Yields run.state result) (session : Session σ) :
    ∃ left told, (node.commit run result).run host session =
      (left, { session with log := session.log ++ told }) ∧ node.Leaves run told left := by
  obtain ⟨fieldNews, hfields, hfieldNews⟩ :=
    exists_run_showFields host node result.fields session
  obtain ⟨lineNews, hlines, hlineNews⟩ := exists_run_showLines host node result.lines
    { session with log := session.log ++ fieldNews }
  refine ⟨_, fieldNews ++ lineNews ++ [.nodeCompleted node.name], ?_, .completes ?_ hyields⟩
  · unfold commit
    simp [hfields, hlines]
  · rintro event hevent
    exact (List.mem_append.1 hevent).elim (hfieldNews event) (hlineNews event)

/-- Whatever came of the execution of a node, it is applied to the run in one of the ways in which
a run can be left. -/
theorem leaves_settle (host : Host σ) (run : Run) {result : Except Error StepEnd}
    (hfits : Work.Holds (StepEnd.Fits node run.state) result) (session : Session σ) :
    ∃ settled session' told, (node.settle run result).run host session = (settled, session') ∧
      session'.log = session.log ++ told ∧ session'.cancelled = session.cancelled ∧
        node.Leaves run told settled.run := by
  unfold settle
  cases result with
  | error error => exact ⟨_, _, _, rfl, rfl, rfl, .fails error⟩
  | ok stepEnd =>
    simp only [Activity.run_then, Activity.run_poll]
    by_cases hcancelled : session.cancelled
    · simp only [hcancelled, if_true]
      exact ⟨_, _, _, rfl, rfl, hcancelled, .fails .cancelled⟩
    · simp only [hcancelled, Bool.false_eq_true, if_false]
      cases stepEnd with
      | complete result =>
        obtain ⟨left, told, hrun, hleaves⟩ := leaves_commit host hfits session
        refine ⟨.goesOn left, { session with log := session.log ++ told }, told, ?_, rfl, ?_,
          hleaves⟩
        · rw [Activity.run_map, hrun]
        · simpa using hcancelled
      | awaitInput request =>
        exact ⟨_, _, _, rfl, rfl, by simpa using hcancelled, .suspends rfl hfits⟩
      | awaitApproval request checkpoint =>
        exact ⟨_, _, _, rfl, rfl, by simpa using hcancelled, .suspends rfl hfits⟩

/-- Work on behalf of a node, and what comes of it. -/
theorem leaves_work (host : Host σ) (run : Run) {work : Work StepEnd}
    (hserves : work.Serves node.name (StepEnd.Fits node run.state)) (session : Session σ) :
    ∃ settled session' inner told,
      (work.activity >>= node.settle run).run host session = (settled, session') ∧
        session'.log = session.log ++ (inner ++ told) ∧ node.Works inner session'.cancelled ∧
          node.Leaves run told settled.run := by
  obtain ⟨hfits, hwithin, hbalanced⟩ := hserves.run host session
  obtain ⟨settled, session', told, hrun, hlog, hcancelled, hleaves⟩ :=
    leaves_settle host run hfits (work.activity.run host session).2
  refine ⟨settled, session', work.activity.events host session, told, ?_, ?_, ⟨hwithin, ?_⟩,
    hleaves⟩
  · rw [Activity.run_then]
    exact hrun
  · rw [hlog, Activity.log_run, List.append_assoc]
  · rw [hcancelled]
    exact hbalanced

end Node

/-! ## Strides -/

/-- A run that is suspended waits in a node of its flow, for what the node can ask for. -/
def Cursor.Asks (runner : Runner) : Cursor → Prop
  | .suspended name pending => ∃ node, runner.flow.node? name = some node ∧ node.AsksFor pending
  | _ => True

namespace Runner

/-- What a stride does to a run, and what is told of it. -/
inductive Moves (runner : Runner) (point point' : Point σ) : Prop where
  /-- The run is left alone, but for the values that it is supplied with. -/
  | rests (hrun : point'.run = { point.run with inputs := point'.run.inputs })
    (hlog : point'.log = point.log)
  /-- The run ends with an error before a node is started. -/
  | fails {steps : Nat} (error : Error) (hopen : point.IsOpen)
    (hsteps : steps = point.run.steps ∨
      steps = point.run.steps + 1 ∧ point.run.steps < runner.budget)
    (hrun : point'.run = { point.run with cursor := .closed, state := .empty, steps })
    (hlog : point'.log = point.log ++ [.runFailed error])
  /-- The run has come to the end of the flow. -/
  | finishes {source : String} (hcursor : point.run.cursor = .leaving source)
    (hroute : runner.flow.selectRoute source point.run.state.get? = .ok endName)
    (hrun : point'.run =
      { point.run with cursor := .closed, state := .empty, transcript := [] })
    (hlog : point'.log = point.log ++ [.runCompleted point.run.steps])
  /-- The node that comes next is executed. -/
  | enters {source : String} {node : Node} {counted : Store} {inputs : List (String × Value)}
    {inner told : List Event} (hcursor : point.run.cursor = .leaving source)
    (hroute : runner.flow.selectRoute source point.run.state.get? = .ok node.name)
    (hnode : runner.flow.node? node.name = some node)
    (hbudget : point.run.steps < runner.budget)
    (hcount : node.countExecution point.run.state = .ok counted)
    (hworks : node.Works inner point'.session.cancelled)
    (hleaves : node.Leaves
      { point.run with steps := point.run.steps + 1, state := counted, inputs } told point'.run)
    (hlog : point'.log = point.log ++ .nodeStarted node.name :: (inner ++ told))
  /-- The node that waits goes on. -/
  | resumes {node : Node} {pending : Pending} {opening inner told : List Event}
    (hcursor : point.run.cursor = .suspended node.name pending)
    (hnode : runner.flow.node? node.name = some node) (hopening : ∀ event ∈ opening, event.isNews)
    (hworks : node.Works inner point'.session.cancelled)
    (hleaves : node.Leaves point.run told point'.run)
    (hlog : point'.log = point.log ++ (opening ++ inner ++ told))

variable {point : Point σ}

/-- To fail is a move of a run that is open. -/
theorem moves_fail {steps : Nat} {session : Session σ} (error : Error)
    (hopen : run.cursor ≠ .closed)
    (hsteps : steps = run.steps ∨ steps = run.steps + 1 ∧ run.steps < runner.budget) :
    runner.Moves (⟨run, session⟩ : Point σ)
      ⟨{ run with cursor := .closed, state := .empty, steps },
        { session with log := session.log ++ [.runFailed error] }⟩ :=
  .fails error hopen hsteps rfl rfl

/-- A node that is executed from its start. -/
theorem moves_enter (host : Host σ) {source : String} (session : Session σ)
    (hcursor : run.cursor = .leaving source)
    (hroute : runner.flow.selectRoute source run.state.get? = .ok node.name)
    (hnode : runner.flow.node? node.name = some node) (hbudget : run.steps < runner.budget) :
    ∃ settled session', (node.enter runner.setting { run with steps := run.steps + 1 }).run host
        session = (settled, session') ∧
      runner.Moves (⟨run, session⟩ : Point σ) ⟨settled.run, session'⟩ := by
  have hopen : run.cursor ≠ .closed := Run.ne_closed_of_leaving hcursor
  unfold Node.enter
  cases hcount : node.countExecution run.state with
  | error error => exact ⟨_, _, rfl, moves_fail error hopen (.inr ⟨rfl, hbudget⟩)⟩
  | ok counted =>
    dsimp only
    rw [Activity.run_then, Activity.run_emit]
    let inputs := if node.takesInput then Fields.erase node.name run.inputs else run.inputs
    obtain ⟨settled, session', inner, told, hrun, hlog, hworks, hleaves⟩ :=
      Node.leaves_work host { run with steps := run.steps + 1, state := counted, inputs }
        (node.serves_execute runner.setting counted
          (if node.takesInput then run.inputs.lookup node.name else none))
        { session with log := session.log ++ [.nodeStarted node.name] }
    refine ⟨settled, session', hrun, .enters hcursor hroute hnode hbudget hcount hworks hleaves ?_⟩
    exact hlog.trans (List.append_assoc _ _ _)

/-- A round of a run that is taken on. -/
theorem moves_round (runner : Runner) (host : Host σ) (run : Run) (session : Session σ) :
    ∃ settled session', (runner.round run).run host session = (settled, session') ∧
      runner.Moves (⟨run, session⟩ : Point σ) ⟨settled.run, session'⟩ := by
  unfold round
  cases hcursor : run.cursor with
  | closed => exact ⟨_, _, rfl, .rests rfl rfl⟩
  | suspended name pending =>
    have hopen : run.cursor ≠ .closed := Run.ne_closed_of_suspended hcursor
    simp only [Activity.run_then, Activity.run_poll]
    by_cases hcancelled : session.cancelled
    · simp only [hcancelled, if_true]
      exact ⟨_, _, rfl, moves_fail .cancelled hopen (.inl rfl)⟩
    · simp only [hcancelled]
      exact ⟨_, _, rfl, .rests rfl rfl⟩
  | leaving source =>
    have hopen : run.cursor ≠ .closed := Run.ne_closed_of_leaving hcursor
    simp only [Activity.run_then, Activity.run_poll]
    by_cases hcancelled : session.cancelled
    · simp only [hcancelled, if_true]
      exact ⟨_, _, rfl, moves_fail .cancelled hopen (.inl rfl)⟩
    simp only [hcancelled, Bool.false_eq_true, if_false]
    cases hroute : runner.flow.selectRoute source run.state.get? with
    | error error => exact ⟨_, _, rfl, moves_fail error hopen (.inl rfl)⟩
    | ok target =>
      by_cases hend : target = endName
      · simp only [hend, if_true]
        exact ⟨_, _, rfl, .finishes hcursor (hend ▸ hroute) rfl rfl⟩
      simp only [hend, if_false]
      cases hnode : runner.flow.node? target with
      | none => exact ⟨_, _, rfl, moves_fail _ hopen (.inl rfl)⟩
      | some node =>
        by_cases hbudget : runner.budget ≤ run.steps
        · simp only [hbudget, if_true]
          exact ⟨_, _, rfl, moves_fail _ hopen (.inl rfl)⟩
        · obtain ⟨-, rfl⟩ := Flow.mem_of_node? hnode
          simp only [hbudget, if_false]
          rw [← hcursor]
          -- Every other round rests or fails; this one executes a node.
          exact moves_enter host session hcursor hroute hnode (Nat.lt_of_not_le hbudget)

/-- An answer that is taken up, unless it is refused. -/
theorem moves_take (host : Host σ) (session : Session σ) (hasks : run.cursor.Asks runner)
    (answer : Resume) :
    ∃ result session', (runner.take run answer).run host session = (result, session') ∧
      match result with
      | .error _ => runner.Moves (⟨run, session⟩ : Point σ) ⟨run, session'⟩
      | .ok settled => runner.Moves (⟨run, session⟩ : Point σ) ⟨settled.run, session'⟩ := by
  unfold take
  cases hcursor : run.cursor with
  | leaving source => exact ⟨_, _, rfl, .rests rfl rfl⟩
  | closed => exact ⟨_, _, rfl, .rests rfl rfl⟩
  | suspended name pending =>
    have hopen : run.cursor ≠ .closed := Run.ne_closed_of_suspended hcursor
    rw [hcursor] at hasks
    obtain ⟨node, hnode, hasks⟩ := hasks
    obtain ⟨-, rfl⟩ := Flow.mem_of_node? hnode
    simp only [Activity.run_then, Activity.run_poll]
    by_cases hcancelled : session.cancelled
    · simp only [hcancelled, if_true]
      exact ⟨_, _, rfl, moves_fail .cancelled hopen (.inl rfl)⟩
    simp only [hcancelled, Bool.false_eq_true, if_false, hnode]
    cases pending with
    | input request =>
      cases answer with
      | approval decision => exact ⟨_, _, rfl, .rests rfl rfl⟩
      | input value =>
        dsimp only
        cases haccept : node.acceptInput request value with
        | error error => exact ⟨_, _, rfl, .rests rfl rfl⟩
        | ok result =>
          -- The value gives the node all its fields: it settles like work that has ended.
          have hfits : Work.Holds (StepEnd.Fits node run.state) (.ok (.complete result)) :=
            Node.AsksInput.yields hasks run.state haccept
          obtain ⟨settled, session', told, hrun, hlog, -, hleaves⟩ :=
            Node.leaves_settle host run hfits session
          refine ⟨.ok settled, session', ?_, .resumes hcursor hnode (List.forall_mem_nil _)
            ⟨List.forall_mem_nil _, fun _ tool => balanced_nil node.name tool⟩ hleaves hlog⟩
          rw [Activity.run_map, hrun]
    | approval id request checkpoint =>
      cases answer with
      | input value => exact ⟨_, _, rfl, .rests rfl rfl⟩
      | approval decision =>
        dsimp only
        rw [Activity.run_then, Activity.run_emit]
        -- The decision is told first, and is the opening of what the conversation goes on with.
        obtain ⟨settled, session', inner, told, hrun, hlog, hworks, hleaves⟩ :=
          Node.leaves_work host run
            (runner.serves_decided node hasks.1 run.state checkpoint decision)
            { session with log := session.log ++ [.approvalResolved id decision.isApproved] }
        have hopening : ∀ event ∈ [Event.approvalResolved id decision.isApproved], event.isNews :=
          List.forall_mem_singleton.2 rfl
        refine ⟨.ok settled, session', ?_, .resumes hcursor hnode hopening hworks hleaves ?_⟩
        · rw [← map_bind, Activity.run_map, hrun]
        · exact hlog.trans (by simp [Point.log])

/-- Every stride is a move. -/
theorem moves_next (host : Host σ) (point : Point σ) (hasks : point.run.cursor.Asks runner)
    (command : Command) : runner.Moves point (runner.next host point command) := by
  obtain ⟨run, session⟩ := point
  unfold next stride
  -- Commands that only set something rest; the others are a round, an answer or a failure.
  cases command with
  | provideInput name value => exact .rests rfl rfl
  | signalCancel => exact .rests rfl rfl
  | advance =>
    obtain ⟨settled, session', hrun, hmoves⟩ := runner.moves_round host run session
    dsimp only
    rw [Activity.run_map, hrun]
    exact hmoves
  | resume answer =>
    obtain ⟨result, session', hrun, hmoves⟩ := moves_take host session hasks answer
    dsimp only
    rw [Activity.run_then, hrun]
    cases result with
    | error error => exact hmoves
    | ok settled => exact hmoves
  | cancel =>
    dsimp only
    rw [Activity.run_map]
    unfold cancel
    rw [Activity.run_then, Activity.run_cancel]
    cases hnode : run.node? with
    | none => exact .rests rfl rfl
    | some name =>
      have hopen : run.cursor ≠ .closed := fun hclosed => by simp [Run.node?, hclosed] at hnode
      exact .fails .cancelled hopen (.inl rfl) rfl rfl

/-- A run waits in a node that can ask for what it waits for. -/
theorem Moves.asks {point' : Point σ} (h : runner.Moves point point')
    (hasks : point.run.cursor.Asks runner) : point'.run.cursor.Asks runner := by
  have hleaves : ∀ {node : Node} {run run' : Run} {told : List Event},
      runner.flow.node? node.name = some node → node.Leaves run told run' →
        run'.cursor.Asks runner := by
    intro node run run' told hnode hleaves
    cases hleaves with
    | fails error => trivial
    | completes _ _ => trivial
    | suspends _ hasks => exact ⟨node, hnode, hasks⟩
  cases h with
  | rests hrun _ => exact hrun ▸ hasks
  | fails _ _ _ hrun _ => exact hrun ▸ trivial
  | finishes _ _ hrun _ => exact hrun ▸ trivial
  | enters _ _ hnode _ _ _ hleft _ => exact hleaves hnode hleft
  | resumes _ hnode _ _ hleft _ => exact hleaves hnode hleft

section Starts

variable {inner told : List Event} {cancelled : Bool} {run' : Run}

/-- An event that is no start counts for none. -/
theorem countP_isStart_singleton {event : Event} (h : event.isStart = false) :
    [event].countP Event.isStart = 0 := by
  rw [List.countP_singleton, h]
  rfl

/-- Among news there is no start. -/
theorem countP_isStart_news {news : List Event} (hnews : ∀ event ∈ news, event.isNews) :
    news.countP Event.isStart = 0 := by
  refine List.countP_eq_zero.2 fun event hmem hstart => ?_
  have hisNews := hnews event hmem
  cases event <;> simp_all [Event.isNews, Event.isStart]

/-- Within the work of a node there is no start of another. -/
theorem countP_isStart_inner (hworks : node.Works inner cancelled) :
    inner.countP Event.isStart = 0 := by
  refine List.countP_eq_zero.2 fun event hmem hstart => ?_
  have hwithin := hworks.within event hmem
  cases event <;> simp_all [Event.IsWithin, Event.isStart]

/-- To leave a node is to tell of no start. -/
theorem countP_isStart_left (hleaves : node.Leaves run told run') :
    told.countP Event.isStart = 0 := by
  cases hleaves with
  | fails error => exact countP_isStart_singleton rfl
  | suspends hquestion _ => exact countP_isStart_news (List.forall_mem_singleton.2 hquestion)
  | completes hnews _ =>
    rw [List.countP_append, countP_isStart_news hnews, countP_isStart_singleton rfl]

/-- After the start of a node, no other start is told of before it is left. -/
theorem countP_isStart_entered (hworks : node.Works inner cancelled)
    (hleaves : node.Leaves run told run') : (inner ++ told).countP Event.isStart = 0 := by
  rw [List.countP_append, countP_isStart_inner hworks, countP_isStart_left hleaves]

/-- Of a node that goes on, no start is told. -/
theorem countP_isStart_resumed {opening : List Event} (hopening : ∀ event ∈ opening, event.isNews)
    (hworks : node.Works inner cancelled) (hleaves : node.Leaves run told run') :
    (opening ++ inner ++ told).countP Event.isStart = 0 := by
  rw [List.append_assoc, List.countP_append, countP_isStart_news hopening,
    countP_isStart_entered hworks hleaves]

end Starts

/-- What holds at a point and goes over from point to point with every move holds at every point
that strides lead to from there. -/
theorem Leads.induct {P : Point σ → Prop} {start point : Point σ}
    (h : runner.Leads host start point) (hasks : start.run.cursor.Asks runner) (hstart : P start)
    (hmoves : ∀ before after, runner.Leads host start before → runner.Leads host before after →
      runner.Moves before after → P before → P after) :
    P point := by
  have hall : point.run.cursor.Asks runner ∧ P point := by
    induction h with
    | refl => exact ⟨hasks, hstart⟩
    | tail hbefore hnext ih =>
      obtain ⟨command, rfl⟩ := hnext
      have hmove := moves_next host _ ih.1 command
      exact ⟨hmove.asks ih.1, hmoves _ _ hbefore (leads_next _ _ _ command) hmove ih.2⟩
  exact hall.2

/-- At every point that strides lead to, a run waits for what its node can ask for. -/
theorem Leads.asks {start point : Point σ} (h : runner.Leads host start point)
    (hasks : start.run.cursor.Asks runner) : point.run.cursor.Asks runner :=
  h.induct hasks hasks fun _ _ _ _ hmove hbefore => hmove.asks hbefore

end Runner

end

/-! ## A sample

A node that swaps two variables, and is followed by itself up to its limit. -/

namespace Sample.Swapping

/-- A node that swaps two variables, at most twice. -/
def node : Node where
  name := "swap"
  kind := .update { values := [("a", .string "\x7bb\x7d"), ("b", .string "\x7ba\x7d")] }
  limit := some 2
  limitCounter := some "n"

/-- A flow that goes on swapping. -/
def definition : Definition where
  nodes := [node]
  edges := [.always startName "swap", .always "swap" "swap"]

/-- What the definition is compiled to. -/
def flow : Flow := ⟨"", [node], [("START", [.always "swap"]), ("swap", [.always "swap"])]⟩

/-- A runner of the flow, without tools. -/
def runner : Runner := ⟨flow, ⟨{}, Toolbox.empty⟩⟩

/-- The variables, and a counter that stands at one. -/
def params : List (String × Value) := [("a", .int 1), ("b", .int 2), ("n", .int 1)]

/-- Nobody is asked for anything. -/
def host : Host Unit where
  ask _ _ := ⟨⟨[], .complete⟩, false, ()⟩
  request _ _ := ⟨⟨0, 0⟩, false, ()⟩
  act _ _ _ := ⟨.answered (.ok (.success "")), false, ()⟩
  sleep _ _ := ⟨(), false, ()⟩
  freshId _ := ("", ())

/-- Behind the first execution. -/
def point : Point Unit := runner.next host (runner.reached host () params [] []) .advance

end Sample.Swapping

end AgentFlow
