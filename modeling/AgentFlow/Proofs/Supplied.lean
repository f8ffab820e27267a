import AgentFlow.Proofs.Moves
import AgentFlow.Proofs.Refusal

/-!
# Values supplied beforehand

The value for an input node can be supplied before the node is reached, or be given as an answer
when the run waits for it. The two ways part when the node is executed and meet again when its
result is applied, and it makes no difference which of them a caller takes: a run that was asked
and answered goes on as one that never had to ask, but for the event of the question.

An input node is reached in the same way whatever values are supplied, up to the question whether
there is one for this node (`Heads.run_advance_input`). Once it is accepted, the two runs do the
same, and what they do does not depend on what was told before (`Activity.run_withLog`). That a
value was refused shows in how the run ends: later on there is none that could be refused, also
where the node is reached again (`keeps_advance_spares`).
-/

namespace AgentFlow

/-! ## Fields that are taken out -/

namespace Fields

variable {α : Type}

/-- What is put under a name is gone when the name is erased. -/
theorem erase_put (name : String) (value : α) (fields : List (String × α)) :
    erase name (put name value fields) = erase name fields := by
  induction fields with
  | nil => simp [put, erase]
  | cons field rest ih =>
    obtain ⟨n, v⟩ := field
    rw [put]
    split
    · next hn => simp [erase, hn]
    · split
      · simp [erase]
      · unfold erase at ih ⊢
        rw [List.filter_cons, List.filter_cons, ih]

/-- Under a name that is erased there is nothing. -/
theorem lookup_erase_self (name : String) (fields : List (String × α)) :
    (erase name fields).lookup name = none := by
  refine List.lookup_eq_none_iff.2 fun field hfield => ?_
  have hname : field.1 ≠ name := by simpa using (List.mem_filter.1 hfield).2
  simpa using hname.symm

/-- Where there is nothing under a name, there is nothing after another name is erased. -/
theorem lookup_erase_eq_none {key : String} {fields : List (String × α)}
    (h : fields.lookup key = none) (name : String) : (erase name fields).lookup key = none :=
  List.lookup_eq_none_iff.2 fun field hfield =>
    List.lookup_eq_none_iff.1 h field (List.mem_filter.1 hfield).1

end Fields

/-! ## What was told before -/

section

variable {α σ : Type}

/-- A session in which other events were told so far. -/
def Session.withLog (session : Session σ) (log : List Event) : Session σ := { session with log }

/-- Of two logs that a session is given, the second one counts. -/
@[simp]
theorem Session.withLog_withLog (session : Session σ) (log log' : List Event) :
    (session.withLog log).withLog log' = session.withLog log' := rfl

/-- A session in which other events were told has these in its log. -/
@[simp]
theorem Session.log_withLog (session : Session σ) (log : List Event) :
    (session.withLog log).log = log := rfl

/-- The reply to an effect does not depend on what was told before. -/
theorem Session.answer_withLog (host : Host σ) (session : Session σ) (log : List Event)
    (effect : Effect) : (session.withLog log).answer host effect =
      ((session.answer host effect).1,
        (session.answer host effect).2.withLog (log ++ effect.event?.toList)) := by
  cases effect <;> simp [withLog, answer, after, Effect.event?]

/-- What an activity comes to and what it tells does not depend on what was told before. -/
theorem Activity.run_withLog (host : Host σ) (t : Activity α) (session : Session σ)
    (log : List Event) : t.run host (session.withLog log) =
      ((t.run host session).1, (t.run host session).2.withLog (log ++ t.events host session)) := by
  induction t generalizing session log with
  | done a => simp [run, events, effects]
  | step effect next ih =>
    rw [run_step, Session.answer_withLog, ih, run_step]
    simp only [events, effects, List.append_assoc]
    cases effect <;> rfl

end

section

variable {σ : Type} {host : Host σ} {runner : Runner} {run : Run} {node : Node} {step : InputStep}
  {session : Session σ} {name : String}

/-! ## Input nodes -/

namespace Node

/-- What comes of an input node that asks for a value, when one may be supplied for it. -/
def offer (node : Node) (request : InputRequest) : Option Value → Except Error StepEnd
  | some value => (node.acceptInput request value).map .complete
  | none => .ok (.awaitInput request)

/-- A value that is accepted completes the node to which it is offered. -/
theorem offer_of_accept {request : InputRequest} {value : Value} {result : NodeResult}
    (h : node.acceptInput request value = .ok result) :
    node.offer request (some value) = .ok (.complete result) := by
  rw [offer, h]
  rfl

/-- An input node has no effects while it is executed. -/
theorem activity_execute_input (hkind : node.kind = .input step) (heach : node.forEach = none)
    (setting : Setting) (state : Store) (supplied : Option Value) :
    (node.execute setting state supplied).activity =
      pure (step.request state.get? >>= (node.offer · supplied)) := by
  unfold execute
  rw [heach, hkind]
  dsimp only
  cases step.request state.get? with
  | error error => rfl
  | ok request =>
    cases supplied with
    | none => rfl
    | some value =>
      show (StepEnd.complete <$> Work.ofExcept (node.acceptInput request value)).activity =
        pure ((node.acceptInput request value).map .complete)
      cases node.acceptInput request value <;> rfl

/-- An input node uses up the value that is supplied for it. -/
theorem enter_input (hkind : node.kind = .input step) (heach : node.forEach = none)
    (setting : Setting) (run : Run) : node.enter setting run =
      match node.countExecution run.state with
      | .error error => node.settle run (.error error)
      | .ok state =>
        Activity.emit (.nodeStarted node.name) >>= fun _ =>
          node.settle { run with state, inputs := Fields.erase node.name run.inputs }
            (step.request state.get? >>= (node.offer · (run.inputs.lookup node.name))) := by
  have htakes : node.takesInput = true := by simp [takesInput, hkind]
  unfold enter
  cases node.countExecution run.state with
  | error error => rfl
  | ok state => simp only [htakes, if_true, activity_execute_input hkind heach, pure_bind]

/-- Where a run stood before a node is applied to it makes no difference. -/
theorem settle_withCursor (node : Node) (run : Run) (cursor : Cursor)
    (result : Except Error StepEnd) :
    node.settle { run with cursor } result = node.settle run result := by
  rcases result with error | result | request | ⟨request, checkpoint⟩ <;> rfl

end Node

/-- Input nodes do not fan out. -/
theorem Flow.Sound.forEach_eq_none {flow : Flow} (h : flow.Sound) (hnode : node ∈ flow.nodes)
    (hkind : node.kind = .input step) : node.forEach = none := by
  refine Option.eq_none_iff_forall_not_mem.2 fun each heach => ?_
  have hwf := (h.nodes node hnode).forEach each heach
  rcases hwf.kind with ⟨other, hother⟩ | ⟨other, hother⟩ <;>
    · rw [hkind] at hother
      cases hother

/-! ## Refused values -/

/-- The errors that say that a value or an answer was refused. -/
def Error.IsRefusal : Error → Prop
  | .invalidResume _ => True
  | _ => False

/-- An ordinary error is no refusal. -/
theorem Error.IsOrdinary.not_isRefusal {error : Error} (h : error.IsOrdinary) :
    ¬ error.IsRefusal := by
  intro hrefusal
  cases error <;> first | exact h | exact hrefusal

/-- A run has failed because the value for a node was refused. -/
def Status.Refuses (name : String) (status : Status) : Prop :=
  ∃ message, status = .failed ⟨some name, .invalidResume message⟩

/-- A failure is a refusal of the value for a node only if the error is one and the place is the
node. -/
theorem Status.not_refuses_failed {place : Option String} {error : Error}
    (h : place = some name → ¬ error.IsRefusal) : ¬ (failed ⟨place, error⟩).Refuses name := by
  rintro ⟨message, hstatus⟩
  cases hstatus
  exact h rfl trivial

/-- A run that waits has refused nothing. -/
theorem Status.not_refuses_waiting (suspension : Suspension) :
    ¬ (waiting suspension).Refuses name := by
  rintro ⟨_, ⟨⟩⟩

/-- A run that is completed has refused nothing. -/
theorem Status.not_refuses_done (outcome : Outcome) : ¬ (done outcome).Refuses name := by
  rintro ⟨_, ⟨⟩⟩

/-- No value for a node was refused, and none is at hand. -/
def Settled.Spares (name : String) : Settled → Prop
  | .goesOn run => run.inputs.lookup name = none
  | .stops status _ => ¬ status.Refuses name

namespace Runner

/-- Where no value for a node is at hand, none is refused when the result of a node is applied. -/
theorem keeps_settle_spares (node : Node) (run : Run) {result : Except Error StepEnd}
    (hresult : node.name = name → Ordinary result) (hrun : run.inputs.lookup name = none) :
    (node.settle run result).Keeps anything (Settled.Spares name) := by
  refine keeps_settle_cases node run result (fun error herror => ?_) (fun _ _ => hrun)
    fun pending => Status.not_refuses_waiting _
  refine Status.not_refuses_failed fun hplace => ?_
  rcases herror with herror | rfl
  · exact (hresult (Option.some.inj hplace) error herror).not_isRefusal
  · exact id

/-- Where no value for a node is at hand, none is refused when a node is executed: not by another
node, and the node itself has none to refuse. -/
theorem keeps_enter_spares (setting : Setting) (hasks : node.name = name → node.AsksInput)
    (hrun : run.inputs.lookup name = none) :
    (node.enter setting run).Keeps anything (Settled.Spares name) := by
  by_cases hname : node.name = name
  · -- The node itself can fail before it asks, but then for another reason.
    obtain ⟨heach, step, hkind⟩ := hasks hname
    rw [Node.enter_input hkind heach]
    cases hcount : node.countExecution run.state with
    | error error =>
      have hordinary := node.ordinary_countExecution run.state error hcount
      exact keeps_settle_spares node run (fun _ => ordinary_error hordinary) hrun
    | ok state =>
      rw [hname, hrun, Activity.keeps_bind, Activity.keeps_emit]
      refine ⟨trivial, keeps_settle_spares node _ (fun _ => ?_) (Fields.lookup_erase_self name _)⟩
      exact (step.ordinary_request _).bind fun _ _ => ordinary_ok _
  · have hsettle : ∀ run' result, run'.inputs.lookup name = none →
        (node.settle run' result).Keeps anything (Settled.Spares name) :=
      fun run' result => keeps_settle_spares node run' fun h => absurd h hname
    unfold Node.enter
    cases node.countExecution run.state with
    | error error => exact hsettle _ _ hrun
    | ok state =>
      -- Another node may use up its own value, which puts none in the place of this one.
      rw [Activity.keeps_bind, Activity.keeps_emit]
      refine ⟨trivial, ?_⟩
      rw [Activity.keeps_bind]
      refine (keeps_anything _).mono fun result _ => hsettle _ result ?_
      split
      · exact Fields.lookup_erase_eq_none hrun _
      · exact hrun

/-- A run that fails with an error that is no refusal has not refused the value for a node. -/
theorem keeps_fail_spares (run : Run) (place : Option String) {error : Error}
    (h : ¬ error.IsRefusal) :
    (run.fail place error).Keeps anything fun ended => ¬ ended.1.Refuses name := by
  rw [Run.fail, Activity.keeps_bind, Activity.keeps_emit]
  exact ⟨trivial, Status.not_refuses_failed fun _ => h⟩

/-- Where no value for a node is at hand, none is refused on the way to the next node. -/
theorem keeps_leaveBy_spares {source : String} {enter : String → Node → Activity (Status × Run)}
    (henter : ∀ node, runner.flow.node? node.name = some node →
      (enter node.name node).Keeps anything fun ended => ¬ ended.1.Refuses name) :
    (runner.leaveBy run source enter).Keeps anything fun ended => ¬ ended.1.Refuses name := by
  unfold leaveBy
  rw [Activity.keeps_bind, Activity.keeps_poll]
  intro cancelled
  split
  · exact keeps_fail_spares run none id
  cases hroute : runner.flow.selectRoute source run.state.get? with
  | error error =>
    have hordinary := Flow.ordinary_firstTarget source run.state.get? [] _ error hroute
    exact keeps_fail_spares run source hordinary.not_isRefusal
  | ok target =>
    dsimp only
    split
    · rw [Run.finish, Activity.keeps_bind, Activity.keeps_emit]
      exact ⟨trivial, Status.not_refuses_done _⟩
    cases hnode : runner.flow.node? target with
    | none => exact keeps_fail_spares run target id
    | some node =>
      obtain ⟨-, rfl⟩ := Flow.mem_of_node? hnode
      exact henter node hnode

/-- A run for which no value for an input node is supplied does not fail because one is refused,
however it goes on. -/
theorem keeps_leave_spares (hasks : ∀ node, runner.flow.node? name = some node → node.AsksInput)
    (hrun : run.inputs.lookup name = none) (source : String) (left : Nat) :
    (runner.leave run source left).Keeps anything fun ended => ¬ ended.1.Refuses name := by
  induction left generalizing run source with
  | zero =>
    rw [leave]
    exact keeps_leaveBy_spares fun node _ => keeps_fail_spares run node.name id
  | succ left ih =>
    rw [leave]
    refine keeps_leaveBy_spares fun node hnode => ?_
    rw [Activity.keeps_bind]
    have henter : (node.enter runner.setting { run with steps := run.steps + 1 }).Keeps anything
        (Settled.Spares name) :=
      keeps_enter_spares runner.setting (fun hname => hasks node (hname ▸ hnode)) hrun
    refine henter.mono fun settled hspares => ?_
    cases settled with
    | stops status run => exact hspares
    | goesOn run => exact ih hspares node.name

/-- While a run is taken on, no value for a node is refused if none is at hand. -/
theorem keeps_advance_spares (hasks : ∀ node, runner.flow.node? name = some node → node.AsksInput)
    (hrun : run.inputs.lookup name = none) :
    (runner.advance run).Keeps anything fun ended => ¬ ended.1.Refuses name := by
  unfold advance
  cases run.cursor with
  | closed => exact Status.not_refuses_failed fun h => (Option.some_ne_none name h.symm).elim
  | leaving source => exact keeps_leave_spares hasks hrun source _
  | suspended node pending =>
    dsimp only
    rw [Activity.keeps_bind, Activity.keeps_poll]
    intro cancelled
    split
    · exact keeps_fail_spares run none id
    · exact Status.not_refuses_waiting _

/-! ## Meeting an input node -/

/-- A run that goes to a node next. -/
structure Heads (runner : Runner) (run : Run) (node : Node) : Prop where
  found : runner.flow.node? node.name = some node
  routed : ∃ source, run.cursor = .leaving source ∧
    runner.flow.selectRoute source run.state.get? = .ok node.name

/-- What the caller is asked if a run goes to an input node next, and the state in which the
execution is counted. -/
def question (runner : Runner) (run : Run) (node : Node) (step : InputStep) :
    Except Error (Store × InputRequest) := do
  if runner.left run = 0 then .error (.stepBudget runner.budget)
  else
    let state ← node.countExecution run.state
    let request ← step.request state.get?
    return (state, request)

/-- What can be wrong with a question to the caller is ordinary: no value was looked at. -/
theorem ordinary_question (runner : Runner) (run : Run) (node : Node) (step : InputStep) :
    Ordinary (runner.question run node step) := by
  unfold question
  split
  · exact ordinary_error trivial
  · exact (node.ordinary_countExecution run.state).bind fun state _ =>
      (step.ordinary_request state.get?).bind fun _ _ => ordinary_ok _

namespace Heads

/-- Where a run goes next does not depend on what values are supplied. -/
theorem provideInput (h : runner.Heads run node) (name : String) (value : Value) :
    runner.Heads (run.provideInput name value) node :=
  ⟨h.found, h.routed⟩

/-- A run that goes to an input node next executes it, unless its steps are used up. -/
theorem run_advance (h : runner.Heads run node) (host : Host σ) (hend : node.name ≠ endName)
    (hopen : session.cancelled = false) : (runner.advance run).run host session =
      (if runner.left run = 0 then run.fail node.name (.stepBudget runner.budget)
        else node.enter runner.setting { run with steps := run.steps + 1 } >>= runner.goOn).run
          host session := by
  obtain ⟨source, hcursor, hroute⟩ := h.routed
  rw [advance_eq hcursor, run_leaveBy hopen hroute hend h.found]
  cases runner.left run <;> rfl

/-- If there is nothing to be asked in the input node that a run goes to, the run fails there. -/
theorem status_advance (h : runner.Heads run node) (host : Host σ) (hend : node.name ≠ endName)
    (hkind : node.kind = .input step) (heach : node.forEach = none)
    (hopen : session.cancelled = false) {error : Error}
    (hquestion : runner.question run node step = .error error) :
    ((runner.advance run).run host session).1.1 = .failed ⟨node.name, error⟩ := by
  rw [h.run_advance host hend hopen, Node.enter_input hkind heach]
  unfold question at hquestion
  by_cases hleft : runner.left run = 0
  · rw [if_pos hleft] at hquestion ⊢
    cases hquestion
    rfl
  · rw [if_neg hleft] at hquestion ⊢
    rcases error_or_exists_of_bind_eq_error hquestion with hcount | ⟨state, hcount, hquestion⟩
    · simp only [hcount]
      rfl
    · rcases error_or_exists_of_bind_eq_error hquestion with hrequest | ⟨request, -, ⟨⟩⟩
      simp only [hcount, hrequest]
      rfl

/-- The input node that a run goes to is offered the value that is supplied for it. -/
theorem run_advance_input (h : runner.Heads run node) (host : Host σ) (hend : node.name ≠ endName)
    (hkind : node.kind = .input step) (heach : node.forEach = none)
    (hopen : session.cancelled = false) {state : Store} {request : InputRequest}
    (hquestion : runner.question run node step = .ok (state, request)) :
    (runner.advance run).run host session =
      (node.settle
          { run with
            state, inputs := Fields.erase node.name run.inputs, steps := run.steps + 1 }
          (node.offer request (run.inputs.lookup node.name)) >>= runner.goOn).run host
        (session.withLog (session.log ++ [.nodeStarted node.name])) := by
  rw [h.run_advance host hend hopen, Node.enter_input hkind heach]
  unfold question at hquestion
  by_cases hleft : runner.left run = 0
  · rw [if_pos hleft] at hquestion
    cases hquestion
  · rw [if_neg hleft] at hquestion ⊢
    obtain ⟨state, hcount, hquestion⟩ := exists_of_bind_eq_ok hquestion
    obtain ⟨request, hrequest, ⟨⟩⟩ := exists_of_bind_eq_ok hquestion
    simp only [hcount, hrequest]
    rfl

end Heads

/-- A node that asks for a value leaves the run waiting for it. -/
theorem run_awaitInput (host : Host σ) (run : Run) (hopen : session.cancelled = false)
    (request : InputRequest) :
    (node.settle run (node.offer request none) >>= runner.goOn).run host session =
      ((.waiting (.awaitingInput node.name request),
          { run with cursor := .suspended node.name (.input request) }),
        session.withLog
          (session.log ++ [.inputRequested node.name request.prompt request.options])) := by
  simp [Node.offer, Node.settle, hopen, Run.suspend, goOn, Suspension.ofPending, Session.withLog]

/-- A value that is given as an answer is refused, or is applied as if the node had not waited for
it. -/
theorem run_resume_input (host : Host σ) (run : Run) (hopen : session.cancelled = false)
    (hnode : runner.flow.node? node.name = some node) (request : InputRequest) (value : Value) :
    let waiting := { run with cursor := .suspended node.name (.input request) }
    (runner.resume waiting (.input value)).run host session =
      match node.acceptInput request value with
      | .error error => ((.error error, waiting), session)
      | .ok result =>
        let left := (node.settle run (.ok (.complete result)) >>= runner.goOn).run host session
        ((.ok left.1.1, left.1.2), left.2) := by
  unfold resume
  simp only [Activity.run_then, Activity.run_poll, hopen, Bool.false_eq_true, if_false, hnode]
  cases node.acceptInput request value with
  | error error => rfl
  | ok result => simp [Node.settle_withCursor]

/-- To supply the value for a node comes to the same as to give it as an answer. -/
structure Foretells (runner : Runner) (host : Host σ) (run : Run) (session : Session σ)
    (name : String) (value : Value) : Prop where
  /-- If the run waits at the node and the answer is accepted, a copy for which the value is
  supplied is left in the same state, with the same lines, steps, inputs that are left and cursor,
  and its caller is told the same. Only the event of the question is missing. -/
  accepted : ∀ request status,
    let asked := (runner.advance run).run host session
    let answered := (runner.resume asked.1.2 (.input value)).run host asked.2
    let supplied := (runner.advance (run.provideInput name value)).run host session
    asked.1.1 = .waiting (.awaitingInput name request) → answered.1.1 = .ok status →
      supplied.1 = (status, answered.1.2) ∧ supplied.2.world = answered.2.world ∧
        supplied.2.cancelled = answered.2.cancelled ∧
        ∃ told, supplied.2.log = session.log ++ .nodeStarted name :: told ∧
          answered.2.log = session.log ++
            .nodeStarted name :: .inputRequested name request.prompt request.options :: told
  /-- The value is refused when it is supplied if and only if it is refused as an answer, with the
  same message. -/
  refused : ∀ message,
    let asked := (runner.advance run).run host session
    let answered := (runner.resume asked.1.2 (.input value)).run host asked.2
    let supplied := (runner.advance (run.provideInput name value)).run host session
    supplied.1.1 = .failed ⟨name, .invalidResume message⟩ ↔
      (∃ request, asked.1.1 = .waiting (.awaitingInput name request)) ∧
        answered = ((.error (.invalidResume message), asked.1.2), asked.2)

/-- Once the value for an input node is spent and was not refused, none is refused later. -/
theorem not_refuses_settle (hnode : runner.flow.node? node.name = some node)
    (hinput : node.AsksInput) (hspent : run.inputs.lookup node.name = none) (result : StepEnd)
    (host : Host σ) (session : Session σ) :
    ¬ ((node.settle run (.ok result) >>= runner.goOn).run host session).1.1.Refuses node.name := by
  have hasks : ∀ found, runner.flow.node? node.name = some found → found.AsksInput := by
    intro found hfound
    obtain rfl := Option.some.inj (hnode.symm.trans hfound)
    exact hinput
  have hkeeps : (node.settle run (.ok result) >>= runner.goOn).Keeps anything
      fun ended => ¬ ended.1.Refuses node.name := by
    rw [Activity.keeps_bind]
    refine (keeps_settle_spares node run (fun _ => ordinary_ok result) hspent).mono ?_
    rintro (run' | ⟨status, run'⟩) hspares
    · exact keeps_advance_spares hasks hspares
    · exact hspares
  exact (hkeeps.run (show host.Meets anything from fun _ _ => trivial) session).1

/-- A run that meets an input node as `met` is asked there, unless the value is supplied. -/
theorem foretells_of_met {met : Run} {request : InputRequest} {value : Value}
    (hopen : session.cancelled = false) (hnode : runner.flow.node? node.name = some node)
    (hinput : node.AsksInput) (hspent : met.inputs.lookup node.name = none)
    (hasked : (runner.advance run).run host session =
      (node.settle met (node.offer request none) >>= runner.goOn).run host
        (session.withLog (session.log ++ [.nodeStarted node.name])))
    (hsupplied : (runner.advance (run.provideInput node.name value)).run host session =
      (node.settle met (node.offer request (some value)) >>= runner.goOn).run host
        (session.withLog (session.log ++ [.nodeStarted node.name]))) :
    runner.Foretells host run session node.name value := by
  have hopen' : ∀ log, (session.withLog log).cancelled = false := fun _ => hopen
  rw [run_awaitInput host met (hopen' _), Session.withLog_withLog, Session.log_withLog] at hasked
  have hanswered := fun log => run_resume_input host met (hopen' log) hnode request value
  cases haccept : node.acceptInput request value with
  -- A value that is refused fails the run at once, or is refused as an answer.
  | error error =>
    have hfails : ((runner.advance (run.provideInput node.name value)).run host session).1.1 =
        .failed ⟨node.name, error⟩ := by
      rw [hsupplied, Node.offer, haccept]
      rfl
    simp only [haccept] at hanswered
    refine ⟨fun asked status => ?_, fun message => ?_⟩
    · simp only [hasked, hanswered]
      rintro - ⟨⟩
    · simp only [hfails, hasked, hanswered]
      simp
  | ok result =>
    have hlater := not_refuses_settle hnode hinput hspent (.complete result) host session
    simp only [haccept] at hanswered
    rw [Node.offer_of_accept haccept] at hsupplied
    -- What is left to do is the same, whether or not the question was told before.
    generalize node.settle met (.ok (.complete result)) >>= runner.goOn = t
      at hanswered hsupplied hlater
    have hsame := t.run_withLog host session
    simp only [hsame] at hanswered hsupplied
    refine ⟨fun asked status => ?_, fun message => ?_⟩
    · simp only [hasked, hanswered, hsupplied]
      rintro ⟨⟩ ⟨⟩
      exact ⟨rfl, rfl, rfl, t.events host session, by simp, by simp⟩
    · simp only [hasked, hanswered, hsupplied]
      refine iff_of_false (fun hrefused => hlater ⟨message, hrefused⟩) ?_
      rintro ⟨-, ⟨⟩⟩

/-- At an input node it makes no difference when the value is given. -/
theorem foretells_of_compile {definition : Definition} {runner : Runner}
    (hcompile : Flow.compile definition = .ok runner.flow) (host : Host σ) {run : Run}
    {node : Node} {step : InputStep} {session : Session σ} (hopen : session.cancelled = false)
    (hheads : runner.Heads run node) (hkind : node.kind = .input step)
    (hnone : run.inputs.lookup node.name = none) (value : Value) :
    runner.Foretells host run session node.name value := by
  have hmem := (Flow.mem_of_node? hheads.found).1
  have heach := (Flow.sound_of_compile hcompile).forEach_eq_none hmem hkind
  have hend := (Flow.names_of_compile hcompile node hmem).2
  have hsupplies := hheads.provideInput node.name value
  cases hquestion : runner.question run node step with
  | error error =>
    -- Nothing is asked, and both runs fail for a reason that is not the value.
    have hordinary := ordinary_question runner run node step error hquestion
    have hasked := hheads.status_advance host hend hkind heach hopen hquestion
    have hsupplied := hsupplies.status_advance host hend hkind heach hopen hquestion
    have hwaits : ∀ request, ((runner.advance run).run host session).1.1 ≠
        .waiting (.awaitingInput node.name request) := by
      intro request hwaits
      cases hasked.symm.trans hwaits
    refine ⟨fun request status h => absurd h (hwaits request), fun message => iff_of_false ?_ ?_⟩
    · rw [hsupplied]
      rintro ⟨⟩
      exact hordinary
    · rintro ⟨⟨request, h⟩, -⟩
      exact hwaits request h
  | ok asked =>
    obtain ⟨state, request⟩ := asked
    have hasked := hheads.run_advance_input host hend hkind heach hopen hquestion
    have hsupplied := hsupplies.run_advance_input host hend hkind heach hopen hquestion
    have hput : (run.provideInput node.name value).inputs.lookup node.name = some value := by
      rw [Run.provideInput, Fields.lookup_put, if_pos rfl]
    rw [hnone] at hasked
    rw [hput] at hsupplied
    simp only [Run.provideInput, Fields.erase_put] at hsupplied
    exact foretells_of_met hopen hheads.found ⟨heach, step, hkind⟩
      (Fields.lookup_erase_self node.name run.inputs) hasked hsupplied

end Runner

end

/-! ## A sample

A node that asks for one of two colors, and once more after a red one. -/

namespace Sample.Asking

/-- A question with two colors to choose from. -/
def step : InputStep :=
  { prompt := "Which color?", options := some (.list [.string "red", .string "blue"]) }

/-- A node of the step. -/
def node : Node := { name := "ask", kind := .input step, output := [{ name := "color" }] }

/-- A flow that asks again as long as the answer is red. -/
def definition : Definition where
  nodes := [node]
  edges := [.always startName "ask",
    ((Edge.branch "ask").when "color == 'red'" "ask").when "true" endName]

/-- The condition on the answer. -/
def isRed : Condition :=
  ⟨"color == 'red'", .compare .eq (.path "color" []) (.literal (.string "red"))⟩

/-- What the definition is compiled to. -/
def flow : Flow := ⟨"", [node], [("START", [.always "ask"]),
  ("ask", [.when isRed "ask", .when ⟨"true", .literal (.bool true)⟩ "END"])]⟩

/-- The flow is the compiled definition. -/
theorem compile_definition : Flow.compile definition = .ok flow := by
  have hred : Condition.ofText "color == 'red'" = .ok isRed :=
    Condition.ofText_of_tokens (by decide :
      Condition.tokens "color == 'red'".toList = .ok [.ident "color", .equal, .str "red"]) rfl
  have htrue : Condition.ofText "true" = .ok ⟨"true", .literal (.bool true)⟩ :=
    Condition.ofText_of_tokens (by decide :
      Condition.tokens "true".toList = .ok [.ident "true"]) rfl
  have hroutes : (((Edge.branch "ask").when "color == 'red'" "ask").when "true" endName).routes =
      [.when isRed "ask", .when ⟨"true", .literal (.bool true)⟩ "END"] := by
    simp [Edge.routes, Edge.conditionalRoutes, Edge.when, Edge.branch, hred, htrue,
      Except.toOption, endName]
  have htable : definition.table = flow.table := by
    rw [Definition.table, fst_routeEdges _ _ (by decide)]
    simp only [definition, List.foldl, hroutes]
    rfl
  exact Flow.compile_eq_ok_iff.2 ⟨by decide +kernel, htable ▸ rfl⟩

/-- A runner of the flow, without tools. -/
def runner : Runner := ⟨flow, ⟨{}, Toolbox.empty⟩⟩

/-- Nobody but the caller is asked for anything. -/
def host : Host Unit := Swapping.host

/-- A session in which nothing was told. -/
def session : Session Unit := ⟨(), false, []⟩

/-- Behind the start. -/
def run : Run := .ofParams []

/-- What the caller is asked. -/
def request : InputRequest := ⟨"Which color?", some [.string "red", .string "blue"]⟩

/-- From the start, the run goes to the question. -/
theorem heads_ask : runner.Heads run node := ⟨by decide, "START", rfl, rfl⟩

/-- What comes of answering with a color. -/
def answered (color : String) : Except Error Status × Run :=
  let asked := (runner.advance run).run host session
  ((runner.resume asked.1.2 (.input (.string color))).run host asked.2).1

/-- Whether or not the color is allowed, it makes no difference when it is given. -/
theorem foretells_ask :
    Flow.compile definition = .ok runner.flow ∧ session.cancelled = false ∧
      runner.Heads run node ∧
      node.kind = .input step ∧ run.inputs.lookup "ask" = none ∧
      ((runner.advance run).run host session).1.1 = .waiting (.awaitingInput "ask" request) ∧
      (answered "red").1 = .ok (.waiting (.awaitingInput "ask" request)) ∧
      (answered "green").1 =
        .error (.invalidResume "\"green\" is not one of the allowed options for 'ask'") ∧
      ∀ value, runner.Foretells host run session "ask" value := by
  exact ⟨compile_definition, rfl, heads_ask, rfl, rfl, by decide +kernel, by decide +kernel,
    by decide +kernel, Runner.foretells_of_compile compile_definition host rfl heads_ask rfl rfl⟩

end Sample.Asking

end AgentFlow
