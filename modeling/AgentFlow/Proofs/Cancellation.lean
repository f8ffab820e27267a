import AgentFlow.Proofs.Footprint
import AgentFlow.Proofs.Run

/-!
# Nothing is committed after cancellation

A run can be cancelled while its caller does nothing with it, and by a model or a tool in the middle
of a node, also in one of the items of a node that fans out. It then stops at the next question
whether it is cancelled. The argument is that the runner asks before every step that commits
something: it writes the result of a node, chooses the next one, and asks the caller only behind
such a question, with nothing in between that could cancel the run.

`watch` is the monitor that knows the last answer, and the transcript as the events tell it. What
nodes do while they work may cancel the run, but commits nothing (`Activity.Inside.watched`), so
that everything rests on the runner's own functions, one lemma each.
-/

namespace AgentFlow

/-! ## What is watched -/

/-- Whether an event tells of something committed: of outputs written, lines emitted, the end of the
flow, a node that is started, or a question to the caller. -/
def Event.commits : Event → Bool
  | .nodeStarted _ | .nodeCompleted _ | .userMessage _ _ _ | .output _ _ | .inputRequested _ _ _
  | .approvalRequested _ _ | .runCompleted _ => true
  | _ => false

/-- The line that an event adds to the transcript. -/
def Event.line? : Event → Option String
  | .output _ line => some line
  | _ => none

/-- Whether an effect tells of something committed. -/
def Effect.commits : Effect → Bool
  | .emit event => event.commits
  | _ => false

/-- What is known of a run. -/
structure Watch where
  /-- The run is known not to be cancelled. -/
  clear : Bool
  /-- The lines of the run so far. -/
  transcript : List String

/-- Knowledge after an effect: it lasts as long as nobody else can act. -/
def Watch.after (w : Watch) : (effect : Effect) → effect.Reply → Watch
  | .emit (.output _ line), _ => { w with transcript := w.transcript ++ [line] }
  | .emit _, _ => w
  | .freshId, _ => w
  | .poll, cancelled => { w with clear := !cancelled }
  | _, _ => { w with clear := false }

/-- Allows what commits something only while the run is known not to be cancelled. -/
def watch : Monitor Watch where
  allows w effect := effect.commits → w.clear
  after := Watch.after

/-- A run that has discarded its state if it is closed. -/
def Run.Sealed (run : Run) : Prop := run.cursor = .closed → run.state = .empty

/-- The lines of a run after a command. A run that is done has handed them over. -/
def Runner.linesOf : Option (Except Error Status) × Run → List String
  | (some (.ok (.done outcome)), _) => outcome.transcript
  | (_, run) => run.transcript

namespace Watch

variable (w : Watch)

/-- How a run is left: it waits or is done only if it is not cancelled, and is closed and empty
unless it waits. -/
def Ends (left : Status × Run) : Prop :=
  match left.1 with
  | .waiting suspension => w.clear ∧ left.2.transcript = w.transcript ∧
      left.2.suspension? = some suspension
  | .done outcome => w.clear ∧ outcome.transcript = w.transcript ∧
      left.2.cursor = .closed ∧ left.2.state = .empty
  | .failed _ => left.2.transcript = w.transcript ∧
      left.2.cursor = .closed ∧ left.2.state = .empty

/-- How a run stands after the execution of a node: it goes on only if it is not cancelled. -/
def Settles : Settled → Prop
  | .goesOn run => w.clear ∧ run.transcript = w.transcript ∧ run.cursor ≠ .closed
  | .stops status run => w.Ends (status, run)

/-- What comes of an answer: a refusal leaves the run alone, and what is known of it. -/
def Answers (run : Run) (after : Watch) (left : Except Error Status × Run) : Prop :=
  match left.1 with
  | .ok status => after.Ends (status, left.2)
  | .error _ => left.2 = run ∧ after.transcript = w.transcript ∧ (after = w ∨ after.clear)

/-- What comes of a command. -/
def Carries (run : Run) (command : Command) (after : Watch)
    (left : Option (Except Error Status) × Run) : Prop :=
  match left.1 with
  | some result => w.Answers run after (result, left.2)
  | none => after.transcript = w.transcript ∧ left.2.transcript = run.transcript ∧
      left.2.state = run.state ∧ left.2.cursor = run.cursor ∧
      (after = w ∨ command = .signalCancel)

end Watch

variable {α : Type} {w : Watch} {run : Run} {node : Node} {runner : Runner}

/-- What commits nothing is always allowed. -/
theorem watch_allows {effect : Effect} (h : effect.commits = false) : watch.allows w effect :=
  fun hcommits => absurd (h.symm.trans hcommits) Bool.false_ne_true

/-- The work within a node commits nothing, whatever it does to the run. -/
theorem Activity.Inside.watched {t : Activity α} {post : Watch → α → Prop} (h : t.Inside)
    (hpost : ∀ clear a, post { w with clear } a) : t.Obeys watch post w := by
  induction t generalizing w with
  | done a => exact hpost w.clear a
  | step effect next ih =>
    have hnext : ∀ reply, ∃ clear, watch.after w effect reply = { w with clear } := by
      intro reply
      cases effect with
      | emit event =>
        have hinner : event.isInner = true := h.1
        cases event <;> first | exact ⟨w.clear, rfl⟩ | simp [Event.isInner] at hinner
      | freshId => exact h.1.elim
      | poll => exact ⟨!reply, rfl⟩
      | _ => exact ⟨false, rfl⟩
    refine ⟨fun hcommits => ?_, fun reply => ?_⟩
    · cases effect with
      | emit event =>
        have hinner : event.isInner = true := h.1
        cases event <;> simp_all [Event.isInner, Effect.commits, Event.commits]
      | _ => simp [Effect.commits] at hcommits
    · obtain ⟨clear, hclear⟩ := hnext reply
      rw [hclear]
      exact ih reply (h.2 reply) fun clear a => hpost clear a

/-! ## Ends of a run -/

namespace Run

/-- A run fails without committing anything. -/
theorem watched_fail (place : Option String) (error : Error) (h : run.transcript = w.transcript) :
    (run.fail place error).Obeys watch Watch.Ends w := by
  unfold fail
  simp only [Activity.obeys_bind, Activity.obeys_emit, Activity.obeys_pure]
  exact ⟨watch_allows rfl, h, rfl, rfl⟩

/-- A run is completed only if it is known not to be cancelled. -/
theorem watched_finish (hclear : w.clear) (h : run.transcript = w.transcript) :
    run.finish.Obeys watch Watch.Ends w := by
  unfold finish
  simp only [Activity.obeys_bind, Activity.obeys_emit, Activity.obeys_pure]
  exact ⟨fun _ => hclear, hclear, h, rfl, rfl⟩

/-- A run is suspended, and its caller asked, only if it is known not to be cancelled. -/
theorem watched_suspend (name : String) (pending : Pending) (hclear : w.clear)
    (h : run.transcript = w.transcript) :
    (run.suspend name pending).Obeys watch Watch.Ends w := by
  unfold suspend
  cases pending <;>
    simp only [Activity.obeys_bind, Activity.obeys_emit, Activity.obeys_pure] <;>
    exact ⟨fun _ => hclear, hclear, h, rfl⟩

end Run

/-! ## One node -/

namespace Node

/-- Writing a result adds its lines to the transcript, all told to the observers. -/
theorem watched_commit (result : NodeResult) (hclear : w.clear)
    (h : run.transcript = w.transcript) :
    (node.commit run result).Obeys watch (fun w run => w.Settles (.goesOn run)) w := by
  have hfields : ∀ fields, (node.showFields fields).Obeys watch (fun after _ => after = w) w := by
    intro fields
    induction fields with
    | nil => exact rfl
    | cons field rest ih =>
      obtain ⟨name, value⟩ := field
      unfold showFields
      split
      · simp only [Activity.obeys_bind, Activity.obeys_emit]
        exact ⟨fun _ => hclear, ih⟩
      · exact ih
  -- The invariant is generalised over what is known, as every line adds to it.
  have hlines : ∀ (lines : List String) (w : Watch), w.clear →
      (node.showLines lines).Obeys watch
        (fun after _ => after = { w with transcript := w.transcript ++ lines }) w := by
    intro lines
    induction lines with
    | nil =>
      intro w _
      simp only [showLines, List.append_nil]
      exact rfl
    | cons line rest ih =>
      intro w hw
      unfold showLines
      simp only [Activity.obeys_bind, Activity.obeys_emit]
      refine ⟨fun _ => hw, Activity.Obeys.mono (ih _ hw) fun after _ hafter => ?_⟩
      simpa [watch, Watch.after] using hafter
  unfold commit
  simp only [Activity.obeys_bind, Activity.obeys_emit, Activity.obeys_pure]
  refine (hfields result.fields).mono fun after _ hafter => ?_
  subst hafter
  refine (hlines result.lines _ hclear).mono fun after _ hafter => ?_
  subst hafter
  exact ⟨fun _ => hclear, hclear, congrArg (· ++ result.lines) h, by simp⟩

/-- What came of the execution of a node is applied only behind the question whether the run is
cancelled. -/
theorem watched_settle (result : Except Error StepEnd) (h : run.transcript = w.transcript) :
    (node.settle run result).Obeys watch Watch.Settles w := by
  unfold settle
  cases result with
  | error error =>
    simp only [Activity.obeys_map]
    exact Run.watched_fail _ _ h
  | ok result =>
    simp only [Activity.obeys_bind, Activity.obeys_poll]
    refine ⟨watch_allows rfl, fun cancelled => ?_⟩
    cases cancelled with
    | true =>
      simp only [if_true, Activity.obeys_map]
      exact Run.watched_fail _ _ h
    | false =>
      simp only [Bool.false_eq_true, if_false]
      cases result with
      | complete result =>
        simp only [Activity.obeys_map]
        exact watched_commit result rfl h
      | awaitInput request =>
        simp only [Activity.obeys_map]
        exact Run.watched_suspend _ _ rfl h
      | awaitApproval request checkpoint =>
        simp only [Activity.obeys_bind, Activity.obeys_freshId, Activity.obeys_map]
        exact ⟨watch_allows rfl, fun id => Run.watched_suspend _ _ rfl h⟩

/-- A node is started only if the run is known not to be cancelled. -/
theorem watched_enter (setting : Setting) (hclear : w.clear) (h : run.transcript = w.transcript) :
    (node.enter setting run).Obeys watch Watch.Settles w := by
  unfold enter
  cases node.countExecution run.state with
  | error error => exact watched_settle _ h
  | ok state =>
    simp only [Activity.obeys_bind, Activity.obeys_emit]
    refine ⟨fun _ => hclear, (node.inside_execute setting _ _).watched fun clear result => ?_⟩
    exact watched_settle result h

end Node

/-! ## The whole run -/

namespace Runner

/-- The next node is chosen behind the question whether the run is cancelled. -/
theorem watched_leaveBy (source : String) {enter : String → Node → Activity (Status × Run)}
    (h : run.transcript = w.transcript)
    (henter : ∀ name node, (enter name node).Obeys watch Watch.Ends { w with clear := true }) :
    (runner.leaveBy run source enter).Obeys watch Watch.Ends w := by
  unfold leaveBy
  simp only [Activity.obeys_bind, Activity.obeys_poll]
  refine ⟨watch_allows rfl, fun cancelled => ?_⟩
  cases cancelled with
  | true => exact Run.watched_fail _ _ h
  | false =>
    simp only [Bool.false_eq_true, if_false]
    cases runner.flow.selectRoute source run.state.get? with
    | error error => exact Run.watched_fail _ _ h
    | ok target =>
      by_cases hend : target = endName
      · simp only [hend, if_true]
        exact Run.watched_finish rfl h
      · simp only [hend, if_false]
        cases runner.flow.node? target with
        | none => exact Run.watched_fail _ _ h
        | some node => exact henter target node

/-- A node is left, and the next ones are entered, behind the question whether the run is
cancelled. -/
theorem watched_leave (source : String) (left : Nat) (h : run.transcript = w.transcript) :
    (runner.leave run source left).Obeys watch Watch.Ends w := by
  induction left generalizing run source w with
  | zero =>
    rw [leave]
    exact watched_leaveBy source h fun name node => Run.watched_fail _ _ h
  | succ left ih =>
    rw [leave]
    refine watched_leaveBy source h fun name node => ?_
    simp only [Activity.obeys_bind]
    refine Activity.Obeys.mono (Node.watched_enter runner.setting rfl h)
      fun after settled hsettled => ?_
    cases settled with
    | goesOn run => exact ih _ hsettled.2.1
    | stops status run => exact hsettled

variable (hsealed : run.Sealed)

include hsealed in
/-- An open run goes on behind the question whether it is cancelled. -/
theorem watched_advance (h : run.transcript = w.transcript) :
    (runner.advance run).Obeys watch Watch.Ends w := by
  unfold advance
  cases hcursor : run.cursor with
  | leaving source => exact watched_leave source _ h
  | suspended name pending =>
    simp only [Activity.obeys_bind, Activity.obeys_poll]
    refine ⟨watch_allows rfl, fun cancelled => ?_⟩
    cases cancelled with
    | true => exact Run.watched_fail _ _ h
    | false => exact ⟨rfl, h, by rw [Run.suspension?, hcursor]⟩
  | closed => exact ⟨h, hcursor, hsealed hcursor⟩

/-- What follows the execution of a node is done as the monitor demands: if the execution ended the
run, there is nothing left to do. -/
theorem watched_goOn {settled : Settled} (h : w.Settles settled) :
    (runner.goOn settled).Obeys watch Watch.Ends w := by
  cases settled with
  | goesOn run => exact watched_advance (fun hclosed => absurd hclosed h.2.2) h.2.1
  | stops status run => exact h

/-- What comes of the execution of a node after an answer. -/
theorem watched_answered (before : Run) {after : Watch} (result : Except Error StepEnd)
    (h : run.transcript = after.transcript) :
    (node.settle run result >>= fun settled => (fun left : Status × Run => (.ok left.1, left.2)) <$>
      runner.goOn settled).Obeys watch (w.Answers before) after := by
  simp only [Activity.obeys_bind, Activity.obeys_map]
  exact (Node.watched_settle result h).mono fun after settled hsettled =>
    (watched_goOn hsettled).mono fun _ _ hleft => hleft

/-- An answer is taken up behind the question whether the run is cancelled. -/
theorem watched_resume (answer : Resume) (h : run.transcript = w.transcript) :
    (runner.resume run answer).Obeys watch (w.Answers run) w := by
  unfold resume
  cases run.cursor with
  | leaving source => exact ⟨rfl, rfl, .inl rfl⟩
  | closed => exact ⟨rfl, rfl, .inl rfl⟩
  | suspended name pending =>
    simp only [Activity.obeys_bind, Activity.obeys_poll]
    refine ⟨watch_allows rfl, fun cancelled => ?_⟩
    cases cancelled with
    | true =>
      simp only [if_true, Activity.obeys_map]
      exact Run.watched_fail _ _ h
    | false =>
      simp only [Bool.false_eq_true, if_false]
      cases runner.flow.node? name with
      | none =>
        simp only [Activity.obeys_map]
        exact Run.watched_fail _ _ h
      | some node =>
        -- An answer that does not fit is refused; any other is taken up, which may cancel the run.
        cases pending with
        | input request =>
          cases answer with
          | approval decision => exact ⟨rfl, rfl, .inr rfl⟩
          | input value =>
            dsimp only
            cases node.acceptInput request value with
            | error error => exact ⟨rfl, rfl, .inr rfl⟩
            | ok result => exact watched_answered run _ h
        | approval id request checkpoint =>
          cases answer with
          | input value => exact ⟨rfl, rfl, .inr rfl⟩
          | approval decision =>
            simp only [Activity.obeys_bind, Activity.obeys_emit]
            refine ⟨watch_allows rfl,
              (runner.inside_decided _ _ _).watched fun clear result => ?_⟩
            exact (Activity.obeys_bind _ _ _).1 (watched_answered run result h)

include hsealed

/-- Cancelling ends the run, without committing anything. -/
theorem watched_cancel (h : run.transcript = w.transcript) :
    (runner.cancel run).Obeys watch Watch.Ends w := by
  unfold cancel
  simp only [Activity.obeys_bind, Activity.obeys_cancel]
  refine ⟨watch_allows rfl, ?_⟩
  cases hnode : run.node? with
  | none =>
    have hcursor : run.cursor = .closed := by
      unfold Run.node? at hnode
      split at hnode <;> simp_all
    exact ⟨h, hcursor, hsealed hcursor⟩
  | some name => exact Run.watched_fail _ _ h

/-- A command commits something only while the run is known not to be cancelled. -/
theorem watched_carryOut (command : Command) (h : run.transcript = w.transcript) :
    (runner.carryOut run command).Obeys watch (w.Carries run command) w := by
  unfold carryOut
  cases command with
  | provideInput name value => exact ⟨rfl, rfl, rfl, rfl, .inl rfl⟩
  | advance =>
    simp only [Activity.obeys_map]
    exact watched_advance hsealed h
  | resume answer =>
    simp only [Activity.obeys_bind, Activity.obeys_pure]
    exact watched_resume answer h
  | cancel =>
    simp only [Activity.obeys_map]
    exact watched_cancel hsealed h
  | signalCancel =>
    simp only [Activity.obeys_bind, Activity.obeys_cancel, Activity.obeys_pure]
    exact ⟨watch_allows rfl, rfl, rfl, rfl, rfl, .inr rfl⟩

end Runner

/-! ## What a command leaves -/

namespace Watch.Carries

variable {command : Command} {after : Watch} {left : Option (Except Error Status) × Run}
  (h : w.Carries run command after left)
include h

/-- The lines of a run are those of which the events told. -/
theorem linesOf (hrun : run.transcript = w.transcript) :
    Runner.linesOf left = after.transcript := by
  obtain ⟨_ | error | status, left⟩ := left
  · exact h.2.1.trans (hrun.trans h.1.symm)
  · obtain ⟨rfl, htranscript, -⟩ := h
    exact hrun.trans htranscript.symm
  · cases status with
    | waiting suspension => exact h.2.1
    | done outcome => exact h.2.1
    | failed failure => exact h.1

/-- A status that is reported when the run is not known to be uncancelled is a failure. -/
theorem failed (hclear : ¬ after.clear) {status : Status} (hstatus : left.1 = some (.ok status)) :
    (∃ failure, status = .failed failure) ∧ left.2.cursor = .closed ∧ left.2.state = .empty := by
  obtain ⟨_, left⟩ := left
  subst hstatus
  cases status with
  | waiting suspension => exact absurd h.1 hclear
  | done outcome => exact absurd h.1 hclear
  | failed failure => exact ⟨⟨failure, rfl⟩, h.2⟩

/-- If it is no longer known that the run is not cancelled, the command reports a failure, or is the
cancelling itself. -/
theorem exists_failed (hstart : w.clear) (hclear : ¬ after.clear)
    (hcommand : command ≠ .signalCancel) :
    ∃ failure, left.1 = some (.ok (.failed failure)) := by
  obtain ⟨_ | error | status, left⟩ := left
  · rcases h.2.2.2.2 with rfl | rfl
    · exact absurd hstart hclear
    · exact absurd rfl hcommand
  · rcases h.2.2 with rfl | hafter
    · exact absurd hstart hclear
    · exact absurd hafter hclear
  · obtain ⟨⟨failure, rfl⟩, -⟩ := h.failed hclear rfl
    exact ⟨failure, rfl⟩

/-- A run that is left is sealed. -/
theorem sealed_left (hsealed : run.Sealed) : left.2.Sealed := by
  obtain ⟨_ | error | status, left⟩ := left
  · exact fun hclosed => h.2.2.1.trans (hsealed (h.2.2.2.1.symm.trans hclosed))
  · obtain ⟨rfl, -⟩ := h
    exact hsealed
  · cases status with
    | waiting suspension =>
      have hwaits : left.suspension? = some suspension := h.2.2
      intro (hclosed : left.cursor = .closed)
      simp [Run.suspension?, hclosed] at hwaits
    | done outcome => exact fun _ => h.2.2.2
    | failed failure => exact fun _ => h.2.2

end Watch.Carries

/-! ## Under a host -/

variable {σ : Type} {host : Host σ}

/-- What is known of a run is true of its session, which has come some way from its start. -/
structure Watch.Knows (run : Run) (start : Session σ) (w : Watch) (session : Session σ) :
    Prop where
  clear : w.clear → session.cancelled = false
  transcript : ∃ events, session.log = start.log ++ events ∧
    w.transcript = run.transcript ++ events.filterMap Event.line?

/-- Knowledge at the start of a command. -/
def Watch.start (run : Run) (session : Session σ) : Watch := ⟨!session.cancelled, run.transcript⟩

/-- At the start of a command, what is taken down of the run is true. -/
theorem Watch.knows_start (run : Run) (session : Session σ) :
    (Watch.start run session).Knows run session session :=
  ⟨fun h => by simpa [start] using h, [], by simp [start]⟩

/-- Every effect keeps the knowledge true. -/
theorem Watch.Knows.answer {start session : Session σ} (h : w.Knows run start session)
    (effect : Effect) :
    (w.after effect (session.answer host effect).1).Knows run start
      (session.answer host effect).2 := by
  obtain ⟨hclear, events, hlog, htranscript⟩ := h
  refine ⟨?_, events ++ effect.event?.toList, ?_, ?_⟩
  · cases effect with
    | emit event => cases event <;> exact hclear
    | freshId => exact hclear
    | poll => simp [after, Session.answer]
    | _ => exact fun hknown => absurd hknown Bool.false_ne_true
  · rw [Activity.log_answer, hlog, List.append_assoc]
  · rw [List.filterMap_append, ← List.append_assoc, ← htranscript]
    cases effect with
    | emit event => cases event <;> simp [after, Effect.event?, Event.line?]
    | _ => simp [after, Effect.event?]

/-- A run that is cancelled stays so. -/
theorem Activity.cancelled_run (t : Activity α) {session : Session σ}
    (h : session.cancelled = true) : (t.run host session).2.cancelled = true := by
  induction t generalizing session with
  | done a => exact h
  | step effect next ih => exact ih _ (Session.cancelled_answer host h effect)

namespace Runner

/-- What happens to a command that is given to a run, as far as the run is cancelled before or in
the middle of it. -/
structure Halts (runner : Runner) (host : Host σ) (run : Run) (session : Session σ)
    (command : Command) : Prop where
  /-- At no moment at which the run is cancelled is anything committed. -/
  uncommitted : ∀ moment ∈ (runner.carryOut run command).moments host session,
    moment.1.cancelled = true → moment.2.commits = false
  /-- The transcript grows by the lines that the events tell, and by no others. -/
  transcript : linesOf ((runner.carryOut run command).run host session).1 = run.transcript ++
    ((runner.carryOut run command).events host session).filterMap Event.line?
  /-- A cancelled run stays cancelled. -/
  stays : session.cancelled = true →
    ((runner.carryOut run command).run host session).2.cancelled = true
  /-- If the run is cancelled by the end of a command, the command reports neither that the run is
  done nor that it waits, but a failure, and the run is closed without a state. -/
  failed : ((runner.carryOut run command).run host session).2.cancelled = true → ∀ status,
    ((runner.carryOut run command).run host session).1.1 = some (.ok status) →
      (∃ failure, status = .failed failure) ∧
        ((runner.carryOut run command).run host session).1.2.cursor = .closed ∧
        ((runner.carryOut run command).run host session).1.2.state = .empty
  /-- If the run is cancelled in the middle of a command, the command reports a failure. -/
  broken : session.cancelled = false →
    ((runner.carryOut run command).run host session).2.cancelled = true →
    command ≠ .signalCancel →
      ∃ failure, ((runner.carryOut run command).run host session).1.1 = some (.ok (.failed failure))
  /-- A command given to a cancelled run neither writes to its state nor emits or starts
  anything. -/
  unchanged : session.cancelled = true →
    (((runner.carryOut run command).run host session).1.2.state = run.state ∨
      ((runner.carryOut run command).run host session).1.2.state = .empty) ∧
    ((runner.carryOut run command).run host session).1.2.transcript = run.transcript ∧
    ((runner.carryOut run command).run host session).1.2.steps = run.steps
  /-- What the execution of a node wants written is dropped if the run is cancelled meanwhile. -/
  dropped : ∀ (node : Node) (run : Run) (result : Except Error StepEnd) (session : Session σ),
    session.cancelled = true → ∃ failure, ((node.settle run result).run host session).1 =
      .stops (.failed failure) { run with cursor := .closed, state := .empty }
  /-- Taking a cancelled run on fails with its cancellation. -/
  advance : session.cancelled = true → run.cursor ≠ .closed →
    ((runner.advance run).run host session).1.1 = .failed ⟨none, .cancelled⟩
  /-- Answering a cancelled run fails with its cancellation, whatever the answer. -/
  resume : session.cancelled = true → ∀ name pending, run.cursor = .suspended name pending →
    ∀ answer, ((runner.resume run answer).run host session).1.1 =
      .ok (.failed ⟨name, .cancelled⟩)

section Cancelled

variable {session : Session σ} (hcancelled : session.cancelled = true)
include hcancelled

/-- A cancelled run is not taken on. -/
theorem run_advance_of_cancelled (hopen : run.cursor ≠ .closed) :
    ((runner.advance run).run host session).1 =
      (.failed ⟨none, .cancelled⟩, { run with cursor := .closed, state := .empty }) := by
  have hleave : ∀ source left, ((runner.leave run source left).run host session).1 =
      (.failed ⟨none, .cancelled⟩, { run with cursor := .closed, state := .empty }) := by
    intro source left
    cases left <;> simp [leave, leaveBy, hcancelled, Run.fail]
  unfold advance
  cases hcursor : run.cursor with
  | leaving source => exact hleave source _
  | suspended name pending => simp [hcancelled, Run.fail]
  | closed => exact absurd hcursor hopen

/-- An answer to a cancelled run is not looked at. -/
theorem run_resume_of_cancelled {name : String} {pending : Pending}
    (hcursor : run.cursor = .suspended name pending) (answer : Resume) :
    ((runner.resume run answer).run host session).1 =
      (.ok (.failed ⟨name, .cancelled⟩), { run with cursor := .closed, state := .empty }) := by
  unfold resume
  rw [hcursor]
  simp [hcancelled, Run.fail]

/-- What came of the execution of a node is dropped if the run is cancelled. -/
theorem exists_run_settle_of_cancelled (node : Node) (run : Run) (result : Except Error StepEnd) :
    ∃ failure, ((node.settle run result).run host session).1 =
      .stops (.failed failure) { run with cursor := .closed, state := .empty } := by
  unfold Node.settle
  cases result with
  | error error => exact ⟨⟨node.name, error⟩, by simp [Run.fail]⟩
  | ok result => exact ⟨⟨node.name, .cancelled⟩, by simp [hcancelled, Run.fail]⟩

/-- A command that is given to a cancelled run leaves it alone or ends it. -/
theorem run_carryOut_of_cancelled (command : Command) :
    let left := ((runner.carryOut run command).run host session).1.2
    (left.state = run.state ∨ left.state = .empty) ∧ left.transcript = run.transcript ∧
      left.steps = run.steps := by
  unfold carryOut
  cases command with
  | provideInput name value => exact ⟨.inl rfl, rfl, rfl⟩
  | signalCancel => exact ⟨.inl rfl, rfl, rfl⟩
  | advance =>
    by_cases hcursor : run.cursor = .closed
    · simp [reported, Runner.advance, hcursor]
    · simp only [Activity.run_map, reported, run_advance_of_cancelled hcancelled hcursor]
      exact ⟨.inr trivial, trivial, trivial⟩
  | resume answer =>
    cases hcursor : run.cursor with
    | suspended name pending =>
      simp only [Activity.run_then, Activity.run_pure,
        run_resume_of_cancelled hcancelled hcursor]
      exact ⟨.inr trivial, trivial, trivial⟩
    | _ => simp [Runner.resume, hcursor]
  | cancel =>
    simp only [Activity.run_map, reported, Runner.cancel, Activity.run_then]
    cases run.node? <;> simp [Run.fail]

end Cancelled

/-- A command leaves a run as the monitor says, with the knowledge that is true then. -/
theorem exists_carries (host : Host σ) (hsealed : run.Sealed) (session : Session σ)
    (command : Command) :
    (∃ after, after.Knows run session ((runner.carryOut run command).run host session).2 ∧
      (Watch.start run session).Carries run command after
        ((runner.carryOut run command).run host session).1) ∧
      ∀ moment ∈ (runner.carryOut run command).moments host session,
        ∃ w : Watch, w.Knows run session moment.1 ∧ watch.allows w moment.2 :=
  (runner.watched_carryOut hsealed command rfl).run
    (fun _ _ effect h _ => h.answer effect) (Watch.knows_start run session)

/-- Whatever is done to a run, it has discarded its state once it is closed. -/
theorem sealed_after (runner : Runner) (host : Host σ) (world : σ)
    (params inputs : List (String × Value)) (commands : List Command) :
    (runner.after host world params inputs commands).1.Sealed := by
  refine forall_after (fun run session command hsealed => ?_) world params inputs
    (by simp [Run.Sealed, Run.ofParams, Run.withInputs]) commands
  obtain ⟨⟨after, -, hleft⟩, -⟩ := exists_carries host hsealed session command
  exact hleft.sealed_left hsealed

/-- What cancelling guarantees holds of every command that is given to a sealed run. -/
theorem halts_of_sealed (hsealed : run.Sealed) (session : Session σ) (command : Command) :
    runner.Halts host run session command := by
  obtain ⟨⟨after, hknows, hleft⟩, hmoments⟩ := exists_carries host hsealed session command
  have hclear : ((runner.carryOut run command).run host session).2.cancelled = true →
      ¬ after.clear := fun hcancelled hclear =>
    Bool.false_ne_true ((hknows.clear hclear).symm.trans hcancelled)
  refine ⟨fun moment hmem hcancelled => ?_, ?_, fun h => Activity.cancelled_run _ h,
    fun hcancelled status => hleft.failed (hclear hcancelled),
    fun hstart hcancelled => hleft.exists_failed (by simp [Watch.start, hstart])
      (hclear hcancelled),
    fun h => run_carryOut_of_cancelled h command,
    fun node run result session h => exists_run_settle_of_cancelled h node run result,
    fun h hopen => congrArg Prod.fst (run_advance_of_cancelled h hopen),
    fun h name pending hcursor answer =>
      congrArg Prod.fst (run_resume_of_cancelled h hcursor answer)⟩
  · obtain ⟨w, hw, hallows⟩ := hmoments moment hmem
    cases hcommits : moment.2.commits with
    | false => rfl
    | true => exact absurd ((hw.clear (hallows hcommits)).symm.trans hcancelled) Bool.false_ne_true
  · obtain ⟨events, hlog, htranscript⟩ := hknows.transcript
    rw [← Activity.eq_events_of_log hlog, ← htranscript]
    exact hleft.linesOf rfl

/-- From the moment at which a run is cancelled nothing is committed, and the run ends in a
failure. -/
theorem halts_after (runner : Runner) (host : Host σ) (world : σ)
    (params inputs : List (String × Value)) (commands : List Command) (command : Command) :
    let left := runner.after host world params inputs commands
    runner.Halts host left.1 left.2 command :=
  halts_of_sealed (sealed_after runner host world params inputs commands) _ command

end Runner

end AgentFlow
