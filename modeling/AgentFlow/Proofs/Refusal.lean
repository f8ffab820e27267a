import AgentFlow.Proofs.Cancellation

/-!
# What does nothing to a run

A caller may answer what was not asked, ask again how a run stands, or go on with a run that has
ended. None of it may disturb the run: an answer that is refused leaves the run and its session
just as they were, so that refused answers before a good one can be left out; and a closed run is
told apart from an open one by every later command, which says so and does nothing else.

`Runner.Rests` collects what holds of a run at rest. It holds of every run that a list of commands
leads to (`Runner.rests_after`): that a closed run has no state is what the monitor of
`Runner.exists_carries` tells, and the rest follows from how commands are answered.
-/

namespace AgentFlow

variable {σ : Type} {host : Host σ} {runner : Runner} {run : Run} {session : Session σ}

/-- An input node refuses a value as an invalid answer, whatever is wrong with it. -/
theorem Node.exists_of_acceptInput_eq_error {node : Node} {request : InputRequest} {value : Value}
    {error : Error} (h : node.acceptInput request value = .error error) :
    ∃ reason, error = .invalidResume reason := by
  simp only [acceptInput] at h
  split at h
  all_goals
    split at h
    · exact ⟨_, (Except.error.inj h).symm⟩
    · split at h
      · cases h
      · exact ⟨_, (Except.error.inj h).symm⟩

/-- What is told to the caller who gives a command to a closed run. -/
def Command.whenClosed : Command → Option (Except Error Status)
  | .provideInput _ _ | .signalCancel => none
  | .advance | .cancel => some (.ok Run.alreadyFinished)
  | .resume _ => some (.error (.invalidResume "run is not waiting on its caller"))

namespace Runner

/-! ## Refused answers -/

/-- An answer that is refused is invalid, and leaves the run and its session alone. -/
theorem run_resume_of_refused {answer : Resume} {error : Error}
    (h : ((runner.resume run answer).run host session).1.1 = .error error) :
    (∃ reason, error = .invalidResume reason) ∧
      (runner.resume run answer).run host session = ((.error error, run), session) := by
  unfold resume at h ⊢
  cases hcursor : run.cursor with
  | suspended name pending =>
    rw [hcursor] at h
    simp only [Activity.run_then, Activity.run_poll] at h ⊢
    by_cases hcancelled : session.cancelled
    · simp [hcancelled] at h
    · simp only [hcancelled, Bool.false_eq_true, if_false] at h ⊢
      cases hnode : runner.flow.node? name with
      | none => simp [hnode] at h
      | some node =>
        simp only [hnode] at h ⊢
        -- Only a value that does not fit, or an answer of the wrong kind, is refused.
        cases pending with
        | input request =>
          cases answer with
          | input value =>
            cases haccept : node.acceptInput request value with
            | ok result => simp [haccept] at h
            | error reason =>
              simp only [haccept, Activity.run_pure] at h ⊢
              obtain rfl := Except.error.inj h
              exact ⟨Node.exists_of_acceptInput_eq_error haccept, rfl⟩
          | approval decision =>
            obtain rfl := Except.error.inj h
            exact ⟨⟨_, rfl⟩, rfl⟩
        | approval id request checkpoint =>
          cases answer with
          | input value =>
            obtain rfl := Except.error.inj h
            exact ⟨⟨_, rfl⟩, rfl⟩
          | approval decision => simp at h
  -- A run that does not wait refuses every answer.
  | leaving source =>
    rw [hcursor] at h
    obtain rfl := Except.error.inj h
    exact ⟨⟨_, rfl⟩, rfl⟩
  | closed =>
    rw [hcursor] at h
    obtain rfl := Except.error.inj h
    exact ⟨⟨_, rfl⟩, rfl⟩

/-- Answers that are refused one after the other make no difference to the commands that
follow. -/
theorem run_carryOutAll_of_refused (answers : List Resume) (rest : List Command)
    (h : ∀ result ∈ ((runner.carryOutAll run (answers.map .resume)).run host session).1.1,
      ∃ error, result = some (.error error)) :
    (runner.carryOutAll run (answers.map .resume ++ rest)).run host session =
      let refusals := ((runner.carryOutAll run (answers.map .resume)).run host session).1.1
      let left := (runner.carryOutAll run rest).run host session
      ((refusals ++ left.1.1, left.1.2), left.2) := by
  induction answers with
  | nil => rfl
  | cons answer answers ih =>
    simp only [List.map_cons, List.cons_append, carryOutAll, carryOut, Activity.run_then,
      Activity.run_pure, List.mem_cons, forall_eq_or_imp] at h ⊢
    obtain ⟨⟨error, herror⟩, hrest⟩ := h
    obtain ⟨-, hrun⟩ := run_resume_of_refused (Option.some.inj herror)
    simp only [hrun] at hrest ⊢
    simp only [ih hrest]

/-! ## Closed runs -/

/-- A command given to a closed run says that it is closed and does nothing, other than to take in
values that are never used. -/
theorem run_carryOut_of_closed (runner : Runner) (host : Host σ) (session : Session σ)
    (hclosed : run.cursor = .closed) (command : Command) :
    let left := (runner.carryOut run command).run host session
    left.1.1 = command.whenClosed ∧ left.1.2 = { run with inputs := left.1.2.inputs } ∧
      left.2.log = session.log := by
  unfold carryOut
  cases command with
  | provideInput name value => exact ⟨rfl, rfl, rfl⟩
  | advance =>
    have hadvance : (runner.advance run).run host session =
        ((Run.alreadyFinished, run), session) := by simp [advance, hclosed]
    rw [Activity.run_map, hadvance]
    exact ⟨rfl, rfl, rfl⟩
  | resume answer =>
    have hresume : (runner.resume run answer).run host session =
        ((.error (.invalidResume "run is not waiting on its caller"), run), session) := by
      simp [resume, hclosed]
    rw [Activity.run_then, hresume]
    exact ⟨rfl, rfl, rfl⟩
  | cancel =>
    have hcancel : (runner.cancel run).run host session =
        ((Run.alreadyFinished, run), { session with cancelled := true }) := by
      simp [cancel, Run.node?, hclosed]
    rw [Activity.run_map, hcancel]
    exact ⟨rfl, rfl, rfl⟩
  | signalCancel => exact ⟨rfl, rfl, rfl⟩

/-- Commands given to a closed run say that it is closed, and change nothing but the values that are
supplied for it and never used. -/
theorem run_carryOutAll_of_closed (runner : Runner) (host : Host σ) (session : Session σ)
    (hclosed : run.cursor = .closed) (commands : List Command) :
    let left := (runner.carryOutAll run commands).run host session
    left.1.1 = commands.map Command.whenClosed ∧
      left.1.2 = { run with inputs := left.1.2.inputs } ∧ left.2.log = session.log := by
  induction commands generalizing run session with
  | nil => exact ⟨rfl, rfl, rfl⟩
  | cons command rest ih =>
    obtain ⟨hresult, hrun, hlog⟩ := run_carryOut_of_closed runner host session hclosed command
    -- What the command leaves is closed as well.
    have hstays : ((runner.carryOut run command).run host session).1.2.cursor = .closed := by
      rw [hrun]
      exact hclosed
    obtain ⟨hresults, hruns, hlogs⟩ :=
      ih ((runner.carryOut run command).run host session).2 hstays
    simp only [carryOutAll, Activity.run_then, Activity.run_pure, List.map_cons]
    refine ⟨by rw [hresult, hresults], ?_, hlogs.trans hlog⟩
    rw [hruns, hrun]

/-! ## Runs at rest -/

/-- What a caller can rely on between two commands. -/
structure Rests (runner : Runner) (host : Host σ) (run : Run) (session : Session σ) : Prop where
  /-- An answer that is refused is refused as invalid. Nothing is told to the observers, and the run
  and all around it stay as they are. -/
  refused : ∀ answer error, ((runner.resume run answer).run host session).1.1 = .error error →
    (∃ reason, error = .invalidResume reason) ∧
      (runner.resume run answer).run host session = ((.error error, run), session)
  /-- After any number of answers that are refused, commands do what they would have done
  without. -/
  retried : ∀ (answers : List Resume) (rest : List Command),
    (∀ result ∈ ((runner.carryOutAll run (answers.map .resume)).run host session).1.1,
      ∃ error, result = some (.error error)) →
    (runner.carryOutAll run (answers.map .resume ++ rest)).run host session =
      let refusals := ((runner.carryOutAll run (answers.map .resume)).run host session).1.1
      let left := (runner.carryOutAll run rest).run host session
      ((refusals ++ left.1.1, left.1.2), left.2)
  /-- A run that is said to wait is left waiting for what was said. -/
  awaits : ∀ command suspension,
    ((runner.carryOut run command).run host session).1.1 = some (.ok (.waiting suspension)) →
      ((runner.carryOut run command).run host session).1.2.suspension? = some suspension
  /-- Taking on a run that waits says once more what it waits for, and does nothing. -/
  waiting : ∀ suspension, run.suspension? = some suspension → session.cancelled = false →
    (runner.advance run).run host session = ((.waiting suspension, run), session)
  /-- A run that is said to be done or to have failed is closed and has no state. -/
  ended : ∀ command status,
    ((runner.carryOut run command).run host session).1.1 = some (.ok status) →
      (∀ suspension, status ≠ .waiting suspension) →
      ((runner.carryOut run command).run host session).1.2.cursor = .closed ∧
        ((runner.carryOut run command).run host session).1.2.state = .empty
  /-- A closed run has no state, and every command that follows says that it has finished, tells
  nothing to the observers and changes neither state, transcript nor steps. -/
  closed : run.cursor = .closed → run.state = .empty ∧ ∀ commands : List Command,
    let left := (runner.carryOutAll run commands).run host session
    left.1.1 = commands.map Command.whenClosed ∧
      left.1.2 = { run with inputs := left.1.2.inputs } ∧ left.2.log = session.log

/-- Between two commands, a caller can rely on a run that is sealed. -/
theorem rests_of_sealed (hsealed : run.Sealed) (session : Session σ) :
    runner.Rests host run session := by
  refine ⟨fun _ _ => run_resume_of_refused, run_carryOutAll_of_refused,
    fun command suspension hstatus => ?_, fun suspension hwaits hcancelled => ?_,
    fun command status hstatus hends => ?_,
    fun hclosed => ⟨hsealed hclosed, run_carryOutAll_of_closed runner host session hclosed⟩⟩
  · obtain ⟨⟨_, -, hleft⟩, -⟩ := exists_carries host hsealed session command
    unfold Watch.Carries at hleft
    rw [hstatus] at hleft
    exact hleft.2.2
  · unfold Run.suspension? at hwaits
    unfold advance
    cases hcursor : run.cursor with
    | suspended name pending =>
      rw [hcursor] at hwaits
      obtain rfl := Option.some.inj hwaits
      simp [hcancelled]
    | _ => simp [hcursor] at hwaits
  · obtain ⟨⟨_, -, hleft⟩, -⟩ := exists_carries host hsealed session command
    unfold Watch.Carries at hleft
    rw [hstatus] at hleft
    cases status with
    | waiting suspension => exact absurd rfl (hends suspension)
    | done outcome => exact hleft.2.2
    | failed failure => exact hleft.2

/-- Refused answers and repeated commands leave every run as it was. -/
theorem rests_after (runner : Runner) (host : Host σ) (world : σ)
    (params inputs : List (String × Value)) (commands : List Command) :
    let left := runner.after host world params inputs commands
    runner.Rests host left.1 left.2 :=
  rests_of_sealed (sealed_after runner host world params inputs commands) _

end Runner

end AgentFlow
