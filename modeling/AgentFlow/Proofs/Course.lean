import AgentFlow.Proofs.Run

/-!
# The course of a run

A command takes a run through any number of nodes. What holds at every moment of a run is shown one
round at a time: `Runner.round` executes one node or ends the run, and `Runner.take` takes up an
answer and goes no further than the node that waits for it. Taking a run on is a round and then
taking on what it leaves (`Runner.advance_eq_round`), and an answer is followed up in the same way
(`Runner.resume_eq_take`).

A `Point` is a run in its session. A stride carries out a command for one round only, and
`Runner.Leads` says that some strides lead from one point to another. Whatever commands lead to is a
point that strides lead to (`Runner.leads_reached`), so that what every stride preserves holds
between any two rounds and between any two commands.
-/

namespace AgentFlow

namespace Settled

/-- The run as it stands after a round. -/
def run : Settled → Run
  | goesOn run => run
  | stops _ run => run

/-- A run that goes no further. -/
def ofEnd (left : Status × Run) : Settled := .stops left.1 left.2

end Settled

variable {σ : Type} {host : Host σ} {runner : Runner} {run : Run} {node : Node}

namespace Runner

/-! ## One round -/

/-- One round of taking a run on: the node that comes next is executed, or the run is stopped. -/
def round (runner : Runner) (run : Run) : Activity Settled :=
  match run.cursor with
  | .closed => return .stops Run.alreadyFinished run
  | .suspended name pending => do
    if ← Activity.poll then Settled.ofEnd <$> run.fail none .cancelled
    else return .stops (.waiting (.ofPending name pending)) run
  | .leaving source => do
    if ← Activity.poll then Settled.ofEnd <$> run.fail none .cancelled
    else match runner.flow.selectRoute source run.state.get? with
      | .error error => Settled.ofEnd <$> run.fail source error
      | .ok target =>
        if target = endName then Settled.ofEnd <$> run.finish
        else match runner.flow.node? target with
          | none => Settled.ofEnd <$> run.fail target (.structural s!"unknown node '{target}'")
          | some node =>
            if runner.budget ≤ run.steps then
              Settled.ofEnd <$> run.fail target (.stepBudget runner.budget)
            else node.enter runner.setting { run with steps := run.steps + 1 }

/-- Takes up an answer, up to the end of the node that waits for it. An answer may be refused. -/
def take (runner : Runner) (run : Run) (answer : Resume) : Activity (Except Error Settled) :=
  match run.cursor with
  | .suspended name pending => do
    if ← Activity.poll then (.ok ∘ Settled.ofEnd) <$> run.fail name .cancelled
    else match runner.flow.node? name with
      | none => (.ok ∘ Settled.ofEnd) <$> run.fail name (.structural s!"unknown node '{name}'")
      | some node =>
        match pending, answer with
        | .input request, .input value =>
          match node.acceptInput request value with
          | .error error => return .error error
          | .ok result => .ok <$> node.settle run (.ok (.complete result))
        | .approval id _ checkpoint, .approval decision => do
          Activity.emit (.approvalResolved id decision.isApproved)
          let result ← (runner.decided node checkpoint decision).activity
          .ok <$> node.settle run result
        | pending, answer => return .error (mismatch (.ofPending name pending) name answer)
  | _ => return .error (.invalidResume "run is not waiting on its caller")

/-- After a node, the executions left are those that the run has left. -/
theorem settle_then {left : Nat} (hleft : runner.left run = left) (result : Except Error StepEnd) :
    (node.settle run result >>= fun settled =>
      match settled with
      | .stops status run => return (status, run)
      | .goesOn run => runner.leave run node.name left) =
      node.settle run result >>= runner.goOn := by
  subst hleft
  rcases result with error | result | request | ⟨request, checkpoint⟩
  · rfl
  all_goals
    unfold Node.settle
    simp only [bind_assoc]
    congr 1
    funext cancelled
    cases cancelled with
    | true => rfl
    | false => ?_
  · simp only [Bool.false_eq_true, if_false, bind_map_left, Node.commit, bind_assoc, pure_bind]
    rfl
  · rfl
  · rfl

/-- What is done after a node was entered is to go on from how its execution was settled. -/
theorem enter_then {left : Nat} (hleft : runner.left run = left) :
    (node.enter runner.setting run >>= fun settled =>
      match settled with
      | .stops status run => return (status, run)
      | .goesOn run => runner.leave run node.name left) =
      node.enter runner.setting run >>= runner.goOn := by
  unfold Node.enter
  cases node.countExecution run.state with
  | error error => exact settle_then hleft _
  | ok state =>
    simp only [bind_assoc]
    refine congrArg (Activity.emit _ >>= ·) (funext fun _ => ?_)
    refine congrArg (Activity.bind _) (funext fun result => ?_)
    refine settle_then ?_ result
    exact hleft

/-- Going on behind a node, with what comes after the next one. -/
theorem advance_eq {source : String} (hcursor : run.cursor = .leaving source) :
    runner.advance run = runner.leaveBy run source
      (match runner.left run with
        | 0 => fun target _ => run.fail target (.stepBudget runner.budget)
        | _ + 1 => fun _ node =>
          node.enter runner.setting { run with steps := run.steps + 1 } >>= runner.goOn) := by
  have hadvance : runner.advance run = runner.leave run source (runner.left run) := by
    unfold advance
    rw [hcursor]
  rw [hadvance]
  cases hleft : runner.left run with
  | zero => rw [leave]
  | succ left =>
    have hnext : runner.left { run with steps := run.steps + 1 } = left := by
      unfold Runner.left at hleft
      change runner.budget - (run.steps + 1) = left
      omega
    rw [leave]
    refine congrArg (runner.leaveBy run source) (funext fun _ => funext fun node => ?_)
    exact enter_then hnext

/-- Unless the run is cancelled, it goes on to the node that the routes lead to. -/
theorem run_leaveBy {session : Session σ} {source target : String}
    (hopen : session.cancelled = false)
    (hroute : runner.flow.selectRoute source run.state.get? = .ok target)
    (hend : target ≠ endName) (hnode : runner.flow.node? target = some node)
    (enter : String → Node → Activity (Status × Run)) :
    (runner.leaveBy run source enter).run host session =
      (enter target node).run host session := by
  unfold leaveBy
  rw [Activity.run_then, Activity.run_poll]
  dsimp only
  rw [if_neg (Bool.eq_false_iff.1 hopen), hroute]
  simp only [hend, if_false, hnode]

/-- Nothing follows an end. -/
theorem ofEnd_then (t : Activity (Status × Run)) :
    (Settled.ofEnd <$> t) >>= runner.goOn = t := by
  rw [bind_map_left]
  exact bind_pure t

/-- Taking a run on is one round, and taking on what it leaves. -/
theorem advance_eq_round (runner : Runner) (run : Run) :
    runner.advance run = runner.round run >>= runner.goOn := by
  cases hcursor : run.cursor with
  | closed =>
    unfold advance round
    rw [hcursor]
    rfl
  | suspended name pending =>
    unfold advance round
    rw [hcursor]
    dsimp only
    rw [bind_assoc]
    refine congrArg (Activity.poll >>= ·) (funext fun cancelled => ?_)
    cases cancelled with
    | true => exact (ofEnd_then _).symm
    | false => rfl
  | leaving source =>
    rw [advance_eq hcursor]
    unfold leaveBy round
    rw [hcursor]
    dsimp only
    rw [bind_assoc]
    refine congrArg (Activity.poll >>= ·) (funext fun cancelled => ?_)
    cases cancelled with
    | true => exact (ofEnd_then _).symm
    | false =>
      simp only [Bool.false_eq_true, if_false]
      cases runner.flow.selectRoute source run.state.get? with
      | error error => exact (ofEnd_then _).symm
      | ok target =>
        by_cases hend : target = endName
        · simp only [hend, if_true]
          exact (ofEnd_then _).symm
        · simp only [hend, if_false]
          cases runner.flow.node? target with
          | none => exact (ofEnd_then _).symm
          | some node =>
            dsimp only
            unfold Runner.left
            by_cases hbudget : runner.budget ≤ run.steps
            · rw [if_pos hbudget, Nat.sub_eq_zero_of_le hbudget]
              exact (ofEnd_then _).symm
            -- Only here does the recursion of `leaveBy` open, with one execution fewer left for the
            -- rest.
            · obtain ⟨left, hleft⟩ := Nat.exists_eq_succ_of_ne_zero
                (Nat.sub_ne_zero_of_lt (Nat.lt_of_not_le hbudget))
              rw [if_neg hbudget, hleft]

/-- An answer that is accepted is followed by taking the run on. -/
theorem resume_eq_take (runner : Runner) (run : Run) (answer : Resume) :
    runner.resume run answer = runner.take run answer >>= fun
      | .error error => return (.error error, run)
      | .ok settled => (fun left => (.ok left.1, left.2)) <$> runner.goOn settled := by
  unfold resume take
  cases hcursor : run.cursor with
  | leaving source => rfl
  | closed => rfl
  | suspended name pending =>
    dsimp only
    rw [bind_assoc]
    refine congrArg (Activity.poll >>= ·) (funext fun cancelled => ?_)
    cases cancelled with
    | true => rfl
    | false =>
      simp only [Bool.false_eq_true, if_false]
      cases runner.flow.node? name with
      | none => rfl
      | some node =>
        cases pending with
        | input request =>
          cases answer with
          | approval decision => rfl
          | input value =>
            dsimp only
            cases node.acceptInput request value with
            | error error => rfl
            | ok result =>
              dsimp only
              -- Both settle the node with the value; taking up the answer stops there, and resuming
              -- goes on.
              rw [bind_map_left]
        | approval id request checkpoint =>
          cases answer with
          | input value => rfl
          | approval decision =>
            simp only [bind_assoc, bind_map_left]

/-! ## Strides -/

/-- Carries out a command, but takes the run on for one round only. -/
def stride (runner : Runner) (run : Run) : Command → Activity Run
  | .provideInput name value => return run.provideInput name value
  | .advance => Settled.run <$> runner.round run
  | .resume answer => do
    match ← runner.take run answer with
    | .error _ => return run
    | .ok settled => return settled.run
  | .cancel => Prod.snd <$> runner.cancel run
  | .signalCancel => do
    Activity.cancel
    return run

end Runner

/-- A run in its session. -/
structure Point (σ : Type) where
  run : Run
  session : Session σ

namespace Point

/-- The events of a run up to a point. -/
def log (point : Point σ) : List Event := point.session.log

/-- A run that is not closed yet. -/
def IsOpen (point : Point σ) : Prop := point.run.cursor ≠ .closed

end Point

/-- A run that stands behind a node is not closed. -/
theorem Run.ne_closed_of_leaving {source : String} (h : run.cursor = .leaving source) :
    run.cursor ≠ .closed := by
  rw [h]
  nofun

/-- A run that waits is not closed. -/
theorem Run.ne_closed_of_suspended {name : String} {pending : Pending}
    (h : run.cursor = .suspended name pending) : run.cursor ≠ .closed := by
  rw [h]
  nofun

namespace Runner

/-- Where a stride leads to. -/
def next (runner : Runner) (host : Host σ) (point : Point σ) (command : Command) : Point σ :=
  let (run, session) := (runner.stride point.run command).run host point.session
  ⟨run, session⟩

/-- Some strides lead from one point to another. -/
def Leads (runner : Runner) (host : Host σ) : Point σ → Point σ → Prop :=
  Relation.ReflTransGen fun point point' => ∃ command, runner.next host point command = point'

/-- Where a run starts. -/
def outset (runner : Runner) (host : Host σ) (world : σ) (params inputs : List (String × Value)) :
    Point σ :=
  let (run, session) := (runner.start params inputs).run host ⟨world, false, []⟩
  ⟨run, session⟩

/-- Where a list of commands leads to. -/
def reached (runner : Runner) (host : Host σ) (world : σ) (params inputs : List (String × Value))
    (commands : List Command) : Point σ :=
  let (run, session) := runner.after host world params inputs commands
  ⟨run, session⟩

variable {point point' : Point σ}

/-- What comes next after a command is where the command leads. -/
theorem leads_next (runner : Runner) (host : Host σ) (point : Point σ) (command : Command) :
    runner.Leads host point (runner.next host point command) :=
  .single ⟨command, rfl⟩

/-- Whatever the replies are, an activity comes to an end. -/
theorem keeps_anything {α : Type} (t : Activity α) : t.Keeps anything fun _ => True := by
  induction t with
  | done a => trivial
  | step effect next ih =>
    refine ⟨?_, fun reply _ => ih reply⟩
    cases effect with
    | emit event => cases event <;> trivial
    | _ => trivial

/-- A result that is applied to a run makes it fail, go on behind the node, or wait in it. -/
theorem keeps_settle_cases (node : Node) (run : Run) (result : Except Error StepEnd)
    {post : Settled → Prop}
    (fails : ∀ error, result = .error error ∨ error = .cancelled →
      post (.stops (.failed ⟨node.name, error⟩) { run with cursor := .closed, state := .empty }))
    (completes : ∀ done, result = .ok (.complete done) →
      post (.goesOn { run with
        cursor := .leaving node.name
        state := run.state.merge done.fields
        transcript := run.transcript ++ done.lines }))
    (suspends : ∀ pending, post (.stops (.waiting (.ofPending node.name pending))
      { run with cursor := .suspended node.name pending })) :
    (node.settle run result).Keeps anything post := by
  have hfail : ∀ error, result = .error error ∨ error = .cancelled →
      (Settled.ofEnd <$> run.fail node.name error).Keeps anything post := by
    intro error herror
    rw [Activity.keeps_map, Run.fail, Activity.keeps_bind, Activity.keeps_emit]
    exact ⟨trivial, fails error herror⟩
  have hsuspend : ∀ pending,
      (Settled.ofEnd <$> run.suspend node.name pending).Keeps anything post := by
    intro pending
    rw [Activity.keeps_map]
    unfold Run.suspend
    cases pending <;>
      · rw [Activity.keeps_bind, Activity.keeps_emit]
        exact ⟨trivial, suspends _⟩
  unfold Node.settle
  -- A failure is applied at once; a result only behind the question whether the run is cancelled.
  rcases result with error | stepEnd
  · exact hfail error (.inl rfl)
  rw [Activity.keeps_bind, Activity.keeps_poll]
  intro cancelled
  cases cancelled with
  | true => exact hfail .cancelled (.inr rfl)
  | false =>
    simp only [Bool.false_eq_true, if_false]
    cases stepEnd with
    | complete done =>
      rw [Activity.keeps_map, Node.commit, Activity.keeps_bind]
      refine (keeps_anything _).mono fun _ _ => ?_
      rw [Activity.keeps_bind]
      refine (keeps_anything _).mono fun _ _ => ?_
      rw [Activity.keeps_bind, Activity.keeps_emit]
      exact ⟨trivial, completes done rfl⟩
    | awaitInput request => exact hsuspend _
    | awaitApproval request checkpoint =>
      rw [Activity.keeps_bind, Activity.keeps_freshId]
      exact fun id => hsuspend _

/-- What is applied to a run leaves its steps alone. -/
theorem keeps_settle_steps (node : Node) (run : Run) (result : Except Error StepEnd) :
    (node.settle run result).Keeps anything fun settled => settled.run.steps = run.steps :=
  keeps_settle_cases node run result (fun _ _ => rfl) (fun _ _ => rfl) fun _ => rfl

/-- A round that is not the last one has executed one node. -/
theorem keeps_round_steps (runner : Runner) (run : Run) :
    (runner.round run).Keeps anything fun settled => ∀ run', settled = .goesOn run' →
      run.steps < runner.budget ∧ run'.steps = run.steps + 1 := by
  have hstops : ∀ t : Activity (Status × Run), (Settled.ofEnd <$> t).Keeps anything
      fun settled => ∀ run', settled = .goesOn run' →
        run.steps < runner.budget ∧ run'.steps = run.steps + 1 := by
    intro t
    rw [Activity.keeps_map]
    exact (keeps_anything t).mono fun _ _ => nofun
  -- Only the execution of a node can leave the run to go on; all other rounds stop it.
  unfold round
  cases run.cursor with
  | closed => exact nofun
  | suspended name pending =>
    dsimp only
    rw [Activity.keeps_bind, Activity.keeps_poll]
    intro cancelled
    cases cancelled with
    | true => exact hstops _
    | false => exact nofun
  | leaving source =>
    dsimp only
    rw [Activity.keeps_bind, Activity.keeps_poll]
    intro cancelled
    split
    · exact hstops _
    cases runner.flow.selectRoute source run.state.get? with
    | error error => exact hstops _
    | ok target =>
      dsimp only
      split
      · exact hstops _
      cases runner.flow.node? target with
      | none => exact hstops _
      | some node =>
        dsimp only
        split
        · exact hstops _
        rename_i hbudget
        have hsettle : ∀ run' result, run'.steps = run.steps + 1 →
            (node.settle run' result).Keeps anything fun settled =>
              ∀ run'', settled = .goesOn run'' →
                run.steps < runner.budget ∧ run''.steps = run.steps + 1 := by
          intro run' result hsteps
          refine (keeps_settle_steps node run' result).mono ?_
          rintro _ hsame run'' rfl
          exact ⟨Nat.lt_of_not_le hbudget, hsame.trans hsteps⟩
        unfold Node.enter
        dsimp only
        cases node.countExecution run.state with
        | error error => exact hsettle _ _ rfl
        | ok state =>
          dsimp only
          rw [Activity.keeps_bind, Activity.keeps_emit]
          refine ⟨trivial, ?_⟩
          rw [Activity.keeps_bind]
          exact (keeps_anything _).mono fun result _ => hsettle _ _ rfl

/-- Going on with a run is done in strides. -/
theorem leads_goOn (settled : Settled) (session : Session σ) :
    runner.Leads host ⟨settled.run, session⟩
      ⟨((runner.goOn settled).run host session).1.2,
        ((runner.goOn settled).run host session).2⟩ := by
  cases settled with
  | stops status run => exact .refl
  | goesOn run =>
    show runner.Leads host ⟨run, session⟩ ⟨((runner.advance run).run host session).1.2,
      ((runner.advance run).run host session).2⟩
    -- Every round that is not the last one uses up an execution.
    induction hleft : runner.left run using Nat.strongRecOn generalizing run session with
    | ind left ih =>
      have hround := (keeps_round_steps runner run).run
        (show host.Meets anything from fun _ _ => trivial) session
      have hnext : runner.next host ⟨run, session⟩ .advance =
          ⟨((runner.round run).run host session).1.run,
            ((runner.round run).run host session).2⟩ := by
        unfold next stride
        rw [Activity.run_map]
      have hfirst := runner.leads_next host ⟨run, session⟩ .advance
      rw [hnext] at hfirst
      rw [advance_eq_round, Activity.run_then]
      generalize (runner.round run).run host session = left at hround hfirst
      obtain ⟨settled, session'⟩ := left
      cases settled with
      | stops status run' => exact hfirst
      | goesOn run' =>
        obtain ⟨hbudget, hsteps⟩ := hround.1 run' rfl
        refine hfirst.trans (ih (runner.left run') ?_ session' run' rfl)
        unfold Runner.left at hleft ⊢
        omega

/-- Whatever a command leads to is what strides lead to. -/
theorem leads_carryOut (runner : Runner) (host : Host σ) (run : Run) (session : Session σ)
    (command : Command) :
    runner.Leads host ⟨run, session⟩ ⟨((runner.carryOut run command).run host session).1.2,
      ((runner.carryOut run command).run host session).2⟩ := by
  have hstride := runner.leads_next host ⟨run, session⟩ command
  unfold next stride at hstride
  unfold carryOut
  cases command with
  | provideInput name value => exact hstride
  | signalCancel => exact hstride
  | advance =>
    rw [Activity.run_map]
    exact leads_goOn (.goesOn run) session
  | cancel =>
    rw [Activity.run_map] at hstride ⊢
    exact hstride
  | resume answer =>
    dsimp only at hstride ⊢
    rw [resume_eq_take]
    simp only [Activity.run_then] at hstride ⊢
    generalize (runner.take run answer).run host session = left at hstride
    obtain ⟨result, session'⟩ := left
    cases result with
    | error error => exact hstride
    | ok settled =>
      simp only [Activity.run_map]
      exact hstride.trans (leads_goOn settled session')

/-- Whatever commands lead to is what strides lead to. -/
theorem leads_carryOutAll (runner : Runner) (host : Host σ) (run : Run) (session : Session σ)
    (commands : List Command) :
    runner.Leads host ⟨run, session⟩ ⟨((runner.carryOutAll run commands).run host session).1.2,
      ((runner.carryOutAll run commands).run host session).2⟩ := by
  induction commands generalizing run session with
  | nil => exact .refl
  | cons command rest ih =>
    rw [carryOutAll]
    simp only [Activity.run_then, Activity.run_pure]
    exact (runner.leads_carryOut host run session command).trans (ih _ _)

/-- Every point that commands lead to is one that strides lead to from the outset. -/
theorem leads_reached (runner : Runner) (host : Host σ) (world : σ)
    (params inputs : List (String × Value)) (commands : List Command) :
    runner.Leads host (runner.outset host world params inputs)
      (runner.reached host world params inputs commands) :=
  runner.leads_carryOutAll host _ _ commands

/-- Strides from a point that commands lead to go on from the outset. -/
theorem Leads.of_reached {world : σ} {params inputs : List (String × Value)}
    {commands : List Command} {point : Point σ}
    (h : runner.Leads host (runner.reached host world params inputs commands) point) :
    runner.Leads host (runner.outset host world params inputs) point :=
  (runner.leads_reached host world params inputs commands).trans h

end Runner

end AgentFlow
