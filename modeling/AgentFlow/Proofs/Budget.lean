import AgentFlow.Proofs.Moves

/-!
# The step budget

The graph of a flow may have any cycles, and a run may be suspended any number of times. It comes to
an end all the same: every round but the last executes a node, every execution is counted, and
beyond the budget nothing is executed. The count goes on where it was when a run is taken up again,
so that it bounds the whole life of the run and not one stretch of it.

Taking a run on for a number of rounds may leave it unfinished. `Runner.advanceWithin` says so with
`none`, and `Runner.advanceWithin_eq` that this does not happen with more rounds than the run has
executions left, whatever the replies are.
-/

namespace AgentFlow

section

variable {σ : Type} {host : Host σ} {runner : Runner}

/-- If two continuations are the same after every result that an activity can have, it does not
matter which one follows. -/
theorem Activity.Keeps.bind_congr {α β : Type} {c : Contract} {post : α → Prop} {t : Activity α}
    {f g : α → Activity β} (hall : ∀ effect reply, c.expects effect reply) (h : t.Keeps c post)
    (hsame : ∀ a, post a → f a = g a) : t >>= f = t >>= g := by
  induction t with
  | done a => exact hsame a h
  | step effect next ih =>
    exact congrArg (Activity.step effect) (funext fun reply => ih reply (h.2 reply (hall _ _)))

namespace Runner

/-! ## Rounds -/

/-- Takes a run on for a number of rounds: `none` if it goes on behind them. -/
def advanceWithin (runner : Runner) : Nat → Run → Activity (Option (Status × Run))
  | 0, _ => return none
  | rounds + 1, run => do
    match ← runner.round run with
    | .stops status run => return some (status, run)
    | .goesOn run => advanceWithin runner rounds run

/-- Answers a suspension and takes the run on for a number of rounds. -/
def resumeWithin (runner : Runner) (rounds : Nat) (run : Run) (answer : Resume) :
    Activity (Option (Except Error Status × Run)) := do
  match ← runner.take run answer with
  | .error error => return some (.error error, run)
  | .ok (.stops status run) => return some (.ok status, run)
  | .ok (.goesOn run) =>
    Option.map (fun left => (.ok left.1, left.2)) <$> runner.advanceWithin rounds run

/-- Any reply is as expected by the contract that demands nothing. -/
theorem expects_anything (effect : Effect) (reply : effect.Reply) :
    anything.expects effect reply := by
  cases effect <;> trivial

/-- A run is taken on in no more rounds than it has executions left, and one to stop. -/
theorem advanceWithin_eq {rounds : Nat} {run : Run} (h : runner.left run < rounds) :
    runner.advanceWithin rounds run = some <$> runner.advance run := by
  induction rounds generalizing run with
  | zero => exact absurd h (Nat.not_lt_zero _)
  | succ rounds ih =>
    rw [advance_eq_round, map_bind, advanceWithin]
    refine (keeps_round_steps runner run).bind_congr expects_anything fun settled hsettled => ?_
    cases settled with
    | stops status run' => rfl
    | goesOn run' =>
      -- The round has used up an execution, so that one round less is enough for the others.
      obtain ⟨hbudget, hsteps⟩ := hsettled run' rfl
      refine ih ?_
      unfold left at h ⊢
      omega

/-- Taking up an answer is no execution of its own. -/
theorem keeps_take_steps (runner : Runner) (run : Run) (answer : Resume) :
    (runner.take run answer).Keeps anything fun result => ∀ run', result = .ok (.goesOn run') →
      run'.steps = run.steps := by
  have hstops : ∀ t : Activity (Status × Run), ((.ok ∘ Settled.ofEnd) <$> t).Keeps anything
      fun result => ∀ run', result = (.ok (.goesOn run') : Except Error Settled) →
        run'.steps = run.steps := by
    intro t
    rw [Activity.keeps_map]
    exact (keeps_anything t).mono fun _ _ => nofun
  have hsettle : ∀ node result, (Except.ok <$> Node.settle node run result).Keeps anything
      fun result => ∀ run', result = (.ok (.goesOn run') : Except Error Settled) →
        run'.steps = run.steps := by
    intro node result
    rw [Activity.keeps_map]
    refine (keeps_settle_steps node run result).mono fun settled hsame run' heq => ?_
    obtain rfl := Except.ok.inj heq
    exact hsame
  -- An answer that is taken up either stops the run or settles the node that waits, and neither
  -- executes one.
  unfold take
  cases run.cursor with
  | leaving source => exact nofun
  | closed => exact nofun
  | suspended name pending =>
    dsimp only
    rw [Activity.keeps_bind, Activity.keeps_poll]
    intro cancelled
    split
    · exact hstops _
    cases runner.flow.node? name with
    | none => exact hstops _
    | some node =>
      dsimp only
      split
      · split
        · exact nofun
        · exact hsettle _ _
      · rw [Activity.keeps_bind, Activity.keeps_emit]
        refine ⟨trivial, ?_⟩
        rw [Activity.keeps_bind]
        exact (keeps_anything _).mono fun result _ => hsettle _ _
      · exact nofun

/-- An answered run comes to its end within the rounds as well, since it has as many executions left
as before. -/
theorem resumeWithin_eq {rounds : Nat} {run : Run} (answer : Resume)
    (h : runner.left run < rounds) :
    runner.resumeWithin rounds run answer = some <$> runner.resume run answer := by
  rw [resume_eq_take, map_bind, resumeWithin]
  refine (keeps_take_steps runner run answer).bind_congr expects_anything fun result hresult => ?_
  rcases result with error | (run' | ⟨status, run'⟩)
  · rfl
  · have hleft : runner.left run' < rounds := by
      unfold left at h ⊢
      rw [hresult run' rfl]
      exact h
    show Option.map _ <$> runner.advanceWithin rounds run' = some <$> (_ <$> runner.advance run')
    rw [advanceWithin_eq hleft, Functor.map_map, Functor.map_map]
    rfl
  · rfl

/-! ## Whole runs -/

/-- What the step budget guarantees at a point of a run. -/
structure Bounded (runner : Runner) (host : Host σ) (point : Point σ) : Prop where
  /-- Taking the run on ends within one round more than there are executions left. -/
  advances : ∀ rounds, runner.left point.run < rounds →
    runner.advanceWithin rounds point.run = some <$> runner.advance point.run
  /-- So does every answer. -/
  answers : ∀ answer rounds, runner.left point.run < rounds →
    runner.resumeWithin rounds point.run answer = some <$> runner.resume point.run answer
  /-- Not more executions are counted than the budget allows. -/
  steps : point.run.steps ≤ runner.budget
  /-- Every node that was started is counted. -/
  starts : point.log.countP Event.isStart ≤ point.run.steps
  /-- When the budget is used up, the next node is not started, whatever its counter holds. -/
  exhausted : ∀ source target, point.run.cursor = .leaving source →
    point.session.cancelled = false →
    runner.flow.selectRoute source point.run.state.get? = .ok target → target ≠ endName →
    point.run.steps = runner.budget →
      (runner.advance point.run).run host point.session =
        ((.failed ⟨target, .stepBudget runner.budget⟩,
            { point.run with cursor := .closed, state := .empty }),
          { point.session with log := point.log ++ [.runFailed (.stepBudget runner.budget)] })

variable {point point' : Point σ}

/-- The steps of a run and the starts that are told of keep within their bounds with every move. -/
theorem Moves.steps_le (h : runner.Moves point point')
    (hpoint : point.run.steps ≤ runner.budget ∧
      point.log.countP Event.isStart ≤ point.run.steps) :
    point'.run.steps ≤ runner.budget ∧ point'.log.countP Event.isStart ≤ point'.run.steps := by
  obtain ⟨hsteps, hstarts⟩ := hpoint
  cases h with
  | rests hrun hlog =>
    have hsame : point'.run.steps = point.run.steps := by rw [hrun]
    rw [hsame, hlog]
    exact ⟨hsteps, hstarts⟩
  | @fails steps error _ hcases hrun hlog =>
    have hsame : point'.run.steps = steps := by rw [hrun]
    rw [hsame, hlog, List.countP_append, countP_isStart_singleton rfl]
    omega
  | finishes _ _ hrun hlog =>
    have hsame : point'.run.steps = point.run.steps := by rw [hrun]
    rw [hsame, hlog, List.countP_append, countP_isStart_singleton rfl]
    exact ⟨hsteps, hstarts⟩
  | enters _ _ _ hbudget _ hworks hleaves hlog =>
    rw [hleaves.steps, hlog, List.countP_append, List.countP_cons_of_pos rfl,
      countP_isStart_entered hworks hleaves]
    exact ⟨hbudget, Nat.add_le_add_right hstarts 1⟩
  | resumes _ _ hopening hworks hleaves hlog =>
    rw [hleaves.steps, hlog, List.countP_append, countP_isStart_resumed hopening hworks hleaves]
    exact ⟨hsteps, hstarts⟩

/-- A run that has used up its budget does not start another node. -/
theorem run_advance_of_exhausted (hflow : runner.flow.Sound) {run : Run} {session : Session σ}
    {source target : String} (hcursor : run.cursor = .leaving source)
    (hopen : session.cancelled = false)
    (hroute : runner.flow.selectRoute source run.state.get? = .ok target) (hend : target ≠ endName)
    (hsteps : run.steps = runner.budget) :
    (runner.advance run).run host session =
      ((.failed ⟨target, .stepBudget runner.budget⟩,
          { run with cursor := .closed, state := .empty }),
        { session with log := session.log ++ [.runFailed (.stepBudget runner.budget)] }) := by
  obtain ⟨node, hnode⟩ :=
    (target_of_selectRoute (ready_anything hflow) hroute).resolve_left hend
  have hleft : runner.left run = 0 := Nat.sub_eq_zero_of_le hsteps.ge
  rw [advance_eq hcursor, hleft, run_leaveBy hopen hroute hend hnode]
  rfl

/-- Whatever the graph of a flow is like, its runs come to an end within the step budget, over the
whole of their life. -/
theorem bounded_of_compile {definition : Definition} {flow : Flow}
    (hcompile : Flow.compile definition = .ok flow) (setting : Setting) (host : Host σ) (world : σ)
    (params inputs : List (String × Value)) (commands : List Command) {point : Point σ}
    (hpoint : Runner.Leads ⟨flow, setting⟩ host
      (Runner.reached ⟨flow, setting⟩ host world params inputs commands) point) :
    Runner.Bounded ⟨flow, setting⟩ host point := by
  obtain ⟨hsteps, hstarts⟩ : point.run.steps ≤ Runner.budget ⟨flow, setting⟩ ∧
      point.log.countP Event.isStart ≤ point.run.steps :=
    hpoint.of_reached.induct trivial ⟨Nat.zero_le _, Nat.le_refl _⟩
      fun _ _ _ _ hmove => hmove.steps_le
  refine ⟨fun rounds => advanceWithin_eq, fun answer rounds => resumeWithin_eq answer, hsteps,
    hstarts, fun source target hcursor hopen hroute hend hused => ?_⟩
  exact run_advance_of_exhausted (Flow.sound_of_compile hcompile) hcursor hopen hroute hend hused

end Runner

end

/-- The sample never ends by itself. -/
theorem Sample.Swapping.bounded_swapping :
    Flow.compile definition = .ok flow ∧ point.run.cursor = .leaving "swap" ∧
      point.run.steps = 1 ∧ runner.Bounded host point := by
  have hcompile : Flow.compile definition = .ok flow := rfl
  exact ⟨hcompile, rfl, rfl, Runner.bounded_of_compile hcompile _ host () params [] []
    (Runner.leads_next _ _ _ .advance)⟩

end AgentFlow
