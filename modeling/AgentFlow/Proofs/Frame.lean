import AgentFlow.Proofs.Visits

/-!
# What an execution leaves alone

The state of a run changes twice with an execution of a node: the execution is counted before the
node works, and what the node writes is written when it is done, all at once. In between the run may
be suspended any number of times, but its state stays the counted one, in which the node works from
its beginning to its end. Nothing that is in the state is ever removed from it.
-/

namespace AgentFlow

section

variable {σ : Type} {host : Host σ} {runner : Runner} {node : Node} {run run' : Run}

/-- Counting an execution removes nothing. -/
theorem Node.Counted.isSome_get? {before counted : Store} (h : node.Counted before counted)
    {key : String} (hkey : (before.get? key).isSome) : (counted.get? key).isSome := by
  by_cases hother : node.limit = none ∨ node.limitCounter ≠ some key
  · rwa [h.others key hother]
  · rw [not_or, not_not] at hother
    obtain ⟨limit, hlimit⟩ := Option.ne_none_iff_exists'.1 hother.1
    obtain ⟨count, -, -, hcount⟩ := h.counter limit key hlimit hother.2
    rw [hcount]
    rfl

/-- Neither does leaving a node, unless the run is closed. -/
theorem Node.Leaves.isSome_get? {told : List Event} (h : node.Leaves run told run')
    (hopen : run'.cursor ≠ .closed) {key : String} (hkey : (run.state.get? key).isSome) :
    (run'.state.get? key).isSome := by
  cases h with
  | fails error => exact absurd rfl hopen
  | completes _ _ => rw [Store.get?_merge, Option.isSome_or, hkey, Bool.or_true]
  | suspends _ _ => exact hkey

namespace Runner

/-- What the executions of a run make of its state. -/
structure Framed (runner : Runner) (host : Host σ) (start point : Point σ) : Prop where
  /-- A node that is completed was entered before and worked ever since in the state of then, with
  its execution counted. Behind the node, that state is changed by what the node writes only. -/
  completed : ∀ before name after, point.log = before ++ .nodeCompleted name :: after →
    ∃ node entry counted exit, node.name = name ∧
      runner.Stays host start node entry counted before ∧ runner.Leads host entry exit ∧
        runner.Leads host exit point ∧ exit.log = before ++ [.nodeCompleted name] ∧
          exit.run.cursor = .leaving name ∧ node.Frames counted exit.run.state
  /-- While a node waits, the state is the one in which it was entered, with its execution
  counted. -/
  suspended : ∀ name pending, point.run.cursor = .suspended name pending →
    ∃ node entry, node.name = name ∧
      runner.Stays host start node entry point.run.state point.log ∧ runner.Leads host entry point
  /-- As long as the run is open, nothing disappears from its state. -/
  kept : ∀ earlier, runner.Leads host start earlier → runner.Leads host earlier point →
    point.IsOpen → ∀ key, (earlier.run.state.get? key).isSome → (point.run.state.get? key).isSome

variable {point point' : Point σ}

/-- No move removes anything from the state of a run that stays open. -/
theorem Moves.isSome_get? (h : runner.Moves point point') (hopen : point'.IsOpen) :
    point.IsOpen ∧
      ∀ key, (point.run.state.get? key).isSome → (point'.run.state.get? key).isSome := by
  cases h with
  | rests hrun _ =>
    rw [Point.IsOpen, hrun] at hopen
    rw [hrun]
    exact ⟨hopen, fun _ => id⟩
  | fails _ _ _ hrun _ => exact absurd (by rw [hrun]) hopen
  | finishes _ _ hrun _ => exact absurd (by rw [hrun]) hopen
  | @enters _ node _ _ _ _ hcursor _ _ _ hcount _ hleaves _ =>
    refine ⟨Run.ne_closed_of_leaving hcursor, fun key hkey => hleaves.isSome_get? hopen ?_⟩
    exact (node.counted_of_countExecution hcount).isSome_get? hkey
  | resumes hcursor _ _ _ hleaves _ =>
    exact ⟨Run.ne_closed_of_suspended hcursor, fun key hkey => hleaves.isSome_get? hopen hkey⟩

/-- Whatever is done with a run, the executions of its nodes change its state in what they count and
write, and in nothing else. -/
theorem framed (runner : Runner) (host : Host σ) (world : σ) (params inputs : List (String × Value))
    (commands : List Command)
    (hpoint : runner.Leads host (runner.reached host world params inputs commands) point) :
    runner.Framed host (runner.outset host world params inputs) point := by
  have hrec := hpoint.of_reached.recorded
  refine ⟨fun before name after hsplit => (hrec.events.inPlace hsplit).reason,
    fun name pending => hrec.stays, fun earlier hearlier hleads => ?_⟩
  -- A closed run has lost its state, so that the claim has to be kept for open runs only.
  refine hleads.induct
    (P := fun later => later.IsOpen → ∀ key, (earlier.run.state.get? key).isSome →
      (later.run.state.get? key).isSome) (hearlier.asks trivial) (fun _ _ => id) ?_
  intro before after _ _ hmove hkept hopen key hkey
  obtain ⟨hbefore, hmore⟩ := hmove.isSome_get? hopen
  exact hmore key (hkept hbefore key hkey)

end Runner

end

/-- The sample exchanges its variables, which are both read before either is written. -/
theorem Sample.Swapping.framed_swapping :
    node.writes = ["a", "b"] ∧
      point.log = [.runStarted, .nodeStarted "swap", .nodeCompleted "swap"] ∧
      point.run.state = .ofList [("a", .int 2), ("b", .int 1), ("n", .int 2)] ∧
        runner.Framed host (runner.outset host () params []) point := by
  exact ⟨by decide, rfl, rfl,
    runner.framed host () params [] [] (Runner.leads_next _ _ _ .advance)⟩

end AgentFlow
