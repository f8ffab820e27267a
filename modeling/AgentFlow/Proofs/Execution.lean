import AgentFlow.Proofs.Conversation
import AgentFlow.Proofs.Compile

/-!
# Executions of nodes

What a well-formed node does to the outside, by kinds: a model node starts calls that its gate lets
pass and sends dialogues, a tool node starts calls of its tool, the others do nothing
(`keeps_execute`). A contract that allows this for a node `Admits` it.

A node that fans out does for each item what it does alone. The pool works on its jobs slice by
slice, so the invariant of `Pool.keeps_run` is about all that is left: the waiting jobs and the rest
of the sleeping ones keep the contract. Since nobody is asked for approval of a node that fans out,
none of its items stops at a checkpoint.
-/

namespace AgentFlow

variable {c : Contract} {setting : Setting} {node : Node}

/-- A contract that allows all that a node may do without the caller's approval. -/
structure Contract.Admits (c : Contract) (setting : Setting) (node : Node) : Prop where
  passes : ∀ step, node.kind = .model step → c.Passes setting node step
  hears : ∀ step, node.kind = .model step → ∀ vars prompt, step.rendered node vars = .ok prompt →
    c.Hears prompt
  /-- The calls of a tool node are allowed. -/
  tool : ∀ step, node.kind = .tool step → ∀ input, c.call node.name step.tool input

/-- A node that waits for the caller's approval of the call in the request. -/
def Node.WaitsFor (setting : Setting) (node : Node) (request : ApprovalRequest)
    (checkpoint : Checkpoint) : Prop :=
  ∃ step vars prompt, node.kind = .model step ∧ step.rendered node vars = .ok prompt ∧
    checkpoint.Sound setting node step prompt request

/-- How the execution of a node may stop: for approval only at a sound checkpoint. -/
def StepEnd.Sound (setting : Setting) (node : Node) : StepEnd → Prop
  | .awaitApproval request checkpoint => node.WaitsFor setting request checkpoint
  | _ => True

/-- A conversation of the node that stops as it should is an execution that does. -/
theorem StepEnd.sound_ofModel {step : ModelStep} {vars : Lookup} {prompt : String}
    (hkind : node.kind = .model step) (hprompt : step.rendered node vars = .ok prompt)
    {outcome : ModelOutcome} (h : ModelStep.Outcome.Sound setting node step prompt outcome) :
    (StepEnd.ofModel outcome).Sound setting node := by
  cases outcome with
  | complete result => trivial
  | awaitApproval request checkpoint => exact ⟨step, vars, prompt, hkind, hprompt, h⟩

/-! ## The gate -/

namespace ModelStep

variable {step : ModelStep} {policy : ApprovalPolicy} {call : ToolUse}

/-- A call is run exactly if its tool is on the node's list, is not denied, and needs no
approval. -/
theorem gate_eq_run_iff : step.gate policy call = .run ↔
    call.name ∈ step.tools ∧ call.name ∉ policy.deny ∧
      (step.requireApproval → call.name ∈ policy.autoApprove) := by
  unfold gate ApprovalPolicy.decide
  by_cases hlist : call.name ∈ step.tools <;> by_cases hdeny : call.name ∈ policy.deny <;>
    by_cases hauto : call.name ∈ policy.autoApprove <;> cases step.requireApproval <;>
      simp [hlist, hdeny, hauto]

/-- A call waits for the caller exactly if its tool is on the node's list, is not denied, and needs
approval. -/
theorem gate_eq_ask_iff : step.gate policy call = .ask ↔
    call.name ∈ step.tools ∧ call.name ∉ policy.deny ∧
      step.requireApproval ∧ call.name ∉ policy.autoApprove := by
  unfold gate ApprovalPolicy.decide
  by_cases hlist : call.name ∈ step.tools <;> by_cases hdeny : call.name ∈ policy.deny <;>
    by_cases hauto : call.name ∈ policy.autoApprove <;> cases step.requireApproval <;>
      simp [hlist, hdeny, hauto]

end ModelStep

/-! ## Fanning out -/

/-- A tool node starts calls of its tool only. -/
theorem ToolStep.keeps_run {step : ToolStep} (hcall : ∀ input, c.call node.name step.tool input)
    (box : Toolbox) (vars : Lookup) (itemIndex : Option Nat) :
    (step.run node box vars itemIndex).Keeps c fun _ => True := by
  unfold run
  simp only [Work.keeps_bind]
  refine (Template.ordinary_interpolateFields vars step.args).keeps fun args _ => ?_
  refine (ToolCall.keeps_observed _ box (hcall _)).mono fun result _ => ?_
  exact (node.ordinary_assignResult _ _ result).keeps fun _ _ => trivial

/-- An item of a node that fans out does what the node may do, and never waits for approval. -/
theorem Node.keeps_runItem (hadmits : c.Admits setting node) {each : ForEach}
    (hwf : each.WellFormed node) (vars : Lookup) (index : Nat) :
    (node.runItem setting vars index).Keeps c fun _ => True := by
  unfold runItem
  rcases hwf.kind with ⟨step, hkind⟩ | ⟨step, hkind⟩
  · rw [hkind]
    simp only [Work.keeps_bind]
    refine (ModelStep.keeps_start (hadmits.passes step hkind)
      (hadmits.hears step hkind vars)).mono ?_
    rintro (result | ⟨request, checkpoint⟩) ⟨prompt, -, hsound⟩
    · trivial
    · -- Only a node that requires approval waits for it, and such a node does not fan out.
      obtain ⟨call, -, hgate, -⟩ := hsound
      have happroval : step.requireApproval = true := (ModelStep.gate_eq_ask_iff.1 hgate).2.2.1
      have hnone := hwf.approval
      unfold Node.requiresApproval at hnone
      rw [hkind] at hnone
      exact absurd happroval hnone
  · rw [hkind]
    exact ToolStep.keeps_run (hadmits.tool step hkind) _ _ _

namespace Pool

variable {α : Type} {post : α → Prop}

/-- What is left of a pool's jobs keeps a contract, and what has a result has the property. -/
structure Sound (c : Contract) (post : α → Prop) (pool : Pool α) (waiting : List (Job α)) :
    Prop where
  waiting : ∀ job ∈ waiting, job.activity.Keeps c post
  asleep : ∀ sleeper ∈ pool.asleep, sleeper.rest.Keeps c post
  results : ∀ entry ∈ pool.results, post entry.2

namespace Sound

variable {pool : Pool α} {waiting : List (Job α)} (h : pool.Sound c post waiting)
include h

/-- Taking up the next job leaves the pool sound, with one job fewer waiting. -/
theorem start : pool.start.Sound c post waiting := ⟨h.waiting, h.asleep, h.results⟩

/-- A result that has the property leaves the pool sound. -/
theorem complete (index : Nat) {result : α} (hresult : post result) :
    (pool.complete index result).Sound c post waiting := by
  refine ⟨h.waiting, h.asleep, fun entry hentry => ?_⟩
  rcases List.mem_append.1 hentry with hentry | hentry
  · exact h.results entry hentry
  · rw [List.mem_singleton.1 hentry]
    exact hresult

/-- A job that begins to wait, and keeps the contract with what is left of it, leaves the pool
sound. -/
theorem fallAsleep (index ms : Nat) {rest : Activity α} (hrest : rest.Keeps c post) :
    (pool.fallAsleep index ms rest).Sound c post waiting := by
  refine ⟨h.waiting, fun sleeper hsleeper => ?_, h.results⟩
  rcases List.mem_append.1 hsleeper with hsleeper | hsleeper
  · exact h.asleep sleeper hsleeper
  · rw [List.mem_singleton.1 hsleeper]
    exact hrest

/-- Waking a job that waits leaves the pool sound. -/
theorem wake (sleeper : Fin pool.asleep.length) : (pool.wake sleeper).Sound c post waiting :=
  ⟨h.waiting, fun other hother => h.asleep other (List.mem_of_mem_eraseIdx hother), h.results⟩

/-- A job that waits once more, and keeps the contract with what is left of it, leaves the pool
sound. -/
theorem sleepAgain (sleeper : Fin pool.asleep.length) (ms : Nat) (resumed : Bool)
    {rest : Activity α} (hrest : rest.Keeps c post) :
    (pool.sleepAgain sleeper ms resumed rest).Sound c post waiting := by
  refine ⟨h.waiting, fun other hother => ?_, h.results⟩
  rcases List.mem_or_eq_of_mem_set hother with hother | rfl
  · exact h.asleep other hother
  · exact hrest

end Sound

/-- A pool keeps the contract of its jobs, and its results have the property of theirs. -/
theorem keeps_run (post : α → Prop) (pool : Pool α) (waiting : List (Job α))
    (h : pool.Sound c post waiting) :
    (pool.run waiting).Keeps c fun results => ∀ entry ∈ results, post entry.2 := by
  have hreport : ∀ pool : Pool α, pool.report.Keeps c fun _ => True := fun pool =>
    (Activity.keeps_emit _ _).2 ⟨trivial, trivial⟩
  induction pool, waiting using Pool.run.induct with
  | case1 pool waiting hnext =>
    unfold run
    rw [hnext]
    exact h.results
  | case2 pool job waiting hnext ih_skip ih_ended ih_asleep =>
    -- The next job is started, unless the run was cancelled.
    have hrest : pool.Sound c post waiting :=
      ⟨fun other hother => h.waiting other (List.mem_cons_of_mem _ hother), h.asleep, h.results⟩
    have hjob := h.waiting job List.mem_cons_self
    unfold run
    rw [hnext]
    simp only [Activity.keeps_bind, Activity.keeps_poll]
    rintro (_ | _)
    · simp only [Activity.keeps_bind, Bool.false_eq_true, if_false]
      refine (hreport _).mono fun _ _ => ?_
      refine hjob.slice.mono ?_
      rintro (result | ⟨ms, resumed, rest, below⟩) hslice
      · have hdone := hrest.start.complete job.index hslice
        simp only [Activity.keeps_bind]
        exact (hreport _).mono fun _ _ => ih_ended result hdone
      · exact ih_asleep ms rest (hrest.start.fallAsleep job.index ms hslice)
    · exact ih_skip hrest
  | case3 pool waiting sleeper hnext ih_ended ih_asleep =>
    -- A sleeper wakes, goes on, and has ended or sleeps again.
    have hsleeper := h.asleep _ (List.get_mem pool.asleep sleeper)
    unfold run
    rw [hnext]
    simp only [Activity.keeps_bind, Activity.keeps_sleep]
    intro _
    refine hsleeper.slice.mono ?_
    rintro (result | ⟨ms, resumed, rest, below⟩) hslice
    · have hdone := (h.wake sleeper).complete (pool.asleep.get sleeper).job.index hslice
      simp only [Activity.keeps_bind]
      exact (hreport _).mono fun _ _ => ih_ended result hdone
    · exact ih_asleep ms resumed rest below (h.sleepAgain sleeper ms resumed hslice)

end Pool

/-- A node that fans out does what its items do. -/
theorem Node.keeps_fanOut (hadmits : c.Admits setting node) {each : ForEach}
    (hwf : each.WellFormed node) (state : Store) :
    (node.fanOut setting each state).Keeps c fun _ => True := by
  unfold fanOut
  simp only [Work.keeps_bind, Work.keeps_lift]
  refine (each.ordinary_list state).keeps fun items _ => ?_
  -- At first all jobs wait: none sleeps, and none has a result.
  refine (Pool.keeps_run (c.accepts fun _ => True) _ _ ⟨fun job hjob => ?_,
    fun _ h => absurd h List.not_mem_nil, fun _ h => absurd h List.not_mem_nil⟩).mono
    fun _ _ => trivial
  obtain ⟨⟨item, index⟩, -, rfl⟩ := List.mem_map.1 hjob
  exact Node.keeps_runItem hadmits hwf _ index

/-! ## All kinds -/

/-- The execution of a well-formed node does what the node may do. -/
theorem Node.keeps_execute (hadmits : c.Admits setting node) (hwf : node.WellFormed)
    (state : Store) (supplied : Option Value) :
    (node.execute setting state supplied).Keeps c (StepEnd.Sound setting node) := by
  unfold execute
  cases heach : node.forEach with
  | some each =>
    simp only [Work.keeps_map]
    exact Node.keeps_fanOut hadmits (hwf.forEach each heach) state
  | none =>
    dsimp only
    cases hkind : node.kind with
    | input step =>
      simp only [Work.keeps_bind]
      refine (step.ordinary_request state.get?).keeps fun request _ => ?_
      cases supplied with
      | none => trivial
      | some value =>
        simp only [Work.keeps_map]
        exact (node.notStructural_acceptInput request value).keeps fun _ _ => trivial
    | model step =>
      simp only [Work.keeps_map]
      refine (ModelStep.keeps_start (hadmits.passes step hkind)
        (hadmits.hears step hkind _)).mono ?_
      rintro outcome ⟨prompt, hprompt, hsound⟩
      exact StepEnd.sound_ofModel hkind hprompt hsound
    | tool step =>
      simp only [Work.keeps_map]
      exact ToolStep.keeps_run (hadmits.tool step hkind) _ _ _
    | output lines =>
      simp only [Work.keeps_map]
      exact (ordinary_runOutput lines state.get?).keeps fun _ _ => trivial
    | update step =>
      -- An update fails in an ordinary way only because its rules exclude the structural errors.
      have hkwf := hwf.kind
      rw [hkind] at hkwf
      simp only [Work.keeps_map]
      exact (step.ordinary_run node state hkwf).keeps fun _ _ => trivial

end AgentFlow
