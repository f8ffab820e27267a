import AgentFlow.Proofs.Run

/-!
# Compiled flows do not go structurally wrong

A runner looks for nodes by name, for fields and operands of update nodes, for tools by name, and
expects approvals only of model nodes that do not fan out. What compiling and binding check is
enough for all of it: no run ends with a structural error that did not come from the model, and
no tool is called that is not at hand.

Both are one contract, `grounded`: calls are of tools at hand, and the model is expected not to
answer with structural errors.
-/

namespace AgentFlow

/-- Every text of a list is in the set of the list. -/
theorem Fields.mem_sortedSet {text : String} {texts : List String} (h : text ∈ texts) :
    text ∈ Fields.sortedSet texts := by
  have hpair : ((texts.map fun text => (text, ())).reverse.lookup text).isSome :=
    List.lookup_isSome_iff.2 ⟨(text, ()), by simpa using h, by simp⟩
  have hentry : ((Fields.ofList (texts.map fun text => (text, ()))).lookup text).isSome := by
    rw [Fields.ofList, Fields.lookup_putAll, Option.isSome_or, hpair, Bool.true_or]
  obtain ⟨entry, hmem, hname⟩ := List.lookup_isSome_iff.1 hentry
  exact List.mem_map.2 ⟨entry, hmem, (eq_of_beq hname).symm⟩

/-- A model that answers with no structural errors. -/
def Host.NeverStructural {σ : Type} (host : Host σ) : Prop :=
  ∀ request world error, (host.ask request world).reply.ending = .broken error →
    ¬ error.IsStructural

namespace Runner

variable {runner : Runner} {flow : Flow} {setting : Setting} {run : Run} {σ : Type} {host : Host σ}

/-- A runner has the flow and the setting that it was bound to, in which there are all tools of the
flow. -/
theorem contains_of_bind (h : bind flow setting = .ok runner) :
    runner = ⟨flow, setting⟩ ∧ ∀ name ∈ flow.toolNames, setting.toolbox.contains name := by
  unfold bind at h
  split at h
  · rename_i hmissing
    refine ⟨(Except.ok.inj h).symm, fun name hname => ?_⟩
    simpa using List.filter_eq_nil_iff.1 hmissing name hname
  · simp at h

/-- The contract of calling tools at hand only, with a model that answers with no structural
errors. -/
def grounded (runner : Runner) : Contract where
  call _ tool _ := runner.setting.toolbox.contains tool
  request _ := True
  reply reply := ∀ error, reply.ending = .broken error → ¬ error.IsStructural

/-- Under this contract nothing fails structurally. -/
theorem not_isStructural_of_fault {error : Error} (h : runner.grounded.fault error) :
    ¬ error.IsStructural := fun hs => by
  obtain ⟨reply, hreply, hending⟩ := h hs
  exact hreply error hending hs

/-- A node may call tools of its flow only. -/
theorem ready_grounded (hflow : runner.flow.Sound)
    (htools : ∀ name ∈ runner.flow.toolNames, runner.setting.toolbox.contains name) :
    runner.Ready runner.grounded := by
  have hnode : ∀ node ∈ runner.flow.nodes, ∀ name ∈ Flow.nodeTools node,
      runner.setting.toolbox.contains name := fun node hmem name hname =>
    htools name (Fields.mem_sortedSet (List.mem_flatMap.2 ⟨node, hmem, hname⟩))
  refine ⟨hflow, fun node hmem => ⟨fun step hkind call hgate => ?_,
    fun _ _ _ _ _ _ _ => trivial, fun step hkind input => ?_⟩⟩
  · refine hnode node hmem call.name ?_
    unfold Flow.nodeTools
    rw [hkind]
    exact (ModelStep.gate_eq_run_iff.1 hgate).1
  · refine hnode node hmem step.tool ?_
    unfold Flow.nodeTools
    rw [hkind]
    exact List.mem_singleton_self _

/-- What is safe about a command that is given to a run. -/
structure Safe (runner : Runner) (host : Host σ) (run : Run) (session : Session σ)
    (command : Command) : Prop where
  /-- The run stands at a node of the flow, or at the start that it is leaving. -/
  place : ∀ name, run.node? = some name →
    (∃ node, runner.flow.node? name = some node) ∨ run.cursor = .leaving startName
  /-- A run that fails does not fail structurally. -/
  failure : ∀ failure,
    ((runner.carryOut run command).run host session).1.1 = some (.ok (.failed failure)) →
      ¬ failure.error.IsStructural
  /-- An answer is not refused for a structural reason. -/
  refusal : ∀ error,
    ((runner.carryOut run command).run host session).1.1 = some (.error error) →
      ¬ error.IsStructural
  /-- Tools that are called are at hand. -/
  tools : ∀ node tool input,
    .toolStart node tool input ∈ (runner.carryOut run command).events host session →
      runner.setting.toolbox.contains tool
  /-- The items of a node that fans out do not fail structurally either. -/
  items : ∀ node ∈ runner.flow.nodes, node.forEach.isSome →
    ∀ vars index (session : Session σ) error,
    ((node.runItem runner.setting vars index).activity.run host session).1 = .error error →
      ¬ error.IsStructural

/-- Commands are safe for a run that stands where it can, if all tools of the flow are at hand. -/
theorem safe_of_sound (hflow : runner.flow.Sound)
    (htools : ∀ name ∈ runner.flow.toolNames, runner.setting.toolbox.contains name)
    (hhost : host.NeverStructural) (hsound : run.cursor.Sound runner) (session : Session σ)
    (command : Command) : runner.Safe host run session command := by
  have hready := ready_grounded hflow htools
  have hmeets : host.Meets runner.grounded := fun request world => hhost request world
  have hkeeps : (runner.carryOut run command).Keeps runner.grounded
      (runner.Carried runner.grounded) := by
    refine keeps_carryOut hready hsound command fun name id request checkpoint hcursor _ => ?_
    -- The call that the run waits for is of a tool on the list of its node.
    obtain ⟨node, step, call, hnode, hkind, -, hgate, rfl⟩ := hsound.exists_call hcursor
    obtain ⟨hmem, -⟩ := Flow.mem_of_node? hnode
    refine htools call.name (Fields.mem_sortedSet (List.mem_flatMap.2 ⟨node, hmem, ?_⟩))
    unfold Flow.nodeTools
    rw [hkind]
    exact (ModelStep.gate_eq_ask_iff.1 hgate).1
  obtain ⟨hresult, -⟩ := (hkeeps.run hmeets session).1
  refine ⟨fun name hname => ?_, fun failure hfailure => ?_, fun error herror => ?_,
    fun node tool input hevent => hkeeps.call_of_mem_events hmeets hevent, ?_⟩
  · unfold Run.node? at hname
    rcases hcursor : run.cursor with source | ⟨source, pending⟩ | _ <;> rw [hcursor] at hname hsound
    · obtain rfl : source = name := by simpa using hname
      exact (Or.symm hsound).imp_right (congrArg Cursor.leaving)
    · obtain rfl : source = name := by simpa using hname
      exact .inl hsound.exists_node
    · simp at hname
  · exact not_isStructural_of_fault (hresult _ hfailure)
  · exact not_isStructural_of_fault (hresult _ herror)
  · intro node hmem hsome vars index session error herror
    obtain ⟨each, heach⟩ := Option.isSome_iff_exists.1 hsome
    have hitem := Node.keeps_runItem (hready.admits node hmem)
      ((hflow.nodes node hmem).forEach each heach) vars index
    have hend := (Activity.Keeps.run hmeets hitem session).1
    rw [herror] at hend
    exact not_isStructural_of_fault hend

/-- In every run of a compiled flow with all its tools at hand, whatever the tools and the caller
do, nothing goes structurally wrong unless the model says so. -/
theorem safe_of_compile_of_bind {definition : Definition}
    (hcompile : Flow.compile definition = .ok flow) (hbind : bind flow setting = .ok runner)
    (host : Host σ) (hhost : host.NeverStructural) (world : σ)
    (params inputs : List (String × Value)) (commands : List Command) (command : Command) :
    let left := runner.after host world params inputs commands
    runner.Safe host left.1 left.2 command := by
  have hflow := Flow.sound_of_compile hcompile
  obtain ⟨rfl, htools⟩ := contains_of_bind hbind
  exact safe_of_sound hflow htools hhost (sound_after hflow host world params inputs commands) _
    command

end Runner

/-- The sample is safe. -/
theorem Sample.safe_approval :
    let runner : Runner := ⟨flow, setting⟩
    let left := runner.after host () [] [] [.advance]
    Flow.compile definition = .ok flow ∧ Runner.bind flow setting = .ok runner ∧
      host.NeverStructural ∧ runner.Safe host left.1 left.2 (.resume (.approval .approved)) := by
  have hcompile : Flow.compile definition = .ok flow := rfl
  have hbind : Runner.bind flow setting = .ok ⟨flow, setting⟩ := rfl
  have hhost : host.NeverStructural := fun _ _ _ hending => absurd hending (by simp [host])
  exact ⟨hcompile, hbind, hhost,
    Runner.safe_of_compile_of_bind hcompile hbind host hhost () [] [] [.advance] _⟩

end AgentFlow
