import AgentFlow.Proofs.FanOut
import AgentFlow.Proofs.Transcript

/-!
# Telling how far a fan-out is

The observers of a fan-out are told how many items were started and how many have ended. The work on
an item uses tools, talks to the model and tells of both, but of nothing else (`Node.only_runItem`):
items do not fan out themselves. So the events of this kind in the log are the reports of the crew
that works on the items, in their order (`Tally.Runs.told`), and what holds of the reports of every
crew that counts holds of the events that the observers see, whatever the number of workers, the
order of what they do and the moment of a cancellation. `Node.tellsProgress` puts it together, with
the pool of the runner as one such crew.
-/

namespace AgentFlow

/-! ## The work on an item -/

/-- The effects of the work on an item. -/
def Effect.IsItem : Effect → Prop
  | .emit (.textDelta _ _) | .emit (.retryNotice _ _ _ _)
  | .emit (.toolStart _ _ _) | .emit (.toolEnd _ _ _)
  | .ask _ | .request _ | .act _ _ | .sleep _ _ | .poll => True
  | _ => False

/-- Talking to the model may be part of the work on an item. -/
theorem Effect.IsTalk.isItem {effect : Effect} (h : effect.IsTalk) : effect.IsItem := by
  unfold IsTalk at h
  split at h <;> trivial

/-- Using a tool may be part of the work on an item. -/
theorem Effect.IsUse.isItem {effect : Effect} (h : effect.IsUse) : effect.IsItem := by
  unfold IsUse at h
  split at h <;> trivial

/-- A call has only effects of the work on an item. -/
theorem ToolCall.only_observed (call : ToolCall) (box : Toolbox) :
    (call.observed box).Only Effect.IsItem := by
  refine Work.only_lift_bind (Activity.only_perform trivial) fun _ => ?_
  refine Work.only_lift_bind ((call.only_invoke box).mono fun _ => Effect.IsUse.isItem)
    fun ended => ?_
  cases ended with
  | interrupted => trivial
  | finished result =>
    exact Work.only_lift_bind (Activity.only_perform trivial) fun _ => trivial

/-- A tool node has only effects of the work on an item. -/
theorem ToolStep.only_run (node : Node) (step : ToolStep) (box : Toolbox) (vars : Lookup)
    (itemIndex : Option Nat) : (step.run node box vars itemIndex).Only Effect.IsItem := by
  have hargs : ∀ result : Except Error (List (String × Value)),
      (Work.ofExcept result).Only Effect.IsItem := fun _ => trivial
  exact (hargs _).bind fun _ => (ToolCall.only_observed _ box).bind fun _ => trivial

namespace ModelStep

variable (setting : Setting) (node : Node) (step : ModelStep)

/-- Handling the calls of a turn has only effects of the work on an item. -/
theorem only_handleCalls (brief : Brief) : ∀ (talk : Talk) (calls : List ToolUse),
    (handleCalls setting node step brief talk calls).Only Effect.IsItem
  | _, [] => trivial
  | talk, call :: rest => by
    rw [handleCalls]
    cases step.gate setting.config.approval call with
    | run =>
      have hcall : (runCall setting node step brief talk call).Only Effect.IsItem :=
        (ToolCall.only_observed _ _).bind fun _ => trivial
      exact hcall.bind fun talk => only_handleCalls brief talk rest
    | refuse reason => exact only_handleCalls brief _ rest
    | ask => trivial

/-- A conversation has only effects of the work on an item, over all its rounds. -/
theorem only_converse (brief : Brief) (steps attempts : Nat) (talk : Talk)
    (calls : List ToolUse) :
    (converse setting node step brief steps attempts talk calls).Only Effect.IsItem := by
  induction steps, attempts using rounds_induct setting step generalizing talk calls with
  | round steps attempts onCalls onRetry =>
    rw [converse_eq]
    refine Work.only_lift_bind (Activity.only_perform trivial) fun cancelled => ?_
    cases cancelled with
    | true => trivial
    | false =>
      refine (only_handleCalls setting node step brief talk calls).bind fun handled => ?_
      cases deal node step brief steps attempts handled with
      | stops outcome => trivial
      | asks talk =>
        have hask := fun retry name request left =>
          (only_askWithRetry retry name request left).mono fun _ => Effect.IsTalk.isItem
        refine Work.Only.bind (hask _ _ _ _) fun turn => ?_
        cases hsequel : followUp setting node step brief steps attempts (weigh node talk turn) with
        | completes fields => trivial
        | fails error => trivial
        | calls talk calls => exact onCalls (lt_of_followUp_calls hsequel) _ _
        | retries talk message =>
          exact Work.only_lift_bind (Activity.only_perform trivial) fun _ =>
            onRetry (lt_of_followUp_retries hsequel) _ _

/-- A model node has only effects of the work on an item. -/
theorem only_start (vars : Lookup) (itemIndex : Option Nat) :
    (step.start setting node vars itemIndex).Only Effect.IsItem := by
  have hgiven : ∀ {α : Type} (result : Except Error α), (Work.ofExcept result).Only Effect.IsItem :=
    fun _ => trivial
  exact (hgiven _).bind fun _ => (hgiven _).bind fun _ => only_converse _ _ _ _ _ _ _ _

end ModelStep

/-- The work on an item uses tools, talks to the model, and tells of that. -/
theorem Node.only_runItem (setting : Setting) (node : Node) (vars : Lookup) (index : Nat) :
    (node.runItem setting vars index).Only Effect.IsItem := by
  unfold runItem
  split
  · exact ToolStep.only_run _ _ _ _ _
  · refine (ModelStep.only_start _ _ _ _ _).bind fun outcome => ?_
    cases outcome <;> trivial
  · trivial

/-! ## The log -/

/-- Whether an event tells how far a fan-out is. -/
def Event.isProgress : Event → Bool
  | .fanOutProgress _ _ => true
  | _ => false

/-- The work on an item does not tell how far a fan-out is. -/
theorem Effect.IsItem.not_isProgress {effect : Effect} (h : effect.IsItem) :
    effect.event?.toList.filter Event.isProgress = [] := by
  unfold IsItem at h
  split at h <;> first | rfl | exact h.elim

namespace Session

variable {σ : Type}

/-- The events of the log that tell how far a fan-out is. -/
def told (session : Session σ) : List Event := session.log.filter Event.isProgress

/-- An effect adds its event, if that is of the kind. -/
theorem told_of_log {session session' : Session σ} {event? : Option Event}
    (h : session'.log = session.log ++ event?.toList) :
    session'.told = session.told ++ event?.toList.filter Event.isProgress := by
  rw [told, h, List.filter_append]
  rfl

/-- What a worker does is told like what anybody does. -/
theorem log_serve (host : Host σ) (session : Session σ) (effect : Effect) :
    (session.serve host effect).2.log = session.log ++ effect.event?.toList := by
  cases effect <;> first | exact Activity.log_answer host session _ | exact (List.append_nil _).symm

end Session

namespace Tally

variable {α σ : Type} {host : Host σ}

/-- The jobs of a crew are the work on items. -/
def OnItems (tally : Tally α) : Prop :=
  ∀ job ∈ tally.waiting ++ tally.working, job.activity.Only Effect.IsItem

variable {node : String} {total : Nat} {tally tally' : Tally α} {session session' : Session σ}
  {work : List (Nat × Effect)} {reports : List Report}

/-- A move of the crew leaves its jobs the work on items. -/
theorem Moves.onItems (h : Moves host node total tally session work reports tally' session')
    (hitems : tally.OnItems) : tally'.OnItems := by
  have hjobs : (∀ job ∈ tally.waiting, job.activity.Only Effect.IsItem) ∧
      ∀ job ∈ tally.working, job.activity.Only Effect.IsItem := List.forall_mem_append.1 hitems
  refine List.forall_mem_append.2 ?_
  cases h with
  | start hwaiting hroom hopen =>
    obtain ⟨hjob, hrest⟩ := List.forall_mem_cons.1 fun job hjob =>
      hjobs.1 job (hwaiting.mem_iff.2 hjob)
    exact ⟨hrest, List.forall_mem_cons.2 ⟨hjob, hjobs.2⟩⟩
  | skip hwaiting hroom hcancelled =>
    exact ⟨fun job hjob => hjobs.1 job (hwaiting.mem_iff.2 (List.mem_cons_of_mem _ hjob)), hjobs.2⟩
  | work hworking =>
    obtain ⟨hjob, hrest⟩ := List.forall_mem_cons.1 fun job hjob =>
      hjobs.2 job (hworking.mem_iff.2 hjob)
    exact ⟨hjobs.1, List.forall_mem_cons.2 ⟨hjob.2 _, hrest⟩⟩
  | finish hworking =>
    exact ⟨hjobs.1, fun job hjob => hjobs.2 job (hworking.mem_iff.2 (List.mem_cons_of_mem _ hjob))⟩
  | pass => exact hjobs

/-- What a move tells of how far the crew is are its reports. -/
theorem Moves.told (h : Moves host node total tally session work reports tally' session')
    (hitems : tally.OnItems) :
    session'.told = session.told ++ reports.map (Report.event node) := by
  cases h with
  | start | finish => exact Session.told_of_log (Activity.log_answer host session _)
  | skip => exact (List.append_nil _).symm
  | @work index effect next rest hworking =>
    have hjob : (Activity.step effect next).Only Effect.IsItem := hitems ⟨index, _⟩
      (List.mem_append_right _ (hworking.mem_iff.2 List.mem_cons_self))
    rw [Session.told_of_log (Session.log_serve host session effect),
      Effect.IsItem.not_isProgress hjob.1]
    rfl
  | pass effect houtside =>
    have hnone : effect.event? = none := by
      cases effect <;> first | rfl | simp [Effect.isOutside] at houtside
    rw [Session.told_of_log (Activity.log_answer host session effect), hnone]
    rfl

/-- What a crew tells of how far it is, over a whole run, are its reports. -/
theorem Runs.told (h : Runs host node total tally session work reports tally' session')
    (hitems : tally.OnItems) :
    session'.told = session.told ++ reports.map (Report.event node) := by
  induction h with
  | stop => exact (List.append_nil _).symm
  | move hmove _ ih =>
    rw [ih (hmove.onItems hitems), hmove.told hitems, List.map_append, List.append_assoc]

end Tally

/-! ## Fanning out -/

section

variable {σ : Type} (setting : Setting) (node : Node) (each : ForEach) (state : Store)
  (items : List Value)

/-- A crew that has not begun with the items and has counted nothing. -/
def Node.tally (width : Nat) : Tally (Except Error NodeResult) where
  toCrew := node.crew setting each state items width

/-- There is a job for each item. -/
theorem Node.length_jobs : (node.jobs setting each state items).length = items.length := by
  rw [← List.length_map Job.index, map_index_jobs, List.length_range]

/-- No two jobs have one index. -/
theorem Node.nodup_index_jobs : ((node.jobs setting each state items).map Job.index).Nodup := by
  rw [map_index_jobs]
  exact List.nodup_range

/-- The jobs of the node are the work on its items. -/
theorem Node.onItems_tally (width : Nat) :
    (node.tally setting each state items width).OnItems := by
  refine List.forall_mem_append.2 ⟨fun job hjob => ?_, List.forall_mem_nil _⟩
  obtain ⟨⟨item, index⟩, -, rfl⟩ := List.mem_map.1 hjob
  exact node.only_runItem setting _ index

/-- What the observers of a node that fans out over items are told of how far it is. -/
structure Node.TellsProgress (host : Host σ) (session : Session σ) : Prop where
  /-- Whatever the number of workers, the order of what they do and the moment of a cancellation,
  the counters are in order as far as the work has come, and the events of the kind in the log are
  the reports. -/
  anyOrder : ∀ width work reports tally session',
    Tally.Runs host node.name items.length (node.tally setting each state items width) session work
      reports tally session' →
    tally.Reported width items.length reports ∧
      session'.told = session.told ++ reports.map (Report.event node.name)
  /-- At the end an item that was started has been reported twice, when it started and when it
  ended, and no other item was reported at all. -/
  ended : ∀ width work reports tally session',
    Tally.Runs host node.name items.length (node.tally setting each state items width) session work
      reports tally session' → tally.Finished →
    ∀ index phase,
      (Report.indices phase reports).count index = if index ∈ tally.taken then 1 else 0
  /-- The last event shows that all items have ended, unless the run is cancelled. -/
  last : ∀ width work reports tally session',
    Tally.Runs host node.name items.length (node.tally setting each state items width) session work
      reports tally session' → tally.Finished → session'.cancelled = false → items ≠ [] →
    reports.getLast?.map Report.progress = some ⟨items.length, items.length, items.length⟩
  /-- The runner does this work with its number of workers, and does not fail. -/
  runs : 1 ≤ each.width setting.config ∧ ∃ work reports tally session',
    Tally.Runs host node.name items.length
      (node.tally setting each state items (each.width setting.config)) session work reports tally
      session' ∧
    tally.Finished ∧
    (node.fanOut setting each state).activity.run host session =
      (.ok (each.gather items tally.results), session')

variable {items}

/-- The counters that a node tells while it fans out are consistent and bounded, whatever the
scheduling is. -/
theorem Node.tellsProgress (hitems : each.list state = .ok items) (host : Host σ)
    (session : Session σ) : node.TellsProgress setting each state items host session where
  anyOrder width work reports tally session' hruns := by
    have htold := hruns.told (node.onItems_tally setting each state items width)
    rw [← node.length_jobs setting each state items] at hruns ⊢
    exact ⟨hruns.reported (node.nodup_index_jobs setting each state items), htold⟩
  ended width work reports tally session' hruns hfinished index phase := by
    have hdistinct := node.nodup_index_jobs setting each state items
    rw [← node.length_jobs setting each state items] at hruns
    cases phase with
    | start => exact (hruns.reported hdistinct).starts index
    | finish => exact hruns.finishes hfinished hdistinct index
  last width work reports tally session' hruns hfinished hopen hne := by
    rw [← node.length_jobs setting each state items] at hruns ⊢
    refine hruns.last_eq hfinished hopen fun hnil => hne ?_
    rw [← List.length_eq_zero_iff, ← node.length_jobs setting each state items, hnil,
      List.length_nil]
  runs := by
    have hwidth : 1 ≤ each.width setting.config := Nat.le_max_left _ _
    obtain ⟨work, reports, tally, hruns, hfinished, hresults, -⟩ := Pool.tallies_run host
      { node := node.name, width := each.width setting.config, total := items.length }
      (node.jobs setting each state items) hwidth
      (node.tally setting each state items (each.width setting.config)) session
      ⟨⟨rfl, rfl, .nil, rfl⟩, rfl, rfl⟩
    refine ⟨hwidth, work, reports, tally, _, hruns, hfinished, ?_⟩
    rw [node.activity_fanOut setting each state items hitems, Activity.run_map, hresults]

end

/-- While the words are shouted, the observers are told how far that is. -/
theorem Sample.Words.tellsProgress_words : each.list state = .ok items ∧
    node.TellsProgress setting each state items host ⟨(), false, []⟩ := by
  have hitems : each.list state = .ok items := rfl
  exact ⟨hitems, node.tellsProgress setting each state hitems host _⟩

end AgentFlow
