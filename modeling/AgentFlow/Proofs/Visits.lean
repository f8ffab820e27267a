import AgentFlow.Proofs.Counting

/-!
# Visits to nodes

A run visits its nodes one after the other. A visit begins where a node is entered, and may take the
run through any number of suspensions; `Runner.Stays` holds from its beginning to its end, with the
state in which the node works and all that was told so far.

The log of a run is read backwards: every event is in its place behind those before it
(`Runner.InPlace`), which is to say that whatever has to lead to it did happen. A node that is
completed was entered and not left since, and a node that is started is the one that the routes lead
to. One lemma adds what a visit tells to the log, one ends the visit; every move of a run is put
together from these (`Moves.recorded`), and `Leads.recorded` covers whole runs.
-/

namespace AgentFlow

variable {σ : Type} {host : Host σ} {runner : Runner} {node : Node} {run : Run}

/-- Whether an event tells of the course of a run, and not only of what happens in a node. -/
def Event.isMilestone : Event → Bool
  | .runStarted | .nodeStarted _ | .nodeCompleted _ | .runCompleted _ | .runFailed _ => true
  | _ => false

/-! ## The frame of an execution -/

/-- What the execution of a node makes of the state in which it works. -/
structure Node.Frames (node : Node) (counted after : Store) : Prop where
  /-- Nothing changes but what the node writes. -/
  others : ∀ key, key ∉ node.writes → after.get? key = counted.get? key
  /-- Everything that the node writes is there. -/
  written : ∀ key ∈ node.writes, (after.get? key).isSome
  /-- Simultaneous assignments are filled in from the one state in which the node works. -/
  assigned : node.forEach = none → ∀ step, node.kind = .update step → step.action = none →
    ∀ key template, step.values.reverse.lookup key = some template →
      ∃ value, Template.interpolateValue counted.get? template = .ok value ∧
        after.get? key = some value

/-- Lists whose fields correspond have corresponding values under the same name. -/
theorem exists_lookup_of_forall₂ {R : Value → Value → Prop} {fields values : List (String × Value)}
    (h : List.Forall₂ (fun field value => value.1 = field.1 ∧ R field.2 value.2) fields values)
    {key : String} {a : Value} (hlookup : fields.lookup key = some a) :
    ∃ b, values.lookup key = some b ∧ R a b := by
  induction h with
  | nil => cases hlookup
  | @cons field value _ _ hfirst _ ih =>
    obtain ⟨name, a'⟩ := field
    obtain ⟨name', b⟩ := value
    obtain ⟨rfl, hR⟩ := hfirst
    rw [List.lookup_cons] at hlookup ⊢
    cases hkey : key == name' with
    | true =>
      rw [hkey] at hlookup
      exact ⟨b, rfl, Option.some.inj hlookup ▸ hR⟩
    | false =>
      rw [hkey] at hlookup
      exact ih hlookup

/-- What a node makes of the state is what its result writes. -/
theorem Node.Yields.frames {counted : Store} {result : NodeResult}
    (h : node.Yields counted result) : node.Frames counted (counted.merge result.fields) := by
  refine ⟨fun key hkey => Store.get?_merge_of_notMem (h.names ▸ hkey), fun key hkey => ?_, ?_⟩
  · rw [Store.get?_merge, Option.isSome_or, Answer.isSome_lookup_reverse (h.names ▸ hkey),
      Bool.true_or]
  · intro heach step hkind haction key template htemplate
    -- Of two values under one name the later is written, so that names are looked up from behind.
    have hfields := Template.forall₂_interpolateFields (h.assigned heach step hkind haction)
    obtain ⟨value, hvalue, hfill⟩ := exists_lookup_of_forall₂
      (R := fun template value => Template.interpolateValue counted.get? template = .ok value)
      (List.rel_reverse hfields) htemplate
    refine ⟨value, hfill, ?_⟩
    rw [Store.get?_merge, hvalue, Option.some_or]

namespace Runner

/-! ## Visits -/

/-- A node was entered at some point of a run and was not left since: it works in the state in which
it was counted, and nothing of the course of the run was told after its start. -/
structure Stays (runner : Runner) (host : Host σ) (start : Point σ) (node : Node) (entry : Point σ)
    (counted : Store) (log : List Event) : Prop where
  found : runner.flow.node? node.name = some node
  reached : runner.Leads host start entry
  chosen : ∃ source, entry.run.cursor = .leaving source ∧
    runner.flow.selectRoute source entry.run.state.get? = .ok node.name
  counted : node.Counted entry.run.state counted
  told : ∃ inner, log = entry.log ++ .nodeStarted node.name :: inner ∧
    ∀ event ∈ inner, ¬ event.isMilestone
  still : ∀ event ∈ log, ¬ event.isEnding

/-- The node of that name was started, and nothing of the course of the run was told since. -/
def UnderWay (name : String) (log : List Event) : Prop :=
  ∃ before inner, log = before ++ .nodeStarted name :: inner ∧ ∀ event ∈ inner, ¬ event.isMilestone

/-- The last that was told of a run is that it was started, or that the node was completed which it
leaves. -/
def Behind (start : Point σ) (source : String) (state : Store) (log : List Event) : Prop :=
  log = [.runStarted] ∧ source = startName ∧ state = start.run.state ∨
    ∃ before, log = before ++ [.nodeCompleted source]

/-- What leads to an event of a run, where `before` is what was told before it. -/
def Follows (runner : Runner) (host : Host σ) (start point : Point σ) (before : List Event) :
    Event → Prop
  | .runStarted => before = []
  | .nodeStarted name => ∃ source entry, runner.Leads host start entry ∧
      runner.Leads host entry point ∧ entry.log = before ∧ entry.run.cursor = .leaving source ∧
        Behind start source entry.run.state before ∧
          runner.flow.selectRoute source entry.run.state.get? = .ok name
  | .nodeCompleted name => ∃ node entry counted exit, node.name = name ∧
      runner.Stays host start node entry counted before ∧ runner.Leads host entry exit ∧
        runner.Leads host exit point ∧ exit.log = before ++ [.nodeCompleted name] ∧
          exit.run.cursor = .leaving name ∧ node.Frames counted exit.run.state
  | .runCompleted _ => ∃ source last, runner.Leads host start last ∧
      runner.Leads host last point ∧ last.log = before ∧ last.run.cursor = .leaving source ∧
        Behind start source last.run.state before ∧
          runner.flow.selectRoute source last.run.state.get? = .ok endName
  | .textDelta name _ | .toolStart name _ _ | .toolEnd name _ _ | .retryNotice name _ _ _
  | .fanOutProgress name _ => UnderWay name before
  | _ => True

/-- An event is in its place behind those before it: the run had not ended, and what leads to the
event has happened. -/
structure InPlace (runner : Runner) (host : Host σ) (start point : Point σ) (before : List Event)
    (event : Event) : Prop where
  still : ∀ other ∈ before, ¬ other.isEnding
  reason : runner.Follows host start point before event

/-- Where a run stands is what was told of it last. -/
def Stands (runner : Runner) (host : Host σ) (start point : Point σ) : Prop :=
  match point.run.cursor with
  | .leaving source => Behind start source point.run.state point.log ∧
      ∀ event ∈ point.log, ¬ event.isEnding
  | .suspended name _ => ∃ node entry, node.name = name ∧
      runner.Stays host start node entry point.run.state point.log ∧ runner.Leads host entry point
  | .closed => ∃ event ∈ point.log, event.isEnding

/-- Whether all events of a list are in place, one after the other. -/
def Tells (P : List Event → Event → Prop) : (before told : List Event) → Prop
  | _, [] => True
  | before, event :: rest => P before event ∧ Tells P (before ++ [event]) rest

/-- Everything that was told of a run is in its place. -/
structure Recorded (runner : Runner) (host : Host σ) (start point : Point σ) : Prop where
  begins : point.log.head? = some .runStarted
  events : Tells (runner.InPlace host start point) [] point.log
  stands : runner.Stands host start point

section Tells

variable {P Q : List Event → Event → Prop} {before told more : List Event}

/-- Two stretches of events are in place if the first one is, and the second one behind it. -/
theorem tells_append :
    Tells P before (told ++ more) ↔ Tells P before told ∧ Tells P (before ++ told) more := by
  induction told generalizing before with
  | nil => simp [Tells]
  | cons event rest ih => simp [Tells, ih, and_assoc]

/-- Each event of a log is in its place behind those before it. -/
theorem Tells.inPlace {event : Event} {after : List Event} (h : Tells P [] told)
    (hsplit : told = before ++ event :: after) : P before event := by
  rw [hsplit, tells_append] at h
  exact h.2.1

/-- Events that are in place by one account are so by every wider one. -/
theorem Tells.mono (h : Tells P before told)
    (hPQ : ∀ before event, P before event → Q before event) : Tells Q before told := by
  induction told generalizing before with
  | nil => trivial
  | cons event rest ih => exact ⟨hPQ _ _ h.1, ih h.2⟩

end Tells

variable {start point point' entry : Point σ} {counted : Store} {log more told : List Event}

/-- What is in its place stays there. -/
theorem InPlace.mono {before : List Event} {event : Event}
    (h : runner.InPlace host start point before event) (hleads : runner.Leads host point point') :
    runner.InPlace host start point' before event := by
  refine ⟨h.still, ?_⟩
  have hreason := h.reason
  cases event with
  | nodeStarted name =>
    obtain ⟨source, entry, hentry, hpoint, hrest⟩ := hreason
    exact ⟨source, entry, hentry, hpoint.trans hleads, hrest⟩
  | nodeCompleted name =>
    obtain ⟨node, entry, counted, exit, hname, hstays, hexit, hpoint, hrest⟩ := hreason
    exact ⟨node, entry, counted, exit, hname, hstays, hexit, hpoint.trans hleads, hrest⟩
  | runCompleted steps =>
    obtain ⟨source, last, hlast, hpoint, hrest⟩ := hreason
    exact ⟨source, last, hlast, hpoint.trans hleads, hrest⟩
  | _ => exact hreason

/-- A log is continued by what is in its place. -/
theorem Recorded.extend (h : runner.Recorded host start point)
    (hleads : runner.Leads host point point') (hlog : point'.log = point.log ++ told)
    (htold : Tells (runner.InPlace host start point') point.log told)
    (hstands : runner.Stands host start point') : runner.Recorded host start point' := by
  refine ⟨?_, ?_, hstands⟩
  · rw [hlog, List.head?_append, h.begins, Option.some_or]
  · rw [hlog, tells_append]
    exact ⟨h.events.mono fun _ _ hevent => hevent.mono hleads, htold⟩

/-- A run that stands behind a node was told to have completed it, if it is not the start. -/
theorem Recorded.behind (h : runner.Recorded host start point) {source : String}
    (hcursor : point.run.cursor = .leaving source) :
    Behind start source point.run.state point.log := by
  have hstands := h.stands
  unfold Stands at hstands
  rw [hcursor] at hstands
  exact hstands.1

/-- A run that is suspended has not left the node in which it waits. -/
theorem Recorded.stays (h : runner.Recorded host start point) {name : String} {pending : Pending}
    (hcursor : point.run.cursor = .suspended name pending) :
    ∃ node entry, node.name = name ∧
      runner.Stays host start node entry point.run.state point.log ∧
        runner.Leads host entry point := by
  have hstands := h.stands
  unfold Stands at hstands
  rwa [hcursor] at hstands

/-- Of a run that is open, no ending was told. -/
theorem Recorded.still (h : runner.Recorded host start point) (hopen : point.IsOpen) :
    ∀ event ∈ point.log, ¬ event.isEnding := by
  cases hcursor : point.run.cursor with
  | leaving source =>
    have hstands := h.stands
    unfold Stands at hstands
    rw [hcursor] at hstands
    exact hstands.2
  | suspended name pending =>
    obtain ⟨node, entry, -, hstays, -⟩ := h.stays hcursor
    exact hstays.still
  | closed => exact absurd hcursor hopen

/-! ## What a visit tells -/

/-- What happens in a node is no milestone. -/
theorem not_isMilestone {name : String} {event : Event} (h : event.isNews ∨ event.IsWithin name) :
    ¬ event.isMilestone := by
  cases event <;> simp_all [Event.isMilestone, Event.isNews, Event.IsWithin]

/-- An event that is no milestone ends no run. -/
theorem not_isEnding_of_not_isMilestone {event : Event} (h : ¬ event.isMilestone) :
    ¬ event.isEnding := by
  cases event <;> simp_all [Event.isMilestone, Event.isEnding]

/-- News may follow at any time. -/
theorem follows_of_isNews {event : Event} (h : event.isNews) :
    runner.Follows host start point log event := by
  cases event <;> trivial

/-- What happens within a node follows while the node is under way. -/
theorem follows_of_isWithin {name : String} {event : Event} (h : event.IsWithin name)
    (hunderway : UnderWay name log) : runner.Follows host start point log event := by
  cases event <;> first | exact (show _ = name from h) ▸ hunderway | cases h

/-- A visit begins where a node is entered. -/
theorem stays_enter (hrec : runner.Recorded host start entry)
    (hentry : runner.Leads host start entry) {source : String}
    (hcursor : entry.run.cursor = .leaving source)
    (hroute : runner.flow.selectRoute source entry.run.state.get? = .ok node.name)
    (hnode : runner.flow.node? node.name = some node)
    (hcounted : node.Counted entry.run.state counted) :
    runner.Stays host start node entry counted (entry.log ++ [.nodeStarted node.name]) := by
  have hopen : entry.IsOpen := Run.ne_closed_of_leaving hcursor
  refine ⟨hnode, hentry, ⟨source, hcursor, hroute⟩, hcounted,
    ⟨[], rfl, List.forall_mem_nil _⟩, ?_⟩
  exact List.forall_mem_append.2 ⟨hrec.still hopen, List.forall_mem_singleton.2 Bool.false_ne_true⟩

/-- What happens in a node while it is visited is in its place, and is part of the visit. -/
theorem Stays.tells (h : runner.Stays host start node entry counted log) (point : Point σ)
    (hmore : ∀ event ∈ more, event.isNews ∨ event.IsWithin node.name) :
    Tells (runner.InPlace host start point) log more ∧
      runner.Stays host start node entry counted (log ++ more) := by
  induction more generalizing log with
  | nil => exact ⟨trivial, by rwa [List.append_nil]⟩
  | cons event rest ih =>
    rw [List.forall_mem_cons] at hmore
    obtain ⟨inner, hlog, hinner⟩ := h.told
    have hquiet := not_isMilestone hmore.1
    have hnext : runner.Stays host start node entry counted (log ++ [event]) := by
      refine ⟨h.found, h.reached, h.chosen, h.counted, ⟨inner ++ [event], by simp [hlog], ?_⟩, ?_⟩
      · exact List.forall_mem_append.2 ⟨hinner, List.forall_mem_singleton.2 hquiet⟩
      · exact List.forall_mem_append.2
          ⟨h.still, List.forall_mem_singleton.2 (not_isEnding_of_not_isMilestone hquiet)⟩
    have hevent : runner.InPlace host start point log event := by
      refine ⟨h.still, ?_⟩
      exact hmore.1.elim follows_of_isNews fun hwithin =>
        follows_of_isWithin hwithin ⟨entry.log, inner, hlog, hinner⟩
    obtain ⟨htells, hstays⟩ := ih hnext hmore.2
    refine ⟨⟨hevent, htells⟩, ?_⟩
    rwa [List.append_cons]

/-- A visit ends as its node is left, or goes on while it waits. -/
theorem Stays.leaves {run : Run} (h : runner.Stays host start node entry run.state log)
    (hleads : runner.Leads host entry point) (hlog : point.log = log ++ told)
    (hleaves : node.Leaves run told point.run) :
    Tells (runner.InPlace host start point) log told ∧ runner.Stands host start point := by
  obtain ⟨left, session⟩ := point
  dsimp only at hleaves
  cases hleaves with
  | fails error =>
    refine ⟨⟨⟨h.still, trivial⟩, trivial⟩, .runFailed error, ?_, rfl⟩
    rw [hlog]
    exact List.mem_append_right _ List.mem_cons_self
  | @completes news result hnews hyields =>
    -- The node is still visited while its news is told, and its completion comes last.
    obtain ⟨htells, hstays⟩ := h.tells _ fun event hevent => .inl (hnews event hevent)
    rw [← List.append_assoc] at hlog
    refine ⟨tells_append.2 ⟨htells, ⟨hstays.still, ?_⟩, trivial⟩, .inr ⟨_, hlog⟩, ?_⟩
    · exact ⟨node, entry, run.state, _, rfl, hstays, hleads, .refl, hlog, rfl, hyields.frames⟩
    · rw [hlog]
      exact List.forall_mem_append.2 ⟨hstays.still, List.forall_mem_singleton.2 Bool.false_ne_true⟩
  | suspends hquestion _ =>
    obtain ⟨htells, hstays⟩ := h.tells _ (List.forall_mem_singleton.2 (.inl hquestion))
    refine ⟨htells, node, entry, rfl, ?_, hleads⟩
    rw [hlog]
    exact hstays

/-! ## Whole runs -/

/-- Every move of a run tells of what is in its place. -/
theorem Moves.recorded (h : runner.Moves point point') (hpoint : runner.Leads host start point)
    (hleads : runner.Leads host point point') (hrec : runner.Recorded host start point) :
    runner.Recorded host start point' := by
  -- An ending closes the run, and is then the last that was told.
  have hlast : ∀ {event : Event}, point'.log = point.log ++ [event] → event.isEnding →
      point'.run.cursor = .closed → runner.Stands host start point' := by
    intro event hlog hending hclosed
    unfold Stands
    rw [hclosed, hlog]
    exact ⟨event, List.mem_append_right _ List.mem_cons_self, hending⟩
  cases h with
  | rests hrun hlog =>
    refine hrec.extend hleads (hlog.trans (List.append_nil _).symm) trivial ?_
    have hcursor : point'.run.cursor = point.run.cursor := by rw [hrun]
    have hstate : point'.run.state = point.run.state := by rw [hrun]
    have hstands := hrec.stands
    unfold Stands at hstands ⊢
    rw [hcursor, hstate, hlog]
    split at hstands
    · exact hstands
    · obtain ⟨node, entry, hname, hstays, hentry⟩ := hstands
      exact ⟨node, entry, hname, hstays, hentry.trans hleads⟩
    · exact hstands
  | fails error hopen _ hrun hlog =>
    exact hrec.extend hleads hlog ⟨⟨hrec.still hopen, trivial⟩, trivial⟩
      (hlast hlog rfl (by rw [hrun]))
  -- The choice of the end is what leads to the event.
  | @finishes source hcursor hroute hrun hlog =>
    have hopen : point.IsOpen := Run.ne_closed_of_leaving hcursor
    have hfollows : runner.Follows host start point' point.log (.runCompleted point.run.steps) :=
      ⟨source, point, hpoint, hleads, rfl, hcursor, hrec.behind hcursor, hroute⟩
    exact hrec.extend hleads hlog ⟨⟨hrec.still hopen, hfollows⟩, trivial⟩
      (hlast hlog rfl (by rw [hrun]))
  | @enters source node counted _ inner told hcursor hroute hnode _ hcount hworks hleaves hlog =>
    have hopen : point.IsOpen := Run.ne_closed_of_leaving hcursor
    have hfollows : runner.Follows host start point' point.log (.nodeStarted node.name) :=
      ⟨source, point, hpoint, hleads, rfl, hcursor, hrec.behind hcursor, hroute⟩
    -- The visit begins with this move; what is left of the move is its work and its leave.
    have hstays := stays_enter hrec hpoint hcursor hroute hnode
      (node.counted_of_countExecution hcount)
    obtain ⟨hinner, hstays⟩ := hstays.tells point' fun event hevent =>
      .inr (hworks.within event hevent)
    have hlog' : point'.log = point.log ++ [.nodeStarted node.name] ++ inner ++ told := by
      simp [hlog]
    obtain ⟨htold, hstands⟩ := hstays.leaves hleads hlog' hleaves
    exact hrec.extend hleads hlog
      ⟨⟨hrec.still hopen, hfollows⟩, tells_append.2 ⟨hinner, htold⟩⟩ hstands
  | @resumes node pending opening inner told hcursor hnode hopening hworks hleaves hlog =>
    -- The visit began at an earlier point, and the node that is found is the one that waits.
    obtain ⟨waiting, entry, hname, hstays, hentry⟩ := hrec.stays hcursor
    obtain rfl : node = waiting := Option.some.inj
      (hnode.symm.trans (hname ▸ hstays.found))
    have hmore : ∀ event ∈ opening ++ inner, event.isNews ∨ event.IsWithin node.name :=
      List.forall_mem_append.2 ⟨fun event hevent => .inl (hopening event hevent),
        fun event hevent => .inr (hworks.within event hevent)⟩
    obtain ⟨htells, hstays⟩ := hstays.tells point' hmore
    obtain ⟨htold, hstands⟩ := hstays.leaves (hentry.trans hleads)
      (hlog.trans (List.append_assoc _ _ _).symm) hleaves
    exact hrec.extend hleads hlog (tells_append.2 ⟨htells, htold⟩) hstands

/-- Whatever is done with a run, all that is told of it is in its place. -/
theorem Leads.recorded {world : σ} {params inputs : List (String × Value)}
    (h : runner.Leads host (runner.outset host world params inputs) point) :
    runner.Recorded host (runner.outset host world params inputs) point := by
  refine h.induct trivial ⟨rfl, ⟨⟨List.forall_mem_nil _, rfl⟩, trivial⟩, .inl ⟨rfl, rfl, rfl⟩, ?_⟩
    fun before after hbefore hafter hmove => hmove.recorded hbefore hafter
  exact List.forall_mem_singleton.2 Bool.false_ne_true

end Runner

end AgentFlow
