import AgentFlow.Proofs.Cancellation
import AgentFlow.Proofs.Visits

/-!
# What the events of a run tell

To whoever observes a run, its events tell of a walk through the graph of its flow. The walk begins
at the start and follows the routes, each chosen in the state of that moment; it visits one node at
a time, and is over with the first event that says so. All calls of tools that a visit tells of are
ended before it is, unless the run is cancelled.

Most of it is read off from the places of the events (`Leads.recorded`). Calls are settled in every
log of a run that is not cancelled (`Leads.balanced`), and between two points at which they are,
they are settled as well.
-/

namespace AgentFlow

section

variable {σ : Type} {host : Host σ} {runner : Runner} {node : Node} {run run' : Run}

/-! ## Calls -/

section Balanced

variable {name tool : String} {events more : List Event}

/-- Two balanced stretches in a row are balanced. -/
theorem Balanced.append (h : Balanced name tool events) (hmore : Balanced name tool more) :
    Balanced name tool (events ++ more) := by
  refine ⟨fun before hbefore => ?_, ?_⟩
  · rcases List.prefix_or_prefix_of_prefix hbefore (List.prefix_append events more) with
      hfirst | ⟨rest, rfl⟩
    · exact h.sane before hfirst
    · have hrest := (List.prefix_append_right_inj events).1 hbefore
      rw [List.countP_append, List.countP_append, h.settled]
      exact Nat.add_le_add_left (hmore.sane rest hrest) _
  · rw [List.countP_append, List.countP_append, h.settled, hmore.settled]

/-- If all calls are settled, and those of the last events, those before are settled. -/
theorem Balanced.left (h : Balanced name tool (events ++ more)) (hmore : Balanced name tool more) :
    Balanced name tool events := by
  refine ⟨fun before hbefore => h.sane before (hbefore.trans (List.prefix_append events more)), ?_⟩
  have hsettled := h.settled
  rw [List.countP_append, List.countP_append, hmore.settled] at hsettled
  exact Nat.add_right_cancel hsettled

/-- If all calls are settled, and those of the first events, those behind are settled. -/
theorem Balanced.right (h : Balanced name tool (events ++ more))
    (hevents : Balanced name tool events) : Balanced name tool more := by
  refine ⟨fun before hbefore => ?_, ?_⟩
  · have hsane := h.sane (events ++ before) ((List.prefix_append_right_inj events).2 hbefore)
    rw [List.countP_append, List.countP_append, hevents.settled] at hsane
    exact Nat.le_of_add_le_add_left hsane
  · have hsettled := h.settled
    rw [List.countP_append, List.countP_append, hevents.settled] at hsettled
    exact Nat.add_left_cancel hsettled

/-- Where no calls of a tool are told of, there is nothing to be settled. -/
theorem balanced_of_none (hstarts : ∀ event ∈ events, ¬ event.startsCall name tool)
    (hends : ∀ event ∈ events, ¬ event.endsCall name tool) : Balanced name tool events := by
  refine ⟨fun before hbefore => ?_, ?_⟩
  · rw [List.countP_eq_zero.2 fun event hmem => hends event (hbefore.subset hmem)]
    exact Nat.zero_le _
  · rw [List.countP_eq_zero.2 hends, List.countP_eq_zero.2 hstarts]

/-- A stretch that tells of no call is balanced. -/
theorem balanced_of_silent (h : ∀ event ∈ events, ¬ event.isCall) : Balanced name tool events :=
  balanced_of_none (fun event hmem hstarts => h event hmem (Event.isCall_of_startsCall hstarts))
    fun event hmem hends => h event hmem (Event.isCall_of_endsCall hends)

/-- An event that is of no call is balanced by itself. -/
theorem balanced_singleton {event : Event} (h : ¬ event.isCall) : Balanced name tool [event] :=
  balanced_of_silent (List.forall_mem_singleton.2 h)

end Balanced

/-- The work within a node settles the calls of every node: it tells of no others. -/
theorem Node.Works.balanced_all {inner : List Event} (h : node.Works inner false)
    (name tool : String) : Balanced name tool inner := by
  by_cases hname : node.name = name
  · exact hname ▸ h.balanced rfl tool
  · refine balanced_of_none (fun event hmem hstarts => ?_) fun event hmem hends => ?_
    · have hwithin := h.within event hmem
      cases event <;> simp_all [Event.IsWithin, Event.startsCall]
    · have hwithin := h.within event hmem
      cases event <;> simp_all [Event.IsWithin, Event.endsCall]

/-- News of a fan-out are of no call. -/
theorem not_isCall_of_isNews {event : Event} (h : event.isNews) : ¬ event.isCall := by
  cases event <;> simp_all [Event.isNews, Event.isCall]

/-- How a node is left tells of no calls. -/
theorem Node.Leaves.not_isCall {told : List Event} (h : node.Leaves run told run') :
    ∀ event ∈ told, ¬ event.isCall := by
  cases h with
  | fails error => exact List.forall_mem_singleton.2 Bool.false_ne_true
  | completes hnews _ =>
    exact List.forall_mem_append.2 ⟨fun event hevent => not_isCall_of_isNews (hnews event hevent),
      List.forall_mem_singleton.2 Bool.false_ne_true⟩
  | suspends hquestion _ => exact List.forall_mem_singleton.2 (not_isCall_of_isNews hquestion)

namespace Runner

variable {start point point' : Point σ} {log : List Event}

/-- A run that is not cancelled never was. -/
theorem Leads.not_cancelled (h : runner.Leads host point point')
    (hopen : point'.session.cancelled = false) : point.session.cancelled = false := by
  induction h with
  | refl => exact hopen
  | tail _ hnext ih =>
    obtain ⟨command, rfl⟩ := hnext
    refine ih (Bool.eq_false_iff.2 fun hcancelled => ?_)
    exact Bool.false_ne_true (hopen.symm.trans (Activity.cancelled_run _ hcancelled))

/-- As long as a run is not cancelled, every move settles all calls that it tells of. -/
theorem Moves.balanced (h : runner.Moves point point') (hopen : point'.session.cancelled = false)
    {name tool : String} (hpoint : Balanced name tool point.log) :
    Balanced name tool point'.log := by
  cases h with
  | rests _ hlog => rwa [hlog]
  | fails _ _ _ _ hlog =>
    rw [hlog]
    exact hpoint.append (balanced_singleton Bool.false_ne_true)
  | finishes _ _ _ hlog =>
    rw [hlog]
    exact hpoint.append (balanced_singleton Bool.false_ne_true)
  | @enters _ node _ _ inner told _ _ _ _ _ hworks hleaves hlog =>
    have hstart : Balanced name tool [.nodeStarted node.name] :=
      balanced_singleton Bool.false_ne_true
    rw [hopen] at hworks
    rw [hlog, List.append_cons]
    refine (hpoint.append hstart).append ?_
    exact (hworks.balanced_all name tool).append (balanced_of_silent hleaves.not_isCall)
  | @resumes _ _ opening inner told _ _ hopening hworks hleaves hlog =>
    rw [hopen] at hworks
    rw [hlog]
    have hstart : Balanced name tool opening :=
      balanced_of_silent fun event hevent => not_isCall_of_isNews (hopening event hevent)
    refine hpoint.append (.append ?_ (balanced_of_silent hleaves.not_isCall))
    exact hstart.append (hworks.balanced_all name tool)

/-- At every point of a run that is not cancelled, the calls that were told of are settled. -/
theorem Leads.balanced {world : σ} {params inputs : List (String × Value)}
    (h : runner.Leads host (runner.outset host world params inputs) point)
    (hopen : point.session.cancelled = false) (name tool : String) :
    Balanced name tool point.log := by
  revert hopen
  refine h.induct (P := fun point => point.session.cancelled = false →
    Balanced name tool point.log) trivial ?_ ?_
  · exact fun _ => balanced_singleton (show ¬ Event.runStarted.isCall from Bool.false_ne_true)
  · exact fun before after _ hleads hmove hbefore hafter =>
      hmove.balanced hafter (hbefore (hleads.not_cancelled hafter))

/-! ## Chronicles -/

/-- What an observer of a run can tell from its events. -/
structure Chronicles (runner : Runner) (host : Host σ) (start point : Point σ) : Prop where
  /-- First of all, and only then, the run is started. -/
  begins : ∃ rest, point.log = .runStarted :: rest ∧ .runStarted ∉ rest
  /-- Nothing is told after the run has ended. -/
  ends : ∀ before event after, point.log = before ++ event :: after → event.isEnding → after = []
  /-- Nodes are executed one after the other: what is started or completed next after a node was
  started is that this node is completed. -/
  nests : ∀ before name inner event after,
    point.log = before ++ .nodeStarted name :: (inner ++ event :: after) →
      (∀ other ∈ inner, ¬ other.isMark) → event.isMark → event = .nodeCompleted name
  /-- A node is started where the routes lead to: from the start, in the state of then, or from the
  node that was completed last, in the state in which that left the run. -/
  routes : ∀ before name after, point.log = before ++ .nodeStarted name :: after →
    ∃ source entry, runner.Leads host start entry ∧ runner.Leads host entry point ∧
      entry.log = before ∧ entry.run.cursor = .leaving source ∧
        Behind start source entry.run.state before ∧
          runner.flow.selectRoute source entry.run.state.get? = .ok name
  /-- A run is completed only where the routes lead to the end. -/
  completes : ∀ before steps after, point.log = before ++ .runCompleted steps :: after →
    ∃ source last, runner.Leads host start last ∧ runner.Leads host last point ∧
      last.log = before ∧ last.run.cursor = .leaving source ∧
        Behind start source last.run.state before ∧
          runner.flow.selectRoute source last.run.state.get? = .ok endName
  /-- It is completed wherever they do. -/
  finishes : ∀ source, point.run.cursor = .leaving source → point.session.cancelled = false →
    runner.flow.selectRoute source point.run.state.get? = .ok endName →
      (runner.advance point.run).run host point.session =
        ((.done ⟨point.run.state, point.run.transcript, point.run.steps⟩,
            { point.run with cursor := .closed, state := .empty, transcript := [] }),
          { point.session with log := point.log ++ [.runCompleted point.run.steps] })
  /-- What happens in a node happens while it is executed. -/
  within : ∀ before event after name, point.log = before ++ event :: after →
    event.IsWithin name → UnderWay name before
  /-- In every execution of a node, all calls are ended that are started, if the run is not
  cancelled. -/
  settles : point.session.cancelled = false → ∀ before name inner after,
    point.log = before ++ .nodeStarted name :: (inner ++ after) →
      (∀ event ∈ inner, ¬ event.isMilestone) → (∀ event ∈ after.head?, event.isMilestone) →
        ∀ tool, Balanced name tool inner

/-- Of the elements of one kind in a list, there is one last. -/
theorem last_unique {α : Type} {p : α → Prop} {before inner before' inner' : List α} {a b : α}
    (h : before ++ a :: inner = before' ++ b :: inner') (ha : p a) (hb : p b)
    (hinner : ∀ c ∈ inner, ¬ p c) (hinner' : ∀ c ∈ inner', ¬ p c) : a = b := by
  rcases List.append_eq_append_iff.1 h with ⟨between, -, hrest⟩ | ⟨between, -, hrest⟩
  · cases between with
    | nil => exact (List.cons.inj hrest).1
    | cons _ between =>
      have hmem : b ∈ inner := (List.cons.inj hrest).2 ▸
        List.mem_append_right between List.mem_cons_self
      exact absurd hb (hinner b hmem)
  · cases between with
    | nil => exact (List.cons.inj hrest).1.symm
    | cons _ between =>
      have hmem : a ∈ inner' := (List.cons.inj hrest).2 ▸
        List.mem_append_right between List.mem_cons_self
      exact absurd ha (hinner' a hmem)

/-- An event that is no milestone is no mark of the route either. -/
theorem not_isMark_of_not_isMilestone {event : Event} (h : ¬ event.isMilestone) :
    ¬ event.isMark := by
  cases event <;> simp_all [Event.isMilestone, Event.isMark]

/-- A log that ends with the start of a node and nothing but what happens in it is not that of a run
between two nodes. -/
theorem not_behind {source name : String} {state : Store} {before inner : List Event}
    (hinner : ∀ other ∈ inner, ¬ other.isMark) :
    ¬ Behind start source state (before ++ .nodeStarted name :: inner) := by
  rintro (⟨hstart, -, -⟩ | ⟨earlier, hlast⟩)
  · have hmem : Event.nodeStarted name ∈ [Event.runStarted] :=
      hstart ▸ List.mem_append_right before List.mem_cons_self
    exact Event.noConfusion (List.mem_singleton.1 hmem)
  · have hsame : Event.nodeStarted name = .nodeCompleted source :=
      last_unique (p := fun event : Event => event.isMark) hlast rfl rfl hinner
        (List.forall_mem_nil _)
    cases hsame

/-- After the start of a node, the next that is told of nodes is that it is completed. -/
theorem InPlace.eq_nodeCompleted {before inner : List Event} {name : String} {event : Event}
    (h : runner.InPlace host start point (before ++ .nodeStarted name :: inner) event)
    (hinner : ∀ other ∈ inner, ¬ other.isMark) (hmark : event.isMark) :
    event = .nodeCompleted name := by
  have hreason := h.reason
  cases event with
  | nodeStarted other =>
    obtain ⟨source, entry, -, -, -, -, hbehind, -⟩ := hreason
    exact absurd hbehind (not_behind hinner)
  | nodeCompleted other =>
    obtain ⟨node, entry, counted, exit, hname, hstays, -⟩ := hreason
    obtain ⟨inner', htold, hinner'⟩ := hstays.told
    have hsame : Event.nodeStarted name = .nodeStarted node.name :=
      last_unique (p := fun event : Event => event.isMark) htold rfl rfl hinner
        fun event hevent => not_isMark_of_not_isMilestone (hinner' event hevent)
    rw [← hname, Event.nodeStarted.inj hsame]
  | _ => cases hmark

/-- Nothing is told after the end of a run. -/
theorem Recorded.ends (h : runner.Recorded host start point) {before after : List Event}
    {event : Event} (hsplit : point.log = before ++ event :: after) (hending : event.isEnding) :
    after = [] := by
  cases after with
  | nil => rfl
  | cons next after =>
    rw [List.append_cons] at hsplit
    have hmem : event ∈ before ++ [event] := List.mem_append_right _ List.mem_cons_self
    exact absurd hending ((h.events.inPlace hsplit).still event hmem)

/-- In the log of a run that is not cancelled, calls are settled in front of every milestone. -/
theorem Leads.balanced_before {world : σ} {params inputs : List (String × Value)}
    (h : runner.Leads host (runner.outset host world params inputs) point)
    (hopen : point.session.cancelled = false) {before after : List Event} {event : Event}
    (hsplit : point.log = before ++ event :: after) (hmilestone : event.isMilestone)
    (name tool : String) : Balanced name tool before := by
  have hearlier : ∀ earlier, runner.Leads host (runner.outset host world params inputs) earlier →
      runner.Leads host earlier point → Balanced name tool earlier.log :=
    fun earlier hstart hleads => hstart.balanced (hleads.not_cancelled hopen) name tool
  have hreason := (h.recorded.events.inPlace hsplit).reason
  cases event with
  | runStarted =>
    obtain rfl : before = [] := hreason
    exact balanced_nil name tool
  | nodeStarted _ =>
    obtain ⟨source, entry, hentry, hleads, rfl, -⟩ := hreason
    exact hearlier entry hentry hleads
  | nodeCompleted _ =>
    obtain ⟨node, entry, counted, exit, -, hstays, hentry, hleads, hlog, -⟩ := hreason
    -- There need not be a point in front of this event, but there is one right behind it.
    have hexit := hearlier exit (hstays.reached.trans hentry) hleads
    rw [hlog] at hexit
    exact hexit.left (balanced_singleton Bool.false_ne_true)
  | runCompleted _ =>
    obtain ⟨source, last, hstart, hleads, rfl, -⟩ := hreason
    exact hearlier last hstart hleads
  | runFailed error =>
    obtain rfl := h.recorded.ends hsplit rfl
    have hpoint := hearlier point h .refl
    rw [hsplit] at hpoint
    exact hpoint.left (balanced_singleton Bool.false_ne_true)
  | _ => cases hmilestone

/-- In an execution of a node, all calls are ended that are started. -/
theorem Leads.balanced_inner {world : σ} {params inputs : List (String × Value)}
    (h : runner.Leads host (runner.outset host world params inputs) point)
    (hopen : point.session.cancelled = false) {before inner after : List Event} {name : String}
    (hsplit : point.log = before ++ .nodeStarted name :: (inner ++ after))
    (hafter : ∀ event ∈ after.head?, event.isMilestone) (tool : String) :
    Balanced name tool inner := by
  have hbefore := h.balanced_before hopen hsplit rfl name tool
  have hstarted : Balanced name tool (before ++ [.nodeStarted name]) :=
    hbefore.append (balanced_singleton Bool.false_ne_true)
  -- Either the log ends with the execution, or there is a milestone behind it.
  have hended : Balanced name tool (before ++ [.nodeStarted name] ++ inner) := by
    cases after with
    | nil =>
      have hpoint := h.balanced hopen name tool
      rwa [hsplit, List.append_nil, List.append_cons] at hpoint
    | cons event after =>
      rw [List.append_cons, ← List.append_assoc] at hsplit
      exact h.balanced_before hopen hsplit (hafter event rfl) name tool
  exact hended.right hstarted

/-- A run goes on to its end where the routes lead there. -/
theorem run_advance_of_endName {run : Run} {session : Session σ} {source : String}
    (hcursor : run.cursor = .leaving source) (hopen : session.cancelled = false)
    (hroute : runner.flow.selectRoute source run.state.get? = .ok endName) :
    (runner.advance run).run host session =
      ((.done ⟨run.state, run.transcript, run.steps⟩,
          { run with cursor := .closed, state := .empty, transcript := [] }),
        { session with log := session.log ++ [.runCompleted run.steps] }) := by
  rw [advance_eq hcursor]
  unfold leaveBy
  rw [Activity.run_then, Activity.run_poll]
  dsimp only
  rw [if_neg (Bool.eq_false_iff.1 hopen), hroute]
  rfl

/-- Whatever is done with a run, its events tell of a walk through the graph of its flow. -/
theorem chronicles (runner : Runner) (host : Host σ) (world : σ)
    (params inputs : List (String × Value)) (commands : List Command)
    (hpoint : runner.Leads host (runner.reached host world params inputs commands) point) :
    runner.Chronicles host (runner.outset host world params inputs) point := by
  have hleads := hpoint.of_reached
  have hrec := hleads.recorded
  -- What leads to an event is what is recorded of it, whatever part of the log it is in.
  have hreason {before event after} (hsplit : point.log = before ++ event :: after) :=
    (hrec.events.inPlace hsplit).reason
  constructor
  case begins =>
    obtain ⟨rest, hrest⟩ := List.head?_eq_some_iff.1 hrec.begins
    refine ⟨rest, hrest, fun hmem => ?_⟩
    obtain ⟨before, after, rfl⟩ := List.append_of_mem hmem
    have hnone : .runStarted :: before = [] := hreason (hrest.trans (List.cons_append ..).symm)
    cases hnone
  case ends => exact fun before event after => hrec.ends
  case nests =>
    intro before name inner event after hsplit hinner hmark
    have hsplit' : point.log = before ++ .nodeStarted name :: inner ++ event :: after := by
      simp [hsplit]
    exact (hrec.events.inPlace hsplit').eq_nodeCompleted hinner hmark
  case routes => exact fun before name after => hreason
  case completes => exact fun before steps after => hreason
  case finishes => exact fun source hcursor hopen => run_advance_of_endName hcursor hopen
  case within =>
    intro before event after name hsplit hwithin
    have hevent := hreason hsplit
    cases event <;>
      first | exact (show _ = name from hwithin) ▸ hevent | cases hwithin
  case settles =>
    exact fun hopen before name inner after hsplit _ hafter =>
      hleads.balanced_inner hopen hsplit hafter

end Runner

end

namespace Sample

/-- Where the sample waits again, after its caller has approved a call. -/
def approved : Point Unit :=
  Runner.reached ⟨flow, setting⟩ host () [] [] [.advance, .resume (.approval .approved)]

/-- The approved call of the sample is told of from its start to its end. -/
theorem chronicles_approved :
    approved.session.cancelled = false ∧
      approved.log.filter Event.isCall =
        [.toolStart "n" "t" (.map []), .toolEnd "n" "t" (.success "r")] ∧
      Runner.Chronicles ⟨flow, setting⟩ host (Runner.outset ⟨flow, setting⟩ host () [] [])
        approved := by
  have hopen : approved.session.cancelled = false := by decide +kernel
  have hcalls : approved.log.filter Event.isCall =
      [.toolStart "n" "t" (.map []), .toolEnd "n" "t" (.success "r")] := by decide +kernel
  exact ⟨hopen, hcalls, Runner.chronicles _ host () [] [] _ .refl⟩

end Sample

end AgentFlow
