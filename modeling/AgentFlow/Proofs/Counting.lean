import Mathlib.Tactic.NormNum
import AgentFlow.Proofs.Moves

/-!
# Limits on executions

A node may have a limit, and a variable in which its executions are counted. Several nodes may share
a variable, each with a limit of its own. If no node writes the variable, it holds its seed and the
number of starts that were told, at every point of a run: a start is the only thing that changes
either, and it changes both. Hence a node is not started more often than its limit allows, and since
limits are numbers of 64 bits, so is every count.
-/

namespace AgentFlow

section

variable {σ : Type} {host : Host σ} {runner : Runner} {flow : Flow} {node : Node}

/-! ## One execution -/

/-- A variable stands at a count; if there is none, that is zero. -/
def Store.StandsAt (store : Store) (counter : String) (count : Nat) : Prop :=
  store.get? counter = none ∧ count = 0 ∨ store.get? counter = some (.int count)

/-- What counting an execution of a node makes of a state. -/
structure Node.Counted (node : Node) (before counted : Store) : Prop where
  /-- The counter of a node with a limit goes up by one, up to the limit. -/
  counter : ∀ limit counter, node.limit = some limit → node.limitCounter = some counter →
    ∃ count : Nat, before.StandsAt counter count ∧ count < limit.toNat ∧
      counted.get? counter = some (.int (count + 1))
  /-- Nothing else changes. -/
  others : ∀ key, node.limit = none ∨ node.limitCounter ≠ some key →
    counted.get? key = before.get? key

/-- A number can be read as a counter exactly if it is an integer from 0 that fits 64 bits without a
sign. -/
theorem Number.toNat64?_eq_some_iff {n : Number} {count : Nat} :
    n.toNat64? = some count ↔ n = .int count ∧ count < 2 ^ 64 := by
  cases n with
  | float x => simp [toNat64?]
  | int n =>
    have hrange : inNat64 n = true ↔ 0 ≤ n ∧ n < 2 ^ 64 := inNat64_iff n
    simp only [toNat64?, Option.ite_none_right_eq_some, Option.some.injEq, hrange, Number.int.injEq]
    omega

namespace Node

variable {before counted : Store} {limit : UInt64} {counter : String} {count : Nat}

/-- Where the counter stands decides whether a node with a limit is executed. -/
theorem countExecution_of_standsAt (hlimit : node.limit = some limit)
    (hcounter : node.limitCounter = some counter) (hstands : before.StandsAt counter count)
    (hfits : count < 2 ^ 64) :
    node.countExecution before =
      if limit.toNat ≤ count then .error (.loopLimit node.name limit.toNat counter)
      else .ok (before.set counter (.int (count + 1))) := by
  unfold countExecution
  rw [hlimit, hcounter]
  dsimp only
  rcases hstands with ⟨hnone, rfl⟩ | hsome
  · rw [hnone]
    rfl
  · rw [hsome]
    dsimp only
    rw [Number.toNat64?_eq_some_iff.2 ⟨rfl, hfits⟩]
    rfl

/-- An execution is only counted by a counter that stands somewhere. -/
theorem exists_standsAt_of_countExecution (hlimit : node.limit = some limit)
    (hcounter : node.limitCounter = some counter) (h : node.countExecution before = .ok counted) :
    ∃ count, before.StandsAt counter count ∧ count < 2 ^ 64 := by
  unfold countExecution at h
  rw [hlimit, hcounter] at h
  dsimp only at h
  split at h
  · exact ⟨0, .inl ⟨‹_›, rfl⟩, by norm_num⟩
  · rename_i n hsome
    split at h
    · rename_i count hcount
      obtain ⟨rfl, hfits⟩ := Number.toNat64?_eq_some_iff.1 hcount
      exact ⟨count, .inr hsome, hfits⟩
    · cases h
  · cases h

/-- A state in which an execution was counted is the one before, with the counter one higher and
within the limit. -/
theorem counted_of_countExecution (h : node.countExecution before = .ok counted) :
    node.Counted before counted := by
  by_cases hnot : ∃ limit counter, node.limit = some limit ∧ node.limitCounter = some counter
  · obtain ⟨limit, counter, hlimit, hcounter⟩ := hnot
    obtain ⟨count, hstands, hfits⟩ := exists_standsAt_of_countExecution hlimit hcounter h
    rw [countExecution_of_standsAt hlimit hcounter hstands hfits] at h
    split_ifs at h with hreached
    obtain rfl := Except.ok.inj h
    refine ⟨fun limit' counter' hlimit' hcounter' => ?_, fun key hkey => ?_⟩
    · obtain rfl := Option.some.inj (hlimit.symm.trans hlimit')
      obtain rfl := Option.some.inj (hcounter.symm.trans hcounter')
      exact ⟨count, hstands, Nat.lt_of_not_le hreached, by rw [Store.get?_set, if_pos rfl]⟩
    · rw [Store.get?_set, if_neg]
      rintro rfl
      exact hkey.elim (fun hnone => by simp [hlimit] at hnone) (fun hne => hne hcounter)
  · have hsame : node.countExecution before = .ok before := by
      unfold countExecution
      split
      · exact absurd ⟨_, _, ‹_›, ‹_›⟩ hnot
      · rfl
    obtain rfl := Except.ok.inj (hsame.symm.trans h)
    exact ⟨fun limit counter hlimit hcounter => absurd ⟨limit, counter, hlimit, hcounter⟩ hnot,
      fun _ _ => rfl⟩

end Node

/-! ## Whole runs -/

/-- Whether an event tells that a node of the name was started. -/
def Event.starts (name : String) : Event → Bool
  | nodeStarted node => node = name
  | _ => false

/-- Whether an event tells that a node was started whose executions a variable counts. -/
def Flow.countsStart (flow : Flow) (counter : String) : Event → Bool
  | .nodeStarted name => (flow.node? name).any fun node => node.limitCounter = some counter
  | _ => false

/-- The executions that a variable counts, of those that were told. -/
def Flow.executions (flow : Flow) (counter : String) (log : List Event) : Nat :=
  log.countP (flow.countsStart counter)

/-- What a variable holds after a number of executions that it counts: it is only missing if it was
not seeded and there were none. -/
def counterValue (seed : Option UInt64) (executions : Nat) : Option Value :=
  if seed = none ∧ executions = 0 then none
  else some (.int ((seed.getD 0).toNat + executions : Nat))

/-- What the state of a run, what was told of it and the limits of its flow have to do with each
other. -/
structure Flow.Counts (flow : Flow) (counter : String) (seed : Option UInt64) (point : Point σ) :
    Prop where
  /-- As long as the run is open, the counter holds its seed and the executions so far. -/
  value : point.IsOpen → point.run.state.get? counter =
    counterValue seed (flow.executions counter point.log)
  /-- No node is started more often than what its limit leaves above the seed. -/
  bounded : ∀ node ∈ flow.nodes, node.limitCounter = some counter → ∀ limit,
    node.limit = some limit →
      point.log.countP (Event.starts node.name) ≤ limit.toNat - (seed.getD 0).toNat
  /-- The count is a number of 64 bits. -/
  fits : (seed.getD 0).toNat + flow.executions counter point.log < 2 ^ 64

/-- What holds of a counter at a point of a run, and of what comes next. -/
structure Runner.Counts (runner : Runner) (host : Host σ) (counter : String) (seed : Option UInt64)
    (point : Point σ) : Prop extends Flow.Counts runner.flow counter seed point where
  /-- While a node works, the counter holds its seed and the executions up to this one. -/
  working : ∀ source node counted, point.run.cursor = .leaving source →
    runner.flow.selectRoute source point.run.state.get? = .ok node.name →
      runner.flow.node? node.name = some node →
        node.countExecution point.run.state = .ok counted →
          counted.get? counter = counterValue seed
            (runner.flow.executions counter (point.log ++ [.nodeStarted node.name]))
  /-- When a node comes next whose limit the counter has reached, the run fails and nothing is
  started. -/
  exhausted : ∀ source node limit, point.run.cursor = .leaving source →
    point.session.cancelled = false →
      runner.flow.selectRoute source point.run.state.get? = .ok node.name →
        runner.flow.node? node.name = some node → point.run.steps < runner.budget →
          node.limit = some limit → node.limitCounter = some counter →
            limit.toNat ≤ (seed.getD 0).toNat + runner.flow.executions counter point.log →
              (runner.advance point.run).run host point.session =
                ((.failed ⟨node.name, .loopLimit node.name limit.toNat counter⟩,
                    { point.run with
                      cursor := .closed, state := .empty, steps := point.run.steps + 1 }),
                  { point.session with
                    log := point.log ++ [.runFailed (.loopLimit node.name limit.toNat counter)] })
  /-- Whatever is done with a run that waits, nothing is counted before the next round. -/
  resumed : ∀ name pending command, point.run.cursor = .suspended name pending →
    let next := runner.next host point command
    next.log.countP Event.isStart = point.log.countP Event.isStart ∧
      (next.IsOpen → next.run.state.get? counter = point.run.state.get? counter)

variable {counter : String} {seed : Option UInt64} {executions : Nat}

/-- A value that counts executions stands at their number and the seed. -/
theorem Store.standsAt_iff {store : Store} {count : Nat}
    (h : store.get? counter = counterValue seed executions) :
    store.StandsAt counter count ↔ count = (seed.getD 0).toNat + executions := by
  unfold StandsAt
  rw [h, counterValue]
  split_ifs with hnone
  · obtain ⟨rfl, rfl⟩ := hnone
    simp
  · simp only [false_and, false_or, Option.some.injEq, Value.number.injEq,
      Number.int.injEq, Nat.cast_inj]
    exact eq_comm

namespace Flow

/-- The executions in two stretches of the log add up. -/
theorem executions_append (flow : Flow) (counter : String) (log more : List Event) :
    flow.executions counter (log ++ more) =
      flow.executions counter log + flow.executions counter more :=
  List.countP_append

/-- An event with which an execution is counted is the start of a node. -/
theorem isStart_of_countsStart (flow : Flow) (counter : String) (event : Event)
    (h : flow.countsStart counter event) : event.isStart := by
  cases event <;> first | rfl | cases h

/-- An event that starts a certain node is the start of a node. -/
theorem isStart_of_starts (name : String) (event : Event) (h : event.starts name) :
    event.isStart := by
  cases event <;> first | rfl | cases h

/-- A variable counts the start of a node exactly if it is the node's counter. -/
theorem executions_start (hnode : flow.node? node.name = some node) :
    flow.executions counter [.nodeStarted node.name] =
      if node.limitCounter = some counter then 1 else 0 := by
  simp [executions, countsStart, hnode, List.countP_singleton]

/-- Counting an execution and telling of the start go together. -/
theorem get?_of_counted (hwf : node.WellFormed) (hnode : flow.node? node.name = some node)
    {log : List Event} {before counted : Store} (hcounted : node.Counted before counted)
    (hvalue : before.get? counter = counterValue seed (flow.executions counter log)) :
    counted.get? counter =
      counterValue seed (flow.executions counter (log ++ [.nodeStarted node.name])) := by
  rw [executions_append, executions_start hnode]
  by_cases hcounter : node.limitCounter = some counter
  · obtain ⟨limit, hlimit⟩ := Option.isSome_iff_exists.1
      (hwf.counter.2 (Option.isSome_iff_exists.2 ⟨counter, hcounter⟩))
    obtain ⟨count, hstands, -, hget⟩ := hcounted.counter limit counter hlimit hcounter
    obtain rfl := (Store.standsAt_iff hvalue).1 hstands
    rw [hget, if_pos hcounter, counterValue, if_neg (by simp), ← Nat.add_assoc]
    rfl
  · -- The node counts elsewhere, or not at all.
    rw [hcounted.others counter (.inr hcounter), if_neg hcounter, Nat.add_zero, hvalue]

/-- Every start of a node is counted by its counter. -/
theorem starts_le_executions (hnode : flow.node? node.name = some node)
    (hcounter : node.limitCounter = some counter) (log : List Event) :
    log.countP (Event.starts node.name) ≤ flow.executions counter log := by
  refine List.countP_mono_left fun event _ hstarts => ?_
  cases event with
  | nodeStarted name =>
    obtain rfl : name = node.name := by simpa [Event.starts] using hstarts
    simp [countsStart, hnode, hcounter]
  | _ => cases hstarts

/-- Where no start is told of, none of a kind is. -/
theorem countP_of_quiet {told : List Event} (hquiet : told.countP Event.isStart = 0)
    {p : Event → Bool} (hp : ∀ event, p event → event.isStart) : told.countP p = 0 :=
  Nat.le_zero.1 (hquiet ▸ List.countP_mono_left fun event _ => hp event)

variable {point point' : Point σ}

/-- As long as no node is started and the counter is left alone, everything stays as it is. -/
theorem Counts.of_quiet (hcounts : flow.Counts counter seed point) {told : List Event}
    (hlog : point'.log = point.log ++ told) (hquiet : told.countP Event.isStart = 0)
    (hstate : point'.IsOpen →
      point.IsOpen ∧ point'.run.state.get? counter = point.run.state.get? counter) :
    flow.Counts counter seed point' := by
  have hnone : flow.executions counter told = 0 :=
    countP_of_quiet hquiet (flow.isStart_of_countsStart counter)
  have hsame : flow.executions counter point'.log = flow.executions counter point.log := by
    rw [hlog, executions_append, hnone, Nat.add_zero]
  refine ⟨fun hopen => ?_, fun node hmem hcounter limit hlimit => ?_, ?_⟩
  · rw [(hstate hopen).2, hsame]
    exact hcounts.value (hstate hopen).1
  · rw [hlog, List.countP_append, countP_of_quiet hquiet (isStart_of_starts node.name)]
    exact hcounts.bounded node hmem hcounter limit hlimit
  · rw [hsame]
    exact hcounts.fits

/-- An execution is only counted below the limit. -/
theorem Counts.lt_limit (hcounts : flow.Counts counter seed point) (hopen : point.IsOpen)
    {counted : Store} (hcounted : node.Counted point.run.state counted)
    (hcounter : node.limitCounter = some counter) {limit : UInt64}
    (hlimit : node.limit = some limit) :
    (seed.getD 0).toNat + flow.executions counter point.log < limit.toNat := by
  obtain ⟨count, hstands, hlt, -⟩ := hcounted.counter limit counter hlimit hcounter
  rwa [(Store.standsAt_iff (hcounts.value hopen)).1 hstands] at hlt

/-- When a node is started, the counter and what it counts go up together, within the limit. -/
theorem Counts.start (hflow : flow.Sound) (hcounts : flow.Counts counter seed point)
    (hopen : point.IsOpen) (hnode : flow.node? node.name = some node) {counted : Store}
    (hcounted : node.Counted point.run.state counted)
    (hlog : point'.log = point.log ++ [.nodeStarted node.name])
    (hstate : point'.run.state = counted) : flow.Counts counter seed point' := by
  have hwf := hflow.nodes node (mem_of_node? hnode).1
  have hmore := hcounts.lt_limit hopen hcounted
  refine ⟨fun _ => ?value, fun other hother hcounter limit hlimit => ?bounded, ?fits⟩
  case value =>
    rw [hstate, hlog]
    exact get?_of_counted hwf hnode hcounted (hcounts.value hopen)
  case bounded =>
    have hbounded := hcounts.bounded other hother hcounter limit hlimit
    rw [hlog, List.countP_append, List.countP_singleton]
    by_cases hname : node.name = other.name
    · obtain rfl : node = other := Option.some.inj
        (hnode.symm.trans ((congrArg flow.node? hname).trans (hflow.node?_eq hother)))
      -- The node's own starts are among those that its counter counts, and these are below the
      -- limit.
      have hstarts := starts_le_executions hnode hcounter point.log
      have hlt := hmore hcounter hlimit
      split_ifs <;> omega
    · have hother : (Event.nodeStarted node.name).starts other.name = false := by
        simp [Event.starts, hname]
      simpa [hother] using hbounded
  case fits =>
    rw [hlog, executions_append, executions_start hnode]
    split_ifs with hcounter
    · obtain ⟨limit, hlimit⟩ := Option.isSome_iff_exists.1
        (hwf.counter.2 (Option.isSome_iff_exists.2 ⟨counter, hcounter⟩))
      have hlt := hmore hcounter hlimit
      have hlimit64 := limit.toNat_lt
      omega
    · exact hcounts.fits

end Flow

namespace Runner

variable {point point' : Point σ}

/-- A move starts the node that comes next, or tells of no start. Besides, a counter that no node
writes is left alone while the run is open. -/
theorem Moves.starts_or_quiet (h : runner.Moves point point')
    (hfree : ∀ node ∈ runner.flow.nodes, counter ∉ node.writes) :
    (∃ source node counted told, point.run.cursor = .leaving source ∧
      runner.flow.node? node.name = some node ∧ Node.Counted node point.run.state counted ∧
        point'.log = point.log ++ .nodeStarted node.name :: told ∧
          told.countP Event.isStart = 0 ∧
            (point'.IsOpen → point'.run.state.get? counter = counted.get? counter)) ∨
      ∃ told, point'.log = point.log ++ told ∧ told.countP Event.isStart = 0 ∧
        (point'.IsOpen →
          point.IsOpen ∧ point'.run.state.get? counter = point.run.state.get? counter) := by
  cases h with
  | rests hrun hlog =>
    refine .inr ⟨[], by rw [hlog, List.append_nil], rfl, fun hopen => ?_⟩
    rw [Point.IsOpen, hrun] at hopen
    exact ⟨hopen, by rw [hrun]⟩
  | fails error _ _ hrun hlog =>
    exact .inr ⟨_, hlog, countP_isStart_singleton rfl, fun hopen => absurd (by rw [hrun]) hopen⟩
  | finishes _ _ hrun hlog =>
    exact .inr ⟨_, hlog, countP_isStart_singleton rfl, fun hopen => absurd (by rw [hrun]) hopen⟩
  | @enters source node counted _ inner told hcursor _ hnode _ hcount hworks hleaves hlog =>
    refine .inl ⟨source, node, counted, inner ++ told, hcursor, hnode,
      node.counted_of_countExecution hcount, hlog, countP_isStart_entered hworks hleaves,
      fun hopen => ?_⟩
    exact hleaves.get?_of_notMem hopen (hfree node (Flow.mem_of_node? hnode).1)
  | @resumes node _ _ _ _ hcursor hnode hopening hworks hleaves hlog =>
    refine .inr ⟨_, hlog, countP_isStart_resumed hopening hworks hleaves, fun hopen => ?_⟩
    refine ⟨Run.ne_closed_of_suspended hcursor, ?_⟩
    exact hleaves.get?_of_notMem hopen (hfree node (Flow.mem_of_node? hnode).1)

/-- No move makes a counter lose count. -/
theorem Moves.counts (hflow : runner.flow.Sound)
    (hfree : ∀ node ∈ runner.flow.nodes, counter ∉ node.writes) (h : runner.Moves point point')
    (hcounts : runner.flow.Counts counter seed point) : runner.flow.Counts counter seed point' := by
  rcases h.starts_or_quiet hfree with
    ⟨source, node, counted, told, hcursor, hnode, hcounted, hlog, hquiet, hstate⟩ |
      ⟨told, hlog, hquiet, hstate⟩
  · -- With the node started, but before it works, everything holds already.
    let started : Point σ := ⟨{ point.run with state := counted },
      { point.session with log := point.log ++ [.nodeStarted node.name] }⟩
    have hopen : point.IsOpen := Run.ne_closed_of_leaving hcursor
    have hstarted : runner.flow.Counts counter seed started :=
      hcounts.start hflow hopen hnode hcounted rfl rfl
    exact hstarted.of_quiet (hlog.trans (List.append_cons ..)) hquiet
      fun hopen' => ⟨hopen, hstate hopen'⟩
  · exact hcounts.of_quiet hlog hquiet hstate

/-- A run does not start a node whose executions may not be counted. -/
theorem run_advance_of_refused {run : Run} {session : Session σ} {source : String} {error : Error}
    (hcursor : run.cursor = .leaving source) (hopen : session.cancelled = false)
    (hroute : runner.flow.selectRoute source run.state.get? = .ok node.name)
    (hend : node.name ≠ endName) (hnode : runner.flow.node? node.name = some node)
    (hbudget : run.steps < runner.budget) (hcount : node.countExecution run.state = .error error) :
    (runner.advance run).run host session =
      ((.failed ⟨node.name, error⟩,
          { run with cursor := .closed, state := .empty, steps := run.steps + 1 }),
        { session with log := session.log ++ [.runFailed error] }) := by
  obtain ⟨left, hleft⟩ := Nat.exists_eq_succ_of_ne_zero (Nat.sub_ne_zero_of_lt hbudget)
  have hleft : runner.left run = left + 1 := hleft
  rw [advance_eq hcursor, hleft, run_leaveBy hopen hroute hend hnode]
  unfold Node.enter
  dsimp only
  rw [hcount]
  rfl

/-- Limits on executions hold over whole runs, whatever is done with them. -/
theorem counts_of_compile {definition : Definition} {flow : Flow}
    (hcompile : Flow.compile definition = .ok flow) (setting : Setting) (host : Host σ) (world : σ)
    (params inputs : List (String × Value)) (commands : List Command)
    (hseed : (Store.ofList params).get? counter = seed.map fun start => .int start.toNat)
    (hfree : ∀ node ∈ flow.nodes, counter ∉ node.writes) {point : Point σ}
    (hpoint : Runner.Leads ⟨flow, setting⟩ host
      (Runner.reached ⟨flow, setting⟩ host world params inputs commands) point) :
    Runner.Counts ⟨flow, setting⟩ host counter seed point := by
  have hflow := Flow.sound_of_compile hcompile
  have hstart : flow.Counts counter seed
      (Runner.outset ⟨flow, setting⟩ host world params inputs) := by
    refine ⟨fun _ => ?_, fun _ _ _ _ _ => Nat.zero_le _, (seed.getD 0).toNat_lt⟩
    show (Store.ofList params).get? counter = counterValue seed 0
    rw [hseed]
    cases seed <;> rfl
  -- The invariant holds at the outset and survives every move, and so holds wherever strides lead.
  have hcounts : flow.Counts counter seed point :=
    hpoint.of_reached.induct trivial hstart fun _ _ _ _ hmove => hmove.counts hflow hfree
  have hvalue : ∀ source, point.run.cursor = .leaving source →
      point.run.state.get? counter = counterValue seed (flow.executions counter point.log) :=
    fun source hcursor => hcounts.value (Run.ne_closed_of_leaving hcursor)
  refine ⟨hcounts, ?working, ?exhausted, ?resumed⟩
  case working =>
    intro source node counted hcursor _ hnode hcount
    exact Flow.get?_of_counted (hflow.nodes node (Flow.mem_of_node? hnode).1) hnode
      (node.counted_of_countExecution hcount) (hvalue source hcursor)
  case exhausted =>
    intro source node limit hcursor hopen hroute hnode hbudget hlimit hcounter hreached
    refine run_advance_of_refused hcursor hopen hroute ?_ hnode hbudget ?_
    · exact (Flow.names_of_compile hcompile node (Flow.mem_of_node? hnode).1).2
    · rw [Node.countExecution_of_standsAt hlimit hcounter
        ((Store.standsAt_iff (hvalue source hcursor)).2 rfl) hcounts.fits, if_pos hreached]
  case resumed =>
    intro name pending command hcursor
    have hmove := moves_next host point (hpoint.of_reached.asks trivial) command
    -- A move starts a node only from behind another one, which is not where the run is suspended.
    rcases hmove.starts_or_quiet hfree with ⟨source, _, _, _, hleaving, _⟩ |
        ⟨told, hlog, hquiet, hstate⟩
    · rw [hcursor] at hleaving
      cases hleaving
    · refine ⟨?_, fun hopen => (hstate hopen).2⟩
      rw [hlog, List.countP_append, hquiet, Nat.add_zero]

end Runner

end

/-- The counter of the sample starts at one, so that its node is executed once. -/
theorem Sample.Swapping.counts_swapping :
    Flow.compile definition = .ok flow ∧
      (Store.ofList params).get? "n" =
        (some 1 : Option UInt64).map (fun start => .int start.toNat) ∧
      (∀ node ∈ flow.nodes, "n" ∉ node.writes) ∧ point.run.cursor = .leaving "swap" ∧
      runner.Counts host "n" (some 1) point := by
  have hcompile : Flow.compile definition = .ok flow := rfl
  have hseed : (Store.ofList params).get? "n" =
      (some 1 : Option UInt64).map (fun start => .int start.toNat) := rfl
  have hfree : ∀ node ∈ flow.nodes, "n" ∉ node.writes := by decide
  exact ⟨hcompile, hseed, hfree, rfl, Runner.counts_of_compile hcompile _ host () params [] []
    hseed hfree (Runner.leads_next _ _ _ .advance)⟩

end AgentFlow
