import AgentFlow.FanOut.Basic
import AgentFlow.Proofs.Pool

/-!
# Fanning out in any order

What a node that fans out writes does not depend on how the work on its items is distributed. If
the work on each item yields a result, the list of entries and their counts are a matter of these
results and of which items were started (`accounted_of_lookup`), whatever the number of workers, the
order in which the items end, and which of them fail. `Node.fansOut` puts this together with what a
crew is sure to do, and with the pool of the runner as one such crew.
-/

namespace AgentFlow

/-! ## Entries -/

/-- No error reads like an item that was never started. -/
theorem Error.message_ne_cancelled (error : Error) : error.message ≠ "cancelled" := by
  intro h
  -- Every message starts with a capital letter.
  have hfirst := congrArg (fun text => text.toList.head?) h
  cases error <;> unfold message at hfirst <;> simp [toString] at hfirst

/-- A record has the value that its fields have last for a name. -/
theorem Record.field?_ofFields (fields : List (String × Value)) (name : String) :
    (ofFields fields).field? name = fields.reverse.lookup name :=
  (Fields.lookup_putAll name fields []).trans Option.or_none

/-- Whether an item has the fields that it was to have. -/
def ItemResult.succeeded : ItemResult → Bool
  | some (.ok _) => true
  | _ => false

/-- What an entry says of a value at a position and of how the work on it ended. -/
structure Value.Reports (entry : Value) (position : Nat) (value : Value) (result : ItemResult) :
    Prop where
  index : entry.field? "index" = some (.int position)
  item : entry.field? "item" = some value
  status : entry.field? "status" =
    some (.string (if ItemResult.succeeded result then "ok" else "error"))
  output : entry.field? "output" = match result with
    | some (.ok result) => some (Record.ofFields result.fields)
    | _ => none
  error : entry.field? "error" = match result with
    | some (.ok _) => none
    | some (.error error) => some (.string error.message)
    | none => some (.string "cancelled")

/-- The entry of an item reports the item and how the work on it ended. -/
theorem reports_itemEntry (index : Nat) (item : Value) (result : ItemResult) :
    (itemEntry index item result).Reports index item result := by
  unfold itemEntry
  rcases result with _ | _ | result <;> constructor <;> rw [Record.field?_ofFields] <;>
    simp [List.lookup_cons, ItemResult.succeeded]

/-- Only an item that was never started is reported as cancelled. -/
theorem Value.Reports.error_eq_cancelled_iff {entry value : Value} {position : Nat}
    {result : ItemResult} (h : entry.Reports position value result) :
    entry.field? "error" = some (.string "cancelled") ↔ result = none := by
  rw [h.error]
  rcases result with _ | error | result
  · simp
  · simp [error.message_ne_cancelled]
  · simp

/-! ## Counts -/

/-- Each item counts once, on one of the two sides. -/
theorem FanOutSummary.count_eq (summary : FanOutSummary) (result : ItemResult) :
    summary.count result = { summary with
      succeeded := summary.succeeded + result.succeeded.toNat
      failed := summary.failed + (!result.succeeded).toNat } := by
  rcases result with _ | _ | _ <;> rfl

/-- Counting results adds to each side as many as belong to it. -/
theorem FanOutSummary.foldl_count (results : List ItemResult) (summary : FanOutSummary) :
    results.foldl count summary = { summary with
      succeeded := summary.succeeded + results.countP ItemResult.succeeded
      failed := summary.failed + results.countP fun result => !result.succeeded } := by
  induction results generalizing summary with
  | nil => rfl
  | cons result rest ih =>
    rw [List.foldl_cons, ih, count_eq, List.countP_cons, List.countP_cons]
    cases result.succeeded <;> simp <;> omega

/-! ## The whole list -/

/-- How the items ended if these ones were started. -/
def outcomes (outcome : Nat → Except Error NodeResult) (started : List Nat) (index : Nat) :
    ItemResult :=
  if index ∈ started then some (outcome index) else none

/-- A list of entries and their counts account for all items, of which some were started. -/
structure Accounted (items : List Value) (outcome : Nat → Except Error NodeResult)
    (started : List Nat) (entries : List Value) (summary : FanOutSummary) : Prop where
  /-- There is one entry an item. -/
  length : entries.length = items.length
  /-- An entry is about its own item and no other, and reports how that one ended. -/
  entry : ∀ index item, items[index]? = some item →
    entries[index]? = some (itemEntry index item (outcomes outcome started index)) ∧
      (itemEntry index item (outcomes outcome started index)).Reports index item
        (outcomes outcome started index)
  /-- The items that were not started are reported as cancelled, and no others. -/
  cancelled : ∀ index item, items[index]? = some item → ∃ entry, entries[index]? = some entry ∧
    (entry.field? "error" = some (.string "cancelled") ↔ index ∉ started)
  total : summary.total = items.length
  succeeded : summary.succeeded =
    entries.countP fun entry => entry.field? "status" = some (.string "ok")
  failed : summary.failed =
    entries.countP fun entry => entry.field? "status" = some (.string "error")
  sum : summary.succeeded + summary.failed = summary.total

section

variable {items : List Value} {results : List (Nat × Except Error NodeResult)}
  {outcome : Nat → Except Error NodeResult} {started : List Nat}

/-- Behind each index stands the entry of its item, with the result that is known by that index. -/
theorem itemEntries_getElem? (items : List Value) (results : List (Nat × Except Error NodeResult))
    (index : Nat) : (itemEntries items results)[index]? =
      items[index]?.map fun item => itemEntry index item (results.lookup index) := by
  unfold itemEntries
  rw [List.getElem?_map, List.getElem?_zipIdx]
  cases items[index]? <;> simp

/-- The counts of the items are those of their entries. -/
theorem itemSummary_eq (items : List Value) (results : List (Nat × Except Error NodeResult)) :
    itemSummary items results =
      { total := items.length
        succeeded := (itemEntries items results).countP fun entry =>
          entry.field? "status" = some (.string "ok")
        failed := (itemEntries items results).countP fun entry =>
          entry.field? "status" = some (.string "error") } := by
  have hstatus : ∀ (index : Nat) (item : Value) (result : ItemResult),
      (itemEntry index item result).field? "status" =
        some (.string (if result.succeeded then "ok" else "error")) :=
    fun index item result => (reports_itemEntry index item result).status
  unfold itemSummary itemEntries
  rw [FanOutSummary.foldl_count, List.countP_map, List.countP_map, List.countP_map,
    List.countP_map, Nat.zero_add, Nat.zero_add]
  congr 2
  · funext entry
    simp only [Function.comp_apply, hstatus]
    cases ItemResult.succeeded _ <;> simp
  · funext entry
    simp only [Function.comp_apply, hstatus]
    cases ItemResult.succeeded _ <;> simp

/-- Every item is counted once. -/
theorem itemSummary_sum (items : List Value) (results : List (Nat × Except Error NodeResult)) :
    (itemSummary items results).succeeded + (itemSummary items results).failed = items.length := by
  have hcount : (items.zipIdx.map fun entry => results.lookup entry.2).length = _ :=
    List.length_eq_countP_add_countP ItemResult.succeeded
  rw [List.length_map, List.length_zipIdx] at hcount
  unfold itemSummary
  rw [FanOutSummary.foldl_count]
  simpa using hcount.symm

/-- Only an item that was not started has no outcome. -/
theorem outcomes_eq_none_iff (index : Nat) :
    outcomes outcome started index = none ↔ index ∉ started := by
  unfold outcomes
  split <;> simp_all

/-- What the results come to depends on nothing but the results of the items by index. -/
theorem ForEach.gather_congr (each : ForEach)
    {results' : List (Nat × Except Error NodeResult)}
    (h : ∀ index < items.length, results.lookup index = results'.lookup index) :
    each.gather items results = each.gather items results' := by
  have hentries : itemEntries items results = itemEntries items results' := by
    refine List.map_congr_left fun entry hentry => ?_
    dsimp only
    rw [h entry.2 (List.snd_lt_of_mem_zipIdx hentry)]
  have hsummary : itemSummary items results = itemSummary items results' := by
    rw [itemSummary_eq, itemSummary_eq, hentries]
  unfold gather
  rw [hentries, hsummary]

/-- Results that are known by index account for all items. -/
theorem accounted_of_lookup
    (hlookup : ∀ index, results.lookup index = outcomes outcome started index) :
    Accounted items outcome started (itemEntries items results) (itemSummary items results) := by
  have hentry : ∀ index item, items[index]? = some item → (itemEntries items results)[index]? =
      some (itemEntry index item (outcomes outcome started index)) := fun index item hitem => by
    rw [itemEntries_getElem?, hitem, hlookup]
    rfl
  have hreports : ∀ index item, (itemEntry index item (outcomes outcome started index)).Reports
      index item (outcomes outcome started index) := fun index item => reports_itemEntry _ _ _
  have htotal : (itemSummary items results).total = items.length := by rw [itemSummary_eq]
  exact {
    length := by simp [itemEntries]
    entry := fun index item hitem => ⟨hentry index item hitem, hreports index item⟩
    cancelled := fun index item hitem => ⟨_, hentry index item hitem,
      (hreports index item).error_eq_cancelled_iff.trans (outcomes_eq_none_iff index)⟩
    total := htotal
    succeeded := by rw [itemSummary_eq]
    failed := by rw [itemSummary_eq]
    sum := (itemSummary_sum items results).trans htotal.symm }

end

/-! ## The work on the items -/

section

variable {σ : Type} {host : Host σ}

variable (setting : Setting) (node : Node) (each : ForEach) (state : Store) (items : List Value)

/-- The jobs are in the order of the items. -/
theorem Node.map_index_jobs :
    (node.jobs setting each state items).map Job.index = List.range items.length := by
  rw [jobs, List.map_map]
  exact (List.zipIdx_map_snd 0 items).trans List.range_eq_range'.symm

/-- The node writes what the results of the items come to. -/
theorem Node.activity_fanOut (hitems : each.list state = .ok items) :
    (node.fanOut setting each state).activity =
      (fun results => .ok (each.gather items results)) <$>
        Pool.run { node := node.name, width := each.width setting.config, total := items.length }
          (node.jobs setting each state items) := by
  unfold fanOut Work.activity
  rw [hitems]
  change ExceptT.run (ExceptT.lift _ >>= fun results => pure (each.gather items results)) = _
  rw [ExceptT.run_bind, ExceptT.run_lift, bind_map_left]
  rfl

/-- The work on each item comes to its outcome, whatever has happened to the world each time
somebody turns to it. -/
def Node.YieldsItems (host : Host σ) (outcome : Nat → Except Error NodeResult) (world : σ) : Prop :=
  ∀ index item, items[index]? = some item →
    (node.runItem setting (each.scope state index item).lookup index).activity.Yields host
      (outcome index) world

/-- A crew that has not begun with the items. -/
def Node.crew (width : Nat) : Crew (Except Error NodeResult) where
  width := width
  waiting := node.jobs setting each state items

variable {setting node each state items}

/-- Where the work on each item comes to its outcome, the jobs of the node do. -/
theorem Node.YieldsItems.jobs {outcome : Nat → Except Error NodeResult} {world : σ}
    (h : node.YieldsItems setting each state items host outcome world) :
    ∀ job ∈ node.jobs setting each state items,
      job.activity.Yields host (outcome job.index) world := by
  intro job hjob
  obtain ⟨⟨item, index⟩, hitem, rfl⟩ := List.mem_map.1 hjob
  exact h index item (List.mem_zipIdx_iff_getElem?.1 hitem)

/-- Working on the items one after the other gives each its outcome. -/
theorem Node.YieldsItems.lookup_oneByOne {outcome : Nat → Except Error NodeResult}
    {session : Session σ} (h : node.YieldsItems setting each state items host outcome session.world)
    {index : Nat} (hindex : index < items.length) :
    (oneByOne host (node.jobs setting each state items) session).lookup index =
      some (outcome index) := by
  have hresults : oneByOne host (node.jobs setting each state items) session =
      ((node.jobs setting each state items).map Job.index).map fun i => (i, outcome i) := by
    rw [oneByOne_eq h.jobs, List.map_map]
    rfl
  rw [hresults, node.map_index_jobs]
  exact List.lookup_graph outcome (List.mem_range.2 hindex)

/-- How the work on the items of a node ends. -/
structure Node.Gathered (setting : Setting) (node : Node) (each : ForEach) (state : Store)
    (items : List Value) (host : Host σ) (outcome : Nat → Except Error NodeResult)
    (session : Session σ) (work : List (Nat × Effect)) (crew : Crew (Except Error NodeResult))
    (session' : Session σ) : Prop where
  /-- What the node writes accounts for all items. -/
  accounted : ∃ entries summary, each.gather items crew.results =
      { fields := [(each.output, .list entries)], fanOut := some summary } ∧
    Accounted items outcome crew.taken entries summary
  started : ∀ index ∈ crew.taken, index < items.length
  /-- Nothing at all was done about an item that was not started. -/
  idle : ∀ entry ∈ work, entry.1 ∈ crew.taken
  /-- All items are started unless the run is cancelled. -/
  complete : session'.cancelled = false → ∀ index < items.length, index ∈ crew.taken
  /-- With all items started, the node writes what it writes for one item after the other. -/
  sequential : (∀ index < items.length, index ∈ crew.taken) → each.gather items crew.results =
    each.gather items (oneByOne host (node.jobs setting each state items) session)

/-- How a node fans out over items each of which has an outcome. -/
structure Node.FansOut (setting : Setting) (node : Node) (each : ForEach) (state : Store)
    (items : List Value) (host : Host σ) (outcome : Nat → Except Error NodeResult)
    (session : Session σ) : Prop where
  /-- The work ends in the same way whatever the number of workers, the order of what they do, the
  items that fail, and the moment of a cancellation. -/
  anyOrder : ∀ width work crew session',
    Crew.Runs host (node.crew setting each state items width) session work crew session' →
    crew.Finished → node.Gathered setting each state items host outcome session work crew session'
  /-- However far the work has come, it can be brought to its end. -/
  ends : ∀ width work crew session', 0 < width →
    Crew.Runs host (node.crew setting each state items width) session work crew session' →
    ∃ later crew' session'', Crew.Runs host crew session' later crew' session'' ∧ crew'.Finished
  /-- The runner does this work with its number of workers, and does not fail. -/
  runs : 1 ≤ each.width setting.config ∧ ∃ work crew session',
    Crew.Runs host (node.crew setting each state items (each.width setting.config)) session work
      crew session' ∧ crew.Finished ∧
    (node.fanOut setting each state).activity.run host session =
      (.ok (each.gather items crew.results), session') ∧
    (node.fanOut setting each state).activity.calls host session = Crew.calls work

/-- A crew that has finished with the items has the outcomes of those that were started, and no
others. -/
theorem Node.YieldsItems.gathered {outcome : Nat → Except Error NodeResult} {session : Session σ}
    (hyields : node.YieldsItems setting each state items host outcome session.world) {width : Nat}
    {work : List (Nat × Effect)} {crew : Crew (Except Error NodeResult)} {session' : Session σ}
    (hruns : Crew.Runs host (node.crew setting each state items width) session work crew session')
    (hfinished : crew.Finished) :
    node.Gathered setting each state items host outcome session work crew session' := by
  have hsound : Crew.Sound host outcome (node.jobs setting each state items) crew session' :=
    hruns.sound (Crew.sound_of_yields width hyields.jobs)
  have hlookup := hsound.results_lookup hfinished
  have hindices : (node.jobs setting each state items).map Job.index = List.range items.length :=
    node.map_index_jobs setting each state items
  refine ⟨⟨_, _, rfl, accounted_of_lookup hlookup⟩, fun index hindex => ?_, hruns.taken.1,
    fun hopen index hindex => ?_, fun hall => each.gather_congr fun index hindex => ?_⟩
  · rw [← List.mem_range, ← hindices]
    exact hsound.taken_subset hindex
  · rw [← List.mem_range, ← hindices] at hindex
    exact hsound.subset_taken hfinished hopen hindex
  · rw [hlookup, hyields.lookup_oneByOne hindex, if_pos (hall index hindex)]

/-- What a node that fans out writes is independent of scheduling. -/
theorem Node.fansOut (setting : Setting) (node : Node) (each : ForEach) (state : Store)
    {items : List Value} (hitems : each.list state = .ok items) (host : Host σ)
    {outcome : Nat → Except Error NodeResult} {session : Session σ}
    (hyields : node.YieldsItems setting each state items host outcome session.world) :
    node.FansOut setting each state items host outcome session where
  anyOrder := fun _ _ _ _ hruns hfinished => hyields.gathered hruns hfinished
  ends := fun width work crew session' hwidth hruns =>
    Crew.exists_runs_finished host crew (by rw [hruns.width]; exact hwidth) session'
  runs := by
    have hwidth : 1 ≤ each.width setting.config := Nat.le_max_left _ _
    obtain ⟨work, crew, hruns, hfinished, hresults, hcalls⟩ := Pool.plays_run host
      { node := node.name, width := each.width setting.config, total := items.length }
      (node.jobs setting each state items) hwidth
      (node.crew setting each state items (each.width setting.config)) session
      ⟨rfl, rfl, .nil, rfl⟩
    rw [node.activity_fanOut setting each state items hitems]
    refine ⟨hwidth, work, crew, _, hruns, hfinished, ?_, ?_⟩
    · rw [Activity.run_map, hresults]
    · rw [Activity.calls_map, hcalls]

end

/-! ## A sample -/

namespace Sample.Words

/-- A fan-out over the words of the state. -/
def each : ForEach where
  items := "\x7bwords\x7d"
  itemName := "w"
  output := "shouted"

/-- A node that has its words shouted. -/
def node : Node where
  name := "shout_all"
  kind := .tool ⟨"shout", [("word", .string "\x7bw\x7d")]⟩
  output := [{ name := "loud" }]
  forEach := some each

/-- A setting with the tool. -/
def setting : Setting := ⟨{}, Toolbox.empty.register ⟨"shout", "", .null, none, 30⟩⟩

/-- The words. -/
def items : List Value := [.string "a", .string "b", .string "c"]

/-- A state with the words. -/
def state : Store := .ofList [("words", .list items)]

/-- A tool that fails on one of the words. -/
def host : Host Unit where
  ask _ _ := ⟨⟨[], .complete⟩, false, ()⟩
  request _ _ := ⟨⟨0, 0⟩, false, ()⟩
  act call _ _ :=
    let result := match call.input.field? "word" with
      | some (.string "b") => .failure "cannot shout b"
      | some (.string word) => .success (word ++ "!")
      | _ => .failure ""
    ⟨.answered (.ok result), false, ()⟩
  sleep _ _ := ⟨(), false, ()⟩
  freshId _ := ("i", ())

/-- What becomes of each word. -/
def outcome : Nat → Except Error NodeResult
  | 0 => .ok { fields := [("loud", .string "a!")] }
  | 1 => .error (.toolInvocation "shout" "cannot shout b")
  | _ => .ok { fields := [("loud", .string "c!")] }

/-- The words are shouted in any order, one of them in vain. -/
theorem fansOut_words : each.list state = .ok items ∧
    node.FansOut setting each state items host outcome ⟨(), false, []⟩ := by
  have hitems : each.list state = .ok items := rfl
  -- The tool knows nothing but the word that it is given.
  have hreply : ∀ (session : Session Unit) (effect : Effect),
      (session.serve host effect).1 = (Session.serve host ⟨(), false, []⟩ effect).1 := by
    intro session effect
    cases effect <;> rfl
  have hitem : ∀ index item, items[index]? = some item →
      (node.runItem setting (each.scope state index item).lookup index).activity.resolve
        (fun effect => (Session.serve host ⟨(), false, []⟩ effect).1) = outcome index := by
    intro index item hitem
    rcases index with _ | _ | _ | index
    · obtain rfl : .string "a" = item := by simpa [items] using hitem
      rfl
    · obtain rfl : .string "b" = item := by simpa [items] using hitem
      rfl
    · obtain rfl : .string "c" = item := by simpa [items] using hitem
      rfl
    · simp [items] at hitem
  refine ⟨hitems, node.fansOut setting each state hitems host fun index item hindex => ?_⟩
  rw [← hitem index item hindex]
  exact Activity.yields_resolve hreply _ _

end Sample.Words

end AgentFlow
