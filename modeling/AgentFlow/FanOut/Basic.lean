import AgentFlow.FanOut.Pool
import AgentFlow.Step.Model
import AgentFlow.Step.Tool

/-!
# Fanning out

A node that runs once for each item of a list, on a pool of workers. A worker reads the state of
the run with its item and the item's index in front, and writes nothing: the results of all items
become one list, in the order of the items, in which a failed item stands with its error.
-/

namespace AgentFlow

/-- What a node can do about one item. -/
def Node.runItem (setting : Setting) (node : Node) (vars : Lookup) (index : Nat) :
    Work NodeResult :=
  match node.kind with
  | .tool step => step.run node setting.toolbox vars (some index)
  | .model step => do
    match ← step.start setting node vars (some index) with
    | .complete result => return result
    | .awaitApproval _ _ =>
      throw (.structural s!"fan-out node '{node.name}' cannot wait for approval")
  | kind => throw (.structural s!"foreach is not supported on {kind.label} nodes")

namespace ForEach

/-- The items to work on. -/
def list (each : ForEach) (state : Store) : Except Error (List Value) :=
  match state.get? each.itemsKey with
  | some (.list items) => .ok items
  | some other => .error (.typeMismatch each.itemsKey "list" other.kindName)
  | none => .error (.unknownVariable each.itemsKey)

/-- What the worker of an item reads. -/
def scope (each : ForEach) (state : Store) (index : Nat) (item : Value) : Scope :=
  ((Scope.ofStore state).withLocal each.itemName item).withLocal each.indexName (.int index)

/-- The number of workers. -/
def width (each : ForEach) (config : Config) : Nat :=
  max 1 (match each.maxWorkers with
    | some workers => workers.toNat
    | none => config.engine.maxWorkers)

end ForEach

/-! ## The outcome -/

/-- How an item ended; an item that was never started has no result. -/
abbrev ItemResult : Type := Option (Except Error NodeResult)

/-- The entry of an item in the list of results. -/
def itemEntry (index : Nat) (item : Value) (result : ItemResult) : Value :=
  Record.ofFields ([("index", .int index), ("item", item)] ++
    match result with
    | some (.ok result) => [("status", .string "ok"), ("output", Record.ofFields result.fields)]
    | some (.error error) => [("status", .string "error"), ("error", .string error.message)]
    | none => [("status", .string "error"), ("error", .string "cancelled")])

/-- The entries of all items in their order. -/
def itemEntries (items : List Value) (results : List (Nat × Except Error NodeResult)) :
    List Value :=
  items.zipIdx.map fun (item, index) => itemEntry index item (results.lookup index)

/-- Counts one more item. -/
def FanOutSummary.count (summary : FanOutSummary) : ItemResult → FanOutSummary
  | some (.ok _) => { summary with succeeded := summary.succeeded + 1 }
  | _ => { summary with failed := summary.failed + 1 }

/-- The counts of all items. -/
def itemSummary (items : List Value) (results : List (Nat × Except Error NodeResult)) :
    FanOutSummary :=
  (items.zipIdx.map fun (_, index) => results.lookup index).foldl FanOutSummary.count
    { total := items.length }

/-- What the results of the items come to. -/
def ForEach.gather (each : ForEach) (items : List Value)
    (results : List (Nat × Except Error NodeResult)) : NodeResult where
  fields := [(each.output, .list (itemEntries items results))]
  fanOut := some (itemSummary items results)

/-- The work on the items, each under its index. -/
def Node.jobs (setting : Setting) (node : Node) (each : ForEach) (state : Store)
    (items : List Value) : List (Job (Except Error NodeResult)) :=
  items.zipIdx.map fun (item, index) =>
    ⟨index, (node.runItem setting (each.scope state index item).lookup index).activity⟩

/-- Runs a node for all items of its list. -/
def Node.fanOut (setting : Setting) (node : Node) (each : ForEach) (state : Store) :
    Work NodeResult := do
  let items ← Work.ofExcept (each.list state)
  let pool : Pool (Except Error NodeResult) :=
    { node := node.name, width := each.width setting.config, total := items.length }
  let results ← Work.lift (pool.run (node.jobs setting each state items))
  return each.gather items results

end AgentFlow
