import AgentFlow.Condition.Expr
import AgentFlow.Store
import AgentFlow.Text.Search
import AgentFlow.Value.Equivalence

/-!
# Evaluating expressions

Evaluation reads variables and computes a value; it changes nothing. The connectives stop at the
first operand that decides them and always give a boolean.
-/

namespace AgentFlow.Condition

/-- Why an expression has no value. -/
inductive EvalFault where
  /-- A variable, a field or an item does not exist; the path so far. -/
  | unknown (path : String)
  /-- A path goes on where it cannot. -/
  | notMap (path : String) (kind : String)
  | notList (path : String) (kind : String)
  | noLength (kind : String)
  | noOrder (left right : String)
  | noMembership (needle haystack : String)
deriving DecidableEq

/-- Follows a path from `current`, which `text` spells. -/
def follow (text : String) (current : Value) : List Segment → Except EvalFault Value
  | [] => .ok current
  | .field name :: rest =>
    let text := text ++ (Segment.field name).text
    match current with
    | .map fields =>
      match fields.lookup name with
      | some value => follow text value rest
      | none => .error (.unknown text)
    | other => .error (.notMap text other.kindName)
  | .index i :: rest =>
    let text := text ++ (Segment.index i).text
    match current with
    | .list items =>
      match itemAt? items i with
      | some value => follow text value rest
      | none => .error (.unknown text)
    | other => .error (.notList text other.kindName)

/-- Characters of a string, items of a list, fields of a map. -/
def lengthOf : Value → Except EvalFault Value
  | .string s => .ok (.int s.length)
  | .list items => .ok (.int items.length)
  | .map fields => .ok (.int fields.length)
  | other => .error (.noLength other.kindName)

/-- Whether a list has an item equal to the needle, a string contains it, a map has it as a
name. -/
def contains (haystack needle : Value) : Except EvalFault Bool :=
  match haystack, needle with
  | .list items, needle => .ok (items.any fun item => item.equivalent needle)
  | .string text, .string part => .ok (Text.contains part.toList text.toList)
  | .map fields, .string name => .ok (Fields.has name fields)
  | haystack, needle => .error (.noMembership needle.kindName haystack.kindName)

/-- The order of two values. -/
def orderOf (left right : Value) : Except EvalFault Ordering :=
  (left.order? right).mapError fun unordered => .noOrder unordered.left unordered.right

/-- The truth of a comparison. -/
def compareValues (op : Comparison) (left right : Value) : Except EvalFault Bool :=
  match op with
  | .eq => .ok (left.equivalent right)
  | .ne => .ok (!left.equivalent right)
  | .lt => (orderOf left right).map (· == .lt)
  | .le => (orderOf left right).map (· != .gt)
  | .gt => (orderOf left right).map (· == .gt)
  | .ge => (orderOf left right).map (· != .lt)
  | .member => contains right left
  | .notMember => (contains right left).map (!·)

mutual

/-- The value of an expression. -/
def eval (vars : Lookup) : Expr → Except EvalFault Value
  | .literal value => .ok value
  | .path root segments =>
    match vars root with
    | some value => follow root value segments
    | none => .error (.unknown root)
  | .list items => (evalItems vars items).map .list
  | .length e => do lengthOf (← eval vars e)
  | .not e => do return .bool !(← eval vars e).truthy
  | .and left right => do
    let l ← eval vars left
    if l.truthy then return .bool (← eval vars right).truthy else return .bool false
  | .or left right => do
    let l ← eval vars left
    if l.truthy then return .bool true else return .bool (← eval vars right).truthy
  | .compare op left right => do
    let l ← eval vars left
    let r ← eval vars right
    return .bool (← compareValues op l r)

/-- The values of list items, in order. -/
def evalItems (vars : Lookup) : List Expr → Except EvalFault (List Value)
  | [] => .ok []
  | e :: es => do
    let v ← eval vars e
    let vs ← evalItems vars es
    return v :: vs

end

end AgentFlow.Condition
