import AgentFlow.Value.Basic

/-!
# Expressions of the condition language
-/

namespace AgentFlow.Condition

/-- The comparisons, membership among them. -/
inductive Comparison where
  | eq
  | ne
  | lt
  | le
  | gt
  | ge
  | member
  | notMember
deriving DecidableEq

/-- A step of a path: a field of a map or an item of a list. -/
inductive Segment where
  | field (name : String)
  | index (i : Int)
deriving DecidableEq

/-- A parsed expression. -/
inductive Expr where
  | literal (value : Value)
  | path (root : String) (segments : List Segment)
  | list (items : List Expr)
  | length (e : Expr)
  | not (e : Expr)
  | and (left right : Expr)
  | or (left right : Expr)
  | compare (op : Comparison) (left right : Expr)
deriving Inhabited

/-- A segment as it stands in a path. -/
def Segment.text : Segment → String
  | field name => "." ++ name
  | index i => "[" ++ toString i ++ "]"

/-- A path as diagnostics spell it. -/
def pathText (root : String) (segments : List Segment) : String :=
  segments.foldl (fun text segment => text ++ segment.text) root

end AgentFlow.Condition
