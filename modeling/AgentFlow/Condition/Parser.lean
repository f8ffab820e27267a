import AgentFlow.Condition.Expr
import AgentFlow.Condition.Token

/-!
# From tokens to expressions

`or` binds weakest, then `and`, `not`, the comparisons, and the operands. The connectives group to
the left; a comparison has one operator, so that a second one behind it is refused.

The recursion is on a number of steps. Between two tokens at most six calls nest, so eight steps a
token are enough.
-/

namespace AgentFlow.Condition

/-- Whether a token stands for "or". -/
def Token.isOr (t : Token) : Bool := t = .ident "or" || t = .orSign

/-- Whether a token stands for "and". -/
def Token.isAnd (t : Token) : Bool := t = .ident "and" || t = .andSign

/-- Whether a token stands for "not". -/
def Token.isNot (t : Token) : Bool := t = .ident "not" || t = .bang

/-- The comparison of a sign. -/
def Token.comparison? : Token → Option Comparison
  | equal => some .eq
  | notEqual => some .ne
  | less => some .lt
  | lessEqual => some .le
  | greater => some .gt
  | greaterEqual => some .ge
  | _ => none

/-- The comparison operator that the tokens start with; `not in` is one operator. -/
def operator? : List Token → Option (Comparison × List Token)
  | .ident "in" :: rest => some (.member, rest)
  | .ident "not" :: .ident "in" :: rest => some (.notMember, rest)
  | t :: rest => t.comparison?.map fun op => (op, rest)
  | [] => none

/-- The value of a word that is a literal. -/
def wordLiteral? (name : String) : Option Value :=
  if name = "true" then some (.bool true)
  else if name = "false" then some (.bool false)
  else if name = "null" then some .null
  else none

/-- Whether a word belongs to the language and cannot name a variable. -/
def isKeyword (name : String) : Bool :=
  name = "and" || name = "or" || name = "in" || name = "not"

/-- Passes the token that has to come next. -/
def expect (token : Token) : List Token → Except Fault (List Token)
  | t :: rest => if t = token then .ok rest else .error (.expected token (some t))
  | [] => .error (.expected token none)

/-- The segments of a path. -/
def segments : List Token → Except Fault (List Segment × List Token)
  | .dot :: .ident name :: rest =>
    (segments rest).map fun (more, rest) => (.field name :: more, rest)
  | .dot :: t :: _ => .error (.fieldName (some t))
  | [.dot] => .error (.fieldName none)
  | .openBracket :: .int i :: .closeBracket :: rest =>
    (segments rest).map fun (more, rest) => (.index i :: more, rest)
  | .openBracket :: .str name :: .closeBracket :: rest =>
    (segments rest).map fun (more, rest) => (.field name :: more, rest)
  | .openBracket :: .int _ :: rest => .error (.expected .closeBracket rest.head?)
  | .openBracket :: .str _ :: rest => .error (.expected .closeBracket rest.head?)
  | .openBracket :: t :: _ => .error (.indexLiteral t)
  | [.openBracket] => .error .openIndex
  | rest => .ok ([], rest)

mutual

/-- Disjunctions. -/
def orExpr : Nat → List Token → Except Fault (Expr × List Token)
  | 0, _ => .error .endOfInput
  | steps + 1, ts => do
    let (left, rest) ← andExpr steps ts
    orTail steps left rest

/-- Further disjuncts behind `left`. -/
def orTail : Nat → Expr → List Token → Except Fault (Expr × List Token)
  | 0, _, _ => .error .endOfInput
  | _ + 1, left, [] => .ok (left, [])
  | steps + 1, left, t :: ts =>
    if t.isOr then do
      let (right, rest) ← andExpr steps ts
      orTail steps (.or left right) rest
    else .ok (left, t :: ts)

/-- Conjunctions. -/
def andExpr : Nat → List Token → Except Fault (Expr × List Token)
  | 0, _ => .error .endOfInput
  | steps + 1, ts => do
    let (left, rest) ← notExpr steps ts
    andTail steps left rest

/-- Further conjuncts behind `left`. -/
def andTail : Nat → Expr → List Token → Except Fault (Expr × List Token)
  | 0, _, _ => .error .endOfInput
  | _ + 1, left, [] => .ok (left, [])
  | steps + 1, left, t :: ts =>
    if t.isAnd then do
      let (right, rest) ← notExpr steps ts
      andTail steps (.and left right) rest
    else .ok (left, t :: ts)

/-- Negations. -/
def notExpr : Nat → List Token → Except Fault (Expr × List Token)
  | 0, _ => .error .endOfInput
  | steps + 1, t :: ts =>
    if t.isNot then do
      let (e, rest) ← notExpr steps ts
      return (.not e, rest)
    else comparisonExpr steps (t :: ts)
  | steps + 1, [] => comparisonExpr steps []

/-- Operands with at most one comparison between two of them. -/
def comparisonExpr : Nat → List Token → Except Fault (Expr × List Token)
  | 0, _ => .error .endOfInput
  | steps + 1, ts => do
    let (left, rest) ← operand steps ts
    match operator? rest with
    | none => return (left, rest)
    | some (op, rest) =>
      let (right, rest) ← operand steps rest
      if (rest.head?.bind Token.comparison?).isSome then .error .chained
      else return (.compare op left right, rest)

/-- Literals, paths, `len`, lists and expressions in parentheses. -/
def operand : Nat → List Token → Except Fault (Expr × List Token)
  | 0, _ => .error .endOfInput
  | steps + 1, ts =>
    match ts with
    | [] => .error .endOfInput
    | .int n :: rest => .ok (.literal (.int n), rest)
    | .float (.finite x) :: rest => .ok (.literal (.float x), rest)
    | .float x :: _ => .error (.infiniteNumber x)
    | .str s :: rest => .ok (.literal (.string s), rest)
    | .openParen :: rest => do
      let (e, rest) ← orExpr steps rest
      let rest ← expect .closeParen rest
      return (e, rest)
    | .openBracket :: .closeBracket :: rest => .ok (.list [], rest)
    | .openBracket :: rest =>
      (listItems steps rest).map fun (items, rest) => (.list items, rest)
    | .ident name :: rest =>
      match wordLiteral? name with
      | some value => .ok (.literal value, rest)
      | none =>
        if isKeyword name then .error (.keyword name)
        else match rest with
          | .openParen :: rest =>
            if name ≠ "len" then .error (.unsupportedFunction name)
            else do
              let (e, rest) ← orExpr steps rest
              let rest ← expect .closeParen rest
              return (.length e, rest)
          | rest => (segments rest).map fun (path, rest) => (.path name path, rest)
    | t :: _ => .error (.unexpected t)

/-- The items of a list that is not empty, up to its closing bracket. -/
def listItems : Nat → List Token → Except Fault (List Expr × List Token)
  | 0, _ => .error .endOfInput
  | steps + 1, ts => do
    let (item, rest) ← orExpr steps ts
    match rest with
    | .comma :: rest =>
      let (items, rest) ← listItems steps rest
      return (item :: items, rest)
    | .closeBracket :: rest => return ([item], rest)
    | t :: _ => .error (.listSeparator t)
    | [] => .error .openList

end

/-- The expression that the tokens spell, all of them. -/
def parse (ts : List Token) : Except Fault Expr :=
  if ts.isEmpty then .error .empty
  else
    match orExpr (8 * (ts.length + 1)) ts with
    | .error fault => .error fault
    | .ok (e, []) => .ok e
    | .ok (_, t :: _) => .error (.afterExpression t)

end AgentFlow.Condition
