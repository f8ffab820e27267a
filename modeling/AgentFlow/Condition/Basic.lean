import AgentFlow.Condition.Eval
import AgentFlow.Condition.Lexer
import AgentFlow.Condition.Parser
import AgentFlow.Error

/-!
# Conditions

A condition is a text together with the expression it spells. It holds when the value of the
expression counts as true.
-/

namespace AgentFlow

/-- A text that parsed, with its expression. -/
structure Condition where
  source : String
  expr : Condition.Expr

namespace Condition

/-- The expression that a text spells. -/
def parseText (source : String) : Except Fault Expr := do parse (← tokens source.toList)

/-- The condition of a text. -/
def ofText (source : String) : Except Error Condition :=
  match parseText source with
  | .ok expr => .ok ⟨source, expr⟩
  | .error fault => .error (.expression source fault.message)

/-- A text spells what its tokens do. -/
theorem parseText_of_tokens {source : String} {ts : List Token}
    (h : tokens source.toList = .ok ts) : parseText source = parse ts := by
  rw [parseText, h]
  rfl

/-- A text is a condition if its tokens spell an expression. -/
theorem ofText_of_tokens {source : String} {ts : List Token} {expr : Expr}
    (htokens : tokens source.toList = .ok ts) (hparse : parse ts = .ok expr) :
    ofText source = .ok ⟨source, expr⟩ := by
  rw [ofText, parseText_of_tokens htokens, hparse]

/-- The error of an evaluation fault in a condition. -/
def EvalFault.toError (source : String) : EvalFault → Error
  | unknown path => .unknownVariable path
  | notMap path kind => .typeMismatch path "map" kind
  | notList path kind => .typeMismatch path "list" kind
  | noLength kind => .expression source s!"len() is not defined for {kind}"
  | noOrder left right => .expression source s!"cannot compare {left} with {right}"
  | noMembership needle haystack =>
    .expression source s!"`in` is not defined for {needle} in {haystack}"

/-- Whether the condition holds. -/
def evaluate (condition : Condition) (vars : Lookup) : Except Error Bool :=
  match eval vars condition.expr with
  | .ok value => .ok value.truthy
  | .error fault => .error (fault.toError condition.source)

end Condition

end AgentFlow
