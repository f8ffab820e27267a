import AgentFlow.Number.Notation
import AgentFlow.Number.Reading

/-!
# Tokens of the condition language
-/

namespace AgentFlow.Condition

/-- A token. The words `and`, `or`, `not`, `in`, `true`, `false` and `null` are identifiers here;
what they mean depends on where they stand. -/
inductive Token where
  | ident (name : String)
  | int (n : Int)
  | float (x : Real64)
  | str (text : String)
  | openParen
  | closeParen
  | openBracket
  | closeBracket
  | comma
  | dot
  | equal
  | notEqual
  | less
  | lessEqual
  | greater
  | greaterEqual
  | andSign
  | orSign
  | bang
deriving DecidableEq

/-- A double in a message, which also knows infinities. -/
def realText : Real64 → String
  | .finite x => x.messageText
  | .infinite false => "inf"
  | .infinite true => "-inf"
  | .undefined => "NaN"

namespace Token

/-- A token as messages quote it. -/
def describe : Token → String
  | ident name => s!"`{name}`"
  | int n => s!"`{integerText n}`"
  | float x => s!"`{realText x}`"
  | str text => "string \"" ++ text ++ "\""
  | openParen => "`(`"
  | closeParen => "`)`"
  | openBracket => "`[`"
  | closeBracket => "`]`"
  | comma => "`,`"
  | dot => "`.`"
  | equal => "`==`"
  | notEqual => "`!=`"
  | less => "`<`"
  | lessEqual => "`<=`"
  | greater => "`>`"
  | greaterEqual => "`>=`"
  | andSign => "`&&`"
  | orSign => "`||`"
  | bang => "`!`"

/-- Whether the token ends an operand, so that a minus sign behind it would be subtraction. -/
def endsOperand : Token → Bool
  | ident name => !(name = "and" || name = "or" || name = "not" || name = "in")
  | int _ | float _ | str _ | closeParen | closeBracket => true
  | _ => false

end Token

/-- Why a text is not a condition. -/
inductive Fault where
  | assignment
  | arithmetic (sign : Char)
  | unexpectedCharacter (c : Char)
  | integerRange (numeral : String)
  | openString
  | empty
  | endOfInput
  | afterExpression (token : Token)
  | unexpected (token : Token)
  | expected (token : Token) (found : Option Token)
  | chained
  | infiniteNumber (x : Real64)
  | keyword (name : String)
  | unsupportedFunction (name : String)
  | listSeparator (found : Token)
  | openList
  | fieldName (found : Option Token)
  | indexLiteral (found : Token)
  | openIndex
deriving DecidableEq

/-- The wording of a fault. -/
def Fault.message : Fault → String
  | assignment => "assignment is not supported; use `==`"
  | arithmetic sign => s!"arithmetic operator `{sign}` is not supported"
  | unexpectedCharacter c => s!"unexpected character `{c}`"
  | integerRange numeral => s!"integer `{numeral}` is out of range"
  | openString => "unterminated string literal"
  | empty => "empty expression"
  | endOfInput => "unexpected end of input"
  | afterExpression token => s!"unexpected {token.describe} after expression"
  | unexpected token => s!"unexpected {token.describe}"
  | expected token (some found) => s!"expected {token.describe}, found {found.describe}"
  | expected token none => s!"expected {token.describe}, found end of input"
  | chained => "chained comparisons are not supported; combine them with `and`"
  | infiniteNumber x => s!"invalid number {realText x}"
  | keyword name => s!"unexpected keyword `{name}`"
  | unsupportedFunction name => s!"unsupported function `{name}`; only `len` is available"
  | listSeparator found => s!"expected `,` or `]`, found {found.describe}"
  | openList => "unterminated list literal"
  | fieldName (some found) => s!"expected field name after `.`, found {found.describe}"
  | fieldName none => "expected field name after `.`"
  | indexLiteral found =>
    s!"index must be an integer or string literal, found {found.describe}"
  | openIndex => "unterminated index"

end AgentFlow.Condition
