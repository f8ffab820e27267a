import AgentFlow.Condition.Token
import AgentFlow.Text.Blank

/-!
# From text to tokens

Blanks separate tokens and mean nothing else. A minus sign in front of a digit belongs to the
number unless the token before it ends an operand; there it would be subtraction, which the
language does not have.
-/

namespace AgentFlow.Condition

/-- The characters that start a name. -/
def startsName (c : Char) : Bool := c.isAlpha || c = '_'

/-- The characters that continue a name. -/
def continuesName (c : Char) : Bool := c.isAlphanum || c = '_'

/-- The number a text starts with: digits, and decimals if a digit follows the point. -/
def lexNumber (negative : Bool) (text : List Char) : Except Fault (Token × List Char) :=
  let sign := if negative then ['-'] else []
  let whole := text.takeWhile Char.isDigit
  let rest := text.dropWhile Char.isDigit
  let integer : Except Fault (Token × List Char) :=
    match readInteger? (sign ++ whole) with
    | some n => .ok (.int n, rest)
    | none => .error (.integerRange (String.ofList (sign ++ whole)))
  match rest with
  | '.' :: c :: more =>
    if c.isDigit then
      let decimals := (c :: more).takeWhile Char.isDigit
      let value := Binary64.nearestDecimal negative (digitsValue (whole ++ decimals))
        (-(decimals.length : Int))
      let token := match value with
        | some x => Token.float (.finite x)
        | none => Token.float (.infinite negative)
      .ok (token, (c :: more).dropWhile Char.isDigit)
    else integer
  | _ => integer

/-- The string a text goes on with, up to its closing quote. A backslash makes the next character
literal, except that `n` and `t` stand for a new line and a tab. -/
def lexString (quote : Char) : List Char → Except Fault (List Char × List Char)
  | [] => .error .openString
  | '\\' :: [] => .error .openString
  | '\\' :: c :: rest =>
    let literal := if c = 'n' then '\n' else if c = 't' then '\t' else c
    (lexString quote rest).map fun (body, rest) => (literal :: body, rest)
  | c :: rest =>
    if c = quote then .ok ([], rest)
    else (lexString quote rest).map fun (body, rest) => (c :: body, rest)

/-- The tokens of one or two signs that a text can start with. -/
def lexSign : List Char → Option (Token × List Char)
  | '(' :: rest => some (.openParen, rest)
  | ')' :: rest => some (.closeParen, rest)
  | '[' :: rest => some (.openBracket, rest)
  | ']' :: rest => some (.closeBracket, rest)
  | ',' :: rest => some (.comma, rest)
  | '.' :: rest => some (.dot, rest)
  | '=' :: '=' :: rest => some (.equal, rest)
  | '!' :: '=' :: rest => some (.notEqual, rest)
  | '!' :: rest => some (.bang, rest)
  | '<' :: '=' :: rest => some (.lessEqual, rest)
  | '<' :: rest => some (.less, rest)
  | '>' :: '=' :: rest => some (.greaterEqual, rest)
  | '>' :: rest => some (.greater, rest)
  | '&' :: '&' :: rest => some (.andSign, rest)
  | '|' :: '|' :: rest => some (.orSign, rest)
  | _ => none

/-- The token that a text without leading blanks starts with. -/
def lexToken (previous : Option Token) (c : Char) (rest : List Char) :
    Except Fault (Token × List Char) :=
  match lexSign (c :: rest) with
  | some found => .ok found
  | none =>
    if c = '=' then .error .assignment
    else if c = '"' ∨ c = '\'' then
      (lexString c rest).map fun (body, rest) => (.str (String.ofList body), rest)
    else if c = '-' ∧ rest.head?.any Char.isDigit ∧ !previous.any Token.endsOperand then
      lexNumber true rest
    else if c.isDigit then lexNumber false (c :: rest)
    else if startsName c then
      .ok (.ident (String.ofList (c :: rest.takeWhile continuesName)), rest.dropWhile continuesName)
    else if c = '+' ∨ c = '-' ∨ c = '*' ∨ c = '/' ∨ c = '%' then .error (.arithmetic c)
    else .error (.unexpectedCharacter c)

/-- The tokens of a text, `previous` standing before it. Every step reads a character or more, so
that the length of the text is enough steps. -/
def lex : Nat → Option Token → List Char → Except Fault (List Token)
  | _, _, [] => .ok []
  | 0, _, c :: _ => .error (.unexpectedCharacter c)
  | steps + 1, previous, c :: rest =>
    if Text.isBlank c then lex steps previous rest
    else do
      let (token, rest) ← lexToken previous c rest
      let tokens ← lex steps (some token) rest
      return token :: tokens

/-- The tokens of a text. -/
def tokens (text : List Char) : Except Fault (List Token) := lex text.length none text

end AgentFlow.Condition
