/-!
# Faults in JSON text

Why a text is not a JSON document, and where: the first fault in reading order, at a line and a
column that count bytes.
-/

namespace AgentFlow.Json

/-- The ways a text can fail to be a document. -/
inductive FaultKind where
  | endOfValue
  | endOfList
  | endOfObject
  | endOfString
  | expectedValue
  | expectedWord
  | expectedColon
  | expectedListEnd
  | expectedObjectEnd
  | keyNotString
  | trailingComma
  | trailingText
  | invalidNumber
  | numberRange
  | invalidEscape
  | loneSurrogate
  | openSurrogate
  | controlCharacter
  | nesting
deriving DecidableEq

/-- The wording of a fault. -/
def FaultKind.text : FaultKind → String
  | endOfValue => "EOF while parsing a value"
  | endOfList => "EOF while parsing a list"
  | endOfObject => "EOF while parsing an object"
  | endOfString => "EOF while parsing a string"
  | expectedValue => "expected value"
  | expectedWord => "expected ident"
  | expectedColon => "expected `:`"
  | expectedListEnd => "expected `,` or `]`"
  | expectedObjectEnd => "expected `,` or `\x7d`"
  | keyNotString => "key must be a string"
  | trailingComma => "trailing comma"
  | trailingText => "trailing characters"
  | invalidNumber => "invalid number"
  | numberRange => "number out of range"
  | invalidEscape => "invalid escape"
  | loneSurrogate => "lone leading surrogate in hex escape"
  | openSurrogate => "unexpected end of hex escape"
  | controlCharacter => "control character (\\u0000-\\u001F) found while parsing a string"
  | nesting => "recursion limit exceeded"

/-- A fault, with the part of the text that was still unread when it showed. -/
structure Fault where
  kind : FaultKind
  rest : List Char
  /-- How many bytes of the unread part belong to what is faulty. -/
  bytes : Nat
deriving DecidableEq

/-- A fault of the next unread byte, or of the end of the text. -/
def Fault.next (kind : FaultKind) (rest : List Char) : Fault := ⟨kind, rest, 1⟩

/-- A fault that shows after the text before `rest` was read. -/
def Fault.behind (kind : FaultKind) (rest : List Char) : Fault := ⟨kind, rest, 0⟩

/-- Moves a line and a column on by a number of bytes, which may end within a character. -/
def advance : (line column bytes : Nat) → List Char → Nat × Nat
  | line, column, _, [] => (line, column)
  | line, column, 0, _ => (line, column)
  | line, column, bytes, c :: rest =>
    if c = '\n' then advance (line + 1) 0 (bytes - 1) rest
    else if bytes ≤ c.utf8Size then (line, column + bytes)
    else advance line (column + c.utf8Size) (bytes - c.utf8Size) rest

/-- The number of bytes of a text. -/
def byteCount (text : List Char) : Nat := text.foldl (fun n c => n + c.utf8Size) 0

/-- Where a fault of `text` lies: the line, from one, and the number of bytes on it up to and with
the faulty ones. -/
def Fault.position (text : List Char) (fault : Fault) : Nat × Nat :=
  advance 1 0 (byteCount text - byteCount fault.rest + fault.bytes) text

/-- The message of a fault of `text`. -/
def Fault.message (text : String) (fault : Fault) : String :=
  let (line, column) := fault.position text.toList
  s!"{fault.kind.text} at line {line} column {column}"

end AgentFlow.Json
