import AgentFlow.Fields
import AgentFlow.Json.Fault
import AgentFlow.Number.Reading
import AgentFlow.Value.Basic

/-!
# Reading JSON text

A strict reader: one document with blanks around it, at most 127 containers deep, no unpaired
surrogate, no number past the greatest double. A whole number of 64 bits stays whole, every other
number is a double, and so is `-0`. Of two fields with one name the later counts.

The recursion is on a number of steps; a text of `n` characters needs at most `2 n + 1`.
-/

namespace AgentFlow.Json

/-- The blanks of JSON. -/
def isJsonBlank (c : Char) : Bool := c = ' ' || c = '\n' || c = '\t' || c = '\r'

/-- The text from the first character that is not blank. -/
def skipBlanks (text : List Char) : List Char := text.dropWhile isJsonBlank

/-- Reads the rest of a word whose first letter told its value. -/
def word (value : Value) : (letters text : List Char) → Except Fault (Value × List Char)
  | [], rest => .ok (value, rest)
  | _ :: _, [] => .error (.next .endOfValue [])
  | l :: ls, c :: cs => if l = c then word value ls cs else .error (.next .expectedWord (c :: cs))

/-! ## Numbers -/

/-- The leading digits of a text and what follows them. -/
def spanDigits (text : List Char) : List Char × List Char :=
  (text.takeWhile Char.isDigit, text.dropWhile Char.isDigit)

/-- The decimals behind the point, if there is one; at least one digit must follow it. -/
def fraction (text : List Char) : Except Fault (List Char × List Char) :=
  match text with
  | '.' :: more =>
    match spanDigits more with
    | ([], []) => .error (.next .endOfValue [])
    | ([], rest) => .error (.next .invalidNumber rest)
    | (decimals, rest) => .ok (decimals, rest)
  | _ => .ok ([], text)

/-- The exponent, if there is one; at least one digit must follow its mark and sign. -/
def exponent (text : List Char) : Except Fault (Option Int × List Char) :=
  match text with
  | c :: more =>
    if c = 'e' ∨ c = 'E' then
      let (negative, rest) := splitSign more
      match spanDigits rest with
      | ([], []) => .error (.next .endOfValue [])
      | ([], rest) => .error (.next .invalidNumber rest)
      | (ds, rest) =>
        let n : Int := digitsValue ds
        .ok (some (if negative then -n else n), rest)
    else .ok (none, text)
  | [] => .ok (none, [])

/-- What stands behind the digit with which the value of some digits reaches a bound, or behind
all of them. -/
def pastBound (bound : Nat) : (value : Nat) → List Char → List Char
  | _, [] => []
  | value, c :: rest =>
    if !c.isDigit then c :: rest
    else if bound ≤ value * 10 + (c.toNat - 48) then rest
    else pastBound bound (value * 10 + (c.toNat - 48)) rest

/-- Where the exponent that a text starts with shows to be too great: an exponent of more than 32
bits is not read to its end. -/
def behindExponent (text : List Char) : List Char :=
  pastBound (twoPow 31) 0 (splitSign (text.drop 1)).2

/-- The number of a numeral. Digits of the whole part that do not fit 64 bits only count as
powers of ten, decimals that do not fit not at all. -/
def numeralValue (negative : Bool) (whole decimals : List Char) (exp : Option Int) :
    Option Number :=
  let (start, dropped) := leadingValue 0 whole
  if decimals.isEmpty && exp.isNone && dropped.isEmpty then
    if !negative then some (.int start)
    else if 0 < start && start ≤ twoPow 63 then some (.int (-start))
    else some (.float (Binary64.ofInt start).neg)
  else
    let (digits, unused) := leadingValue start decimals
    let shift : Int := (dropped.length : Int) - ((decimals.length - unused.length : Nat) : Int)
    (Binary64.steppedDecimal negative digits (shift + exp.getD 0)).map .float

/-- A number without its minus sign. -/
def number (negative : Bool) (text : List Char) : Except Fault (Value × List Char) :=
  match text with
  | [] => .error (.next .endOfValue [])
  | c :: more =>
    if !c.isDigit then .error (.next .invalidNumber text)
    else if c = '0' ∧ (more.head?.any Char.isDigit) then .error (.next .invalidNumber more)
    else do
      let (whole, rest) := spanDigits text
      let (decimals, rest) ← fraction rest
      let (exp, last) ← exponent rest
      match numeralValue negative whole decimals exp with
      | some n => .ok (.number n, last)
      | none => .error (.behind .numberRange (if exp.isNone then rest else behindExponent rest))

/-! ## Strings -/

/-- The value of a hexadecimal digit. -/
def hexValue? (c : Char) : Option Nat :=
  if c.isDigit then some (c.toNat - 48)
  else if 'a' ≤ c ∧ c ≤ 'f' then some (c.toNat - 87)
  else if 'A' ≤ c ∧ c ≤ 'F' then some (c.toNat - 55)
  else none

/-- The value of four hexadecimal digits. -/
def hexValue4? (a b c d : Char) : Option Nat := do
  return (((← hexValue? a) * 16 + (← hexValue? b)) * 16 + (← hexValue? c)) * 16 + (← hexValue? d)

/-- The character of an escape with one letter. -/
def simpleEscape? (c : Char) : Option Char :=
  if c = '"' ∨ c = '\\' ∨ c = '/' then some c
  else if c = 'b' then some '\x08'
  else if c = 'f' then some '\x0c'
  else if c = 'n' then some '\n'
  else if c = 'r' then some '\r'
  else if c = 't' then some '\t'
  else none

/-- The fault of a text that does not start with four hexadecimal digits: they are looked for in
the next four bytes. -/
def notHex (text : List Char) : Fault :=
  if byteCount text < 4 then .next .endOfString [] else ⟨.invalidEscape, text, 4⟩

/-- Puts a character in front of what was read. -/
def before (c : Char) (result : Except Fault (List Char × List Char)) :
    Except Fault (List Char × List Char) :=
  result.map fun (body, rest) => (c :: body, rest)

/-- A string behind its opening quote: its characters and the text behind its closing quote. -/
def stringBody : List Char → Except Fault (List Char × List Char)
  | [] => .error (.next .endOfString [])
  | '"' :: rest => .ok ([], rest)
  | '\\' :: 'u' :: a :: b :: c :: d :: rest =>
    match hexValue4? a b c d with
    | none => .error (notHex (a :: b :: c :: d :: rest))
    | some unit =>
      if 0xDC00 ≤ unit ∧ unit ≤ 0xDFFF then .error (.behind .loneSurrogate rest)
      else if 0xD800 ≤ unit ∧ unit ≤ 0xDBFF then
        match rest with
        | '\\' :: 'u' :: e :: f :: g :: h :: more =>
          match hexValue4? e f g h with
          | none => .error (notHex (e :: f :: g :: h :: more))
          | some low =>
            if 0xDC00 ≤ low ∧ low ≤ 0xDFFF then
              before (Char.ofNat ((unit - 0xD800) * 1024 + (low - 0xDC00) + 0x10000))
                (stringBody more)
            else .error (.behind .loneSurrogate more)
        | '\\' :: 'u' :: more => .error (notHex more)
        | ['\\'] => .error (.next .endOfString [])
        | '\\' :: more => .error (.next .openSurrogate more)
        | [] => .error (.next .endOfString [])
        | _ => .error (.next .openSurrogate rest)
      else before (Char.ofNat unit) (stringBody rest)
  | '\\' :: 'u' :: rest => .error (notHex rest)
  | ['\\'] => .error (.next .endOfString [])
  | '\\' :: c :: rest =>
    match simpleEscape? c with
    | some e => before e (stringBody rest)
    | none => .error (.next .invalidEscape (c :: rest))
  | c :: rest =>
    if c.toNat < 32 then .error (.next .controlCharacter (c :: rest))
    else before c (stringBody rest)

/-- A string behind its opening quote, as a string. -/
def stringText (text : List Char) : Except Fault (String × List Char) :=
  (stringBody text).map fun (body, rest) => (String.ofList body, rest)

/-! ## Values -/

mutual

/-- A value, at most `depth` containers deep. -/
def value (steps depth : Nat) (text : List Char) : Except Fault (Value × List Char) :=
  match steps with
  | 0 => .error (.next .nesting text)
  | steps + 1 =>
    match skipBlanks text with
    | [] => .error (.next .endOfValue [])
    | 'n' :: rest => word .null ['u', 'l', 'l'] rest
    | 't' :: rest => word (.bool true) ['r', 'u', 'e'] rest
    | 'f' :: rest => word (.bool false) ['a', 'l', 's', 'e'] rest
    | '"' :: rest => (stringText rest).map fun (s, rest) => (.string s, rest)
    | '-' :: rest => number true rest
    | '[' :: rest =>
      if depth = 0 then .error (.next .nesting ('[' :: rest))
      else (items steps (depth - 1) true rest).map fun (vs, rest) => (.list vs, rest)
    | '\x7b' :: rest =>
      if depth = 0 then .error (.next .nesting ('\x7b' :: rest))
      else (fields steps (depth - 1) true rest).map fun (fs, rest) =>
        (.map (Fields.ofList fs), rest)
    | c :: rest =>
      if c.isDigit then number false (c :: rest) else .error (.next .expectedValue (c :: rest))

/-- The items of a list up to its closing bracket; a comma stands before all but the first. -/
def items (steps depth : Nat) (first : Bool) (text : List Char) :
    Except Fault (List Value × List Char) :=
  match steps with
  | 0 => .error (.next .nesting text)
  | steps + 1 =>
    match skipBlanks text with
    | [] => .error (.next .endOfList [])
    | ']' :: rest => .ok ([], rest)
    | c :: rest =>
      let item (text : List Char) : Except Fault (List Value × List Char) := do
        let (v, rest) ← value steps depth text
        let (vs, rest) ← items steps depth false rest
        return (v :: vs, rest)
      if first then item (c :: rest)
      else if c = ',' then
        match skipBlanks rest with
        | [] => .error (.next .endOfValue [])
        | ']' :: more => .error (.next .trailingComma (']' :: more))
        | more => item more
      else .error (.next .expectedListEnd (c :: rest))

/-- The fields of an object up to its closing brace; a comma stands before all but the first. -/
def fields (steps depth : Nat) (first : Bool) (text : List Char) :
    Except Fault (List (String × Value) × List Char) :=
  match steps with
  | 0 => .error (.next .nesting text)
  | steps + 1 =>
    let field (text : List Char) : Except Fault (List (String × Value) × List Char) := do
      let (name, rest) ← stringText text
      match skipBlanks rest with
      | [] => .error (.next .endOfObject [])
      | ':' :: rest =>
        let (v, rest) ← value steps depth rest
        let (fs, rest) ← fields steps depth false rest
        return ((name, v) :: fs, rest)
      | rest => .error (.next .expectedColon rest)
    match skipBlanks text with
    | [] => .error (.next .endOfObject [])
    | '\x7d' :: rest => .ok ([], rest)
    | c :: rest =>
      if first then
        if c = '"' then field rest else .error (.next .keyNotString (c :: rest))
      else if c = ',' then
        match skipBlanks rest with
        | [] => .error (.next .endOfValue [])
        | '"' :: more => field more
        | '\x7d' :: more => .error (.next .trailingComma ('\x7d' :: more))
        | more => .error (.next .keyNotString more)
      else .error (.next .expectedObjectEnd (c :: rest))

end

/-- How many containers may be nested. -/
def maxDepth : Nat := 127

/-- The value of a text, or the first fault in it. -/
def document (text : List Char) : Except Fault Value :=
  match value (2 * text.length + 1) maxDepth text with
  | .error fault => .error fault
  | .ok (v, rest) =>
    match skipBlanks rest with
    | [] => .ok v
    | rest => .error (.next .trailingText rest)

/-- The value of a text, or the first fault in it. -/
def read (text : String) : Except Fault Value := document text.toList

/-- The value of a text that is a JSON document. -/
def read? (text : String) : Option Value := (read text).toOption

end AgentFlow.Json
