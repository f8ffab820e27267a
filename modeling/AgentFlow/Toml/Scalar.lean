import AgentFlow.Json.Reader
import AgentFlow.Number.Reading
import AgentFlow.Value.Basic

/-!
# Scalars of a TOML document

Keys, strings, numbers, booleans and dates. Every reader takes the text from where it stands and
gives what it read and the rest, or nothing if the text is not in the format.
-/

namespace AgentFlow.Toml

/-- The blanks within a line. -/
def isLineBlank (c : Char) : Bool := c = ' ' || c = '\t'

/-- The text behind the blanks in front of it, on the same line. -/
def skipLineBlanks (text : List Char) : List Char := text.dropWhile isLineBlank

/-- Whether a control character has no place in a comment or a string of one line. -/
def isForbidden (c : Char) : Bool := (c.toNat < 32 && c ≠ '\t') || c.toNat = 127

/-- The text behind a line break, if one comes next. -/
def lineBreak? : List Char → Option (List Char)
  | '\n' :: rest => some rest
  | '\x0d' :: '\n' :: rest => some rest
  | _ => none

/-- Skips a comment, if one comes next. -/
def skipComment : List Char → List Char
  | '#' :: rest => rest.dropWhile fun c => !isForbidden c
  | text => text

/-- Skips blanks, line breaks and comments; whether the text starts within a comment. -/
def skipLines (comment : Bool) : List Char → List Char
  | [] => []
  | '\x0d' :: '\n' :: rest => skipLines false rest
  | c :: rest =>
    if c = '\n' then skipLines false rest
    else if comment then if isForbidden c then c :: rest else skipLines true rest
    else if isLineBlank c then skipLines false rest
    else if c = '#' then skipLines true rest
    else c :: rest

/-! ## Strings -/

/-- The value of hexadecimal digits. -/
def hexadecimal? (digits : List Char) : Option Nat :=
  digits.foldl (fun n c => do return (← n) * 16 + (← Json.hexValue? c)) (some 0)

/-- The character of a code point that is not a surrogate. -/
def scalar? (code : Nat) : Option Char :=
  if h : code.isValidChar then some (Char.ofNatAux code h) else none

/-- The character of an escape behind its backslash. -/
def escape? : List Char → Option (Char × List Char)
  | 'b' :: rest => some ('\x08', rest)
  | 't' :: rest => some ('\t', rest)
  | 'n' :: rest => some ('\n', rest)
  | 'f' :: rest => some ('\x0c', rest)
  | 'r' :: rest => some ('\x0d', rest)
  | '"' :: rest => some ('"', rest)
  | '\\' :: rest => some ('\\', rest)
  | 'u' :: rest => digits 4 rest
  | 'U' :: rest => digits 8 rest
  | _ => none
where
  digits (n : Nat) (rest : List Char) : Option (Char × List Char) := do
    if rest.length < n then none
    let c ← scalar? (← hexadecimal? (rest.take n))
    return (c, rest.drop n)

/-- A string with escapes, behind its opening quote. -/
def basicBody : Nat → List Char → Option (List Char × List Char)
  | 0, _ => none
  | _ + 1, [] => none
  | _ + 1, '"' :: rest => some ([], rest)
  | steps + 1, '\\' :: rest => do
    let (c, rest) ← escape? rest
    let (body, rest) ← basicBody steps rest
    return (c :: body, rest)
  | steps + 1, c :: rest =>
    if isForbidden c then none
    else (basicBody steps rest).map fun (body, rest) => (c :: body, rest)

/-- A string without escapes, behind its opening quote. -/
def literalBody : List Char → Option (List Char × List Char)
  | [] => none
  | c :: rest =>
    if c = '\'' then some ([], rest)
    else if isForbidden c then none
    else (literalBody rest).map fun (body, rest) => (c :: body, rest)

/-- The quotes at the end of a string of several lines: up to two belong to it, three close it. -/
def closingQuotes? (quote : Char) (text : List Char) : Option (List Char × List Char) :=
  let run := (text.takeWhile (· = quote)).length
  if run < 3 then none
  else if run ≤ 5 then some (List.replicate (run - 3) quote, text.drop run)
  else some ([quote, quote], text.drop 5)

/-- Skips blanks and line breaks. -/
def skipBlankLines : List Char → List Char
  | [] => []
  | '\x0d' :: '\n' :: rest => skipBlankLines rest
  | c :: rest => if isLineBlank c || c = '\n' then skipBlankLines rest else c :: rest

/-- Skips the blanks and line breaks behind a backslash that ends a line, if it does. -/
def lineContinuation? (text : List Char) : Option (List Char) :=
  (lineBreak? (skipLineBlanks text)).map skipBlankLines

/-- A string with escapes over several lines, behind its opening quotes. -/
def basicLines : Nat → List Char → Option (List Char × List Char)
  | 0, _ => none
  | _ + 1, [] => none
  | steps + 1, c :: rest =>
    if c = '"' then
      match closingQuotes? '"' (c :: rest) with
      | some found => some found
      | none => (basicLines steps rest).map fun (body, rest) => (c :: body, rest)
    else if c = '\\' then
      match lineContinuation? rest with
      | some rest => basicLines steps rest
      | none => do
        let (e, rest) ← escape? rest
        let (body, rest) ← basicLines steps rest
        return (e :: body, rest)
    else
      match lineBreak? (c :: rest) with
      | some rest => (basicLines steps rest).map fun (body, rest) => ('\n' :: body, rest)
      | none =>
        if isForbidden c then none
        else (basicLines steps rest).map fun (body, rest) => (c :: body, rest)

/-- A string without escapes over several lines, behind its opening quotes. -/
def literalLines : Nat → List Char → Option (List Char × List Char)
  | 0, _ => none
  | _ + 1, [] => none
  | steps + 1, c :: rest =>
    if c = '\'' then
      match closingQuotes? '\'' (c :: rest) with
      | some found => some found
      | none => (literalLines steps rest).map fun (body, rest) => (c :: body, rest)
    else
      match lineBreak? (c :: rest) with
      | some rest => (literalLines steps rest).map fun (body, rest) => ('\n' :: body, rest)
      | none =>
        if isForbidden c then none
        else (literalLines steps rest).map fun (body, rest) => (c :: body, rest)

/-- Skips the line break that may follow the opening quotes of a string of several lines. -/
def afterOpening (text : List Char) : List Char := (lineBreak? text).getD text

/-- A string of one line. -/
def lineString? : List Char → Option (String × List Char)
  | c :: rest =>
    if c = '"' then
      (basicBody (rest.length + 1) rest).map fun (body, rest) => (String.ofList body, rest)
    else if c = '\'' then
      (literalBody rest).map fun (body, rest) => (String.ofList body, rest)
    else none
  | [] => none

/-- A string of any form. -/
def string? (text : List Char) : Option (String × List Char) :=
  match text with
  | '"' :: '"' :: '"' :: rest =>
    (basicLines (rest.length + 1) (afterOpening rest)).map fun (body, rest) =>
      (String.ofList body, rest)
  | '\'' :: '\'' :: '\'' :: rest =>
    (literalLines (rest.length + 1) (afterOpening rest)).map fun (body, rest) =>
      (String.ofList body, rest)
  | _ => lineString? text

/-! ## Keys -/

/-- The characters of a key without quotes. -/
def isKeyChar (c : Char) : Bool := c.isAlphanum || c = '_' || c = '-'

/-- One key. -/
def simpleKey? (text : List Char) : Option (String × List Char) :=
  match text.takeWhile isKeyChar with
  | [] => lineString? text
  | key => some (String.ofList key, text.dropWhile isKeyChar)

/-- How deep a document may be nested, by the points of one key or by lists and inline tables. -/
def maxDepth : Nat := 79

/-- Keys joined by points, with blanks around each; at most `steps` of them. -/
def keys? : Nat → List Char → Option (List String × List Char)
  | 0, _ => none
  | steps + 1, text => do
    let (first, rest) ← simpleKey? (skipLineBlanks text)
    match skipLineBlanks rest with
    | '.' :: rest =>
      let (more, rest) ← keys? steps rest
      return (first :: more, rest)
    | rest => return ([first], rest)

/-- A key, which may name a way through tables. -/
def key? (text : List Char) : Option (List String × List Char) := keys? maxDepth text

/-! ## Numbers -/

/-- Digits with underscores between them. -/
def groupedDigits? (isDigit : Char → Bool) : List Char → Option (List Char)
  | [] => none
  | [c] => if isDigit c then some [c] else none
  | c :: '_' :: rest =>
    if isDigit c then (groupedDigits? isDigit rest).map (c :: ·) else none
  | c :: rest => if isDigit c then (groupedDigits? isDigit rest).map (c :: ·) else none

/-- A whole number in a base, behind its mark. -/
def basedInteger? (base : Nat) (text : List Char) : Option Value := do
  let isDigit (c : Char) : Bool := (Json.hexValue? c).any (· < base)
  let digits ← groupedDigits? isDigit text
  let n := digits.foldl (fun n c => n * base + (Json.hexValue? c).getD 0) 0
  if n < twoPow 63 then some (.int n) else none

/-- The digits of a whole part: no zero leads other digits. -/
def wholeDigits? (text : List Char) : Option (List Char) := do
  let digits ← groupedDigits? Char.isDigit text
  match digits with
  | '0' :: _ :: _ => none
  | _ => some digits

/-- A whole number in decimal. -/
def decimalInteger? (text : List Char) : Option Value := do
  let (negative, body) := splitSign text
  let n : Int := digitsValue (← wholeDigits? body)
  let n := if negative then -n else n
  if inInt64 n then some (.int n) else none

/-- The exponent of a number, behind its mark. -/
def exponent? (text : List Char) : Option Int := do
  let (negative, body) := splitSign text
  let n : Int := digitsValue (← groupedDigits? Char.isDigit body)
  return if negative then -n else n

/-- Whether a character marks an exponent. -/
def isExponentMark (c : Char) : Bool := c = 'e' || c = 'E'

/-- A number with decimals or an exponent. What is not finite reads as the greatest double of
its sign; a numeral past the greatest double is refused. -/
def real? (text : List Char) : Option Value := do
  let (negative, body) := splitSign text
  let word := String.ofList body
  if word = "inf" || word = "nan" then return .float (Binary64.largest negative)
  let mantissa := body.takeWhile fun c => !isExponentMark c
  let exponent ← match body.dropWhile fun c => !isExponentMark c with
    | [] => some 0
    | _ :: rest => exponent? rest
  let whole ← wholeDigits? (mantissa.takeWhile (· ≠ '.'))
  let decimals ← match mantissa.dropWhile (· ≠ '.') with
    | [] => some []
    | _ :: rest => groupedDigits? Char.isDigit rest
  if mantissa.length = body.length && decimals.isEmpty then none
  match Binary64.nearestDecimal negative (digitsValue (whole ++ decimals))
      (exponent - decimals.length) with
  | some x => return .float x
  | none => if negative then return .float (Binary64.largest true) else none

/-! ## Dates and times -/

/-- The text behind a character that has to come next. -/
def passed? (c : Char) : List Char → Option (List Char)
  | d :: rest => if c = d then some rest else none
  | [] => none

/-- The text behind two digits that have to come next, with a value in a range. -/
def passedTwoDigits? (low high : Nat) : List Char → Option (List Char)
  | a :: b :: rest =>
    let n := digitsValue [a, b]
    if a.isDigit && b.isDigit && low ≤ n && n ≤ high then some rest else none
  | _ => none

/-- The number of days of a month. -/
def daysOfMonth (year month : Nat) : Nat :=
  if month = 2 then
    if year % 4 = 0 ∧ (year % 100 ≠ 0 ∨ year % 400 = 0) then 29 else 28
  else if month = 4 ∨ month = 6 ∨ month = 9 ∨ month = 11 then 30
  else 31

/-- The text behind a date. -/
def passedDate? (text : List Char) : Option (List Char) := do
  let year := text.take 4
  if year.length ≠ 4 || !year.all Char.isDigit then none
  let monthOn ← passed? '-' (text.drop 4)
  let dayOn ← passed? '-' (← passedTwoDigits? 1 12 monthOn)
  passedTwoDigits? 1 (daysOfMonth (digitsValue year) (digitsValue (monthOn.take 2))) dayOn

/-- The text behind a time of day, with seconds and perhaps fractions of them. -/
def passedTime? (text : List Char) : Option (List Char) := do
  let rest ← passed? ':' (← passedTwoDigits? 0 23 text)
  let rest ← passed? ':' (← passedTwoDigits? 0 59 rest)
  match ← passedTwoDigits? 0 60 rest with
  | '.' :: fraction =>
    if (fraction.takeWhile Char.isDigit).isEmpty then none
    else return fraction.dropWhile Char.isDigit
  | rest => return rest

/-- Whether a text is the offset of a time zone, or nothing. -/
def isOffset : List Char → Bool
  | [] => true
  | ['Z'] | ['z'] => true
  | c :: rest =>
    (c = '+' || c = '-') &&
      (((passedTwoDigits? 0 23 rest).bind (passed? ':')).bind (passedTwoDigits? 0 59)) == some []

/-- Whether a text is a date, a time, or both with an offset. -/
def isMoment (text : List Char) : Bool :=
  match passedDate? text with
  | some [] => true
  | some (c :: rest) => (c = 'T' || c = 't' || c = ' ') && (passedTime? rest).any isOffset
  | none => passedTime? text == some []

/-- A moment as a value: a map with a field of its own, so that it is neither a text nor a
number. -/
def momentValue (text : List Char) : Value :=
  .map [("$moment", .string (String.ofList text))]

/-! ## Bare words -/

/-- The characters of numbers, booleans and moments. -/
def isWordChar (c : Char) : Bool :=
  c.isAlphanum || c = '_' || c = '+' || c = '-' || c = '.' || c = ':'

/-- A bare word, going on behind a blank where a date is followed by a time. -/
def spanWord (text : List Char) : List Char × List Char :=
  let word := text.takeWhile isWordChar
  let rest := text.dropWhile isWordChar
  match passedDate? word, rest with
  | some [], ' ' :: c :: more =>
    if c.isDigit then
      (word ++ ' ' :: (c :: more).takeWhile isWordChar, (c :: more).dropWhile isWordChar)
    else (word, rest)
  | _, _ => (word, rest)

/-- The value of a bare word. -/
def wordValue? (word : List Char) : Option Value :=
  match word with
  | ['t', 'r', 'u', 'e'] => some (.bool true)
  | ['f', 'a', 'l', 's', 'e'] => some (.bool false)
  | '0' :: 'x' :: rest => basedInteger? 16 rest
  | '0' :: 'o' :: rest => basedInteger? 8 rest
  | '0' :: 'b' :: rest => basedInteger? 2 rest
  | _ =>
    if isMoment word then some (momentValue word)
    else (decimalInteger? word).or (real? word)

end AgentFlow.Toml
