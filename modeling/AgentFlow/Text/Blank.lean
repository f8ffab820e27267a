/-!
# Blank characters

The characters with the Unicode property `White_Space`, and trimming by it. All text is handled
as a list of characters: a length counts Unicode scalar values and a cut falls between two of
them.
-/

namespace AgentFlow.Text

/-- The characters with the Unicode property `White_Space`. -/
def blanks : List Char :=
  ['\t', '\n', '\x0b', '\x0c', '\r', ' ', '\u0085', '\u00a0', '\u1680',
   '\u2000', '\u2001', '\u2002', '\u2003', '\u2004', '\u2005', '\u2006', '\u2007', '\u2008',
   '\u2009', '\u200a', '\u2028', '\u2029', '\u202f', '\u205f', '\u3000']

/-- Whether a character is blank. -/
def isBlank (c : Char) : Bool := blanks.contains c

/-- A text without its leading blanks. -/
def trimLeft (s : List Char) : List Char := s.dropWhile isBlank

/-- A text without its trailing blanks. -/
def trimRight (s : List Char) : List Char := (s.reverse.dropWhile isBlank).reverse

/-- A text without leading and trailing blanks. -/
def trim (s : List Char) : List Char := trimRight (trimLeft s)

/-- `trim` on strings. -/
def trimmed (s : String) : String := String.ofList (trim s.toList)

/-- Whether a string holds nothing but blanks. -/
def isAllBlank (s : String) : Bool := s.toList.all isBlank

/-- Every character that core counts as whitespace is blank. -/
theorem isBlank_of_isWhitespace {c : Char} (h : c.isWhitespace = true) : isBlank c = true := by
  simp only [Char.isWhitespace, Bool.or_eq_true, decide_eq_true_eq] at h
  rcases h with ((h | h) | h) | h <;> subst h <;> decide

end AgentFlow.Text
