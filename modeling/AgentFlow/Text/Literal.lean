import AgentFlow.Text.Glyph

/-!
# Texts as quoted literals

A text in double quotes in which nothing is left that a terminal would swallow: quotes,
backslashes and characters without a glyph of their own are written as escapes.
-/

namespace AgentFlow.Text

/-- A number in hexadecimal. -/
def hexDigits (n : Nat) : List Char := Nat.toDigits 16 n

/-- A character inside a literal. -/
def literalChar (c : Char) : List Char :=
  if c = '"' then ['\\', '"']
  else if c = '\\' then ['\\', '\\']
  else if c = '\n' then ['\\', 'n']
  else if c = '\r' then ['\\', 'r']
  else if c = '\t' then ['\\', 't']
  else if c = '\x00' then ['\\', '0']
  else if isGlyphless c then ['\\', 'u', '\x7b'] ++ hexDigits c.toNat ++ ['\x7d']
  else [c]

/-- A text as a quoted literal. -/
def literal (s : String) : String :=
  String.ofList ('"' :: (s.toList.flatMap literalChar ++ ['"']))

/-- Texts as a list of literals. -/
def literalList (texts : List String) : String :=
  "[" ++ ", ".intercalate (texts.map literal) ++ "]"

end AgentFlow.Text
