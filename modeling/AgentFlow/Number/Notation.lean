import AgentFlow.Number.Shortest

/-!
# The text of a number

Two ways to write the shortest digits of a double. In a document a number always shows that it is
not a whole number type: plain notation with at least one decimal while the leading digit has an
exponent in `-5 … 15`, scientific notation with an explicit sign elsewhere. In a message the
notation is always plain and a whole number has no decimals.
-/

namespace AgentFlow

/-- The decimal digits of a natural number. -/
def decimalDigits (n : Nat) : List Char := Nat.toDigits 10 n

/-- An integer in decimal. -/
def integerText (n : Int) : String :=
  let digits := String.ofList (decimalDigits n.natAbs)
  if n < 0 then "-" ++ digits else digits

namespace Binary64

/-- The digits in plain notation, whole part and decimals; a whole number has no decimals. -/
def plainParts (d : Decimal) : List Char × List Char :=
  let ds := decimalDigits d.digits
  if 0 ≤ d.exponent then (ds ++ List.replicate d.exponent.toNat '0', [])
  else
    let places := (-d.exponent).toNat
    if ds.length ≤ places then (['0'], List.replicate (places - ds.length) '0' ++ ds)
    else (ds.take (ds.length - places), ds.drop (ds.length - places))

/-- The exponents of the leading digit that are written plainly in a document. -/
def plainRange (e : Int) : Bool := -5 ≤ e && e ≤ 15

/-- The magnitude as it stands in a document. -/
def documentMagnitude (d : Decimal) : List Char :=
  let ds := decimalDigits d.digits
  let lead : Int := ds.length - 1 + d.exponent
  if plainRange lead then
    let (whole, decimals) := plainParts d
    whole ++ '.' :: (if decimals.isEmpty then ['0'] else decimals)
  else
    let mantissa := match ds with
      | [] => []
      | [c] => [c]
      | c :: rest => c :: '.' :: rest
    mantissa ++ 'e' :: (if lead < 0 then '-' else '+') :: decimalDigits lead.natAbs

/-- The text of a number in a document. -/
def documentText (x : Binary64) : String :=
  let body := documentMagnitude x.shortest
  String.ofList (if x.negative then '-' :: body else body)

/-- The text of a number in a message. -/
def messageText (x : Binary64) : String :=
  let (whole, decimals) := plainParts x.shortest
  let body := if decimals.isEmpty then whole else whole ++ '.' :: decimals
  String.ofList (if x.negative then '-' :: body else body)

end Binary64

end AgentFlow
