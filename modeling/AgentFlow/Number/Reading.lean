import AgentFlow.Number.Binary64
import AgentFlow.Text.Blank

/-!
# Reading numbers

From digits to numbers. `nearestDecimal` rounds a decimal to the nearest double. `steppedDecimal`
is the faster rule of document readers: the leading digits that fit 64 bits are rounded first and
the power of ten is then applied by one multiplication or by divisions, so that it can miss the
nearest double by a unit in the last place. The readers of free-standing texts, `readInteger?` and
`readReal?`, take what a person types: a sign, and for reals also `inf` and `nan`.
-/

namespace AgentFlow

/-- The value of a decimal digit. -/
def digitValue (c : Char) : Nat := c.toNat - 48

/-- The value of a run of digits. -/
def digitsValue (ds : List Char) : Nat := ds.foldl (fun n c => n * 10 + digitValue c) 0

namespace Binary64

/-- The double nearest to `± digits * 10 ^ exponent`; `none` if it is past the greatest one.
Exponents far outside the range of doubles are decided without computing the power. -/
def nearestDecimal (negative : Bool) (digits : Nat) (exponent : Int) : Option Binary64 :=
  if digits = 0 then some (zero negative)
  else
    let lead : Int := exponent + ((Nat.toDigits 10 digits).length : Int)
    if lead > 400 then none
    else if lead < -400 then some (zero negative)
    else round? negative (digits * tenPow exponent.toNat) (tenPow (-exponent).toNat)

/-- The double nearest to a power of ten. -/
def powerOfTen (k : Nat) : Binary64 := (round? false (tenPow k) 1).getD (largest false)

/-- Divides by `10 ^ 308` while the exponent is below `-308`, then applies what remains of it in
one step; at most `fuel` divisions. -/
def applyExponent : Nat → Binary64 → Int → Option Binary64
  | fuel, x, exponent =>
    if exponent.natAbs ≤ 308 then
      if 0 ≤ exponent then x.mul? (powerOfTen exponent.natAbs)
      else x.div? (powerOfTen exponent.natAbs)
    else if x.isZero then some x
    else if 0 ≤ exponent then none
    else match fuel with
      | 0 => some (zero x.negative)
      | fuel + 1 => (x.div? (powerOfTen 308)).bind fun y => applyExponent fuel y (exponent + 308)

/-- A decimal read in steps: the digits are rounded to a double, then scaled; `none` on
overflow. Three divisions by `10 ^ 308` bring every double to zero. -/
def steppedDecimal (negative : Bool) (digits : Nat) (exponent : Int) : Option Binary64 :=
  (round? false digits 1).bind fun x =>
    (applyExponent 4 x exponent).map fun y => { y with negative := negative }

end Binary64

/-- The leading digits whose value, appended to `start`, stays below `2 ^ 64`: that value and the
digits left over. -/
def leadingValue : Nat → List Char → Nat × List Char
  | start, [] => (start, [])
  | start, c :: cs =>
    if start * 10 + digitValue c < twoPow 64 then
      leadingValue (start * 10 + digitValue c) cs
    else (start, c :: cs)

/-- Splits off a sign: whether it is minus, and the rest. -/
def splitSign : List Char → Bool × List Char
  | '-' :: rest => (true, rest)
  | '+' :: rest => (false, rest)
  | text => (false, text)

/-- A 64-bit signed integer in decimal, with an optional sign. -/
def readInteger? (text : List Char) : Option Int :=
  let (negative, ds) := splitSign text
  if ds.isEmpty || !ds.all Char.isDigit then none
  else
    let n : Int := digitsValue ds
    let n := if negative then -n else n
    if inInt64 n then some n else none

/-- What a text of a real number denotes. -/
inductive Real64 where
  | finite (x : Binary64)
  | infinite (negative : Bool)
  | undefined
deriving DecidableEq

/-- Digits, optional decimals and an optional exponent; at least one digit before the exponent. -/
def readMagnitude? (negative : Bool) (text : List Char) : Option Real64 := do
  let whole := text.takeWhile Char.isDigit
  let rest := text.dropWhile Char.isDigit
  let (decimals, rest) := match rest with
    | '.' :: more => (more.takeWhile Char.isDigit, more.dropWhile Char.isDigit)
    | _ => ([], rest)
  if whole.isEmpty && decimals.isEmpty then none
  let exponent : Int ← match rest with
    | [] => some 0
    | c :: more =>
      if c = 'e' ∨ c = 'E' then
        let (minus, ds) := splitSign more
        if ds.isEmpty || !ds.all Char.isDigit then none
        else some (if minus then -(digitsValue ds : Int) else digitsValue ds)
      else none
  let value := Binary64.nearestDecimal negative (digitsValue (whole ++ decimals))
    (exponent - decimals.length)
  return match value with
    | some x => .finite x
    | none => .infinite negative

/-- A real number in decimal or scientific notation, or `inf`, `infinity` or `nan` in any case,
with an optional sign. -/
def readReal? (text : List Char) : Option Real64 :=
  let (negative, body) := splitSign text
  let word := String.ofList (body.map Char.toLower)
  if word = "inf" ∨ word = "infinity" then some (.infinite negative)
  else if word = "nan" then some .undefined
  else readMagnitude? negative body

end AgentFlow
