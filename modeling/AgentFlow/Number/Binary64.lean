import AgentFlow.Number.Power

/-!
# Finite binary64 numbers

A finite double as sign, mantissa and exponent in normal form, with exact arithmetic on natural
numbers and one rounding at the end of each operation. `units` is the view in which numbers are
compared: the value as a whole number of the least positive double, `2 ^ -1074`. Zero has a sign,
which no comparison sees.
-/

namespace AgentFlow

/-- The normal form of a magnitude `m * 2 ^ e`: 53 bits, and the top bit set unless the exponent
is the least one. -/
def Binary64.Fits (m : Nat) (e : Int) : Prop :=
  m < twoPow 53 ∧ -1074 ≤ e ∧ e ≤ 971 ∧ (twoPow 52 ≤ m ∨ e = -1074)

/-- Whether a mantissa and an exponent fit is a comparison of numbers. -/
instance (m : Nat) (e : Int) : Decidable (Binary64.Fits m e) :=
  inferInstanceAs (Decidable (_ ∧ _ ∧ _ ∧ (_ ∨ _)))

/-- The finite number `± mantissa * 2 ^ exponent`. -/
structure Binary64 where
  /-- Whether the sign is minus; zero has a sign too. -/
  negative : Bool
  mantissa : Nat
  exponent : Int
  fits : Binary64.Fits mantissa exponent
deriving DecidableEq

namespace Binary64

/-- The number with these parts, if they are in normal form. -/
def ofParts? (negative : Bool) (m : Nat) (e : Int) : Option Binary64 :=
  if h : Fits m e then some ⟨negative, m, e, h⟩ else none

/-- Zero with the given sign. -/
def zero (negative : Bool) : Binary64 := ⟨negative, 0, -1074, by decide⟩

/-- The default is zero. -/
instance : Inhabited Binary64 := ⟨zero false⟩

/-- The greatest finite number. -/
def largest (negative : Bool) : Binary64 := ⟨negative, twoPow 53 - 1, 971, by decide⟩

/-- Whether a number is zero, of either sign. -/
def isZero (x : Binary64) : Bool := x.mantissa = 0

/-- The same magnitude with the opposite sign. -/
def neg (x : Binary64) : Binary64 := { x with negative := !x.negative }

/-- `num / den` to the nearest whole number, a half to the even neighbour. -/
def divNearest (num den : Nat) : Nat :=
  let q := num / den
  let r := num % den
  if 2 * r > den ∨ (2 * r = den ∧ q % 2 = 1) then q + 1 else q

/-- The pair whose quotient is `num / den / 2 ^ e`. -/
def scaled (num den : Nat) (e : Int) : Nat × Nat :=
  (num * twoPow (-e).toNat, den * twoPow e.toNat)

/-- The mantissa of at most `bits` bits and the exponent of at least `least` nearest to
`num / den`, a tie going to the even mantissa. -/
def nearestParts (bits : Nat) (least : Int) (num den : Nat) : Nat × Int :=
  let guess := max least ((num.log2 : Int) - den.log2 - bits)
  let (n, d) := scaled num den guess
  let e := if n / d < twoPow bits then guess else guess + 1
  let (n, d) := scaled num den e
  let m := divNearest n d
  if m = twoPow bits then (twoPow (bits - 1), e + 1) else (m, e)

/-- The number nearest to `± num / den`; `none` if that is past the greatest one. -/
def round? (negative : Bool) (num den : Nat) : Option Binary64 :=
  if num = 0 then some (zero negative)
  else
    let (m, e) := nearestParts 53 (-1074) num den
    ofParts? negative m e

/-- Numerator and denominator of the magnitude. -/
def magnitude (x : Binary64) : Nat × Nat :=
  (x.mantissa * twoPow x.exponent.toNat, twoPow (-x.exponent).toNat)

/-- The value in units of the least positive number. -/
def units (x : Binary64) : Int :=
  let size : Int := (x.mantissa * twoPow (x.exponent + 1074).toNat : Nat)
  if x.negative then -size else size

/-- Equality of values: the two zeros are equal. -/
def sameValue (x y : Binary64) : Bool := x.units = y.units

/-- The order of values. -/
def order (x y : Binary64) : Ordering := compare x.units y.units

/-- The number nearest to an integer; one past the greatest number is read as the greatest. -/
def ofInt (n : Int) : Binary64 :=
  (round? (n < 0) n.natAbs 1).getD (largest (n < 0))

/-- The rounded product; `none` on overflow. -/
def mul? (x y : Binary64) : Option Binary64 :=
  let (a, b) := x.magnitude
  let (c, d) := y.magnitude
  round? (x.negative != y.negative) (a * c) (b * d)

/-- The rounded quotient by a number that is not zero; `none` on overflow. -/
def div? (x y : Binary64) : Option Binary64 :=
  let (a, b) := x.magnitude
  let (c, d) := y.magnitude
  if c = 0 then none else round? (x.negative != y.negative) (a * d) (b * c)

/-- The rounded sum; `none` on overflow. A sum of opposite numbers is plus zero. -/
def add? (x y : Binary64) : Option Binary64 :=
  let total := x.units + y.units
  if total = 0 then some (zero (x.negative && y.negative))
  else round? (total < 0) total.natAbs (twoPow 1074)

/-- The integer equal to the number, if there is one. -/
def toInt? (x : Binary64) : Option Int :=
  let (num, den) := x.magnitude
  if num % den = 0 then
    let n : Int := (num / den : Nat)
    some (if x.negative then -n else n)
  else none

/-- The number of single precision nearest to `± num / den`, with 24 mantissa bits; `none` if it
is past the greatest such number. -/
def roundSingle? (negative : Bool) (num den : Nat) : Option Binary64 :=
  if num = 0 then some (zero negative)
  else
    let (m, e) := nearestParts 24 (-149) num den
    if e > 104 then none
    else round? negative (m * twoPow e.toNat) (twoPow (-e).toNat)

/-- The nearest number of single precision. -/
def toSingle? (x : Binary64) : Option Binary64 :=
  let (num, den) := x.magnitude
  roundSingle? x.negative num den

/-- The number of single precision nearest to an integer. -/
def singleOfInt? (n : Int) : Option Binary64 := roundSingle? (n < 0) n.natAbs 1

/-- The order of values is the order of their units. -/
theorem order_eq_lt_iff {x y : Binary64} : x.order y = .lt ↔ x.units < y.units :=
  Int.compare_eq_lt

/-- Numbers of equal order have the same value. -/
theorem order_eq_eq_iff {x y : Binary64} : x.order y = .eq ↔ x.sameValue y = true := by
  simp only [order, compare, compareOfLessAndEq, sameValue, decide_eq_true_eq]
  split
  · simp; omega
  · split <;> simp_all

end Binary64

end AgentFlow
