import AgentFlow.Number.Binary64

/-!
# Shortest decimal digits

The fewest significant digits that read back as a given double, and of those the ones nearest to
it. A number `m * 2 ^ q` owns the interval of reals that round to it, with its ends if `m` is
even. For one digit, two digits and so on up to seventeen, the two neighbours of the number on
that decimal grid are tested against the interval; the first grid with a hit wins. All tests
compare natural numbers over the common denominator of value and interval.
-/

namespace AgentFlow.Binary64

/-- A decimal magnitude: the whole number `digits` times a power of ten. -/
structure Decimal where
  digits : Nat
  exponent : Int
deriving DecidableEq, Inhabited

/-- Value and interval of a positive number over one denominator. -/
structure Rounding where
  value : Nat
  low : Nat
  high : Nat
  den : Nat
  /-- Whether the ends of the interval round to the value too. -/
  closed : Bool

/-- The reals that round to `x`. Below a power of two the gap is half as wide. -/
def rounding (x : Binary64) : Rounding :=
  let m := x.mantissa
  let e := x.exponent - 2
  let up := twoPow e.toNat
  let below := if m = twoPow 52 ∧ x.exponent ≠ -1074 then 1 else 2
  { value := 4 * m * up, low := (4 * m - below) * up, high := (4 * m + 2) * up,
    den := twoPow (-e).toNat, closed := m % 2 = 0 }

/-- Whether the decimal `d / scale` lies in the interval, with `scale` the pair of factors that
brings both to one denominator. -/
def Rounding.owns (r : Rounding) (point unit : Nat) : Bool :=
  if r.closed then r.low * unit ≤ point && point ≤ r.high * unit
  else r.low * unit < point && point < r.high * unit

/-- The exponent of the leading decimal digit of `num / den`: the greatest `k` with
`10 ^ k * den ≤ num`, found from a guess that is at most two too small. -/
def leadingExponent (num den : Nat) : Int :=
  let bits : Int := (num.log2 : Int) - den.log2 - 1
  let guess := bits * 30103 / 100000 - 1
  let reaches (k : Int) : Bool := tenPow k.toNat * den ≤ num * tenPow (-k).toNat
  if reaches (guess + 3) then guess + 3
  else if reaches (guess + 2) then guess + 2
  else if reaches (guess + 1) then guess + 1
  else guess

/-- The hit on the grid of step `10 ^ t`, if there is one: of two hits the nearer, of two as
near the even one. -/
def hitOnGrid? (r : Rounding) (t : Int) : Option Nat :=
  -- A grid point `d` stands for `d * step / unit` over the denominator of `r`.
  let step := tenPow t.toNat * r.den
  let unit := tenPow (-t).toNat
  let value := r.value * unit
  let d := value / step
  let low := r.owns (d * step) unit
  let high := r.owns ((d + 1) * step) unit
  let toLow := value - d * step
  let toHigh := (d + 1) * step - value
  match low, high with
  | true, true =>
    if toLow < toHigh ∨ (toLow = toHigh ∧ d % 2 = 0) then some d else some (d + 1)
  | true, false => some d
  | false, true => some (d + 1)
  | false, false => none

/-- Moves the trailing zeros of at most `fuel` digits into the exponent. -/
def stripZeros : Nat → Nat → Int → Decimal
  | 0, d, t => ⟨d, t⟩
  | fuel + 1, d, t => if d % 10 = 0 then stripZeros fuel (d / 10) (t + 1) else ⟨d, t⟩

/-- The shortest decimal that reads back as the magnitude of `x`; zero has the one digit `0`. -/
def shortest (x : Binary64) : Decimal :=
  if x.mantissa = 0 then ⟨0, 0⟩
  else
    let r := x.rounding
    let k := leadingExponent r.value r.den
    let hits := (List.range 17).findSome? fun (n : Nat) =>
      (hitOnGrid? r (k - n)).map fun d => stripZeros 18 d (k - n)
    hits.getD ⟨0, 0⟩

end AgentFlow.Binary64
