import AgentFlow.Value.Basic

/-!
# Equality and order of values

`equivalent` is the equality that conditions and answer checks use: numbers compare by value
across their two representations, everything else by its parts. Two whole numbers of 64 signed
bits compare exactly; any other pair of numbers compares as doubles.
-/

namespace AgentFlow

namespace Number

/-- Equality by value. -/
def equivalent (a b : Number) : Bool :=
  match a.toInt64?, b.toInt64? with
  | some m, some n => m == n
  | _, _ => a.toBinary.sameValue b.toBinary

/-- The order of the numbers as doubles. -/
def order (a b : Number) : Ordering := a.toBinary.order b.toBinary

end Number

namespace Value

mutual

/-- Equality of values where numbers compare by value. -/
def equivalent : Value → Value → Bool
  | null, null => true
  | bool a, bool b => a == b
  | number a, number b => a.equivalent b
  | string a, string b => a == b
  | list a, list b => itemsEquivalent a b
  | map a, map b => a.length == b.length && fieldsEquivalent a b
  | _, _ => false

/-- Equality item by item. -/
def itemsEquivalent : List Value → List Value → Bool
  | [], [] => true
  | a :: as, b :: bs => equivalent a b && itemsEquivalent as bs
  | _, _ => false

/-- Whether every field of the first map is an equivalent field of the second. -/
def fieldsEquivalent : List (String × Value) → List (String × Value) → Bool
  | [], _ => true
  | (name, a) :: as, bs =>
    (match bs.lookup name with
      | some b => equivalent a b
      | none => false) && fieldsEquivalent as bs

end

/-- Why two values have no order. -/
structure Unordered where
  left : String
  right : String
deriving DecidableEq

/-- Numbers are ordered by value and strings by their characters; other pairs have no order. -/
def order? : Value → Value → Except Unordered Ordering
  | number a, number b => .ok (a.order b)
  | string a, string b => .ok (compareOfLessAndEq a b)
  | a, b => .error ⟨a.kindName, b.kindName⟩

end Value

end AgentFlow
