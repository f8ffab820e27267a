import AgentFlow.Number.Binary64

/-!
# Values

The dynamic values that flow state, tool arguments and model answers are made of: the six kinds
of a JSON document, with whole numbers kept apart from doubles. The fields of a map stand in
increasing order of their names.
-/

namespace AgentFlow

/-- A number: a whole number of 64 bits, signed or unsigned, or a finite double. -/
inductive Number where
  | int (n : Int)
  | float (x : Binary64)
deriving DecidableEq, Inhabited

namespace Number

/-- The number as a double, the nearest one if it is a large whole number. -/
def toBinary : Number → Binary64
  | int n => .ofInt n
  | float x => x

/-- The whole number, if it is one of 64 signed bits. -/
def toInt64? : Number → Option Int
  | int n => if inInt64 n then some n else none
  | float _ => none

/-- The whole number, if it is one of 64 unsigned bits. -/
def toNat64? : Number → Option Nat
  | int n => if inNat64 n then some n.toNat else none
  | float _ => none

end Number

/-- A dynamic value. -/
inductive Value where
  | null
  | bool (b : Bool)
  | number (n : Number)
  | string (s : String)
  | list (items : List Value)
  | map (fields : List (String × Value))
deriving Inhabited

namespace Value

/-- A whole number as a value. -/
abbrev int (n : Int) : Value := number (.int n)

/-- A double as a value. -/
abbrev float (x : Binary64) : Value := number (.float x)

/-- A double that may have overflowed: the value of an overflow is `null`. -/
def ofFloat? : Option Binary64 → Value
  | some x => float x
  | none => null

/-- The name of a value's kind, as diagnostics spell it. -/
def kindName : Value → String
  | null => "null"
  | bool _ => "bool"
  | number (.int _) => "int"
  | number (.float _) => "float"
  | string _ => "string"
  | list _ => "list"
  | map _ => "map"

/-- Whether a value is a number. -/
def isNumber : Value → Bool
  | number _ => true
  | _ => false

/-- The field of a map; other kinds have no fields. -/
def field? (name : String) : Value → Option Value
  | map fields => fields.lookup name
  | _ => none

/-- The text of a string. -/
def string? : Value → Option String
  | string s => some s
  | _ => none

/-- The items of a list. -/
def list? : Value → Option (List Value)
  | list items => some items
  | _ => none

/-- Null, `false`, zero and everything empty count as false, all else as true. -/
def truthy : Value → Bool
  | null => false
  | bool b => b
  | number n => !n.toBinary.isZero
  | string s => !s.isEmpty
  | list items => !items.isEmpty
  | map fields => !fields.isEmpty

mutual

/-- Whether two values are the same one: same kinds, same parts. -/
def same : Value → Value → Bool
  | null, null => true
  | bool a, bool b => a == b
  | number a, number b => a == b
  | string a, string b => a == b
  | list a, list b => sameItems a b
  | map a, map b => sameFields a b
  | _, _ => false

/-- `same` along two lists. -/
def sameItems : List Value → List Value → Bool
  | [], [] => true
  | a :: as, b :: bs => same a b && sameItems as bs
  | _, _ => false

/-- `same` along the fields of two maps. -/
def sameFields : List (String × Value) → List (String × Value) → Bool
  | [], [] => true
  | (j, a) :: as, (k, b) :: bs => j == k && same a b && sameFields as bs
  | _, _ => false

end

mutual

/-- Values that are found to be the same are equal. -/
theorem eq_of_same {a b : Value} (h : same a b = true) : a = b := by
  cases a <;> cases b <;> simp only [same, beq_iff_eq, Bool.false_eq_true] at h ⊢ <;>
    first
      | exact congrArg _ h
      | exact congrArg _ (eq_of_sameItems h)
      | exact congrArg _ (eq_of_sameFields h)

/-- Items that are found to be the same one by one are equal. -/
theorem eq_of_sameItems {a b : List Value} (h : sameItems a b = true) : a = b := by
  cases a <;> cases b <;> simp only [sameItems, Bool.and_eq_true, Bool.false_eq_true] at h ⊢
  rw [eq_of_same h.1, eq_of_sameItems h.2]

/-- Fields whose names and values are found to be the same are equal. -/
theorem eq_of_sameFields {a b : List (String × Value)} (h : sameFields a b = true) : a = b := by
  match a, b with
  | [], [] => rfl
  | [], _ :: _ => simp [sameFields] at h
  | _ :: _, [] => simp [sameFields] at h
  | (j, x) :: as, (k, y) :: bs =>
    simp only [sameFields, Bool.and_eq_true, beq_iff_eq] at h
    rw [h.1.1, eq_of_same h.1.2, eq_of_sameFields h.2]

end

mutual

/-- A value is found to be the same as itself. -/
theorem same_self : (a : Value) → same a a = true
  | null => by simp [same]
  | bool _ => by simp [same]
  | number _ => by simp [same]
  | string _ => by simp [same]
  | list items => by simp [same, sameItems_self items]
  | map fields => by simp [same, sameFields_self fields]

/-- Items are found to be the same as themselves. -/
theorem sameItems_self : (as : List Value) → sameItems as as = true
  | [] => by simp [sameItems]
  | a :: as => by simp [sameItems, same_self a, sameItems_self as]

/-- Fields are found to be the same as themselves. -/
theorem sameFields_self : (as : List (String × Value)) → sameFields as as = true
  | [] => by simp [sameFields]
  | (_, a) :: as => by simp [sameFields, same_self a, sameFields_self as]

end

/-- Equality of values is decided by going through both. -/
instance : DecidableEq Value := fun a b =>
  if h : same a b = true then isTrue (eq_of_same h)
  else isFalse fun e => h (e ▸ same_self a)

end Value

end AgentFlow
