/-!
# Powers and words

The powers of two and of ten among the natural numbers, and the whole numbers that fit a machine
word. The powers are plain functions: what they mean depends on no algebra that a module may or
may not know.
-/

namespace AgentFlow

/-- Two to the power `n`. -/
def twoPow (n : Nat) : Nat := Nat.pow 2 n

/-- Ten to the power `n`. -/
def tenPow (n : Nat) : Nat := Nat.pow 10 n

/-- The next power of two. -/
theorem twoPow_succ (n : Nat) : twoPow (n + 1) = twoPow n * 2 := rfl

/-- The next power of ten. -/
theorem tenPow_succ (n : Nat) : tenPow (n + 1) = tenPow n * 10 := rfl

/-- Powers of two are positive. -/
theorem twoPow_pos (n : Nat) : 0 < twoPow n := by
  induction n with
  | zero => exact Nat.one_pos
  | succ n ih =>
    rw [twoPow_succ]
    omega

/-- Powers of ten are positive. -/
theorem tenPow_pos (n : Nat) : 0 < tenPow n := by
  induction n with
  | zero => exact Nat.one_pos
  | succ n ih =>
    rw [tenPow_succ]
    omega

/-- Whether an integer is in the range of 64-bit signed integers. -/
def inInt64 (n : Int) : Bool := -9223372036854775808 ≤ n && n ≤ 9223372036854775807

/-- Whether an integer is in the range of 64-bit unsigned integers. -/
def inNat64 (n : Int) : Bool := 0 ≤ n && n ≤ 18446744073709551615

/-- The signed range has 63 bits on either side of zero. -/
theorem inInt64_iff (n : Int) :
    inInt64 n = true ↔ -(twoPow 63 : Int) ≤ n ∧ n < (twoPow 63 : Int) := by
  have h : twoPow 63 = 9223372036854775808 := rfl
  simp only [inInt64, Bool.and_eq_true, decide_eq_true_eq, h]
  omega

/-- The unsigned range has 64 bits. -/
theorem inNat64_iff (n : Int) : inNat64 n = true ↔ 0 ≤ n ∧ n < (twoPow 64 : Int) := by
  have h : twoPow 64 = 18446744073709551616 := rfl
  simp only [inNat64, Bool.and_eq_true, decide_eq_true_eq, h]
  omega

end AgentFlow
