import AgentFlow.Proofs.Equivalence
import AgentFlow.Step.Update

/-!
# Counting up

What an update node writes that adds one whole number to another. The sum is exact, or refused where
it does not fit, as long as both numbers have 64 signed bits (`UpdateStep.increments`). A number
past these makes a double of the sum: the two are taken for their nearest doubles, and the sum of
these is rounded once more (`Binary64.nearest_add?`). Such a sum never comes to an end of the
doubles, so that it is always written.
-/

namespace AgentFlow

/-! ## Sums of doubles -/

namespace Binary64

/-- The value as a rational number. -/
def value (x : Binary64) : ℚ := if x.negative then -x.size else x.size

/-- The value of a double is counted by its units. -/
theorem cast_units_eq (x : Binary64) : (x.units : ℚ) = x.value * 2 ^ 1074 := cast_units x

/-- A sum of doubles is not negative if it is not so in units. -/
theorem value_add_nonneg {x y : Binary64} (h : 0 ≤ x.units + y.units) : 0 ≤ x.value + y.value := by
  have hscale : (0 : ℚ) < 2 ^ 1074 := by positivity
  have hcast : (0 : ℚ) ≤ (x.value + y.value) * 2 ^ 1074 := by
    rw [add_mul, ← cast_units_eq, ← cast_units_eq]
    exact_mod_cast h
  exact nonneg_of_mul_nonneg_left hcast hscale

/-- The size of a double is its absolute value. -/
theorem abs_value (x : Binary64) : |x.value| = x.size := by
  unfold value
  split_ifs
  · rw [abs_neg, abs_of_nonneg x.size_nonneg]
  · exact abs_of_nonneg x.size_nonneg

/-- The sum of two doubles is the double nearest to the exact sum. A sum of zero is positive unless
both parts are negative. -/
theorem nearest_add? {x y : Binary64} (h : |x.value + y.value| < overflow) :
    ∃ sum, x.add? y = some sum ∧
      (sum.negative = if x.units + y.units = 0 then x.negative && y.negative
        else decide (x.units + y.units < 0)) ∧
      Nearest 53 (-1074) |x.value + y.value| sum.mantissa sum.exponent := by
  have hscale : (0 : ℚ) < 2 ^ 1074 := by positivity
  have htotal : ((x.units + y.units).natAbs : ℚ) / (twoPow 1074 : ℕ) = |x.value + y.value| := by
    rw [cast_twoPow, Nat.cast_natAbs, Int.cast_abs, Int.cast_add, cast_units_eq, cast_units_eq,
      ← add_mul, abs_mul, abs_of_pos hscale, mul_div_cancel_right₀ _ hscale.ne']
  unfold add?
  dsimp only
  split_ifs with hzero
  · have hnone : |x.value + y.value| = 0 := by
      rw [← htotal, hzero, Int.natAbs_zero, Nat.cast_zero, zero_div]
    refine ⟨_, rfl, rfl, le_rfl, by norm_num [zero], ?_, .inl rfl⟩
    have hhalf : (0 : ℚ) ≤ 2 ^ (-1074 - 1 : ℤ) := by positivity
    simpa only [hnone, zero, Nat.cast_zero, zero_mul, sub_zero, abs_zero] using hhalf
  · obtain ⟨sum, hround, hsign, hnearest⟩ :=
      nearest_round? (decide (x.units + y.units < 0)) (twoPow_pos 1074) (htotal ▸ h)
    rw [htotal] at hnearest
    exact ⟨sum, hround, hsign, hnearest⟩

/-- The double of a whole number of 64 bits is at most about twice as large. -/
theorem size_ofInt_le {n : Int} (h : n.natAbs < 2 ^ 64) : (ofInt n).size ≤ 2 ^ 66 := by
  obtain ⟨x, hround, hsize, -⟩ :=
    exists_round? (decide (n < 0)) Nat.one_pos (natAbs_lt_overflow h)
  have hofInt : ofInt n = x := by rw [ofInt, hround, Option.getD_some]
  have hbound : (n.natAbs : ℚ) < 2 ^ 64 := by exact_mod_cast h
  rw [Nat.cast_one, div_one] at hsize
  rw [hofInt]
  linarith

/-- Whole numbers of 64 bits add up to far less than the greatest double. -/
theorem abs_value_add_lt {m n : Int} (hm : m.natAbs < 2 ^ 64) (hn : n.natAbs < 2 ^ 64) :
    |(ofInt m).value + (ofInt n).value| < overflow := by
  have hsum := abs_add_le (ofInt m).value (ofInt n).value
  rw [abs_value, abs_value] at hsum
  have hoverflow : (2 : ℚ) ^ 67 < overflow := by
    rw [overflow_eq]
    exact_mod_cast (by decide +kernel : 2 ^ 67 < (2 ^ 54 - 1) * 2 ^ 970)
  linarith [size_ofInt_le hm, size_ofInt_le hn]

/-- A power of two below `2 ^ 64`, on either side of zero, is the double nearest to it. -/
theorem units_ofInt_of_natAbs_eq {n : Int} {k : Nat} (hk : k < 64) (h : n.natAbs = 2 ^ k) :
    (ofInt n).units = n * twoPow 1074 := by
  refine units_ofInt_of_eq ?_ (by norm_num : 1 < 2 ^ 53) (by omega : (-1074 : Int) ≤ k) ?_
  · rw [h]
    exact Nat.pow_lt_pow_right one_lt_two hk
  · rw [h]
    norm_num

/-- Doubles do not bring a whole number of 64 bits below the least one of 64 signed bits. -/
theorem le_units_ofInt {n : Int} (h : (Number.int n).IsWord) :
    -(2 ^ 63) * (twoPow 1074 : Int) ≤ (ofInt n).units := by
  rw [← units_ofInt_of_natAbs_eq (by norm_num : 63 < 64) rfl]
  exact units_ofInt_le (by decide) h.natAbs_lt h.1

/-- Doubles do not bring a whole number of 64 bits that is past the signed ones into their range. -/
theorem le_units_ofInt_of_past {n : Int} (h : (Number.int n).IsWord) (hpast : 2 ^ 63 ≤ n) :
    2 ^ 63 * (twoPow 1074 : Int) ≤ (ofInt n).units := by
  rw [← units_ofInt_of_natAbs_eq (by norm_num : 63 < 64) rfl]
  exact units_ofInt_le (by decide) h.natAbs_lt hpast

end Binary64

/-! ## Sums of whole numbers -/

namespace Number

variable (key : String) {m n : Int}

/-- Two whole numbers of 64 signed bits have their exact sum, or are refused if that has more. -/
theorem add_of_inInt64 (hm : inInt64 m = true) (hn : inInt64 n = true) :
    (int m).add key (int n) =
      if inInt64 (m + n) then .ok (.int (m + n))
      else .error (.typeMismatch key "int within range" "overflow") := by
  simp only [add, toInt64?, hm, hn, if_true]

/-- With a number past 64 signed bits the sum is that of the nearest doubles. -/
theorem add_of_not_inInt64 (hm : (int m).IsWord) (hn : (int n).IsWord)
    (h : ¬ (inInt64 m = true ∧ inInt64 n = true)) :
    ∃ sum, (int m).add key (int n) = .ok (.float sum) ∧ sum.negative = false ∧
      Binary64.Nearest 53 (-1074) ((Binary64.ofInt m).value + (Binary64.ofInt n).value)
        sum.mantissa sum.exponent := by
  obtain ⟨sum, hsum, hsign, hnearest⟩ :=
    Binary64.nearest_add? (Binary64.abs_value_add_lt hm.natAbs_lt hn.natAbs_lt)
  -- Words have at most 64 bits without a sign, so that one of the two is past the signed ones.
  have hone : 2 ^ 63 ≤ m ∨ 2 ^ 63 ≤ n := by
    have hm63 := hm.1
    have hn63 := hn.1
    have h63 : (twoPow 63 : Int) = 2 ^ 63 := rfl
    simp only [inInt64_iff] at h
    omega
  -- The one that is past is at least as large as the other can be negative.
  have hvalue : 0 ≤ (Binary64.ofInt m).units + (Binary64.ofInt n).units := by
    have hmleast := Binary64.le_units_ofInt hm
    have hnleast := Binary64.le_units_ofInt hn
    obtain hpast | hpast := hone
    · linarith [Binary64.le_units_ofInt_of_past hm hpast]
    · linarith [Binary64.le_units_ofInt_of_past hn hpast]
  have hsigns : ((Binary64.ofInt m).negative && (Binary64.ofInt n).negative) = false := by
    rw [(Binary64.nearest_ofInt hm.natAbs_lt).1, (Binary64.nearest_ofInt hn.natAbs_lt).1,
      Bool.and_eq_false_iff, decide_eq_false_iff_not, decide_eq_false_iff_not]
    exact hone.imp (by omega) (by omega)
  rw [abs_of_nonneg (Binary64.value_add_nonneg hvalue)] at hnearest
  rw [hsigns, decide_eq_false (not_lt.2 hvalue), ite_self] at hsign
  have hnone : (int m).toInt64? = none ∨ (int n).toInt64? = none := by
    simp only [toInt64?]
    split_ifs <;> simp_all
  refine ⟨sum, ?_, hsign, hnearest⟩
  unfold add
  split
  · simp_all
  · simp only [toBinary, hsum]

end Number

/-! ## Nodes that count up -/

namespace UpdateStep

/-- The whole number that an increment adds: the one that the source holds, the literal one, or
one. -/
inductive Adds (step : UpdateStep) (state : Store) : Int → Prop where
  | source {name : String} {n : Int} (hsource : step.source = some name)
    (hvalue : state.get? name = some (.int n)) : Adds step state n
  | literal {n : Int} (hsource : step.source = none) (hvalue : step.value = some (.int n)) :
    Adds step state n
  | one (hsource : step.source = none) (hvalue : step.value = none) : Adds step state 1

variable {node : Node} {step : UpdateStep} {state : Store} {field : OutputField} {m n : Int}

/-- The operand of an increment, or one if it has none, is the number that it adds. -/
theorem Adds.operand (h : step.Adds state n) :
    ∃ value, step.operand state = .ok value ∧ value.getD (.int 1) = .int n := by
  cases h with
  | source hsource hvalue =>
    exact ⟨some (.int n), by simp only [UpdateStep.operand, hsource, hvalue], rfl⟩
  | literal hsource hvalue =>
    refine ⟨some (.int n), ?_, rfl⟩
    simp only [UpdateStep.operand, hsource, hvalue, Template.interpolateValue]
    rfl
  | one hsource hvalue => exact ⟨none, by simp only [UpdateStep.operand, hsource, hvalue], rfl⟩

/-- An increment writes the sum, or fails as the addition does. -/
theorem run_of_adds (haction : step.action = some .increment) (hfield : node.output = [field])
    (hcurrent : state.get? field.name = some (.int m)) (hadds : step.Adds state n) :
    step.run node state = ((Number.int m).add field.name (.int n)).map fun sum =>
      { fields := [(field.name, .number sum)] } := by
  obtain ⟨value, hoperand, hvalue⟩ := hadds.operand
  have hact : act node step state field.name .increment =
      ((Number.int m).add field.name (.int n)).map .number := by
    simp only [act, hoperand, bind, Except.bind, hvalue, increment, hcurrent]
  simp only [run, haction, hfield, hact]
  cases (Number.int m).add field.name (.int n) <;> rfl

/-- What comes of counting up a whole number by another one. -/
structure Increments (node : Node) (step : UpdateStep) (state : Store) (target : String)
    (m n : Int) : Prop where
  /-- The sum of two numbers of 64 signed bits is written as it is. -/
  exact : inInt64 m = true → inInt64 n = true → inInt64 (m + n) = true →
    step.run node state = .ok { fields := [(target, .int (m + n))] }
  /-- A sum that does not fit is refused. -/
  refused : inInt64 m = true → inInt64 n = true → inInt64 (m + n) = false →
    step.run node state = .error (.typeMismatch target "int within range" "overflow")
  /-- With a number past 64 signed bits, the double nearest to the sum of the nearest doubles is
  written. -/
  rounded : ¬ (inInt64 m = true ∧ inInt64 n = true) → ∃ sum : Binary64,
    step.run node state = .ok { fields := [(target, .float sum)] } ∧
    sum.negative = false ∧
    Binary64.Nearest 53 (-1074) ((Binary64.ofInt m).value + (Binary64.ofInt n).value)
      sum.mantissa sum.exponent

/-- A whole number of 64 bits that is counted up by another one stays whole and exact, or is
refused, if both have 64 signed bits; else it becomes a double. -/
theorem increments (haction : step.action = some .increment) (hfield : node.output = [field])
    (hcurrent : state.get? field.name = some (.int m)) (hadds : step.Adds state n)
    (hm : (Number.int m).IsWord) (hn : (Number.int n).IsWord) :
    Increments node step state field.name m n := by
  have hrun := run_of_adds haction hfield hcurrent hadds
  refine ⟨fun hm64 hn64 hfits => ?_, fun hm64 hn64 hpast => ?_, fun hpast => ?_⟩
  · rw [hrun, Number.add_of_inInt64 _ hm64 hn64, if_pos hfits]
    rfl
  · rw [hrun, Number.add_of_inInt64 _ hm64 hn64, hpast]
    rfl
  · obtain ⟨sum, hsum, hnearest⟩ := Number.add_of_not_inInt64 field.name hm hn hpast
    refine ⟨sum, ?_, hnearest⟩
    rw [hrun, hsum]
    rfl

end UpdateStep

/-! ## Samples -/

namespace Sample.CountingUp

/-- An update that counts up. -/
def step : UpdateStep where
  action := some .increment

/-- The field that is counted up. -/
def field : OutputField := { name := "count" }

/-- A node that counts up by one. -/
def node : Node where
  name := "count_up"
  kind := .update step
  output := [field]

/-- A state with the counter at a number. -/
def counted (n : Int) : Store := .ofList [("count", .int n)]

/-- The greatest whole number of 64 signed bits is not counted up. -/
theorem increments_greatest :
    (counted 9223372036854775807).get? field.name = some (.int 9223372036854775807) ∧
    step.Adds (counted 9223372036854775807) 1 ∧
    UpdateStep.Increments node step (counted 9223372036854775807) field.name
      9223372036854775807 1 ∧
    step.run node (counted 9223372036854775807) =
      .error (.typeMismatch "count" "int within range" "overflow") := by
  have hcount : (counted 9223372036854775807).get? field.name =
      some (.int 9223372036854775807) := by
    decide +kernel
  have hadds : step.Adds (counted 9223372036854775807) 1 := .one rfl rfl
  have hgreatest : (Number.int 9223372036854775807).IsWord := by constructor <;> decide +kernel
  have hone : (Number.int 1).IsWord := by constructor <;> decide +kernel
  have h : UpdateStep.Increments node step _ field.name _ _ :=
    UpdateStep.increments rfl rfl hcount hadds hgreatest hone
  exact ⟨hcount, hadds, h, h.refused (by decide) (by decide) (by decide)⟩

/-- The number after it becomes a double, which is one less than the sum. -/
theorem counted_up_to_double :
    step.run node (counted 9223372036854775808) =
      .ok { fields := [("count", .float ⟨false, 4503599627370496, 11, by decide⟩)] } ∧
    ¬ (step.run node (counted 9223372036854775808) =
        .ok { fields := [("count", .int 9223372036854775809)] } ∨
      step.run node (counted 9223372036854775808) =
        .error (.typeMismatch "count" "int within range" "overflow")) := by
  have h : step.run node (counted 9223372036854775808) =
      .ok { fields := [("count", .float ⟨false, 4503599627370496, 11, by decide⟩)] } := by
    decide +kernel
  rw [h]
  exact ⟨rfl, by simp⟩

end Sample.CountingUp

end AgentFlow
