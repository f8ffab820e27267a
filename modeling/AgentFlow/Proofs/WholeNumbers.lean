import AgentFlow.Proofs.Rounding

/-!
# Whole numbers as doubles

A whole number of 64 bits is taken for the nearest double where it meets one, and two numbers are
compared by their value in units of the least positive double. A greater whole number is taken for
no lesser double (`Binary64.units_ofInt_le`), and one that a double can have is taken for that one
(`Binary64.units_ofInt_of_eq`), so that those below `2 ^ 53` keep their value. From there on,
different numbers can be taken for one double.
-/

namespace AgentFlow.Binary64

/-! ## Units -/

/-- The size of a double in units, of which there are `2 ^ 1074` in one. -/
theorem cast_units (x : Binary64) :
    (x.units : ℚ) = (if x.negative then -x.size else x.size) * 2 ^ 1074 := by
  have hshift : (2 : ℚ) ^ (x.exponent + 1074).toNat = 2 ^ x.exponent * 2 ^ 1074 := by
    rw [← zpow_natCast, Int.toNat_of_nonneg (by linarith [x.fits.2.1]), zpow_add₀ two_ne_zero]
    rfl
  unfold units size
  dsimp only
  split_ifs
  all_goals
    push_cast
    rw [cast_twoPow, hshift]
    generalize (2 : ℚ) ^ 1074 = scale
    ring

/-! ## The nearest double -/

/-- A whole number of 64 bits is below the end of the doubles. -/
theorem natAbs_lt_overflow {n : Int} (h : n.natAbs < 2 ^ 64) :
    (n.natAbs : ℚ) / (1 : ℕ) < overflow := by
  rw [Nat.cast_one, div_one, overflow_eq]
  exact_mod_cast h.trans (by decide +kernel)

/-- The double of a whole number has its sign, and a size nearest to it. -/
theorem nearest_ofInt {n : Int} (h : n.natAbs < 2 ^ 64) :
    (ofInt n).negative = decide (n < 0) ∧
      Nearest 53 (-1074) n.natAbs (ofInt n).mantissa (ofInt n).exponent := by
  obtain ⟨x, hround, hsign, hnearest⟩ :=
    nearest_round? (decide (n < 0)) Nat.one_pos (natAbs_lt_overflow h)
  have hofInt : ofInt n = x := by rw [ofInt, hround, Option.getD_some]
  rw [hofInt]
  rw [Nat.cast_one, div_one] at hnearest
  exact ⟨hsign, hnearest⟩

/-- The units of the double of a whole number are its size with its sign. -/
theorem cast_units_ofInt {n : Int} (h : n.natAbs < 2 ^ 64) :
    ((ofInt n).units : ℚ) = (if n < 0 then -(ofInt n).size else (ofInt n).size) * 2 ^ 1074 := by
  rw [cast_units, (nearest_ofInt h).1]
  simp only [decide_eq_true_eq]

/-- A whole number that is a mantissa times a power of two has its own value as a double. -/
theorem units_ofInt_of_eq {n : Int} (h : n.natAbs < 2 ^ 64) {m : Nat} {e : Int} (hm : m < 2 ^ 53)
    (he : -1074 ≤ e) (hn : (n.natAbs : ℚ) = m * 2 ^ e) : (ofInt n).units = n * twoPow 1074 := by
  have hsize : (ofInt n).size = n.natAbs := by
    have hnearest := (nearest_ofInt h).2
    rw [hn] at hnearest ⊢
    exact hnearest.eq_of_fits hm he
  have hcast : ((ofInt n).units : ℚ) = ((n * twoPow 1074 : Int) : ℚ) := by
    rw [cast_units_ofInt h, hsize, Int.cast_mul, Int.cast_natCast, cast_twoPow]
    congr 1
    obtain hneg | hnonneg := lt_or_ge n 0
    · rw [if_pos hneg, ← Int.cast_natCast, Int.ofNat_natAbs_of_nonpos hneg.le]
      push_cast
      ring
    · rw [if_neg (not_lt.2 hnonneg), ← Int.cast_natCast, Int.natAbs_of_nonneg hnonneg]
  exact_mod_cast hcast

/-- Whole numbers up to `2 ^ 53` are doubles. -/
theorem units_ofInt_of_le {n : Int} (h : n.natAbs ≤ 2 ^ 53) :
    (ofInt n).units = n * twoPow 1074 := by
  obtain hlt | heq := Nat.lt_or_eq_of_le h
  · exact units_ofInt_of_eq (hlt.trans (by norm_num)) hlt (by norm_num : (-1074 : Int) ≤ 0)
      (by rw [zpow_zero, mul_one])
  · refine units_ofInt_of_eq (heq ▸ by norm_num) (by norm_num : 1 < 2 ^ 53)
      (by norm_num : (-1074 : Int) ≤ 53) ?_
    rw [heq]
    norm_num

/-- The whole number that a double has is taken for the same value. -/
theorem units_ofInt_of_units_eq {n : Int} (h : n.natAbs < 2 ^ 64) {x : Binary64}
    (hx : x.units = n * twoPow 1074) : (ofInt n).units = x.units := by
  have hscale : (2 : ℚ) ^ 1074 ≠ 0 := by positivity
  have hvalue : (if x.negative then -x.size else x.size) = n := by
    have hcast := congrArg (Int.cast : Int → ℚ) hx
    rw [cast_units, Int.cast_mul, Int.cast_natCast, cast_twoPow] at hcast
    exact mul_right_cancel₀ hscale hcast
  have hsize : (n.natAbs : ℚ) = x.size := by
    have habs : |(n : ℚ)| = x.size := by
      rw [← hvalue]
      split_ifs
      · rw [abs_neg, abs_of_nonneg x.size_nonneg]
      · exact abs_of_nonneg x.size_nonneg
    rw [← habs, Nat.cast_natAbs, Int.cast_abs]
  rw [hx]
  exact units_ofInt_of_eq h x.fits.1 x.fits.2.1 hsize

/-- A greater whole number is taken for no lesser double. -/
theorem units_ofInt_le {m n : Int} (hm : m.natAbs < 2 ^ 64) (hn : n.natAbs < 2 ^ 64) (h : m ≤ n) :
    (ofInt m).units ≤ (ofInt n).units := by
  obtain rfl | hlt := h.eq_or_lt
  · exact le_rfl
  have hmono : ∀ {k l : Int}, k.natAbs < 2 ^ 64 → l.natAbs < 2 ^ 64 → k.natAbs < l.natAbs →
      (ofInt k).size ≤ (ofInt l).size := fun hk hl hkl =>
    (nearest_ofInt hk).2.le_of_lt (by norm_num) (nearest_ofInt hl).2 (by exact_mod_cast hkl)
  have hcast : ((ofInt m).units : ℚ) ≤ (ofInt n).units := by
    rw [cast_units_ofInt hm, cast_units_ofInt hn]
    refine mul_le_mul_of_nonneg_right ?_ (by positivity)
    have hmsize := (ofInt m).size_nonneg
    have hnsize := (ofInt n).size_nonneg
    split_ifs with hmneg hnneg hnneg
    · have hsize := hmono hn hm (by omega)
      linarith
    · linarith
    · omega
    · exact hmono hm hn (by omega)
  exact_mod_cast hcast

end AgentFlow.Binary64
