import Mathlib.Algebra.Order.Field.Power
import Mathlib.Tactic.FieldSimp
import Mathlib.Tactic.GCongr
import Mathlib.Tactic.Linarith
import Mathlib.Tactic.NormNum
import Mathlib.Tactic.Positivity
import Mathlib.Tactic.Ring
import AgentFlow.Number.Reading

/-!
# Rounding to doubles

What the rounding of a positive rational to a double comes to (`Binary64.Nearest`): the mantissa
fits, the error is at most half a unit, and the exponent is no greater than the number needs. So
there is a double for everything below `Binary64.overflow`, half a unit past the greatest one, and
it is off by a relative error of `Binary64.precision` unless the number is small
(`Binary64.exists_round?`).

From this, a decimal that is read in steps is read, as long as it stays a few units below the
greatest double (`Binary64.exists_steppedDecimal`): two roundings raise it by no more than that.
-/

namespace AgentFlow

/-- Powers of two that are computed are those of rational numbers. -/
theorem cast_twoPow (n : Nat) : (twoPow n : ℚ) = 2 ^ n := by
  show ((2 ^ n : ℕ) : ℚ) = 2 ^ n
  norm_num

/-- Powers of ten that are computed are those of rational numbers. -/
theorem cast_tenPow (n : Nat) : (tenPow n : ℚ) = 10 ^ n := by
  show ((10 ^ n : ℕ) : ℚ) = 10 ^ n
  norm_num

/-- A power is the quotient of the two natural ones that stand for its exponent. -/
theorem toNat_pow_eq {b : ℚ} (hb : b ≠ 0) (e : Int) : b ^ e.toNat = b ^ e * b ^ (-e).toNat := by
  obtain ⟨n, rfl | rfl⟩ := Int.eq_nat_or_neg e
  · simp
  · simp [hb]

namespace Binary64

/-! ## To the nearest whole number -/

/-- A quotient is rounded by at most one half. -/
theorem abs_divNearest_sub_le (num : Nat) {den : Nat} (hden : 0 < den) :
    |(divNearest num den : ℚ) - num / den| ≤ 1 / 2 := by
  have hdenQ : (0 : ℚ) < den := Nat.cast_pos.2 hden
  have hsplit : (num : ℚ) = den * (num / den : ℕ) + (num % den : ℕ) := by
    exact_mod_cast (Nat.div_add_mod num den).symm
  have hrem : ((num % den : ℕ) : ℚ) < den := by exact_mod_cast Nat.mod_lt num hden
  have hrem0 : (0 : ℚ) ≤ (num % den : ℕ) := Nat.cast_nonneg _
  unfold divNearest
  dsimp only
  generalize num / den = quotient, num % den = rem at *
  have hquotient : (num : ℚ) / den = quotient + rem / den := by
    rw [hsplit]
    field_simp
  rw [hquotient]
  split_ifs with hup
  · -- Rounded up, the remainder is at least a half.
    have hhalf : (den : ℚ) ≤ 2 * rem := by
      have : den ≤ 2 * rem := by omega
      exact_mod_cast this
    have hlow : (1 : ℚ) / 2 ≤ rem / den := by
      rw [div_le_div_iff₀ two_pos hdenQ]
      linarith
    have hhigh : (rem : ℚ) / den ≤ 1 := (div_le_one hdenQ).2 hrem.le
    push_cast
    rw [abs_le]
    constructor <;> linarith
  · have hhalf : 2 * (rem : ℚ) ≤ den := by
      have : 2 * rem ≤ den := by omega
      exact_mod_cast this
    have hlow : (0 : ℚ) ≤ rem / den := by positivity
    have hhigh : (rem : ℚ) / den ≤ 1 / 2 := by
      rw [div_le_div_iff₀ hdenQ two_pos]
      linarith
    rw [abs_le]
    constructor <;> linarith

/-! ## To the nearest double -/

/-- Scaling a quotient by a power of two divides it by that power. -/
theorem scaled_eq (num : Nat) {den : Nat} (hden : 0 < den) (e : Int) :
    0 < (scaled num den e).2 ∧
      ((scaled num den e).1 : ℚ) / (scaled num den e).2 = num / den / 2 ^ e := by
  have hdenQ : (den : ℚ) ≠ 0 := Nat.cast_ne_zero.2 hden.ne'
  refine ⟨Nat.mul_pos hden (twoPow_pos _), ?_⟩
  simp only [scaled, Nat.cast_mul, cast_twoPow, toNat_pow_eq two_ne_zero e]
  field_simp

/-- The quotient of two numbers lies between the powers of two that their lengths tell. -/
theorem log2_bounds {num den : Nat} (hnum : 0 < num) (hden : 0 < den) :
    (2 : ℚ) ^ ((num.log2 : Int) - den.log2 - 1) ≤ num / den ∧
      (num : ℚ) / den < 2 ^ ((num.log2 : Int) - den.log2 + 1) := by
  have hdenQ : (0 : ℚ) < den := Nat.cast_pos.2 hden
  have hnumLow : (2 : ℚ) ^ (num.log2 : Int) ≤ num := by
    rw [zpow_natCast]
    exact_mod_cast Nat.log2_self_le hnum.ne'
  have hnumHigh : (num : ℚ) < 2 ^ ((num.log2 : Int) + 1) := by
    have : num < 2 ^ (num.log2 + 1) := Nat.lt_log2_self
    exact_mod_cast this
  have hdenLow : (2 : ℚ) ^ (den.log2 : Int) ≤ den := by
    rw [zpow_natCast]
    exact_mod_cast Nat.log2_self_le hden.ne'
  have hdenHigh : (den : ℚ) < 2 ^ ((den.log2 : Int) + 1) := by
    have : den < 2 ^ (den.log2 + 1) := Nat.lt_log2_self
    exact_mod_cast this
  -- A quotient is least for the least numerator and the greatest denominator of their lengths, and
  -- the other way round.
  constructor
  · rw [le_div_iff₀ hdenQ]
    calc (2 : ℚ) ^ ((num.log2 : Int) - den.log2 - 1) * den
        ≤ 2 ^ ((num.log2 : Int) - den.log2 - 1) * 2 ^ ((den.log2 : Int) + 1) := by gcongr
      _ = 2 ^ (num.log2 : Int) := by
          rw [← zpow_add₀ two_ne_zero]
          congr 1
          ring
      _ ≤ num := hnumLow
  · rw [div_lt_iff₀ hdenQ]
    calc (num : ℚ) < 2 ^ ((num.log2 : Int) + 1) := hnumHigh
      _ = 2 ^ ((num.log2 : Int) - den.log2 + 1) * 2 ^ (den.log2 : Int) := by
          rw [← zpow_add₀ two_ne_zero]
          congr 1
          ring
      _ ≤ 2 ^ ((num.log2 : Int) - den.log2 + 1) * den := by gcongr

/-- The exponent to which a number is rounded, before a carry. -/
def fittingExponent (bits : Nat) (least : Int) (num den : Nat) : Int :=
  let guess := max least ((num.log2 : Int) - den.log2 - bits)
  if (scaled num den guess).1 / (scaled num den guess).2 < twoPow bits then guess else guess + 1

/-- The exponent is the one for which the mantissa has `bits` bits, or the least one. -/
theorem fittingExponent_spec {bits : Nat} (hbits : 0 < bits) (least : Int) {num den : Nat}
    (hnum : 0 < num) (hden : 0 < den) :
    least ≤ fittingExponent bits least num den ∧
      (num : ℚ) / den / 2 ^ fittingExponent bits least num den < 2 ^ bits ∧
      (fittingExponent bits least num den = least ∨
        2 ^ (bits - 1) ≤ (num : ℚ) / den / 2 ^ fittingExponent bits least num den) := by
  obtain ⟨hlow, hhigh⟩ := log2_bounds hnum hden
  unfold fittingExponent
  dsimp only
  set guess := max least ((num.log2 : Int) - den.log2 - bits) with hguess
  obtain ⟨hpos, hscaled⟩ := scaled_eq num hden guess
  have hposQ : (0 : ℚ) < (scaled num den guess).2 := Nat.cast_pos.2 hpos
  -- The guess is right or one too small: the lengths tell the quotient but for a factor of four.
  split_ifs with hsmall
  · refine ⟨le_max_left _ _, ?_, ?_⟩
    · rw [← hscaled, div_lt_iff₀ hposQ, ← cast_twoPow]
      exact_mod_cast (Nat.div_lt_iff_lt_mul hpos).1 hsmall
    · obtain hleast | hfits := max_choice least ((num.log2 : Int) - den.log2 - bits)
      · exact .inl hleast
      · right
        rw [le_div_iff₀ (by positivity)]
        calc (2 : ℚ) ^ (bits - 1) * 2 ^ guess = 2 ^ ((num.log2 : Int) - den.log2 - 1) := by
              rw [hguess, hfits, ← zpow_natCast, ← zpow_add₀ two_ne_zero]
              congr 1
              omega
          _ ≤ num / den := hlow
  · refine ⟨Int.le_add_one (le_max_left _ _), ?_, .inr ?_⟩
    · rw [div_lt_iff₀ (by positivity)]
      calc (num : ℚ) / den < 2 ^ ((num.log2 : Int) - den.log2 + 1) := hhigh
        _ ≤ 2 ^ ((bits : Int) + (guess + 1)) := by
            refine zpow_le_zpow_right₀ one_le_two ?_
            have := le_max_right least ((num.log2 : Int) - den.log2 - bits)
            omega
        _ = 2 ^ bits * 2 ^ (guess + 1) := by
            rw [zpow_add₀ two_ne_zero, zpow_natCast]
    · have hlarge : (2 : ℚ) ^ bits ≤ num / den / 2 ^ guess := by
        rw [← hscaled, le_div_iff₀ hposQ, ← cast_twoPow]
        exact_mod_cast (Nat.le_div_iff_mul_le hpos).1 (not_lt.1 hsmall)
      rw [zpow_add₀ two_ne_zero, zpow_one, ← div_div, le_div_iff₀ two_pos, ← pow_succ,
        Nat.sub_add_cancel hbits]
      exact hlarge

/-- A mantissa of `bits` bits and an exponent that a positive rational is rounded to. -/
structure Nearest (bits : Nat) (least : Int) (q : ℚ) (m : Nat) (e : Int) : Prop where
  least_le : least ≤ e
  lt : m < 2 ^ bits
  error : |m * 2 ^ e - q| ≤ 2 ^ (e - 1)
  /-- The exponent is the least one, or the mantissa has all its bits, and the number is at least
  what is rounded to that exponent. -/
  normal : e = least ∨ 2 ^ (bits - 1) ≤ m ∧ (2 ^ bits - 1 / 2) * 2 ^ (e - 1) ≤ q

/-- A greater number is rounded to no less. -/
theorem Nearest.le_of_lt {bits : Nat} (hbits : 0 < bits) {least : Int} {p q : ℚ} {m n : Nat}
    {d e : Int} (hp : Nearest bits least p m d) (hq : Nearest bits least q n e) (h : p < q) :
    (m : ℚ) * 2 ^ d ≤ n * 2 ^ e := by
  have hdouble : (2 : ℚ) ^ bits = 2 * 2 ^ (bits - 1) := by
    rw [← pow_succ', Nat.sub_add_cancel hbits]
  have hhalf : ∀ k : Int, (2 : ℚ) ^ (k - 1) = 2 ^ k / 2 := fun k => by
    rw [zpow_sub₀ two_ne_zero, zpow_one]
  have habove := (abs_le.1 hp.error).2
  have hbelow := (abs_le.1 hq.error).1
  rw [hhalf] at habove hbelow
  obtain hlt | rfl | hgt := lt_trichotomy d e
  · -- The greater number has a mantissa with all its bits, on a coarser grid.
    have hm : (m : ℚ) ≤ 2 ^ bits := by exact_mod_cast hp.lt.le
    have hn : (2 : ℚ) ^ (bits - 1) ≤ n := by
      obtain rfl | ⟨hn, -⟩ := hq.normal
      · exact absurd hp.least_le (not_le.2 hlt)
      · exact_mod_cast hn
    calc (m : ℚ) * 2 ^ d ≤ 2 ^ bits * 2 ^ d := by gcongr
      _ = 2 ^ (bits - 1) * 2 ^ (d + 1) := by
          rw [hdouble, zpow_add₀ two_ne_zero, zpow_one]
          ring
      _ ≤ n * 2 ^ e := by
          gcongr
          · exact one_le_two
          · omega
  · -- On one grid, the two are less than a unit apart in the wrong direction.
    by_contra hless
    have hunit : (0 : ℚ) < 2 ^ d := by positivity
    have hmn : n + 1 ≤ m := by
      have : (n : ℚ) < m := lt_of_mul_lt_mul_right (not_le.1 hless) hunit.le
      exact_mod_cast this
    have hstep : ((n : ℚ) + 1) * 2 ^ d ≤ m * 2 ^ d := by
      gcongr
      exact_mod_cast hmn
    linarith
  · -- The lesser number would be at least what the other one can be.
    exfalso
    have hn : (n : ℚ) ≤ 2 ^ bits - 1 := by
      have : n + 1 ≤ 2 ^ bits := hq.lt
      linarith [show ((n : ℚ) + 1 ≤ 2 ^ bits) by exact_mod_cast this]
    have hgrid : (2 : ℚ) ^ e ≤ 2 ^ (d - 1) := zpow_le_zpow_right₀ one_le_two (by omega)
    have hunit : (0 : ℚ) < 2 ^ e := by positivity
    have hone : (1 : ℚ) ≤ 2 ^ bits := one_le_pow₀ one_le_two
    obtain rfl | ⟨-, hlarge⟩ := hp.normal
    · exact absurd hq.least_le (not_le.2 hgt)
    · have hq' : q ≤ (2 ^ bits - 1 / 2) * 2 ^ e := by nlinarith
      have hp' : (2 ^ bits - 1 / 2) * (2 : ℚ) ^ e ≤ (2 ^ bits - 1 / 2) * 2 ^ (d - 1) :=
        mul_le_mul_of_nonneg_left hgrid (by linarith)
      linarith

/-- A number with a mantissa that fits is rounded to itself. -/
theorem Nearest.eq_of_fits {bits : Nat} {least : Int} {m n : Nat} {d e : Int}
    (h : Nearest bits least (n * 2 ^ e) m d) (hn : n < 2 ^ bits) (he : least ≤ e) :
    (m : ℚ) * 2 ^ d = n * 2 ^ e := by
  have herror := h.error
  have hunit : (0 : ℚ) < 2 ^ d := by positivity
  have hhalf : (2 : ℚ) ^ (d - 1) = 2 ^ d / 2 := by rw [zpow_sub₀ two_ne_zero, zpow_one]
  obtain hle | hgt := le_or_gt d e
  · -- Both are on the grid of the mantissa, and less than a unit apart.
    obtain ⟨k, rfl⟩ := Int.le.dest hle
    have hgrid : (n : ℚ) * 2 ^ (d + k) = (n * 2 ^ k : ℕ) * 2 ^ d := by
      rw [zpow_add₀ two_ne_zero, zpow_natCast]
      push_cast
      ring
    rw [hgrid] at herror ⊢
    rw [← sub_mul, abs_mul, abs_of_pos hunit, hhalf] at herror
    have hclose : |(m : ℚ) - (n * 2 ^ k : ℕ)| < 1 := by
      by_contra hfar
      nlinarith [not_lt.1 hfar]
    have hsame : (m : Int) = (n * 2 ^ k : ℕ) := by
      have : |(m : Int) - (n * 2 ^ k : ℕ)| < 1 := by exact_mod_cast hclose
      exact sub_eq_zero.1 (Int.abs_lt_one_iff.1 this)
    have hnat : m = n * 2 ^ k := by exact_mod_cast hsame
    rw [hnat]
  · exfalso
    have hnQ : (n : ℚ) ≤ 2 ^ bits - 1 := by
      have : n + 1 ≤ 2 ^ bits := hn
      linarith [show ((n : ℚ) + 1 ≤ 2 ^ bits) by exact_mod_cast this]
    have hgrid : (2 : ℚ) ^ e ≤ 2 ^ (d - 1) := zpow_le_zpow_right₀ one_le_two (by omega)
    have hpos : (0 : ℚ) < 2 ^ (d - 1) := by positivity
    obtain rfl | ⟨-, hlarge⟩ := h.normal
    · omega
    · have hsmall : (n : ℚ) * 2 ^ e ≤ (2 ^ bits - 1) * 2 ^ (d - 1) :=
        mul_le_mul hnQ hgrid (by positivity) (by linarith [show (0 : ℚ) ≤ n from Nat.cast_nonneg n])
      linarith

/-- The mantissa and the exponent that are computed are those of a nearest number. -/
theorem nearest_nearestParts {bits : Nat} (hbits : 0 < bits) (least : Int) {num den : Nat}
    (hnum : 0 < num) (hden : 0 < den) :
    Nearest bits least (num / den) (nearestParts bits least num den).1
      (nearestParts bits least num den).2 := by
  obtain ⟨hleast, hsmall, hlarge⟩ := fittingExponent_spec hbits least hnum hden
  set e := fittingExponent bits least num den with he
  obtain ⟨hpos, hscaled⟩ := scaled_eq num hden e
  set m := divNearest (scaled num den e).1 (scaled num den e).2 with hm
  have hparts : nearestParts bits least num den =
      if m = twoPow bits then (twoPow (bits - 1), e + 1) else (m, e) := rfl
  have hnearest := abs_divNearest_sub_le (scaled num den e).1 hpos
  rw [hscaled, ← hm] at hnearest
  set q : ℚ := num / den with hq
  have hunit : (0 : ℚ) < 2 ^ e := by positivity
  have hhalf : (2 : ℚ) ^ (e - 1) = 2 ^ e / 2 := by rw [zpow_sub₀ two_ne_zero, zpow_one]
  have hdouble : (2 : ℚ) ^ bits = 2 * 2 ^ (bits - 1) := by
    rw [← pow_succ', Nat.sub_add_cancel hbits]
  -- In units, the number is off by at most a half.
  have herror : |(m : ℚ) * 2 ^ e - q| ≤ 2 ^ (e - 1) := by
    have hfactor : (m : ℚ) * 2 ^ e - q = (m - q / 2 ^ e) * 2 ^ e := by
      field_simp
    rw [hfactor, abs_mul, abs_of_pos hunit, hhalf]
    calc |(m : ℚ) - q / 2 ^ e| * 2 ^ e ≤ 1 / 2 * 2 ^ e := by gcongr
      _ = 2 ^ e / 2 := by ring
  obtain ⟨hbelow, habove⟩ := abs_le.1 hnearest
  have hle : m ≤ 2 ^ bits := by
    have : (m : ℚ) < 2 ^ bits + 1 := by linarith
    exact Nat.lt_succ_iff.1 (by exact_mod_cast this)
  rw [hparts]
  -- A carry makes the mantissa a power of two, which is halved for the next exponent.
  split_ifs with hcarry
  · have hmQ : (m : ℚ) = 2 ^ bits := by rw [hcarry, cast_twoPow]
    refine ⟨by omega, Nat.pow_lt_pow_right one_lt_two (by omega), ?_, .inr ⟨le_rfl, ?_⟩⟩
    · have hsame : ((twoPow (bits - 1) : ℕ) : ℚ) * 2 ^ (e + 1) = m * 2 ^ e := by
        rw [cast_twoPow, hmQ, hdouble, zpow_add₀ two_ne_zero, zpow_one]
        ring
      rw [hsame, add_sub_cancel_right]
      refine herror.trans ?_
      rw [hhalf]
      linarith
    · rw [add_sub_cancel_right, ← hmQ, ← le_div_iff₀ hunit]
      linarith
  · refine ⟨hleast, lt_of_le_of_ne hle hcarry, herror, hlarge.imp_right fun hlarge => ⟨?_, ?_⟩⟩
    · have : (2 : ℚ) ^ (bits - 1) < m + 1 := by linarith
      exact Nat.lt_succ_iff.1 (by exact_mod_cast this)
    · rw [hhalf, hdouble]
      rw [le_div_iff₀ hunit] at hlarge
      nlinarith [hunit]

/-- The magnitude as a rational number. -/
def size (x : Binary64) : ℚ := x.mantissa * 2 ^ x.exponent

/-- Half a unit past the greatest double: what is less is rounded to a double. -/
def overflow : ℚ := (2 ^ 53 - 1 / 2) * 2 ^ (971 : Int)

/-- The relative error of a number that is rounded and not small. -/
def precision : ℚ := 1 / (2 ^ 53 - 1 / 2)

/-- The bound of the doubles is a natural number. -/
theorem overflow_eq : overflow = (((2 ^ 54 - 1) * 2 ^ 970 : ℕ) : ℚ) := by
  have hpower : (2 : ℚ) ^ (971 : Int) = 2 * 2 ^ 970 := by
    rw [← pow_succ']
    exact zpow_natCast 2 971
  rw [overflow, hpower, Nat.cast_mul, Nat.cast_pow, Nat.cast_two]
  generalize (2 : ℚ) ^ 970 = power
  norm_num
  ring

/-- The least double is small in comparison with the relative error. -/
theorem least_le_precision : (2 : ℚ) ^ (-1075 : Int) ≤ precision :=
  calc (2 : ℚ) ^ (-1075 : Int) ≤ 2 ^ (-53 : Int) := zpow_le_zpow_right₀ one_le_two (by norm_num)
    _ ≤ precision := by norm_num [precision]

/-- The relative error is at most one. -/
theorem precision_le_one : precision ≤ 1 := by norm_num [precision]

/-- No magnitude is negative. -/
theorem size_nonneg (x : Binary64) : 0 ≤ x.size := by
  unfold size
  positivity

/-- What is below the end of the doubles is rounded to a nearest one. -/
theorem nearest_round? (negative : Bool) {num den : Nat} (hden : 0 < den)
    (h : (num : ℚ) / den < overflow) :
    ∃ x, round? negative num den = some x ∧ x.negative = negative ∧
      Nearest 53 (-1074) (num / den) x.mantissa x.exponent := by
  obtain rfl | hnum := Nat.eq_zero_or_pos num
  · refine ⟨zero negative, rfl, rfl, le_rfl, by norm_num [zero], ?_, .inl rfl⟩
    norm_num [zero]
  have hnearest : Nearest 53 (-1074) (num / den) _ _ :=
    nearest_nearestParts (by norm_num) (-1074) hnum hden
  have hround : round? negative num den = ofParts? negative (nearestParts 53 (-1074) num den).1
      (nearestParts 53 (-1074) num den).2 := by
    rw [round?, if_neg hnum.ne']
  generalize (nearestParts 53 (-1074) num den).1 = m,
    (nearestParts 53 (-1074) num den).2 = e at *
  have hfits : Fits m e := by
    refine ⟨hnearest.lt, hnearest.least_le, ?_, hnearest.normal.symm.imp_left And.left⟩
    by_contra hlarge
    obtain rfl | ⟨-, hq⟩ := hnearest.normal
    · omega
    · have hpower : (2 : ℚ) ^ (971 : Int) ≤ 2 ^ (e - 1) :=
        zpow_le_zpow_right₀ one_le_two (by omega)
      unfold overflow at h
      nlinarith
  exact ⟨⟨negative, m, e, hfits⟩, by rw [hround, ofParts?, dif_pos hfits], rfl, hnearest⟩

/-- A number below the end of the doubles is rounded to a double, which is at most twice as large,
and one more, and which is close to a number that is not small. -/
theorem exists_round? (negative : Bool) {num den : Nat} (hden : 0 < den)
    (h : (num : ℚ) / den < overflow) :
    ∃ x, round? negative num den = some x ∧ x.size ≤ 2 * (num / den) + 1 ∧
      (1 ≤ (num : ℚ) / den → |x.size - num / den| ≤ precision * (num / den)) := by
  obtain ⟨x, hround, -, -, -, herror, hnormal⟩ := nearest_round? negative hden h
  have hpos : (0 : ℚ) ≤ num / den := by positivity
  have hsize : x.size = x.mantissa * 2 ^ x.exponent := rfl
  rw [← hsize] at herror
  generalize (num : ℚ) / den = q at *
  -- Half a unit is little, or little beside the number.
  have hunit : 2 ^ (x.exponent - 1) ≤ max ((2 : ℚ) ^ (-1075 : Int)) (precision * q) := by
    obtain hleast | ⟨-, hq⟩ := hnormal
    · rw [hleast]
      exact le_max_left _ _
    · refine le_max_of_le_right ?_
      rw [precision, one_div, inv_mul_eq_div, le_div_iff₀ (by norm_num), mul_comm]
      exact hq
  have hle := abs_le.1 herror
  refine ⟨x, hround, ?_, fun hq => ?_⟩
  · have hsmall : max ((2 : ℚ) ^ (-1075 : Int)) (precision * q) ≤ q + 1 := by
      refine max_le ?_ ?_
      · linarith [least_le_precision, precision_le_one]
      · nlinarith [precision_le_one]
    linarith [hle.2]
  · refine herror.trans (hunit.trans (max_le ?_ le_rfl))
    nlinarith [least_le_precision, zpow_pos (two_pos : (0 : ℚ) < 2) (-1075)]

/-! ## Products and quotients -/

/-- The quotient that stands for the magnitude of a double has its value. -/
theorem magnitude_eq (x : Binary64) :
    0 < x.magnitude.2 ∧ (x.magnitude.1 : ℚ) / x.magnitude.2 = x.size := by
  refine ⟨twoPow_pos _, ?_⟩
  simp only [magnitude, size, Nat.cast_mul, cast_twoPow, toNat_pow_eq two_ne_zero x.exponent]
  field_simp

/-- Two doubles have a product if it is below the end of the doubles. -/
theorem exists_mul? {x y : Binary64} (h : x.size * y.size < overflow) :
    ∃ z, x.mul? y = some z := by
  obtain ⟨hx, hxsize⟩ := x.magnitude_eq
  obtain ⟨hy, hysize⟩ := y.magnitude_eq
  rw [← hxsize, ← hysize, div_mul_div_comm, ← Nat.cast_mul, ← Nat.cast_mul] at h
  obtain ⟨z, hz, -⟩ := exists_round? (x.negative != y.negative) (Nat.mul_pos hx hy) h
  exact ⟨z, hz⟩

/-- Two doubles have a quotient if it is below the end of the doubles; rounding makes it at most
twice as large, and one more. -/
theorem exists_div? {x y : Binary64} (hy : 0 < y.size) (h : x.size / y.size < overflow) :
    ∃ z, x.div? y = some z ∧ z.size ≤ 2 * (x.size / y.size) + 1 := by
  obtain ⟨hxden, hxsize⟩ := x.magnitude_eq
  obtain ⟨hyden, hysize⟩ := y.magnitude_eq
  have hynum : 0 < y.magnitude.1 := by
    refine Nat.pos_of_ne_zero fun hzero => ?_
    rw [← hysize, hzero, Nat.cast_zero, zero_div] at hy
    exact lt_irrefl _ hy
  rw [← hxsize, ← hysize, div_div_div_eq, ← Nat.cast_mul, ← Nat.cast_mul] at h ⊢
  obtain ⟨z, hz, hsize, -⟩ :=
    exists_round? (x.negative != y.negative) (Nat.mul_pos hxden hynum) h
  refine ⟨z, ?_, hsize⟩
  unfold div?
  exact (if_neg hynum.ne').trans hz

/-! ## Powers of ten -/

/-- The double of a power of ten is as close to it as doubles are. -/
theorem abs_size_powerOfTen_sub_le {k : Nat} (hk : k ≤ 308) :
    |(powerOfTen k).size - 10 ^ k| ≤ precision * 10 ^ k := by
  have hpower : ((tenPow k : ℕ) : ℚ) / (1 : ℕ) = 10 ^ k := by
    rw [cast_tenPow, Nat.cast_one, div_one]
  have hbelow : ((tenPow k : ℕ) : ℚ) / (1 : ℕ) < overflow := by
    rw [hpower]
    calc (10 : ℚ) ^ k ≤ 10 ^ 308 := pow_le_pow_right₀ (by norm_num) hk
      _ < overflow := by
          rw [overflow_eq]
          exact_mod_cast (by decide +kernel : 10 ^ 308 < (2 ^ 54 - 1) * 2 ^ 970)
  obtain ⟨x, hx, -, hsize⟩ := exists_round? false Nat.one_pos hbelow
  rw [hpower] at hsize
  rw [powerOfTen, hx]
  exact hsize (one_le_pow₀ (by norm_num))

/-- The double of a power of ten is at least half of it. -/
theorem half_le_size_powerOfTen {k : Nat} (hk : k ≤ 308) :
    10 ^ k / 2 ≤ (powerOfTen k).size := by
  have hprecision : precision ≤ 1 / 2 := by norm_num [precision]
  have hpos : (0 : ℚ) < 10 ^ k := by positivity
  have := (abs_le.1 (abs_size_powerOfTen_sub_le hk)).1
  nlinarith

/-! ## Decimals in steps -/

/-- To divide by a power of ten makes a number at most twice as large. -/
theorem exists_div?_powerOfTen {x : Binary64} (hx : x.size ≤ 2 ^ 70) {k : Nat} (hk : k ≤ 308) :
    ∃ y, x.div? (powerOfTen k) = some y ∧ y.size ≤ 4 * x.size / 10 ^ k + 1 := by
  have hpower := half_le_size_powerOfTen hk
  have hone : (1 : ℚ) ≤ 10 ^ k := one_le_pow₀ (by norm_num)
  have hpos : 0 < (powerOfTen k).size := by linarith
  have hquotient : x.size / (powerOfTen k).size ≤ 2 * x.size / 10 ^ k := by
    rw [div_le_div_iff₀ hpos (by linarith)]
    nlinarith [x.size_nonneg]
  have hbelow : x.size / (powerOfTen k).size < overflow := by
    refine hquotient.trans_lt ((div_le_self (by linarith [x.size_nonneg]) hone).trans_lt ?_)
    have hoverflow : (2 : ℚ) ^ 71 < overflow := by
      rw [overflow_eq]
      exact_mod_cast (by decide +kernel : 2 ^ 71 < (2 ^ 54 - 1) * 2 ^ 970)
    linarith
  obtain ⟨y, hy, hsize⟩ := exists_div? hpos hbelow
  refine ⟨y, hy, hsize.trans ?_⟩
  rw [mul_div_assoc] at hquotient ⊢
  linarith

/-- A number of moderate size is scaled down. -/
theorem exists_applyExponent_of_neg (fuel : Nat) {x : Binary64} {e : Int} (he : e < 0)
    (hx : x.size ≤ 2 ^ 70) : ∃ y, applyExponent fuel x e = some y := by
  induction fuel generalizing x e with
  | zero =>
    unfold applyExponent
    split_ifs with hsmall hsign hzero
    · omega
    · obtain ⟨y, hy, -⟩ := exists_div?_powerOfTen hx hsmall
      exact ⟨y, hy⟩
    · exact ⟨x, rfl⟩
    · omega
    · exact ⟨_, rfl⟩
  | succ fuel ih =>
    unfold applyExponent
    split_ifs with hsmall hsign hzero
    · omega
    · obtain ⟨y, hy, -⟩ := exists_div?_powerOfTen hx hsmall
      exact ⟨y, hy⟩
    · exact ⟨x, rfl⟩
    · omega
    · obtain ⟨y, hy, hsize⟩ := exists_div?_powerOfTen hx le_rfl
      dsimp only
      rw [hy]
      refine ih (by omega) ?_
      -- The bound of the induction survives: the quotient by so great a power is far below it.
      have hten : 4 * x.size / 10 ^ 308 ≤ 4 * x.size / 10 :=
        div_le_div_of_nonneg_left (by linarith [x.size_nonneg]) (by norm_num)
          (le_self_pow₀ (by norm_num) (by norm_num))
      calc y.size ≤ 4 * x.size / 10 ^ 308 + 1 := hsize
        _ ≤ 4 * x.size / 10 + 1 := add_le_add_left hten 1
        _ ≤ 2 ^ 70 := by linarith

/-- Three units and a half below the end of the doubles: what is less does not get past their end
in two roundings. -/
def readable : ℚ := (2 ^ 53 - 7 / 2) * 2 ^ (971 : Int)

/-- What is readable stays below the end of the doubles when it is rounded twice. -/
theorem readable_mul_lt : readable * (1 + precision) ^ 2 < overflow := by
  have hunit : (0 : ℚ) < 2 ^ (971 : Int) := by positivity
  have hfactor : (2 ^ 53 - 7 / 2 : ℚ) * (1 + precision) ^ 2 < 2 ^ 53 - 1 / 2 := by
    norm_num [precision]
  calc readable * (1 + precision) ^ 2
      = (2 ^ 53 - 7 / 2) * (1 + precision) ^ 2 * 2 ^ (971 : Int) := mul_right_comm _ _ _
    _ < overflow := mul_lt_mul_of_pos_right hfactor hunit

/-- What is readable is less than `10 ^ 309`. -/
theorem readable_lt : readable < 10 ^ 309 := by
  have hoverflow : readable ≤ overflow :=
    mul_le_mul_of_nonneg_right (by norm_num) (by positivity)
  refine hoverflow.trans_lt ?_
  rw [overflow_eq]
  exact_mod_cast (by decide +kernel : (2 ^ 54 - 1) * 2 ^ 970 < 10 ^ 309)

/-- A number that is scaled up stays below the end of the doubles. -/
theorem exists_applyExponent_of_nonneg (fuel : Nat) {x : Binary64} {digits k : Nat}
    (hdigits : 0 < digits) (hx : |x.size - digits| ≤ precision * digits)
    (h : (digits : ℚ) * 10 ^ k ≤ readable) : ∃ y, applyExponent fuel x k = some y := by
  have hone : (1 : ℚ) ≤ digits := by exact_mod_cast hdigits
  have hk : k ≤ 308 := by
    by_contra hlarge
    have hpower : (10 : ℚ) ^ 309 ≤ 10 ^ k := pow_le_pow_right₀ (by norm_num) (by omega)
    have hmore : (10 : ℚ) ^ k ≤ digits * 10 ^ k := le_mul_of_one_le_left (by positivity) hone
    exact absurd readable_lt (not_lt.2 (hpower.trans (hmore.trans h)))
  have hpower := abs_le.1 (abs_size_powerOfTen_sub_le hk)
  have hpos : (0 : ℚ) < 10 ^ k := by positivity
  have hproduct : x.size * (powerOfTen k).size < overflow := by
    have hprecision : 0 ≤ precision := by norm_num [precision]
    calc x.size * (powerOfTen k).size
        ≤ (digits * (1 + precision)) * (10 ^ k * (1 + precision)) := by
          refine mul_le_mul ?_ ?_ (size_nonneg _) (by positivity)
          · linarith [(abs_le.1 hx).2]
          · linarith
      _ = digits * 10 ^ k * (1 + precision) ^ 2 := by ring
      _ ≤ readable * (1 + precision) ^ 2 := by gcongr
      _ < overflow := readable_mul_lt
  obtain ⟨y, hy⟩ := exists_mul? hproduct
  refine ⟨y, ?_⟩
  unfold applyExponent
  rw [if_pos (by simpa using hk), if_pos (Int.natCast_nonneg k)]
  exact hy

/-- Zero is scaled by any power of ten. -/
theorem applyExponent_zero (fuel k : Nat) : ∃ y, applyExponent fuel (zero false) k = some y := by
  unfold applyExponent
  split_ifs with hsmall hsign hzero
  · refine exists_mul? ?_
    have : (zero false).size = 0 := by norm_num [size, zero]
    rw [this, zero_mul, overflow_eq]
    exact_mod_cast (by decide +kernel : 0 < (2 ^ 54 - 1) * 2 ^ 970)
  · exact absurd (Int.natCast_nonneg k) hsign
  · exact ⟨_, rfl⟩
  all_goals exact absurd rfl hzero

/-- Decimals that are not too large are read. -/
theorem exists_steppedDecimal (negative : Bool) {digits : Nat} {e : Int} (hdigits : digits < 2 ^ 64)
    (h : (digits : ℚ) * 10 ^ e ≤ readable) : ∃ y, steppedDecimal negative digits e = some y := by
  have hbound : (digits : ℚ) < 2 ^ 64 := by exact_mod_cast hdigits
  have hquotient : (digits : ℚ) / (1 : ℕ) = digits := by rw [Nat.cast_one, div_one]
  have hbelow : (digits : ℚ) / (1 : ℕ) < overflow := by
    rw [hquotient, overflow_eq]
    exact_mod_cast hdigits.trans (by decide +kernel)
  obtain ⟨x, hx, hsize, hclose⟩ := exists_round? false Nat.one_pos hbelow
  rw [hquotient] at hsize hclose
  suffices hscaled : ∃ y, applyExponent 4 x e = some y by
    obtain ⟨y, hy⟩ := hscaled
    exact ⟨_, by rw [steppedDecimal, hx, Option.bind_some, hy, Option.map_some]⟩
  obtain hneg | hnonneg := lt_or_ge e 0
  · exact exists_applyExponent_of_neg 4 hneg (by linarith)
  obtain ⟨k, rfl⟩ := Int.eq_ofNat_of_zero_le hnonneg
  obtain rfl | hpos := Nat.eq_zero_or_pos digits
  · obtain rfl : zero false = x := Option.some.inj hx
    exact applyExponent_zero 4 k
  · rw [zpow_natCast] at h
    exact exists_applyExponent_of_nonneg 4 hpos (hclose (by exact_mod_cast hpos)) h

end Binary64

end AgentFlow
