import AgentFlow.Condition.Basic
import AgentFlow.Proofs.Equivalence
import AgentFlow.Proofs.Grammar

/-!
# Comparing whole numbers

How the conditions that compare a number `a` with a number `b` come out. `<`, `<=`, `>=` and `>`
compare the nearest doubles, `==` and `!=` the numbers themselves if these are whole numbers of 64
signed bits. So all six say of two whole numbers what is so as long as doubles tell the two apart,
as they do if one is less than `2 ^ 53`. Otherwise neither of two different numbers is less, and
they need not be equal either (`Condition.integerComparisons`).
-/

namespace AgentFlow

/-! ## The order of whole numbers -/

/-- Of two whole numbers of which one is less than `2 ^ 53`, the greater is taken for a greater
double. -/
theorem Binary64.units_ofInt_lt {m n : Int} (hm : m.natAbs < 2 ^ 64) (hn : n.natAbs < 2 ^ 64)
    (h : m < n) (hsmall : m.natAbs < 2 ^ 53 ∨ n.natAbs < 2 ^ 53) :
    (ofInt m).units < (ofInt n).units := by
  have hstep : ∀ k : Int, k.natAbs ≤ 2 ^ 53 → (k + 1).natAbs ≤ 2 ^ 53 →
      (ofInt k).units < (ofInt (k + 1)).units := by
    intro k hk hnext
    rw [units_ofInt_of_le hk, units_ofInt_of_le hnext]
    have hscale : (0 : Int) < twoPow 1074 := by exact_mod_cast twoPow_pos 1074
    exact mul_lt_mul_of_pos_right (lt_add_one k) hscale
  obtain hsmall | hsmall := hsmall
  · exact (hstep m (by omega) (by omega)).trans_le (units_ofInt_le (by omega) hn h)
  · have hlast := hstep (n - 1) (by omega) (by omega)
    rw [sub_add_cancel] at hlast
    exact (units_ofInt_le hm (by omega) (by omega)).trans_lt hlast

namespace Number

/-- Numbers that are the same double are ordered as equal. -/
theorem order_eq_of_sameDouble {a b : Number} (h : a.SameDouble b) : a.order b = .eq :=
  Binary64.order_eq_eq_iff.2 (decide_eq_true h)

/-- Whole numbers that doubles tell apart are ordered as they are. -/
theorem order_int_eq_lt {m n : Int} (hm : (int m).IsWord) (hn : (int n).IsWord)
    (hapart : ¬ (int m).SameDouble (int n)) (h : m < n) :
    (int m).order (int n) = .lt ∧ (int n).order (int m) = .gt := by
  have hunits : (Binary64.ofInt m).units < (Binary64.ofInt n).units :=
    (Binary64.units_ofInt_le hm.natAbs_lt hn.natAbs_lt h.le).lt_of_ne hapart
  exact ⟨Binary64.order_eq_lt_iff.2 hunits, compare_gt_iff_gt.2 hunits⟩

/-- Doubles tell a whole number that is less than `2 ^ 53` from all others. -/
theorem not_sameDouble_of_lt {m n : Int} (hm : (int m).IsWord) (hn : (int n).IsWord) (hne : m ≠ n)
    (hsmall : m.natAbs < 2 ^ 53 ∨ n.natAbs < 2 ^ 53) : ¬ (int m).SameDouble (int n) := by
  obtain h | h := hne.lt_or_gt
  · exact (Binary64.units_ofInt_lt hm.natAbs_lt hn.natAbs_lt h hsmall).ne
  · exact (Binary64.units_ofInt_lt hn.natAbs_lt hm.natAbs_lt h hsmall.symm).ne'

/-- Whole numbers that doubles tell apart are not equivalent. -/
theorem equivalent_int_eq_false {m n : Int} (hapart : ¬ (int m).SameDouble (int n)) :
    (int m).equivalent (int n) = false := by
  rw [Bool.eq_false_iff]
  exact fun h => hapart (sameDouble_of_equivalent h)

end Number

namespace Condition

/-! ## Conditions -/

/-- Whether the condition of a text holds. -/
def truth (vars : Lookup) (text : String) : Except Error Bool := do
  let condition ← ofText text
  condition.evaluate vars

variable {vars : Lookup}

/-- The expression that compares `a` with `b`. -/
def comparing (op : Comparison) : Expr := .compare op (.path "a" []) (.path "b" [])

/-- The two names with the signs of a comparison in between spell the comparison. -/
theorem parseText_comparing {text : String} {signs : List Token} {op : Comparison}
    (sign : SpellsComparison signs op)
    (h : tokens text.toList = .ok (.ident "a" :: (signs ++ [.ident "b"]))) :
    parseText text = .ok (comparing op) := by
  rw [parseText_of_tokens h]
  cases sign <;> rfl

/-- A comparison of two variables has the truth of the comparison of their values. -/
theorem truth_of_compareValues {text : String} {op : Comparison} {a b : Value} {holds : Bool}
    (htext : parseText text = .ok (comparing op)) (ha : vars "a" = some a) (hb : vars "b" = some b)
    (h : compareValues op a b = .ok holds) : truth vars text = .ok holds := by
  have heval : eval vars (comparing op) = .ok (.bool holds) := by
    simp only [comparing, eval, ha, hb, follow, bind, Except.bind, h]
    rfl
  have hcondition : ofText text = .ok ⟨text, comparing op⟩ := by rw [ofText, htext]
  simp only [truth, hcondition, bind, Except.bind, evaluate, heval, Value.truthy]

/-- How the conditions come out that compare `a` with `b`. -/
structure ComesOut (vars : Lookup) (less atMost equal atLeast greater : Bool) : Prop where
  lt : truth vars "a < b" = .ok less
  le : truth vars "a <= b" = .ok atMost
  eq : truth vars "a == b" = .ok equal
  ne : truth vars "a != b" = .ok !equal
  ge : truth vars "a >= b" = .ok atLeast
  gt : truth vars "a > b" = .ok greater

/-- How the six comparisons of two numbers come out follows from their order, except for equality,
which is decided on its own. -/
theorem comesOut_of_order {x y : Number} {order : Ordering} (ha : vars "a" = some (.number x))
    (hb : vars "b" = some (.number y)) (horder : x.order y = order) :
    ComesOut vars (order == .lt) (order != .gt) (x.equivalent y) (order != .lt)
      (order == .gt) := by
  subst horder
  have hlt : parseText "a < b" = .ok (comparing .lt) := parseText_comparing .lt (by decide)
  have hle : parseText "a <= b" = .ok (comparing .le) := parseText_comparing .le (by decide)
  have heq : parseText "a == b" = .ok (comparing .eq) := parseText_comparing .eq (by decide)
  have hne : parseText "a != b" = .ok (comparing .ne) := parseText_comparing .ne (by decide)
  have hge : parseText "a >= b" = .ok (comparing .ge) := parseText_comparing .ge (by decide)
  have hgt : parseText "a > b" = .ok (comparing .gt) := parseText_comparing .gt (by decide)
  exact {
    lt := truth_of_compareValues hlt ha hb rfl
    le := truth_of_compareValues hle ha hb rfl
    eq := truth_of_compareValues heq ha hb (by rw [compareValues, Value.equivalent])
    ne := truth_of_compareValues hne ha hb (by rw [compareValues, Value.equivalent])
    ge := truth_of_compareValues hge ha hb rfl
    gt := truth_of_compareValues hgt ha hb rfl }

/-- How two whole numbers compare. -/
structure IntegerComparisons (vars : Lookup) (m n : Int) : Prop where
  /-- Of numbers that doubles tell apart all conditions say what is so. -/
  apart : m = n ∨ ¬ (Number.int m).SameDouble (.int n) →
    ComesOut vars (m < n) (m ≤ n) (m = n) (m ≥ n) (m > n)
  /-- Of others neither is said to be less, and they are said to be equal unless both have 64 signed
  bits. -/
  blurred : m ≠ n → (Number.int m).SameDouble (.int n) →
    ComesOut vars false true (¬ (inInt64 m = true ∧ inInt64 n = true)) true false
  /-- Doubles tell a number that is less than `2 ^ 53` from all others. -/
  small : m ≠ n → m.natAbs < 2 ^ 53 ∨ n.natAbs < 2 ^ 53 → ¬ (Number.int m).SameDouble (.int n)

/-- Whole numbers compare as their doubles, but for two of 64 signed bits, which are equal only if
they are one. -/
theorem integerComparisons {m n : Int} (hm : (Number.int m).IsWord) (hn : (Number.int n).IsWord)
    (ha : vars "a" = some (.int m)) (hb : vars "b" = some (.int n)) :
    IntegerComparisons vars m n where
  apart h := by
    -- The order of the two decides all conditions but `==` and `!=`, which agree with it.
    obtain hlt | rfl | hgt := lt_trichotomy m n
    · have hapart := h.resolve_left hlt.ne
      have hout := comesOut_of_order ha hb (Number.order_int_eq_lt hm hn hapart hlt).1
      rw [Number.equivalent_int_eq_false hapart] at hout
      simpa [hlt, hlt.le, hlt.ne, hlt.not_ge, hlt.not_gt, bne] using hout
    · have hout := comesOut_of_order ha hb (Number.order_eq_of_sameDouble rfl)
      rw [Number.SameValue.equivalent hm hn rfl] at hout
      simpa [bne] using hout
    · have hapart := h.resolve_left hgt.ne'
      have hout := comesOut_of_order ha hb
        (Number.order_int_eq_lt hn hm (fun h => hapart h.symm) hgt).2
      rw [Number.equivalent_int_eq_false hapart] at hout
      simpa [hgt, hgt.le, hgt.ne', hgt.not_ge, hgt.not_gt, bne] using hout
  blurred hne hsame := by
    have hout := comesOut_of_order ha hb (Number.order_eq_of_sameDouble hsame)
    have hequal : (Number.int m).equivalent (.int n) =
        decide (¬ (inInt64 m = true ∧ inInt64 n = true)) := by
      rw [Bool.eq_iff_iff, Number.equivalent_iff, decide_eq_true_iff]
      simp [Number.IsSigned, hne, hsame]
    rw [hequal] at hout
    exact hout
  small := Number.not_sameDouble_of_lt hm hn

end Condition

/-! ## Samples -/

namespace Sample.Comparing

open Condition

/-- A state with two whole numbers. -/
def numbered (m n : Int) : Lookup :=
  fun name => [("a", Value.int m), ("b", Value.int n)].lookup name

/-- The greatest whole number is told apart from a small one. -/
theorem comparisons_mixed :
    (Number.int 18446744073709551615).IsWord ∧ (Number.int (-1)).IsWord ∧
    IntegerComparisons (numbered 18446744073709551615 (-1)) 18446744073709551615 (-1) ∧
    truth (numbered 18446744073709551615 (-1)) "a > b" = .ok true := by
  have hgreatest : (Number.int 18446744073709551615).IsWord := by constructor <;> decide +kernel
  have hsmall : (Number.int (-1)).IsWord := by constructor <;> decide +kernel
  have h : IntegerComparisons (numbered 18446744073709551615 (-1)) 18446744073709551615 (-1) :=
    integerComparisons hgreatest hsmall rfl rfl
  have hapart := h.small (by decide) (by decide)
  exact ⟨hgreatest, hsmall, h, (h.apart (.inr hapart)).gt⟩

/-- A whole number is neither less than the next one nor equal to it nor greater, and yet at most
and at least that. -/
theorem neither_less_nor_equal : (9007199254740992 : Int) < 9007199254740993 ∧
    ComesOut (numbered 9007199254740992 9007199254740993) false true false true false := by
  have horder : (Number.int 9007199254740992).order (.int 9007199254740993) = .eq := by
    decide +kernel
  have hequal : (Number.int 9007199254740992).equivalent (.int 9007199254740993) = false := by
    decide +kernel
  have hout : ComesOut (numbered 9007199254740992 9007199254740993) _ _ _ _ _ :=
    comesOut_of_order rfl rfl horder
  rw [hequal] at hout
  exact ⟨by decide, hout⟩

end Sample.Comparing

end AgentFlow
