import AgentFlow.Json.Printer
import AgentFlow.Json.Reader
import AgentFlow.Proofs.Rounding

/-!
# Numerals in documents

A number is written as a numeral (`Json.Numeral`), a whole part, perhaps decimals and an exponent,
and a numeral is read up to where it ends (`Json.number_text`). A whole number is read as itself. A
double is written with the shortest digits that belong to it, and is read in steps, so that what is
read can miss it by a unit or two in the last place: `Binary64.reread` is what it is read as. It is
always read, since its digits stay within half a unit of it (`Binary64.shortest_le`) and so below
what can be read; only of the three greatest doubles that has to be looked at.
-/

namespace AgentFlow

/-! ## Digits -/

/-- Digits have the value that they have as digits to the base ten. -/
theorem digitsValue_eq (ds : List Char) : digitsValue ds = Nat.ofDigitChars 10 ds 0 := by
  rw [Nat.ofDigitChars_eq_foldl]
  refine congrArg (fun f => ds.foldl f 0) (funext fun n => funext fun c => ?_)
  rw [Nat.mul_comm]
  rfl

/-- Digits in front count with as many powers of ten as there are digits behind them. -/
theorem digitsValue_append (ds more : List Char) :
    digitsValue (ds ++ more) = digitsValue ds * 10 ^ more.length + digitsValue more := by
  simp only [digitsValue_eq]
  rw [Nat.ofDigitChars_append, Nat.ofDigitChars_eq_ofDigitChars_zero, Nat.mul_comm]

/-- Zeros have the value zero. -/
theorem digitsValue_zeros (n : Nat) : digitsValue (List.replicate n '0') = 0 := by
  rw [digitsValue_eq, Nat.ofDigitChars_replicate_zero, Nat.mul_zero]

/-- The decimal digits of a number have its value. -/
theorem digitsValue_decimalDigits (n : Nat) : digitsValue (decimalDigits n) = n := by
  rw [digitsValue_eq]
  exact Nat.ofDigitChars_ten_toDigits

/-- The decimal digits of a number are digits. -/
theorem isDigit_of_mem_decimalDigits {n : Nat} {c : Char} (h : c ∈ decimalDigits n) :
    c.isDigit = true :=
  Nat.isDigit_of_mem_toDigits (by norm_num) (by norm_num) h

/-- Every number has a digit. -/
theorem decimalDigits_ne_nil (n : Nat) : decimalDigits n ≠ [] := Nat.toDigits_ne_nil

/-- A number that is not zero has a first digit that is not. -/
theorem eq_zero_of_head?_decimalDigits {n : Nat} (h : (decimalDigits n).head? = some '0') :
    n = 0 := by
  induction n using Nat.strong_induction_on with
  | _ n ih =>
    obtain hsmall | hlarge := lt_or_ge n 10
    · rw [decimalDigits, Nat.toDigits_of_lt_base hsmall] at h
      exact Nat.digitChar_eq_zero.1 (Option.some.inj h)
    · rw [decimalDigits, Nat.toDigits_of_base_le (by norm_num) hlarge,
        List.head?_append_of_ne_nil _ Nat.toDigits_ne_nil] at h
      have := ih (n / 10) (by omega) h
      omega

/-- Digits have less than the power of ten with their number as exponent. -/
theorem digitsValue_lt {ds : List Char} (h : ∀ c ∈ ds, c.isDigit = true) :
    digitsValue ds < 10 ^ ds.length := by
  induction ds using List.reverseRecOn with
  | nil => exact Nat.one_pos
  | append_singleton ds c ih =>
    have hds := ih fun d hd => h d (List.mem_append_left _ hd)
    have hc : digitsValue [c] < 10 := by
      have hdigit := h c (List.mem_append_right _ (List.mem_singleton_self c))
      simp only [Char.isDigit, Bool.and_eq_true, decide_eq_true_eq] at hdigit
      have hhigh : c.toNat ≤ 57 := hdigit.2
      show 0 * 10 + (c.toNat - 48) < 10
      omega
    rw [digitsValue_append, List.length_append, List.length_singleton, pow_succ]
    omega

/-- The first digit counts with as many powers of ten as there are digits behind it. -/
theorem digitsValue_cons (c : Char) (ds : List Char) :
    digitsValue (c :: ds) = digitValue c * 10 ^ ds.length + digitsValue ds := by
  rw [← List.singleton_append, digitsValue_append]
  congr 2
  exact Nat.zero_add _

/-- What is used of some digits is worth what it says. -/
theorem leadingValue_eq {start : Nat} (h : start < twoPow 64) (ds : List Char) :
    ∃ used, ds = used ++ (leadingValue start ds).2 ∧
      (leadingValue start ds).1 = start * 10 ^ used.length + digitsValue used ∧
      (leadingValue start ds).1 < twoPow 64 := by
  induction ds generalizing start with
  | nil => exact ⟨[], rfl, by simp [leadingValue, digitsValue], h⟩
  | cons c rest ih =>
    rw [leadingValue]
    split_ifs with hfits
    · -- The digit still fits.
      obtain ⟨used, hrest, hvalue, hsmall⟩ := ih hfits
      refine ⟨c :: used, congrArg (List.cons c) hrest, hvalue.trans ?_, hsmall⟩
      rw [digitsValue_cons, List.length_cons, pow_succ]
      ring
    · exact ⟨[], rfl, by simp [digitsValue], h⟩

/-- All digits are used while their value is small. -/
theorem leadingValue_of_lt {start : Nat} {ds : List Char}
    (h : start * 10 ^ ds.length + digitsValue ds < twoPow 64) :
    leadingValue start ds = (start * 10 ^ ds.length + digitsValue ds, []) := by
  induction ds generalizing start with
  | nil => simp [leadingValue, digitsValue]
  | cons c rest ih =>
    have hvalue : start * 10 ^ (c :: rest).length + digitsValue (c :: rest) =
        (start * 10 + digitValue c) * 10 ^ rest.length + digitsValue rest := by
      rw [digitsValue_cons, List.length_cons, pow_succ]
      ring
    rw [hvalue] at h ⊢
    have hfits : start * 10 + digitValue c < twoPow 64 :=
      (Nat.le_mul_of_pos_right _ (by positivity)).trans_lt (Nat.le_add_right _ _ |>.trans_lt h)
    rw [leadingValue, if_pos hfits, ih h]

/-! ## Whole numbers -/

/-- A whole number is written as its digits, behind a minus if it is negative. -/
theorem toList_integerText (n : Int) : (integerText n).toList =
    if n < 0 then '-' :: decimalDigits n.natAbs else decimalDigits n.natAbs := by
  unfold integerText
  split_ifs <;> simp

/-- The sign and the digits of a whole number are told apart. -/
theorem splitSign_integerText (n : Int) :
    splitSign (integerText n).toList = (decide (n < 0), decimalDigits n.natAbs) := by
  obtain ⟨d, ds, hdigits⟩ := List.exists_cons_of_ne_nil (decimalDigits_ne_nil n.natAbs)
  have hd : d.isDigit = true :=
    isDigit_of_mem_decimalDigits (n := n.natAbs) (hdigits ▸ List.mem_cons_self)
  rw [toList_integerText]
  split_ifs with hneg
  · rw [decide_eq_true hneg]
    rfl
  · -- A digit is no sign.
    rw [decide_eq_false hneg, hdigits]
    unfold splitSign
    split
    · rename_i heq
      obtain ⟨rfl, -⟩ := List.cons.inj heq
      cases hd
    · rename_i heq
      obtain ⟨rfl, -⟩ := List.cons.inj heq
      cases hd
    · rfl

/-- A whole number of 64 bits is read back from its text. -/
theorem readInteger?_integerText {n : Int} (h : inInt64 n = true) :
    readInteger? (integerText n).toList = some n := by
  have hsome : (decimalDigits n.natAbs).isEmpty = false := by
    simpa using decimalDigits_ne_nil n.natAbs
  have hdigits : (decimalDigits n.natAbs).all Char.isDigit = true :=
    List.all_eq_true.2 fun c hc => isDigit_of_mem_decimalDigits hc
  have hvalue : (if decide (n < 0) = true then -(n.natAbs : Int) else n.natAbs) = n := by
    simp only [decide_eq_true_eq]
    split_ifs <;> omega
  unfold readInteger?
  rw [splitSign_integerText]
  simp only [hsome, hdigits, digitsValue_decimalDigits, hvalue, h, Bool.not_true, Bool.or_self,
    Bool.false_eq_true, if_false, if_true]

/-! ## Numerals -/

/-- A run of characters with a property ends in front of one without it. -/
theorem span_append {p : Char → Bool} {run rest : List Char} (hrun : ∀ c ∈ run, p c = true)
    (hrest : ∀ c ∈ rest.head?, p c = false) :
    (run ++ rest).takeWhile p = run ∧ (run ++ rest).dropWhile p = rest := by
  rw [List.takeWhile_append_of_pos hrun, List.dropWhile_append_of_pos hrun]
  cases rest with
  | nil => simp
  | cons c more =>
    have hc : ¬ p c = true := by simpa using hrest c rfl
    rw [List.takeWhile_cons_of_neg hc, List.dropWhile_cons_of_neg hc, List.append_nil]
    exact ⟨rfl, rfl⟩

namespace Json

/-- A number as it is written, without its sign. -/
structure Numeral where
  whole : List Char
  decimals : List Char
  exponent : Option Int

namespace Numeral

/-- Decimals behind their point, if there are any. -/
def fractionText (decimals : List Char) : List Char :=
  if decimals.isEmpty then [] else '.' :: decimals

/-- An exponent, whose sign is always written. -/
def exponentText : Option Int → List Char
  | none => []
  | some e => 'e' :: (if e < 0 then '-' else '+') :: decimalDigits e.natAbs

/-- How a numeral is written: its whole part, its decimals, its exponent. -/
def text (numeral : Numeral) : List Char :=
  numeral.whole ++ fractionText numeral.decimals ++ exponentText numeral.exponent

/-- A numeral as documents have it: with a whole part that does not start with zero, unless it is
zero. -/
structure Valid (numeral : Numeral) : Prop where
  ne_nil : numeral.whole ≠ []
  whole : ∀ c ∈ numeral.whole, c.isDigit = true
  decimals : ∀ c ∈ numeral.decimals, c.isDigit = true
  head : numeral.whole.head? = some '0' → numeral.whole = ['0']

/-- The number that a numeral stands for. -/
def value (numeral : Numeral) : ℚ :=
  digitsValue (numeral.whole ++ numeral.decimals) *
    10 ^ (numeral.exponent.getD 0 - numeral.decimals.length)

end Numeral

/-- A numeral starts with a digit. -/
theorem Numeral.Valid.exists_cons {numeral : Numeral} (h : numeral.Valid) :
    ∃ c more, numeral.text = c :: more ∧ c.isDigit = true := by
  obtain ⟨c, rest, hwhole⟩ := List.exists_cons_of_ne_nil h.ne_nil
  have hdigit : c.isDigit = true := h.whole c (hwhole ▸ List.mem_cons_self)
  refine ⟨c, rest ++ fractionText numeral.decimals ++ exponentText numeral.exponent, ?_, hdigit⟩
  rw [text, hwhole]
  rfl

/-- A text that does not go on with what could belong to a number. -/
def EndsNumber (rest : List Char) : Prop :=
  ∀ c ∈ rest.head?, c.isDigit = false ∧ c ≠ '.' ∧ c ≠ 'e' ∧ c ≠ 'E'

/-- Digits are read up to the first character that is none. -/
theorem spanDigits_append {ds rest : List Char} (hds : ∀ c ∈ ds, c.isDigit = true)
    (hrest : ∀ c ∈ rest.head?, c.isDigit = false) : spanDigits (ds ++ rest) = (ds, rest) :=
  Prod.ext (span_append hds hrest).1 (span_append hds hrest).2

/-- An exponent is read with its sign. -/
theorem exponent_some {e : Int} {rest : List Char} (hrest : EndsNumber rest) :
    exponent (Numeral.exponentText (some e) ++ rest) = .ok (some e, rest) := by
  show exponent ('e' :: (if e < 0 then '-' else '+') :: (decimalDigits e.natAbs ++ rest)) = _
  have hsign : splitSign ((if e < 0 then '-' else '+') :: (decimalDigits e.natAbs ++ rest)) =
      (decide (e < 0), decimalDigits e.natAbs ++ rest) := by
    by_cases h : e < 0 <;> simp [h, splitSign]
  have hspan : spanDigits (decimalDigits e.natAbs ++ rest) = (decimalDigits e.natAbs, rest) :=
    spanDigits_append (fun c hc => isDigit_of_mem_decimalDigits hc) fun c hc => (hrest c hc).1
  have hvalue := digitsValue_decimalDigits e.natAbs
  obtain ⟨d, ds, hdigits⟩ := List.exists_cons_of_ne_nil (decimalDigits_ne_nil e.natAbs)
  rw [hdigits] at hsign hspan hvalue ⊢
  have hexponent : (if decide (e < 0) = true then -(digitsValue (d :: ds) : Int)
      else digitsValue (d :: ds)) = e := by
    rw [hvalue]
    by_cases h : e < 0
    · rw [if_pos (decide_eq_true h)]
      omega
    · rw [if_neg (by simpa using h)]
      omega
  simp only [exponent, true_or, if_true, hsign, hspan, hexponent]

/-- Where no exponent is written, none is read. -/
theorem exponent_none {rest : List Char} (hrest : EndsNumber rest) :
    exponent (Numeral.exponentText none ++ rest) = .ok (none, rest) := by
  show exponent rest = _
  cases rest with
  | nil => rfl
  | cons c more =>
    obtain ⟨-, -, he, hE⟩ := hrest c rfl
    exact if_neg (by simp [he, hE])

/-- Decimals are read behind their point, or none without it. -/
theorem fraction_text {decimals rest : List Char} (hdecimals : ∀ c ∈ decimals, c.isDigit = true)
    (hrest : ∀ c ∈ rest.head?, c.isDigit = false ∧ c ≠ '.') :
    fraction (Numeral.fractionText decimals ++ rest) = .ok (decimals, rest) := by
  cases decimals with
  | nil =>
    show fraction rest = _
    cases rest with
    | nil => rfl
    | cons c more =>
      obtain ⟨-, hpoint⟩ := hrest c rfl
      unfold fraction
      split
      · rename_i heq
        exact absurd (List.cons.inj heq).1 hpoint
      · rfl
  | cons d ds =>
    have hspan := spanDigits_append hdecimals fun c hc => (hrest c hc).1
    show fraction ('.' :: (d :: ds ++ rest)) = _
    simp only [fraction, hspan]

/-- A numeral is read up to its end. -/
theorem number_text {numeral : Numeral} (hvalid : numeral.Valid) {rest : List Char}
    (hrest : EndsNumber rest) {negative : Bool} {n : Number}
    (hvalue : numeralValue negative numeral.whole numeral.decimals numeral.exponent = some n) :
    number negative (numeral.text ++ rest) = .ok (.number n, rest) := by
  obtain ⟨whole, decimals, exp⟩ := numeral
  obtain ⟨hne, hwhole, hdecimals, hhead⟩ := hvalid
  dsimp only at *
  have hexponent : exponent (Numeral.exponentText exp ++ rest) = .ok (exp, rest) := by
    cases exp with
    | none => exact exponent_none hrest
    | some e => exact exponent_some hrest
  have hends : ∀ c ∈ (Numeral.exponentText exp ++ rest).head?, c.isDigit = false ∧ c ≠ '.' := by
    cases exp with
    | none => exact fun c hc => ⟨(hrest c hc).1, (hrest c hc).2.1⟩
    | some e =>
      rintro c ⟨⟩
      decide
  -- From the back: what stands behind the whole part starts with no digit.
  have hbehind : ∀ c ∈ (Numeral.fractionText decimals ++
      (Numeral.exponentText exp ++ rest)).head?, c.isDigit = false := by
    cases decimals with
    | nil => exact fun c hc => (hends c hc).1
    | cons d ds =>
      rintro c ⟨⟩
      decide
  have hfraction := fraction_text hdecimals hends
  have hspan := spanDigits_append hwhole hbehind
  have htext : Numeral.text ⟨whole, decimals, exp⟩ ++ rest =
      whole ++ (Numeral.fractionText decimals ++ (Numeral.exponentText exp ++ rest)) := by
    simp only [Numeral.text, List.append_assoc]
  rw [htext]
  generalize Numeral.fractionText decimals ++ (Numeral.exponentText exp ++ rest) = behind at *
  obtain ⟨c, more, rfl⟩ := List.exists_cons_of_ne_nil hne
  have hdigit : c.isDigit = true := hwhole c List.mem_cons_self
  -- A leading zero is alone.
  have hzero : ¬ (c = '0' ∧ (more ++ behind).head?.any Char.isDigit = true) := by
    rintro ⟨rfl, hany⟩
    obtain rfl : more = [] := (List.cons.inj (hhead rfl)).2
    cases behind with
    | nil => cases hany
    | cons d ds =>
      have hisDigit : d.isDigit = true := hany
      exact Bool.noConfusion (hisDigit.symm.trans (hbehind d rfl))
  unfold number
  simp only [List.cons_append] at hspan ⊢
  rw [if_neg (by simp [hdigit]), if_neg hzero, hspan]
  simp only [bind, Except.bind, hfraction, hexponent, hvalue]

/-- The digits of a whole number of 64 bits are read as the number. -/
theorem numeralValue_decimalDigits {n : Int} (hlow : -(twoPow 63 : Int) ≤ n)
    (hhigh : n < (twoPow 64 : Int)) :
    numeralValue (decide (n < 0)) (decimalDigits n.natAbs) [] none = some (.int n) := by
  have hwords : twoPow 64 = 2 * twoPow 63 := Nat.mul_comm _ _
  have hvalue : leadingValue 0 (decimalDigits n.natAbs) = (n.natAbs, []) := by
    have hdigits : 0 * 10 ^ (decimalDigits n.natAbs).length +
        digitsValue (decimalDigits n.natAbs) = n.natAbs := by
      rw [digitsValue_decimalDigits, Nat.zero_mul, Nat.zero_add]
    rw [leadingValue_of_lt (by rw [hdigits]; omega), hdigits]
  unfold numeralValue
  rw [hvalue]
  by_cases hneg : n < 0
  · have hrange : (0 < n.natAbs && n.natAbs ≤ twoPow 63 : Bool) = true := by
      simp only [Bool.and_eq_true, decide_eq_true_eq]
      omega
    have hvalue : -(n.natAbs : Int) = n := by omega
    rw [decide_eq_true hneg]
    simp only [List.isEmpty_nil, Option.isNone_none, Bool.and_self, if_true, Bool.not_true,
      Bool.false_eq_true, if_false]
    rw [if_pos hrange, hvalue]
  · have hvalue : (n.natAbs : Int) = n := by omega
    simp [hneg, hvalue]

/-- A numeral that has decimals or an exponent is read as a double, unless it is too large. -/
theorem exists_numeralValue (negative : Bool) {numeral : Numeral}
    (hwhole : digitsValue numeral.whole < twoPow 64)
    (hreal : numeral.decimals ≠ [] ∨ numeral.exponent ≠ none)
    (hvalue : numeral.value ≤ Binary64.readable) :
    ∃ y, numeralValue negative numeral.whole numeral.decimals numeral.exponent =
      some (.float y) := by
  obtain ⟨whole, decimals, exp⟩ := numeral
  dsimp only [Numeral.value] at *
  have hstart : leadingValue 0 whole = (digitsValue whole, []) := by
    rw [leadingValue_of_lt (by rwa [Nat.zero_mul, Nat.zero_add]), Nat.zero_mul, Nat.zero_add]
  have hnotInt : (decimals.isEmpty && exp.isNone && ([] : List Char).isEmpty) = false := by
    cases decimals <;> cases exp <;> simp_all
  obtain ⟨used, hused, hdigits, hsmall⟩ := leadingValue_eq hwhole decimals
  unfold numeralValue
  rw [hstart]
  dsimp only
  rw [hnotInt]
  generalize leadingValue (digitsValue whole) decimals = read at *
  obtain ⟨digits, unused⟩ := read
  subst hused
  dsimp only at *
  -- What is not used only adds to the value.
  have hle : (digits : ℚ) * 10 ^ (((([] : List Char).length : Int) -
      (((used ++ unused).length - unused.length : Nat) : Int)) + exp.getD 0) ≤
        Binary64.readable := by
    have hexponent : (exp.getD 0 - ((used ++ unused).length : Nat) : Int) + unused.length =
        (([] : List Char).length : Int) -
          (((used ++ unused).length - unused.length : Nat) : Int) + exp.getD 0 := by
      simp only [List.length_append, List.length_nil]
      omega
    have hmore : (digits * 10 ^ unused.length : ℚ) ≤
        (digitsValue (whole ++ (used ++ unused)) : ℕ) := by
      rw [← List.append_assoc, digitsValue_append, digitsValue_append whole, ← hdigits]
      push_cast
      linarith [(Nat.cast_nonneg (digitsValue unused) : (0 : ℚ) ≤ _)]
    refine le_trans ?_ hvalue
    rw [← hexponent, add_comm, zpow_add₀ (by norm_num), zpow_natCast, ← mul_assoc]
    gcongr
  obtain ⟨y, hy⟩ := Binary64.exists_steppedDecimal negative hsmall hle
  exact ⟨y, by rw [hy]; rfl⟩

end Json

/-! ## Doubles -/

namespace Binary64

/-- A hit of the grid lies in the interval, which has no zero. -/
theorem hit_spec {x : Binary64} (hx : x.mantissa ≠ 0) {t : Int} {d : Nat}
    (h : hitOnGrid? x.rounding t = some d) :
    0 < d ∧ (d : ℚ) * 10 ^ t ≤ (x.mantissa + 1 / 2) * 2 ^ x.exponent := by
  -- A hit is tested before it is taken, whichever side of the double it is on.
  have howns : x.rounding.owns (d * (tenPow t.toNat * x.rounding.den))
      (tenPow (-t).toNat) = true := by
    unfold hitOnGrid? at h
    dsimp only at h
    split at h
    · rename_i hlow hhigh
      split_ifs at h <;> cases h <;> assumption
    · cases h
      assumption
    · cases h
      assumption
    · cases h
  have hbounds : x.rounding.low * tenPow (-t).toNat ≤ d * (tenPow t.toNat * x.rounding.den) ∧
      d * (tenPow t.toNat * x.rounding.den) ≤ x.rounding.high * tenPow (-t).toNat := by
    unfold Rounding.owns at howns
    split_ifs at howns
    · simpa using howns
    · simp only [Bool.and_eq_true, decide_eq_true_eq] at howns
      exact ⟨howns.1.le, howns.2.le⟩
  constructor
  · -- The interval starts above zero.
    have hlow : 0 < x.rounding.low * tenPow (-t).toNat := by
      refine Nat.mul_pos (Nat.mul_pos ?_ (twoPow_pos _)) (tenPow_pos _)
      split_ifs <;> omega
    refine Nat.pos_of_ne_zero fun hd => ?_
    rw [hd, Nat.zero_mul] at hbounds
    omega
  · have hhigh : (d : ℚ) * (10 ^ t.toNat * 2 ^ (-(x.exponent - 2)).toNat) ≤
        (4 * x.mantissa + 2) * 2 ^ (x.exponent - 2).toNat * 10 ^ (-t).toNat := by
      have := hbounds.2
      simp only [rounding] at this
      rw [← cast_tenPow, ← cast_tenPow, ← cast_twoPow, ← cast_twoPow]
      exact_mod_cast this
    rw [toNat_pow_eq (by norm_num) t, toNat_pow_eq two_ne_zero (x.exponent - 2),
      zpow_sub₀ two_ne_zero] at hhigh
    have hten : (0 : ℚ) < 10 ^ (-t).toNat := by positivity
    have htwo : (0 : ℚ) < 2 ^ (-(x.exponent - 2)).toNat := by positivity
    refine le_of_mul_le_mul_right ?_ (mul_pos hten htwo)
    linarith

/-- Zeros are moved between the digits and the exponent. -/
theorem stripZeros_spec (fuel : Nat) {d : Nat} (hd : 0 < d) (t : Int) :
    0 < (stripZeros fuel d t).digits ∧
      ((stripZeros fuel d t).digits : ℚ) * 10 ^ (stripZeros fuel d t).exponent = d * 10 ^ t := by
  induction fuel generalizing d t with
  | zero => exact ⟨hd, rfl⟩
  | succ fuel ih =>
    rw [stripZeros]
    split_ifs with hzero
    · obtain ⟨hpos, hvalue⟩ := ih (by omega : 0 < d / 10) (t + 1)
      refine ⟨hpos, hvalue.trans ?_⟩
      have hdigits : (d : ℚ) = (d / 10 : ℕ) * 10 := by
        have : d = d / 10 * 10 := by omega
        exact_mod_cast this
      rw [zpow_add₀ (by norm_num), zpow_one, hdigits]
      ring
    · exact ⟨hd, rfl⟩

/-- The shortest digits of a double are at most half a unit above it. -/
theorem shortest_spec (x : Binary64) :
    (x.shortest.digits = 0 → x.shortest.exponent = 0) ∧
      (x.shortest.digits : ℚ) * 10 ^ x.shortest.exponent ≤
        (x.mantissa + 1 / 2) * 2 ^ x.exponent := by
  have hbound : (0 : ℚ) ≤ (x.mantissa + 1 / 2) * 2 ^ x.exponent := by positivity
  unfold shortest
  split_ifs with hzero
  · exact ⟨fun _ => rfl, by simpa using hbound⟩
  dsimp only
  cases hfound : (List.range 17).findSome? fun (n : Nat) =>
      (hitOnGrid? x.rounding (leadingExponent x.rounding.value x.rounding.den - n)).map fun d =>
        stripZeros 18 d (leadingExponent x.rounding.value x.rounding.den - n) with
  | none => exact ⟨fun _ => rfl, by simpa using hbound⟩
  | some decimal =>
    obtain ⟨n, -, hn⟩ := List.exists_of_findSome?_eq_some hfound
    obtain ⟨d, hhit, rfl⟩ := Option.map_eq_some_iff.1 hn
    obtain ⟨hpos, hle⟩ := hit_spec hzero hhit
    obtain ⟨hdigits, hvalue⟩ := stripZeros_spec 18 hpos
      (leadingExponent x.rounding.value x.rounding.den - n)
    exact ⟨fun h => absurd h hdigits.ne', hvalue.trans_le hle⟩

/-- Decimals of which there is at least one. -/
def shownDecimals (decimals : List Char) : List Char :=
  if decimals.isEmpty then ['0'] else decimals

/-- The exponent of the leading digit. -/
def Decimal.lead (d : Decimal) : Int := (decimalDigits d.digits).length - 1 + d.exponent

/-- A decimal in plain notation, with at least one digit behind the point. -/
def plainNumeral (d : Decimal) : Json.Numeral :=
  { whole := (plainParts d).1, decimals := shownDecimals (plainParts d).2, exponent := none }

/-- A decimal in scientific notation, with one digit in front of the point. -/
def scientificNumeral (d : Decimal) : Json.Numeral :=
  { whole := (decimalDigits d.digits).take 1
    decimals := (decimalDigits d.digits).drop 1
    exponent := some d.lead }

/-- The numeral of a decimal in a document. -/
def documentNumeral (d : Decimal) : Json.Numeral :=
  if plainRange d.lead then plainNumeral d else scientificNumeral d

/-- The magnitude of a double in a document is written as a numeral. -/
theorem documentMagnitude_eq (d : Decimal) : documentMagnitude d = (documentNumeral d).text := by
  have hlead : ((decimalDigits d.digits).length - 1 + d.exponent : Int) = d.lead := rfl
  unfold documentMagnitude documentNumeral
  dsimp only
  rw [hlead]
  by_cases hrange : plainRange d.lead = true
  · rw [if_pos hrange, if_pos hrange, plainNumeral, Json.Numeral.text, Json.Numeral.exponentText,
      List.append_nil]
    cases (plainParts d).2 <;> rfl
  · rw [if_neg hrange, if_neg hrange, scientificNumeral, Json.Numeral.text,
      Json.Numeral.exponentText]
    rcases decimalDigits d.digits with _ | ⟨c, _ | ⟨c', rest⟩⟩ <;> rfl

/-- Plain notation has the digits, zeros besides, and a whole part that is as long as the digits
before the point. -/
theorem plainParts_spec (d : Decimal) :
    (∀ c ∈ (plainParts d).1 ++ (plainParts d).2, c.isDigit = true) ∧
      (digitsValue ((plainParts d).1 ++ (plainParts d).2) : ℚ) *
        10 ^ (-((plainParts d).2.length : Int)) = d.digits * 10 ^ d.exponent ∧
      ((plainParts d).1.length : Int) ≤ max 1 ((decimalDigits d.digits).length + d.exponent) := by
  have hdigits : ∀ c ∈ decimalDigits d.digits, c.isDigit = true :=
    fun c hc => isDigit_of_mem_decimalDigits hc
  have hzeros : ∀ n, ∀ c ∈ List.replicate n '0', c.isDigit = true := by
    intro n c hc
    rw [List.eq_of_mem_replicate hc]
    rfl
  have hvalue := digitsValue_decimalDigits d.digits
  unfold plainParts
  dsimp only
  -- Of the digits, only their value and their number matter from here on.
  generalize decimalDigits d.digits = ds at *
  split_ifs with hexponent hshort
  -- The digits with zeros behind them, and no decimals.
  · obtain ⟨n, hn⟩ := Int.eq_ofNat_of_zero_le hexponent
    refine ⟨?_, ?_, ?_⟩
    · intro c hc
      rw [List.append_nil, List.mem_append] at hc
      exact hc.elim (hdigits c) (hzeros _ c)
    · rw [List.append_nil, digitsValue_append, digitsValue_zeros, hvalue, hn]
      simp
    · simp only [List.length_append, List.length_replicate]
      omega
  -- A zero in front of the point, and the digits behind zeros.
  · refine ⟨?_, ?_, by simp⟩
    · simp only [List.cons_append, List.nil_append, List.mem_cons, List.mem_append]
      rintro c (rfl | hc | hc)
      · rfl
      · exact hzeros _ c hc
      · exact hdigits c hc
    · rw [digitsValue_append, digitsValue_append, digitsValue_zeros, hvalue]
      have hlength : -((List.replicate ((-d.exponent).toNat - ds.length) '0' ++ ds).length : Int) =
          d.exponent := by
        simp only [List.length_append, List.length_replicate]
        omega
      rw [hlength]
      simp [digitsValue, digitValue]
  -- The point stands among the digits.
  · rw [List.take_append_drop]
    refine ⟨hdigits, ?_, ?_⟩
    · have hlength : -((ds.drop (ds.length - (-d.exponent).toNat)).length : Int) = d.exponent := by
        rw [List.length_drop]
        omega
      rw [hlength, hvalue]
    · rw [List.length_take]
      omega

/-- A decimal has its value in plain notation. -/
theorem plainNumeral_value (d : Decimal) : (plainNumeral d).value = d.digits * 10 ^ d.exponent := by
  obtain ⟨-, hplain, -⟩ := plainParts_spec d
  rw [← hplain, Json.Numeral.value, plainNumeral, Option.getD_none, zero_sub]
  cases (plainParts d).2 with
  | nil =>
    -- The zero behind the point counts for nothing.
    rw [digitsValue_append, List.append_nil]
    simp [shownDecimals, digitsValue, digitValue]
  | cons c rest => rfl

/-- A decimal has its value in scientific notation. -/
theorem scientificNumeral_value (d : Decimal) :
    (scientificNumeral d).value = d.digits * 10 ^ d.exponent := by
  have hlength : d.lead - ((decimalDigits d.digits).drop 1).length = d.exponent := by
    have := List.length_pos_iff.2 (decimalDigits_ne_nil d.digits)
    rw [List.length_drop, Decimal.lead]
    omega
  rw [Json.Numeral.value, scientificNumeral, List.take_append_drop, digitsValue_decimalDigits,
    Option.getD_some, hlength]

/-- A decimal has its value in either notation. -/
theorem documentNumeral_value (d : Decimal) :
    (documentNumeral d).value = d.digits * 10 ^ d.exponent := by
  unfold documentNumeral
  split_ifs
  · exact plainNumeral_value d
  · exact scientificNumeral_value d

/-- The whole part fits a word. -/
theorem documentNumeral_whole_lt (d : Decimal) :
    digitsValue (documentNumeral d).whole < twoPow 64 := by
  obtain ⟨hdigits, -, hlength⟩ := plainParts_spec d
  have hword : 10 ^ 16 < twoPow 64 := by decide
  have hlt : ∀ ds : List Char, (∀ c ∈ ds, c.isDigit = true) → ds.length ≤ 16 →
      digitsValue ds < twoPow 64 := fun ds hds hlong =>
    (digitsValue_lt hds).trans_le ((Nat.pow_le_pow_right (by norm_num) hlong).trans hword.le)
  unfold documentNumeral
  split_ifs with hrange
  · refine hlt _ (fun c hc => hdigits c (List.mem_append_left _ hc)) ?_
    have hlead : d.lead ≤ 15 := of_decide_eq_true (Bool.and_eq_true_iff.1 hrange).2
    unfold Decimal.lead at hlead
    dsimp only [plainNumeral]
    omega
  · refine hlt _ (fun c hc => isDigit_of_mem_decimalDigits (List.mem_of_mem_take hc)) ?_
    rw [scientificNumeral, List.length_take]
    omega

/-- A decimal is never written as a whole number. -/
theorem documentNumeral_real (d : Decimal) :
    (documentNumeral d).decimals ≠ [] ∨ (documentNumeral d).exponent ≠ none := by
  unfold documentNumeral
  split_ifs with hrange
  · left
    rw [plainNumeral]
    cases (plainParts d).2 <;> exact nofun
  · exact .inr nofun

/-- No whole part starts with a zero but zero itself. -/
theorem plainParts_whole {d : Decimal} (hd : d.digits = 0 → d.exponent = 0) :
    (plainParts d).1 ≠ [] ∧ ((plainParts d).1.head? = some '0' → (plainParts d).1 = ['0']) := by
  have hne := decimalDigits_ne_nil d.digits
  have hhead : (decimalDigits d.digits).head? = some '0' → d.digits = 0 :=
    eq_zero_of_head?_decimalDigits
  have hzero : decimalDigits 0 = ['0'] := rfl
  unfold plainParts
  dsimp only
  split_ifs with hexponent hshort
  · refine ⟨by simp [hne], fun h => ?_⟩
    rw [List.head?_append_of_ne_nil _ hne] at h
    have := hd (hhead h)
    simp [hhead h, this, hzero]
  · exact ⟨by simp, fun _ => rfl⟩
  · -- There are digits before the point, and the first is one of a number that is not zero.
    obtain ⟨n, hn⟩ : ∃ n, (decimalDigits d.digits).length - (-d.exponent).toNat = n + 1 :=
      ⟨_, (Nat.succ_pred_eq_of_pos (by omega)).symm⟩
    obtain ⟨c, rest, hdigits⟩ := List.exists_cons_of_ne_nil hne
    rw [hn]
    refine ⟨by simp [hdigits], fun h => ?_⟩
    rw [hdigits] at h hhead
    have := hd (hhead h)
    omega

/-- A decimal is written as documents have numbers. -/
theorem documentNumeral_valid {d : Decimal} (hd : d.digits = 0 → d.exponent = 0) :
    (documentNumeral d).Valid := by
  obtain ⟨hdigits, -, -⟩ := plainParts_spec d
  obtain ⟨hne, hhead⟩ := plainParts_whole hd
  unfold documentNumeral
  split_ifs with hrange
  · refine ⟨hne, fun c hc => hdigits c (List.mem_append_left _ hc), ?_, hhead⟩
    dsimp only [plainNumeral]
    cases hdecimals : (plainParts d).2 with
    | nil =>
      intro c hc
      rw [List.mem_singleton.1 hc]
      rfl
    | cons c rest => exact fun c' hc' => hdigits c' (List.mem_append_right _ (hdecimals ▸ hc'))
  · have hne := decimalDigits_ne_nil d.digits
    refine ⟨by simpa [scientificNumeral] using hne,
      fun c hc => isDigit_of_mem_decimalDigits (List.mem_of_mem_take hc),
      fun c hc => isDigit_of_mem_decimalDigits (List.mem_of_mem_drop hc), fun h => ?_⟩
    obtain ⟨c, rest, hdigits⟩ := List.exists_cons_of_ne_nil hne
    rw [scientificNumeral, hdigits] at h ⊢
    exact congrArg (fun c => [c]) (Option.some.inj h)

/-- Of the three greatest doubles, half a unit more is past what can be read for sure. -/
theorem readable_or_greatest (x : Binary64) :
    (x.mantissa + 1 / 2 : ℚ) * 2 ^ x.exponent ≤ readable ∨
      x.exponent = 971 ∧ ∃ k < 3, x.mantissa = 2 ^ 53 - 1 - k := by
  obtain ⟨hmantissa, -, hexponent, -⟩ := x.fits
  change x.mantissa < 2 ^ 53 at hmantissa
  obtain hlower | htop := hexponent.lt_or_eq
  · left
    -- Below the greatest exponent there is a factor of two to spare.
    have hmantissaQ : (x.mantissa + 1 / 2 : ℚ) ≤ 2 ^ 53 := by
      have : (x.mantissa : ℚ) + 1 ≤ 2 ^ 53 := by exact_mod_cast hmantissa
      linarith
    calc (x.mantissa + 1 / 2 : ℚ) * 2 ^ x.exponent ≤ 2 ^ 53 * 2 ^ (970 : Int) := by
          gcongr
          · exact one_le_two
          · omega
      _ = 2 ^ 52 * 2 ^ (971 : Int) := by
          have hpower : (2 : ℚ) ^ (971 : Int) = 2 ^ (970 : Int) * 2 :=
            zpow_add_one₀ two_ne_zero 970
          rw [hpower]
          ring
      _ ≤ readable := by
          unfold readable
          gcongr
          norm_num
  -- With the greatest exponent, only the last three mantissas come too close to the end.
  · obtain hsmall | hlarge := Nat.lt_or_ge x.mantissa (2 ^ 53 - 3)
    · left
      have hmantissaQ : (x.mantissa : ℚ) + 4 ≤ 2 ^ 53 := by
        have : x.mantissa + 4 ≤ 2 ^ 53 := by omega
        exact_mod_cast this
      rw [htop, readable]
      gcongr
      linarith
    · exact .inr ⟨htop, 2 ^ 53 - 1 - x.mantissa, by omega, by omega⟩

/-- Whether a double of the greatest exponent is read from its text. -/
def readsGreatest (negative : Bool) (m : Nat) : Bool :=
  match ofParts? negative m 971 with
  | none => false
  | some x =>
    match Json.numeralValue x.negative (documentNumeral x.shortest).whole
      (documentNumeral x.shortest).decimals (documentNumeral x.shortest).exponent with
    | some (.float _) => true
    | _ => false

/-- The three greatest doubles are read from their texts, on either side of zero. -/
theorem readsGreatest_eq_true :
    ∀ negative, ∀ k < 3, readsGreatest negative (2 ^ 53 - 1 - k) = true := by
  decide +kernel

/-- Every double is read from its text. -/
theorem exists_numeralValue (x : Binary64) : ∃ y,
    Json.numeralValue x.negative (documentNumeral x.shortest).whole
      (documentNumeral x.shortest).decimals (documentNumeral x.shortest).exponent =
        some (.float y) := by
  obtain hreadable | ⟨hexponent, k, hk, hmantissa⟩ := readable_or_greatest x
  · refine Json.exists_numeralValue _ (documentNumeral_whole_lt _) (documentNumeral_real _) ?_
    rw [documentNumeral_value]
    exact (shortest_spec x).2.trans hreadable
  · have hgreatest := readsGreatest_eq_true x.negative k hk
    have hparts : ofParts? x.negative (2 ^ 53 - 1 - k) 971 = some x := by
      obtain ⟨negative, m, e, hfits⟩ := x
      subst hexponent hmantissa
      exact dif_pos hfits
    rw [readsGreatest, hparts] at hgreatest
    dsimp only at hgreatest
    split at hgreatest
    · exact ⟨_, by assumption⟩
    · cases hgreatest

/-- What a double is read as from its text. -/
def reread (x : Binary64) : Binary64 :=
  match Json.numeralValue x.negative (documentNumeral x.shortest).whole
    (documentNumeral x.shortest).decimals (documentNumeral x.shortest).exponent with
  | some (.float y) => y
  | _ => x

/-- The shortest digits of a double are read as a double. -/
theorem numeralValue_shortest (x : Binary64) :
    Json.numeralValue x.negative (documentNumeral x.shortest).whole
      (documentNumeral x.shortest).decimals (documentNumeral x.shortest).exponent =
        some (.float x.reread) := by
  obtain ⟨y, hy⟩ := exists_numeralValue x
  rw [reread, hy]

/-- A double that is read as one that is not whole. -/
example : (⟨false, 7205759403792796, -1, by decide⟩ : Binary64).reread =
    ⟨false, 7205759403792797, -1, by decide⟩ := by
  decide +kernel

end Binary64

/-! ## Numbers -/

namespace Number

/-- What a number is read as from its text. -/
def reread : Number → Number
  | int n => int n
  | float x => float x.reread

/-- A number that a document can have: whole numbers have 64 bits, with a sign or without. -/
def IsWord : Number → Prop
  | int n => -(twoPow 63 : Int) ≤ n ∧ n < (twoPow 64 : Int)
  | float _ => True

/-- Whether a number is written with a minus. -/
def isNegative : Number → Bool
  | int n => n < 0
  | float x => x.negative

/-- The numeral of a number without its sign. -/
def numeral : Number → Json.Numeral
  | int n => { whole := decimalDigits n.natAbs, decimals := [], exponent := none }
  | float x => Binary64.documentNumeral x.shortest

/-- A number is written as its numeral, behind a minus if it is negative. -/
theorem toList_numberText (n : Number) : (Json.numberText n).toList =
    if n.isNegative then '-' :: n.numeral.text else n.numeral.text := by
  cases n with
  | int n =>
    have htext : (numeral (.int n)).text = decimalDigits n.natAbs := by
      simp [numeral, Json.Numeral.text, Json.Numeral.fractionText, Json.Numeral.exponentText]
    rw [htext]
    rw [Json.numberText, toList_integerText, isNegative]
    simp only [decide_eq_true_eq]
  | float x =>
    rw [Json.numberText, Binary64.documentText, String.toList_ofList,
      Binary64.documentMagnitude_eq]
    rfl

/-- The numeral of a number is one that documents have. -/
theorem numeral_valid (n : Number) : n.numeral.Valid := by
  cases n with
  | int n =>
    refine ⟨decimalDigits_ne_nil _, fun c hc => isDigit_of_mem_decimalDigits hc, nofun, fun h => ?_⟩
    have hzero := eq_zero_of_head?_decimalDigits h
    rw [numeral, hzero]
    rfl
  | float x => exact Binary64.documentNumeral_valid (Binary64.shortest_spec x).1

/-- The numeral of a number is read as the number, but for its digits if it is a double. -/
theorem numeralValue_numeral {n : Number} (h : n.IsWord) :
    Json.numeralValue n.isNegative n.numeral.whole n.numeral.decimals n.numeral.exponent =
      some n.reread := by
  cases n with
  | int n => exact Json.numeralValue_decimalDigits h.1 h.2
  | float x => exact Binary64.numeralValue_shortest x

/-- A number is read from the text of its magnitude, given its sign. -/
theorem number_numeral {n : Number} (h : n.IsWord) {rest : List Char}
    (hrest : Json.EndsNumber rest) :
    Json.number n.isNegative (n.numeral.text ++ rest) = .ok (.number n.reread, rest) :=
  Json.number_text n.numeral_valid hrest (numeralValue_numeral h)

end Number

end AgentFlow
