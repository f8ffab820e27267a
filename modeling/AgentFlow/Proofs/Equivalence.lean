import Mathlib.Data.List.Forall2
import Mathlib.Data.List.Perm.Subperm
import Mathlib.Data.List.Sort
import AgentFlow.Condition.Eval
import AgentFlow.Proofs.JsonText
import AgentFlow.Proofs.WholeNumbers
import AgentFlow.Step.Input

/-!
# Equality by value

When two values are equivalent: they have one shape, and the numbers in them are so in pairs
(`Value.equivalent_iff_matches`). Numbers of one value are equivalent, and equivalent numbers have
one nearest double. In between a whole number past `2 ^ 53` can be equivalent to a number of another
value, and so equivalence is not transitive. It is equality by value where doubles have all the
numbers, and where all are whole numbers of 64 signed bits (`Value.equivalence_laws`).
-/

namespace AgentFlow

/-! ## Numbers -/

namespace Number

/-- The value of a number in units of the least positive double. -/
def units : Number → Int
  | int n => n * twoPow 1074
  | float x => x.units

/-- Numbers of one value. -/
def SameValue (a b : Number) : Prop := a.units = b.units

/-- Numbers whose nearest doubles have one value. -/
def SameDouble (a b : Number) : Prop := a.toBinary.units = b.toBinary.units

/-- A number whose value a double has. -/
def IsDouble (a : Number) : Prop := a.toBinary.units = a.units

/-- A whole number of 64 signed bits. -/
def IsSigned : Number → Prop
  | int n => inInt64 n = true
  | float _ => False

/-- A word is less than `2 ^ 64` on either side of zero. -/
theorem IsWord.natAbs_lt {n : Int} (h : (int n).IsWord) : n.natAbs < 2 ^ 64 := by
  obtain ⟨hlow, hhigh⟩ := h
  have h63 : twoPow 63 = 2 ^ 63 := rfl
  have h64 : twoPow 64 = 2 ^ 64 := rfl
  omega

/-- Whole numbers up to `2 ^ 53` are doubles. -/
theorem isDouble_int {n : Int} (h : n.natAbs ≤ 2 ^ 53) : (int n).IsDouble :=
  Binary64.units_ofInt_of_le h

/-- Two whole numbers of 64 signed bits are equivalent if they are one, other numbers if they have
one nearest double. -/
theorem equivalent_iff {a b : Number} : a.equivalent b = true ↔
    (a.IsSigned ∧ b.IsSigned ∧ a = b) ∨ (¬ (a.IsSigned ∧ b.IsSigned) ∧ a.SameDouble b) := by
  have hdouble : a.toBinary.sameValue b.toBinary = true ↔ a.SameDouble b := decide_eq_true_iff
  rw [← hdouble]
  cases a with
  | float x => simp [equivalent, toInt64?, IsSigned]
  | int m =>
    cases b with
    | float y => simp [equivalent, toInt64?, IsSigned]
    | int n =>
      cases hm : inInt64 m <;> cases hn : inInt64 n <;>
        simp [equivalent, toInt64?, IsSigned, hm, hn]

/-- The equivalence of numbers is symmetric. -/
theorem equivalent_comm (a b : Number) : a.equivalent b = b.equivalent a := by
  rw [Bool.eq_iff_iff, equivalent_iff, equivalent_iff]
  unfold SameDouble
  constructor <;>
    · rintro (⟨ha, hb, heq⟩ | ⟨hsigned, hdouble⟩)
      · exact .inl ⟨hb, ha, heq.symm⟩
      · exact .inr ⟨fun h => hsigned h.symm, hdouble.symm⟩

/-- Equivalent numbers have one nearest double. -/
theorem sameDouble_of_equivalent {a b : Number} (h : a.equivalent b = true) : a.SameDouble b := by
  obtain ⟨-, -, rfl⟩ | ⟨-, hdouble⟩ := equivalent_iff.1 h
  · rfl
  · exact hdouble

/-- A whole number with the value of a double is taken for that double. -/
theorem SameValue.sameDouble {a b : Number} (ha : a.IsWord) (hb : b.IsWord) (h : a.SameValue b) :
    a.SameDouble b := by
  cases a with
  | float x =>
    cases b with
    | float y => exact h
    | int n => exact (Binary64.units_ofInt_of_units_eq hb.natAbs_lt h).symm
  | int m =>
    cases b with
    | float y => exact Binary64.units_ofInt_of_units_eq ha.natAbs_lt h.symm
    | int n =>
      have hscale : (twoPow 1074 : Int) ≠ 0 := by exact_mod_cast (twoPow_pos 1074).ne'
      rw [show m = n from mul_right_cancel₀ hscale h]
      rfl

/-- Two doubles that have one nearest double are of one value. -/
theorem SameDouble.sameValue {a b : Number} (ha : a.IsDouble) (hb : b.IsDouble)
    (h : a.SameDouble b) : a.SameValue b :=
  ha.symm.trans (Eq.trans h hb)

/-- Two whole numbers of 64 signed bits and of one value are one. -/
theorem SameValue.eq {a b : Number} (ha : a.IsSigned) (hb : b.IsSigned) (h : a.SameValue b) :
    a = b := by
  cases a with
  | float x => exact ha.elim
  | int m =>
    cases b with
    | float y => exact hb.elim
    | int n =>
      have hscale : (twoPow 1074 : Int) ≠ 0 := by exact_mod_cast (twoPow_pos 1074).ne'
      rw [show m = n from mul_right_cancel₀ hscale h]

/-- Equivalent whole numbers of 64 signed bits are one. -/
theorem eq_of_equivalent {a b : Number} (ha : a.IsSigned) (hb : b.IsSigned)
    (h : a.equivalent b = true) : a = b := by
  obtain ⟨-, -, heq⟩ | ⟨hnot, -⟩ := equivalent_iff.1 h
  · exact heq
  · exact absurd ⟨ha, hb⟩ hnot

/-- Numbers of one value are equivalent. -/
theorem SameValue.equivalent {a b : Number} (ha : a.IsWord) (hb : b.IsWord) (h : a.SameValue b) :
    a.equivalent b = true := by
  rw [equivalent_iff]
  by_cases hsigned : a.IsSigned ∧ b.IsSigned
  · exact .inl ⟨hsigned.1, hsigned.2, h.eq hsigned.1 hsigned.2⟩
  · exact .inr ⟨hsigned, h.sameDouble ha hb⟩

/-- Numbers that are equivalent to one are so to each other, but for two different whole numbers of
64 signed bits. -/
theorem equivalent_trans_iff {a b c : Number} (hab : a.equivalent b = true)
    (hbc : b.equivalent c = true) :
    a.equivalent c = true ↔ (a.IsSigned → c.IsSigned → a = c) := by
  have hdouble : a.SameDouble c :=
    (sameDouble_of_equivalent hab).trans (sameDouble_of_equivalent hbc)
  rw [equivalent_iff]
  constructor
  · exact fun h ha hc => eq_of_equivalent ha hc (equivalent_iff.2 h)
  · intro h
    by_cases hsigned : a.IsSigned ∧ c.IsSigned
    · exact .inl ⟨hsigned.1, hsigned.2, h hsigned.1 hsigned.2⟩
    · exact .inr ⟨hsigned, hdouble⟩

/-- What is equivalent to one whole number of 64 signed bits is equivalent, and so is what is
equivalent to one number and has the value of a double. -/
theorem equivalent_trans {a b c : Number} (hab : a.equivalent b = true)
    (hbc : b.equivalent c = true) (h : b.IsSigned ∨ a.IsDouble ∧ c.IsDouble) :
    a.equivalent c = true := by
  refine (equivalent_trans_iff hab hbc).2 fun ha hc => ?_
  obtain hb | ⟨hadouble, hcdouble⟩ := h
  · exact (eq_of_equivalent ha hb hab).trans (eq_of_equivalent hb hc hbc)
  · have hdouble : a.SameDouble c :=
      (sameDouble_of_equivalent hab).trans (sameDouble_of_equivalent hbc)
    exact (hdouble.sameValue hadouble hcdouble).eq ha hc

end Number

/-! ## Values -/

namespace Value

mutual

/-- The numbers in a value, in order. -/
def numbers : Value → List Number
  | number n => [n]
  | list items => itemNumbers items
  | map fields => fieldNumbers fields
  | _ => []

/-- The numbers in a list, in order. -/
def itemNumbers : List Value → List Number
  | [] => []
  | item :: rest => item.numbers ++ itemNumbers rest

/-- The numbers in a map, in order. -/
def fieldNumbers : List (String × Value) → List Number
  | [] => []
  | (_, value) :: rest => value.numbers ++ fieldNumbers rest

end

mutual

/-- A value with zero for every number. -/
def shape : Value → Value
  | number _ => int 0
  | list items => list (itemShapes items)
  | map fields => map (fieldShapes fields)
  | value => value

/-- A list with zero for every number. -/
def itemShapes : List Value → List Value
  | [] => []
  | item :: rest => item.shape :: itemShapes rest

/-- A map with zero for every number. -/
def fieldShapes : List (String × Value) → List (String × Value)
  | [] => []
  | (name, value) :: rest => (name, value.shape) :: fieldShapes rest

end

/-- Values that are alike, but for their numbers, which are related in pairs. -/
def Matches (R : Number → Number → Prop) (a b : Value) : Prop :=
  a.shape = b.shape ∧ List.Forall₂ R a.numbers b.numbers

variable {R : Number → Number → Prop}

/-! ### Shapes and numbers -/

mutual

/-- The shape of a value tells how many numbers it has. -/
theorem length_numbers_shape : (a : Value) → a.shape.numbers.length = a.numbers.length
  | null | bool _ | string _ | number _ => rfl
  | list items => length_itemNumbers_shapes items
  | map fields => length_fieldNumbers_shapes fields

/-- The shape of a list tells how many numbers it has. -/
theorem length_itemNumbers_shapes : (items : List Value) →
    (itemNumbers (itemShapes items)).length = (itemNumbers items).length
  | [] => rfl
  | item :: rest => by
    rw [itemShapes, itemNumbers, itemNumbers, List.length_append, List.length_append,
      length_numbers_shape item, length_itemNumbers_shapes rest]

/-- The shape of a map tells how many numbers it has. -/
theorem length_fieldNumbers_shapes : (fields : List (String × Value)) →
    (fieldNumbers (fieldShapes fields)).length = (fieldNumbers fields).length
  | [] => rfl
  | (_, value) :: rest => by
    rw [fieldShapes, fieldNumbers, fieldNumbers, List.length_append, List.length_append,
      length_numbers_shape value, length_fieldNumbers_shapes rest]

end

/-- Values of one shape have as many numbers. -/
theorem length_numbers_of_shape_eq {a b : Value} (h : a.shape = b.shape) :
    a.numbers.length = b.numbers.length := by
  rw [← length_numbers_shape a, h, length_numbers_shape b]

/-- Lists in two parts are related part by part. -/
theorem forall₂_append_iff {α β : Type} {R : α → β → Prop} {first last : List α}
    {first' last' : List β} (h : first.length = first'.length) :
    List.Forall₂ R (first ++ last) (first' ++ last') ↔
      List.Forall₂ R first first' ∧ List.Forall₂ R last last' := by
  induction first generalizing first' with
  | nil =>
    obtain rfl := List.length_eq_zero_iff.1 h.symm
    simp
  | cons a first ih =>
    obtain ⟨b, first', rfl⟩ := List.exists_cons_of_length_eq_add_one h.symm
    simp only [List.cons_append, List.forall₂_cons, ih (Nat.succ.inj h), and_assoc]

/-- Lists match item by item. -/
theorem matches_cons {a b : Value} {as bs : List Value} :
    (list (a :: as)).Matches R (list (b :: bs)) ↔
      a.Matches R b ∧ (list as).Matches R (list bs) := by
  simp only [Matches, shape, numbers, itemShapes, itemNumbers, list.injEq, List.cons.injEq]
  constructor
  · rintro ⟨⟨hshape, hshapes⟩, hnumbers⟩
    obtain ⟨hfirst, hlast⟩ := (forall₂_append_iff (length_numbers_of_shape_eq hshape)).1 hnumbers
    exact ⟨⟨hshape, hfirst⟩, hshapes, hlast⟩
  · rintro ⟨⟨hshape, hfirst⟩, hshapes, hlast⟩
    exact ⟨⟨hshape, hshapes⟩,
      (forall₂_append_iff (length_numbers_of_shape_eq hshape)).2 ⟨hfirst, hlast⟩⟩

/-- Maps match field by field. -/
theorem matches_cons_field {j k : String} {a b : Value} {as bs : List (String × Value)} :
    (map ((j, a) :: as)).Matches R (map ((k, b) :: bs)) ↔
      j = k ∧ a.Matches R b ∧ (map as).Matches R (map bs) := by
  simp only [Matches, shape, numbers, fieldShapes, fieldNumbers, map.injEq, List.cons.injEq,
    Prod.mk.injEq]
  constructor
  · rintro ⟨⟨⟨hname, hshape⟩, hshapes⟩, hnumbers⟩
    obtain ⟨hfirst, hlast⟩ := (forall₂_append_iff (length_numbers_of_shape_eq hshape)).1 hnumbers
    exact ⟨hname, ⟨hshape, hfirst⟩, hshapes, hlast⟩
  · rintro ⟨hname, ⟨hshape, hfirst⟩, hshapes, hlast⟩
    exact ⟨⟨⟨hname, hshape⟩, hshapes⟩,
      (forall₂_append_iff (length_numbers_of_shape_eq hshape)).2 ⟨hfirst, hlast⟩⟩

/-! ### Numbers in pairs -/

/-- Values match by another relation if that holds of their numbers. -/
theorem Matches.imp {S : Number → Number → Prop} {a b : Value} (h : a.Matches R b)
    (himp : ∀ x ∈ a.numbers, ∀ y ∈ b.numbers, R x y → S x y) : a.Matches S b := by
  obtain ⟨hlength, hpairs⟩ := List.forall₂_iff_get.1 h.2
  exact ⟨h.1, List.forall₂_iff_get.2 ⟨hlength, fun i ha hb =>
    himp _ (List.get_mem _ _) _ (List.get_mem _ _) (hpairs i ha hb)⟩⟩

/-- A value matches itself by a relation that is reflexive. -/
theorem Matches.refl {a : Value} (h : ∀ x, R x x) : a.Matches R a :=
  ⟨rfl, List.forall₂_same.2 fun x _ => h x⟩

/-- Values match the other way round by the relation turned round. -/
theorem Matches.symm {S : Number → Number → Prop} {a b : Value} (h : a.Matches R b)
    (himp : ∀ x y, R x y → S y x) : b.Matches S a :=
  ⟨h.1.symm, (h.2.imp himp).flip⟩

/-- Values that match by two relations match by both at once. -/
theorem Matches.and {S : Number → Number → Prop} {a b : Value} (hR : a.Matches R b)
    (hS : a.Matches S b) : a.Matches (fun x y => R x y ∧ S x y) b := by
  obtain ⟨hlength, hRpairs⟩ := List.forall₂_iff_get.1 hR.2
  obtain ⟨-, hSpairs⟩ := List.forall₂_iff_get.1 hS.2
  exact ⟨hR.1, List.forall₂_iff_get.2 ⟨hlength, fun i ha hb =>
    ⟨hRpairs i ha hb, hSpairs i ha hb⟩⟩⟩

/-- Values matched by way of a third match if their numbers do. -/
theorem Matches.trans {S T : Number → Number → Prop} {a b c : Value} (hab : a.Matches R b)
    (hbc : b.Matches S c)
    (himp : ∀ x ∈ a.numbers, ∀ y ∈ b.numbers, ∀ z ∈ c.numbers, R x y → S y z → T x z) :
    a.Matches T c := by
  obtain ⟨habLength, habPairs⟩ := List.forall₂_iff_get.1 hab.2
  obtain ⟨hbcLength, hbcPairs⟩ := List.forall₂_iff_get.1 hbc.2
  refine ⟨hab.1.trans hbc.1, List.forall₂_iff_get.2 ⟨habLength.trans hbcLength, ?_⟩⟩
  intro i ha hc
  have hb : i < b.numbers.length := habLength ▸ ha
  exact himp _ (List.get_mem _ _) _ (List.get_mem _ ⟨i, hb⟩) _ (List.get_mem _ _)
    (habPairs i ha hb) (hbcPairs i hb hc)

/-! ### Fields -/

/-- Fields are found equivalent in a map exactly if it has each of their names, with an equivalent
value. -/
theorem fieldsEquivalent_iff {as bs : List (String × Value)} : fieldsEquivalent as bs = true ↔
    ∀ field ∈ as, ∃ b, bs.lookup field.1 = some b ∧ field.2.equivalent b = true := by
  induction as with
  | nil => simp [fieldsEquivalent]
  | cons field as ih =>
    obtain ⟨name, a⟩ := field
    rw [fieldsEquivalent, Bool.and_eq_true, ih, List.forall_mem_cons]
    cases bs.lookup name <;> simp

/-- A map of as many fields as another, all of which the other has too, has the same names. -/
theorem names_eq_of_fieldsEquivalent {as bs : List (String × Value)}
    (ha : (Fields.names as).Pairwise (· < ·)) (hb : (Fields.names bs).Pairwise (· < ·))
    (hlength : as.length = bs.length) (h : fieldsEquivalent as bs = true) :
    Fields.names as = Fields.names bs := by
  have hsubset : Fields.names as ⊆ Fields.names bs := by
    intro name hname
    obtain ⟨field, hfield, rfl⟩ := List.mem_map.1 hname
    obtain ⟨b, hlookup, -⟩ := fieldsEquivalent_iff.1 h field hfield
    obtain ⟨before, after, rfl, -⟩ := List.lookup_eq_some_iff.1 hlookup
    simp [Fields.names]
  -- Names that increase are different, so that as many as the other map has are all of its names.
  have hperm := (List.Nodup.subperm (ha.imp ne_of_lt) hsubset).perm_of_length_le
    (by simp [Fields.names, hlength])
  exact hperm.eq_of_pairwise' ha hb

/-- Maps are equivalent field by field. -/
theorem fieldsEquivalent_cons_iff {j k : String} {a b : Value} {as bs : List (String × Value)}
    (ha : (Fields.names ((j, a) :: as)).Pairwise (· < ·))
    (hb : (Fields.names ((k, b) :: bs)).Pairwise (· < ·)) :
    (as.length + 1 = bs.length + 1 ∧ fieldsEquivalent ((j, a) :: as) ((k, b) :: bs) = true) ↔
      j = k ∧ a.equivalent b = true ∧ as.length = bs.length ∧ fieldsEquivalent as bs = true := by
  -- The names behind are greater, so that none of them is looked up in the first field.
  have hskip : j = k →
      (fieldsEquivalent as ((k, b) :: bs) = true ↔ fieldsEquivalent as bs = true) := by
    rintro rfl
    rw [fieldsEquivalent_iff, fieldsEquivalent_iff]
    refine forall₂_congr fun field hfield => ?_
    have hname : field.1 ≠ j :=
      ((List.pairwise_cons.1 ha).1 _ (List.mem_map_of_mem hfield)).ne'
    rw [List.lookup_cons, beq_eq_false_iff_ne.2 hname]
  constructor
  · rintro ⟨hlength, h⟩
    have hnames := names_eq_of_fieldsEquivalent ha hb hlength h
    obtain rfl : j = k := (List.cons.inj hnames).1
    rw [fieldsEquivalent, List.lookup_cons_self, Bool.and_eq_true] at h
    exact ⟨rfl, h.1, Nat.succ.inj hlength, (hskip rfl).1 h.2⟩
  · rintro ⟨rfl, hfirst, hlength, hrest⟩
    rw [fieldsEquivalent, List.lookup_cons_self, Bool.and_eq_true]
    exact ⟨congrArg _ hlength, hfirst, (hskip rfl).2 hrest⟩

/-! ### Equivalence -/

mutual

/-- Two values of documents are equivalent if they are alike and their numbers are equivalent in
pairs. -/
theorem equivalent_iff_matches {i j : Nat} : {a b : Value} → a.IsDocument i → b.IsDocument j →
    (a.equivalent b = true ↔ a.Matches (fun x y => x.equivalent y = true) b)
  | null, b, _, _ => by cases b <;> simp [equivalent, Matches, shape, numbers]
  | bool _, b, _, _ => by cases b <;> simp [equivalent, Matches, shape, numbers]
  | string _, b, _, _ => by cases b <;> simp [equivalent, Matches, shape, numbers]
  | number _, b, _, _ => by cases b <;> simp [equivalent, Matches, shape, numbers]
  | list as, b, ha, hb => by
    cases b with
    | list bs =>
      cases i with
      | zero => exact False.elim ha
      | succ i =>
        cases j with
        | zero => exact False.elim hb
        | succ j => exact itemsEquivalent_iff_matches ha hb
    | _ => simp [equivalent, Matches, shape]
  | map as, b, ha, hb => by
    cases b with
    | map bs =>
      cases i with
      | zero => exact False.elim ha
      | succ i =>
        cases j with
        | zero => exact False.elim hb
        | succ j =>
          rw [equivalent, Bool.and_eq_true, beq_iff_eq]
          exact fieldsEquivalent_iff_matches ha.1 hb.1 ha.2 hb.2
    | _ => simp [equivalent, Matches, shape]

/-- Two lists of documents are equivalent if they are alike and their numbers are equivalent in
pairs. -/
theorem itemsEquivalent_iff_matches {i j : Nat} : {as bs : List Value} → AreDocuments i as →
    AreDocuments j bs → (itemsEquivalent as bs = true ↔
      (list as).Matches (fun x y => x.equivalent y = true) (list bs))
  | [], bs, _, _ => by cases bs <;> simp [itemsEquivalent, Matches, shape, itemShapes, numbers,
      itemNumbers]
  | a :: as, [], _, _ => by simp [itemsEquivalent, Matches, shape, itemShapes]
  | a :: as, b :: bs, ha, hb => by
    rw [itemsEquivalent, Bool.and_eq_true, matches_cons, equivalent_iff_matches ha.1 hb.1,
      itemsEquivalent_iff_matches ha.2 hb.2]

/-- Two maps of documents are equivalent if they are alike and their numbers are equivalent in
pairs. -/
theorem fieldsEquivalent_iff_matches {i j : Nat} : {as bs : List (String × Value)} →
    (Fields.names as).Pairwise (· < ·) → (Fields.names bs).Pairwise (· < ·) →
    HoldDocuments i as → HoldDocuments j bs →
    ((as.length = bs.length ∧ fieldsEquivalent as bs = true) ↔
      (map as).Matches (fun x y => x.equivalent y = true) (map bs))
  | [], bs, _, _, _, _ => by cases bs <;> simp [fieldsEquivalent, Matches, shape, fieldShapes,
      numbers, fieldNumbers]
  | (_, a) :: as, [], _, _, _, _ => by simp [Matches, shape, fieldShapes]
  | (_, a) :: as, (_, b) :: bs, hanames, hbnames, ha, hb => by
    rw [List.length_cons, List.length_cons, fieldsEquivalent_cons_iff hanames hbnames,
      matches_cons_field, equivalent_iff_matches ha.1 hb.1,
      fieldsEquivalent_iff_matches (List.pairwise_cons.1 hanames).2
        (List.pairwise_cons.1 hbnames).2 ha.2 hb.2]

end

mutual

/-- The whole numbers in a document have 64 bits. -/
theorem isWord_of_mem_numbers {depth : Nat} : {a : Value} → a.IsDocument depth →
    ∀ n ∈ a.numbers, n.IsWord
  | null, _ | bool _, _ | string _, _ => List.forall_mem_nil _
  | number n, h => by simpa [numbers, IsDocument] using h
  | list items, h => by
    cases depth with
    | zero => exact False.elim h
    | succ depth => exact isWord_of_mem_itemNumbers h
  | map fields, h => by
    cases depth with
    | zero => exact False.elim h
    | succ depth => exact isWord_of_mem_fieldNumbers h.2

/-- The whole numbers in a list of a document have 64 bits. -/
theorem isWord_of_mem_itemNumbers {depth : Nat} : {items : List Value} →
    AreDocuments depth items → ∀ n ∈ itemNumbers items, n.IsWord
  | [], _ => List.forall_mem_nil _
  | item :: rest, h => by
    rw [itemNumbers, List.forall_mem_append]
    exact ⟨isWord_of_mem_numbers h.1, isWord_of_mem_itemNumbers h.2⟩

/-- The whole numbers in a map of a document have 64 bits. -/
theorem isWord_of_mem_fieldNumbers {depth : Nat} : {fields : List (String × Value)} →
    HoldDocuments depth fields → ∀ n ∈ fieldNumbers fields, n.IsWord
  | [], _ => List.forall_mem_nil _
  | (_, value) :: rest, h => by
    rw [fieldNumbers, List.forall_mem_append]
    exact ⟨isWord_of_mem_numbers h.1, isWord_of_mem_fieldNumbers h.2⟩

end

/-! ### Laws -/

/-- A value that some document has. -/
def OfDocument (a : Value) : Prop := ∃ depth, a.IsDocument depth

/-- The whole numbers in a value of a document have 64 bits. -/
theorem OfDocument.isWord {a : Value} (ha : a.OfDocument) : ∀ n ∈ a.numbers, n.IsWord :=
  isWord_of_mem_numbers ha.choose_spec

/-- Two values of documents are equivalent if they match by the equivalence of numbers. -/
theorem OfDocument.equivalent_iff {a b : Value} (ha : a.OfDocument) (hb : b.OfDocument) :
    a.equivalent b = true ↔ a.Matches (fun x y => x.equivalent y = true) b :=
  equivalent_iff_matches ha.choose_spec hb.choose_spec

/-- What equivalence is for three values, and where an answer and the values allowed for it are
compared by it. -/
structure EquivalenceLaws (a b c : Value) (allowed : List Value) : Prop where
  refl : a.equivalent a = true
  comm : a.equivalent b = b.equivalent a
  /-- Values that are alike and have numbers of the same value are equivalent. -/
  of_sameValue : a.Matches Number.SameValue b → a.equivalent b = true
  /-- Equivalent values are alike and have numbers of the same nearest double. -/
  sameDouble : a.equivalent b = true → a.Matches Number.SameDouble b
  /-- Their numbers have the same value, if both of a pair are values of doubles or whole numbers of
  64 signed bits. -/
  sameValue : a.equivalent b = true →
    a.Matches (fun x y => x.IsDouble ∧ y.IsDouble ∨ x.IsSigned ∧ y.IsSigned) b →
    a.Matches Number.SameValue b
  /-- Two whole numbers are equivalent if they are one, or if they are not both of 64 signed bits
  and have one nearest double. -/
  whole : ∀ m n, a = int m → b = int n → (a.equivalent b = true ↔
    m = n ∨ ¬ (inInt64 m = true ∧ inInt64 n = true) ∧
      (Binary64.ofInt m).units = (Binary64.ofInt n).units)
  /-- Values that are equivalent to one are so to each other, but for different whole numbers of 64
  signed bits in them, -/
  trans_iff : a.equivalent b = true → b.equivalent c = true →
    (a.equivalent c = true ↔ a.Matches (fun x z => x.IsSigned → z.IsSigned → x = z) c)
  /-- and there are none if the one has only such numbers, or the two only values of doubles. -/
  trans : a.equivalent b = true → b.equivalent c = true →
    (∀ n ∈ b.numbers, n.IsSigned) ∨ (∀ n ∈ a.numbers ++ c.numbers, n.IsDouble) →
    a.equivalent c = true
  eq : Condition.compareValues .eq a b = .ok (a.equivalent b)
  ne : Condition.compareValues .ne a b = .ok (!a.equivalent b)
  member : Condition.compareValues .member a (list allowed) = .ok (allowed.any a.equivalent)
  notMember : Condition.compareValues .notMember a (list allowed) =
    .ok (!allowed.any a.equivalent)
  /-- An answer that is equivalent to an allowed one is treated as where all are allowed, any other
  is refused. -/
  answer : ∀ (node : Node) (prompt : String), node.acceptInput ⟨prompt, some allowed⟩ a =
    if allowed.any a.equivalent then node.acceptInput ⟨prompt, none⟩ a
    else .error (.invalidResume
      s!"{Json.compact a} is not one of the allowed options for '{node.name}'")

section

variable {a b c : Value} (ha : a.OfDocument) (hb : b.OfDocument) (hc : c.OfDocument)

include ha hb

/-- The equivalence of values of documents is symmetric. -/
theorem equivalent_comm : a.equivalent b = b.equivalent a := by
  rw [Bool.eq_iff_iff, ha.equivalent_iff hb, hb.equivalent_iff ha]
  constructor <;>
    exact fun h => h.symm fun x y hxy => by rwa [Number.equivalent_comm]

/-- Values that are alike, with numbers of one value in pairs, are equivalent. -/
theorem equivalent_of_sameValue (h : a.Matches Number.SameValue b) : a.equivalent b = true :=
  (ha.equivalent_iff hb).2 (h.imp fun x hx y hy hxy =>
    hxy.equivalent (ha.isWord x hx) (hb.isWord y hy))

/-- Equivalent values are alike, with numbers of one nearest double in pairs. -/
theorem sameDouble_of_equivalent (h : a.equivalent b = true) : a.Matches Number.SameDouble b :=
  ((ha.equivalent_iff hb).1 h).imp fun _ _ _ _ => Number.sameDouble_of_equivalent

/-- Where all pairs of numbers are doubles, or whole numbers of 64 signed bits, equivalent values
have numbers of one value. -/
theorem sameValue_of_equivalent (h : a.equivalent b = true)
    (hnumbers : a.Matches (fun x y => x.IsDouble ∧ y.IsDouble ∨ x.IsSigned ∧ y.IsSigned) b) :
    a.Matches Number.SameValue b := by
  refine (((ha.equivalent_iff hb).1 h).and hnumbers).imp fun x _ y _ hxy => ?_
  obtain ⟨hequivalent, ⟨hx, hy⟩ | ⟨hx, hy⟩⟩ := hxy
  · exact (Number.sameDouble_of_equivalent hequivalent).sameValue hx hy
  · exact congrArg Number.units (Number.eq_of_equivalent hx hy hequivalent)

include hc

/-- Values that are equivalent to one are so to each other, unless they have two different whole
numbers of 64 signed bits in one place. -/
theorem equivalent_trans_iff (hab : a.equivalent b = true) (hbc : b.equivalent c = true) :
    a.equivalent c = true ↔ a.Matches (fun x z => x.IsSigned → z.IsSigned → x = z) c := by
  rw [ha.equivalent_iff hc]
  constructor
  · exact fun h => h.imp fun x _ z _ hxz hx hz => Number.eq_of_equivalent hx hz hxz
  · intro h
    -- The numbers of `b` are forgotten but for standing between those of `a` and `c`.
    have hmiddle : a.Matches (fun x z => ∃ y : Number, x.equivalent y = true ∧
        y.equivalent z = true) c :=
      ((ha.equivalent_iff hb).1 hab).trans ((hb.equivalent_iff hc).1 hbc)
        fun x _ y _ z _ hxy hyz => ⟨y, hxy, hyz⟩
    exact (hmiddle.and h).imp fun x _ z _ ⟨⟨y, hxy, hyz⟩, heq⟩ =>
      (Number.equivalent_trans_iff hxy hyz).2 heq

/-- The equivalence of values is transitive by way of whole numbers of 64 signed bits, and between
doubles. -/
theorem equivalent_trans (hab : a.equivalent b = true) (hbc : b.equivalent c = true)
    (hnumbers : (∀ n ∈ b.numbers, n.IsSigned) ∨ ∀ n ∈ a.numbers ++ c.numbers, n.IsDouble) :
    a.equivalent c = true := by
  refine (ha.equivalent_iff hc).2 (((ha.equivalent_iff hb).1 hab).trans
    ((hb.equivalent_iff hc).1 hbc) fun x hx y hy z hz hxy hyz => ?_)
  rw [List.forall_mem_append] at hnumbers
  exact Number.equivalent_trans hxy hyz
    (hnumbers.imp (fun h => h y hy) fun h => ⟨h.1 x hx, h.2 z hz⟩)

end

/-- A value is one of those that are allowed on whichever side of the comparison it stands. -/
theorem any_equivalent_comm {a : Value} (ha : a.OfDocument) {allowed : List Value}
    (hallowed : ∀ value ∈ allowed, value.OfDocument) :
    (allowed.any fun value => value.equivalent a) = allowed.any a.equivalent := by
  rw [Bool.eq_iff_iff, List.any_eq_true, List.any_eq_true]
  exact exists_congr fun value => and_congr_right fun hvalue => by
    rw [equivalent_comm ha (hallowed value hvalue)]

/-- Equivalence is reflexive and symmetric, and lies between equality by value and equality of the
nearest doubles. Conditions and the check of an answer compare by it. -/
theorem equivalence_laws {a b c : Value} (ha : a.OfDocument) (hb : b.OfDocument)
    (hc : c.OfDocument) {allowed : List Value} (hallowed : ∀ value ∈ allowed, value.OfDocument) :
    EquivalenceLaws a b c allowed where
  refl := equivalent_of_sameValue ha ha (.refl fun _ => rfl)
  comm := equivalent_comm ha hb
  of_sameValue := equivalent_of_sameValue ha hb
  sameDouble := sameDouble_of_equivalent ha hb
  sameValue := sameValue_of_equivalent ha hb
  -- A number is equivalent to itself by either way of comparing, so that the cases are exhaustive.
  whole := by
    rintro m n rfl rfl
    rw [equivalent, Number.equivalent_iff]
    simp only [Number.IsSigned, Number.SameDouble, Number.toBinary, Number.int.injEq]
    constructor
    · exact Or.imp (fun h => h.2.2) id
    · rintro (rfl | h)
      · by_cases hsigned : inInt64 m = true ∧ inInt64 m = true
        · exact .inl ⟨hsigned.1, hsigned.2, rfl⟩
        · exact .inr ⟨hsigned, rfl⟩
      · exact .inr h
  trans_iff := equivalent_trans_iff ha hb hc
  trans := equivalent_trans ha hb hc
  eq := rfl
  ne := rfl
  member := congrArg Except.ok (any_equivalent_comm ha hallowed)
  notMember := congrArg (fun found => Except.ok !found) (any_equivalent_comm ha hallowed)
  answer node prompt := by
    rw [Node.acceptInput, Node.acceptInput]
    simp only [any_equivalent_comm ha hallowed]
    cases allowed.any a.equivalent <;> simp

end Value

/-! ## Samples -/

namespace Sample.Comparing

open Value

/-- The double of the value one. -/
def one : Binary64 := ⟨false, 4503599627370496, -52, by decide⟩

/-- The double of the value one half. -/
def half : Binary64 := ⟨false, 4503599627370496, -53, by decide⟩

/-- A document that has its ones as whole numbers. -/
def counted : Value := map [("count", int 1), ("marks", list [float half, int 1])]

/-- The same document, with doubles in place of the whole numbers. -/
def measured : Value := map [("count", float one), ("marks", list [float half, float one])]

/-- The same document, with a double in place of the second whole number only. -/
def mixed : Value := map [("count", int 1), ("marks", list [float half, float one])]

/-- One is a word. -/
theorem isWord_one : (Number.int 1).IsWord := ⟨by decide, by decide⟩

/-- The first value is of a document. -/
theorem ofDocument_counted : counted.OfDocument :=
  ⟨2, by decide, isWord_one, ⟨trivial, isWord_one, trivial⟩, trivial⟩

/-- The second value is of a document. -/
theorem ofDocument_measured : measured.OfDocument :=
  ⟨2, by decide, trivial, ⟨trivial, trivial, trivial⟩, trivial⟩

/-- The third value is of a document. -/
theorem ofDocument_mixed : mixed.OfDocument :=
  ⟨2, by decide, isWord_one, ⟨trivial, trivial, trivial⟩, trivial⟩

/-- Whole numbers and doubles of one value are equivalent wherever they stand. -/
theorem laws_counted : (counted.OfDocument ∧ measured.OfDocument ∧ mixed.OfDocument ∧
      ∀ value ∈ [null, mixed], value.OfDocument) ∧
    EquivalenceLaws counted measured mixed [null, mixed] ∧
    counted.equivalent measured = true ∧ measured.equivalent mixed = true ∧
    (∀ n ∈ counted.numbers ++ mixed.numbers, n.IsDouble) ∧ counted.equivalent mixed = true := by
  have hallowed : ∀ value ∈ [null, mixed], value.OfDocument := by
    simp only [List.forall_mem_cons]
    exact ⟨⟨0, trivial⟩, ofDocument_mixed, List.forall_mem_nil _⟩
  have hlaws := equivalence_laws ofDocument_counted ofDocument_measured ofDocument_mixed hallowed
  have hfirst : counted.equivalent measured = true := by decide +kernel
  have hlast : measured.equivalent mixed = true := by decide +kernel
  have hone : (Number.int 1).IsDouble := Number.isDouble_int (by decide)
  have hdouble : ∀ n ∈ counted.numbers ++ mixed.numbers, n.IsDouble := by
    simp only [counted, mixed, numbers, fieldNumbers, itemNumbers, List.append_nil,
      List.cons_append, List.nil_append, List.forall_mem_cons]
    exact ⟨hone, rfl, hone, hone, rfl, rfl, List.forall_mem_nil _⟩
  exact ⟨⟨ofDocument_counted, ofDocument_measured, ofDocument_mixed, hallowed⟩, hlaws, hfirst,
    hlast, hdouble, hlaws.trans hfirst hlast (.inr hdouble)⟩

/-- Two whole numbers of 64 unsigned bits are equivalent, but are not one. And a double is
equivalent to two whole numbers that are not equivalent. -/
theorem equivalent_not_same :
    ((int 18446744073709551615).OfDocument ∧ (int 18446744073709551614).OfDocument ∧
      (18446744073709551615 : Int) ≠ 18446744073709551614 ∧
      (int 18446744073709551615).equivalent (int 18446744073709551614) = true) ∧
    (int 9007199254740993).OfDocument ∧ (int 9007199254740992).OfDocument ∧
      (int 9007199254740993).equivalent (float ⟨false, 4503599627370496, 1, by decide⟩) = true ∧
      (float ⟨false, 4503599627370496, 1, by decide⟩).equivalent (int 9007199254740992) = true ∧
      (int 9007199254740993).equivalent (int 9007199254740992) = false := by
  have hof : ∀ n : Int, -(twoPow 63 : Int) ≤ n ∧ n < twoPow 64 → (int n).OfDocument :=
    fun _ h => ⟨0, h⟩
  refine ⟨⟨hof _ (by decide +kernel), hof _ (by decide +kernel), by decide, ?_⟩,
    hof _ (by decide +kernel), hof _ (by decide +kernel), ?_, ?_, ?_⟩ <;> decide +kernel

end Sample.Comparing

end AgentFlow
