import AgentFlow.Condition.Basic
import AgentFlow.Proofs.Parsing
import AgentFlow.Proofs.TokenText

/-!
# Items of lists

Templates and conditions take the items of a list by the same rule: of `n` items, the one at `k` has
the indexes `k` and `k - n` (`itemAt?_eq_getElem`), and there are no other indexes
(`isSome_itemAt?_iff`). The rule is stated on whole numbers. In words of 64 bits it comes to the
same: as long as a list has less than `2 ^ 63` items, every number on the way to an item is a word,
whatever the index (`itemInWords?_eq`). An index is written alike in both languages and read from
either text as the same number (`indexesAlike`). Only a word that means something in conditions is
the name of a variable in templates alone.
-/

namespace AgentFlow

variable {items : List Value} {i : Int}

/-! ## The rule -/

/-- An index from zero counts from the start of the list. -/
theorem itemAt?_of_nonneg (h : 0 ≤ i) : itemAt? items i = items[i.toNat]? := by
  unfold itemAt?
  dsimp only
  rw [if_neg (not_lt.2 h), if_neg (not_lt.2 h)]

/-- A negative index counts from the end of the list, and has no item before its start. -/
theorem itemAt?_of_neg (h : i < 0) : itemAt? items i =
    if items.length + i < 0 then none else items[(items.length + i).toNat]? := by
  unfold itemAt?
  dsimp only
  rw [if_pos h]

/-- Each item has an index that counts from the start and one that counts from the end. -/
theorem itemAt?_eq_getElem {k : Nat} (hk : k < items.length)
    (h : i = k ∨ i = k - items.length) : itemAt? items i = some items[k] := by
  obtain rfl | rfl := h
  · rw [itemAt?_of_nonneg (Int.natCast_nonneg k), Int.toNat_natCast]
    exact List.getElem?_eq_getElem hk
  · have hplace : (items.length + (k - items.length) : Int) = k := by omega
    rw [itemAt?_of_neg (by omega), hplace, if_neg (by omega), Int.toNat_natCast]
    exact List.getElem?_eq_getElem hk

/-- An index has an item exactly if it does not go past either end of the list. -/
theorem isSome_itemAt?_iff :
    (itemAt? items i).isSome ↔ -(items.length : Int) ≤ i ∧ i < items.length := by
  obtain hneg | hnonneg := lt_or_ge i 0
  · rw [itemAt?_of_neg hneg]
    split_ifs with hbefore
    · refine iff_of_false nofun ?_
      omega
    · rw [isSome_getElem?]
      omega
  · rw [itemAt?_of_nonneg hnonneg, isSome_getElem?]
    omega

/-! ## In words of 64 bits -/

/-- A number of items as a word, if it is one. -/
def wordOf? (n : Nat) : Option Int64 := if n < 2 ^ 63 then some (.ofNat n) else none

/-- The sum of two words, if it is a word. -/
def addWords? (a b : Int64) : Option Int64 :=
  if a.toBitVec.saddOverflow b.toBitVec then none else some (a + b)

/-- The item at an index, computed in words alone; there is no result where a number is no word. -/
def itemInWords? (items : List Value) (index : Int64) : Option (Option Value) := do
  let size ← wordOf? items.length
  let place ← if index < 0 then addWords? size index else some index
  return if place < 0 ∨ size ≤ place then none else items[place.toInt.toNat]?

/-- A negative word and one that is not have a sum that is a word. -/
theorem exists_addWords? {a b : Int64} (ha : 0 ≤ a.toInt) (hb : b.toInt < 0) :
    ∃ sum, addWords? a b = some sum ∧ sum.toInt = a.toInt + b.toInt := by
  have hlow := b.le_toInt
  have hhigh := a.toInt_lt
  have hsum : ¬ a.toBitVec.saddOverflow b.toBitVec = true := by
    simp only [BitVec.saddOverflow, Int64.toInt_toBitVec, Bool.or_eq_true, decide_eq_true_eq]
    omega
  refine ⟨a + b, if_neg hsum, ?_⟩
  have hadd := BitVec.toInt_add_of_not_saddOverflow hsum
  rwa [← Int64.toBitVec_add, Int64.toInt_toBitVec, Int64.toInt_toBitVec,
    Int64.toInt_toBitVec] at hadd

/-- In a list that has less than `2 ^ 63` items, words are enough for every index. -/
theorem itemInWords?_eq (h : items.length < 2 ^ 63) (index : Int64) :
    itemInWords? items index = some (itemAt? items index.toInt) := by
  have hword : wordOf? items.length = some (.ofNat items.length) := if_pos h
  have hsize : (Int64.ofNat items.length).toInt = items.length := Int64.toInt_ofNat_of_lt h
  have hneg : ∀ word : Int64, word < 0 ↔ word.toInt < 0 := fun word => by
    rw [Int64.lt_iff_toInt_lt, Int64.toInt_zero]
  generalize Int64.ofNat items.length = size at hword hsize
  unfold itemInWords?
  rw [hword, Option.bind_eq_bind, Option.bind_some]
  obtain hindex | hindex := lt_or_ge index.toInt 0
  · obtain ⟨place, hplace, hsum⟩ := exists_addWords? (a := size) (by omega) hindex
    rw [hsize] at hsum
    have hbound : ¬ size ≤ place := by
      rw [Int64.le_iff_toInt_le]
      omega
    rw [if_pos ((hneg index).2 hindex), hplace, itemAt?_of_neg hindex, ← hsum]
    simp only [Option.bind_some, hneg, hbound, or_false, Option.pure_def]
  · rw [if_neg (by rw [hneg]; omega), itemAt?_of_nonneg hindex]
    simp only [Option.bind_some, Option.pure_def, Option.some.injEq]
    split_ifs with hout
    · refine (List.getElem?_eq_none ?_).symm
      rw [hneg, Int64.le_iff_toInt_le] at hout
      omega
    · rfl

/-- The least word is an index of no list. -/
example : itemInWords? [.null, .bool true] Int64.minValue = some none ∧
    itemInWords? [.null, .bool true] (-1) = some (some (.bool true)) := by decide

/-! ## Reading an item -/

variable {vars : Lookup} {name : String} {value : Value}

/-- A template finds a value at an index of a variable exactly if that is a list with the value
there. -/
theorem Template.resolve_eq_ok_iff : resolve vars name (some i) = .ok value ↔
    ∃ items, vars name = some (.list items) ∧ itemAt? items i = some value := by
  unfold resolve
  cases vars name with
  | none => exact iff_of_false nofun fun ⟨_, h, _⟩ => nomatch h
  | some found =>
    cases found with
    | list items =>
      dsimp only [Value.list?]
      rw [Option.bind_some]
      cases hitem : itemAt? items i <;> simp [hitem]
    | _ => simp [Value.list?]

/-- In a list, an item is all that can be found. -/
theorem Template.toOption_resolve (hvars : vars name = some (.list items)) :
    (resolve vars name (some i)).toOption = itemAt? items i := by
  unfold resolve
  rw [hvars]
  dsimp only [Value.list?]
  rw [Option.bind_some]
  cases itemAt? items i <;> rfl

/-- A condition finds a value at an index of a variable exactly if that is a list with the value
there. -/
theorem Condition.eval_path_eq_ok_iff : eval vars (.path name [.index i]) = .ok value ↔
    ∃ items, vars name = some (.list items) ∧ itemAt? items i = some value := by
  unfold eval
  cases vars name with
  | none => exact iff_of_false nofun fun ⟨_, h, _⟩ => nomatch h
  | some found =>
    cases found with
    | list items =>
      simp only [follow]
      cases hitem : itemAt? items i <;> simp [hitem]
    | _ => simp [follow]

/-! ## Indexes in texts -/

/-- A variable with an index, as it is written. -/
def indexed (name : String) (i : Int) : String := name ++ "[" ++ integerText i ++ "]"

/-- A template that is a variable with an index, in braces, is a lone reference. -/
theorem Template.interpolateText_indexed (vars : Lookup) (hname : IsIdentifier name.toList)
    (hi : inInt64 i = true) :
    interpolateText vars ("\x7b" ++ indexed name i ++ "\x7d") = resolve vars name (some i) := by
  have hindex : ∀ j ∈ some i, inInt64 j = true := by
    rintro _ ⟨⟩
    exact hi
  have htext : "\x7b" ++ indexed name i ++ "\x7d" = (Reference.to name (some i)).text := by
    simp [indexed, Reference.to, Reference.text, String.append_assoc]
  have hpieces : pieces (Reference.to name (some i)).text =
      [.reference (Reference.to name (some i))] := by
    have hscan := scan_text (Reference.to_wellFormed hname (some i)) []
    rwa [List.append_nil, ← pieces_eq_scan] at hscan
  rw [htext, interpolateText, hpieces]
  exact Reference.resolve_to vars name hindex

namespace Condition

/-- No blanks are needed between a variable, its index and the brackets. -/
theorem tokens_indexed (hname : Template.IsIdentifier name.toList) (hi : inInt64 i = true) :
    tokens (indexed name i).toList = .ok [.ident name, .openBracket, .int i, .closeBracket] := by
  have hident : IsRead none name.toList ('[' :: ((integerText i).toList ++ [']'])) (.ident name) :=
    isRead_ident hname (by rintro _ ⟨⟩; decide)
  have hopen : IsRead (some (.ident name)) ['['] ((integerText i).toList ++ [']']) .openBracket :=
    ⟨'[', [], rfl, by decide, rfl⟩
  have hindex : IsRead (some .openBracket) (integerText i).toList [']'] (.int i) :=
    isRead_int hi (fun _ => rfl) (by rintro _ ⟨⟩; decide)
  have hclose : IsRead (some (.int i)) [']'] [] .closeBracket := ⟨']', [], rfl, by decide, rfl⟩
  have htext : (indexed name i).toList =
      name.toList ++ ('[' :: ((integerText i).toList ++ [']'])) := by
    simp [indexed]
  obtain ⟨steps, hsteps, hname⟩ := hident.lex le_rfl
  obtain ⟨steps, hsteps, hbracket⟩ := hopen.lex hsteps
  obtain ⟨steps, hsteps, hnumber⟩ := hindex.lex hsteps
  obtain ⟨steps, hsteps, hend⟩ := hclose.lex hsteps
  rw [List.append_nil] at hend
  rw [List.singleton_append] at hbracket
  rw [tokens, htext, hname, hbracket, hnumber, hend]
  cases steps <;> rfl

/-- A variable with an index in brackets is read as a path of that one step. -/
theorem parseText_indexed (hname : Template.IsIdentifier name.toList)
    (hreserved : name ∉ reservedWords) (hi : inInt64 i = true) :
    parseText (indexed name i) = .ok (.path name [.index i]) := by
  rw [parseText_of_tokens (tokens_indexed hname hi)]
  exact parse_eq_ok_iff.2 <| .conjunction <| .negation <| .comparison <| .operand <|
    .path hreserved (.index i .none)

end Condition

/-! ## Templates and conditions -/

/-- What a template and a condition find at an index of a variable. -/
structure IndexesAlike (vars : Lookup) (name : String) (index : Int64) : Prop where
  /-- They find the same value, or neither finds one. -/
  alike : ∀ value, Template.resolve vars name (some index.toInt) = .ok value ↔
    Condition.eval vars (.path name [.index index.toInt]) = .ok value
  /-- They find one if the variable holds a list and the index is one of its indexes. -/
  finds : (∃ value, Template.resolve vars name (some index.toInt) = .ok value) ↔
    ∃ items, vars name = some (.list items) ∧
      -(items.length : Int) ≤ index.toInt ∧ index.toInt < items.length
  /-- An index counts from the start, or from the end if it is negative. -/
  item : ∀ items, vars name = some (.list items) → ∀ (k : Nat) (hk : k < items.length),
    index.toInt = k ∨ index.toInt = k - items.length →
      Template.resolve vars name (some index.toInt) = .ok items[k]
  /-- No number outside of 64 bits is needed to find it. -/
  words : ∀ items, vars name = some (.list items) → items.length < 2 ^ 63 →
    itemInWords? items index = some (Template.resolve vars name (some index.toInt)).toOption
  /-- It is what the text of the reference is filled in with. -/
  filled : Template.IsIdentifier name.toList →
    Template.interpolateValue vars (.string ("\x7b" ++ indexed name index.toInt ++ "\x7d")) =
      Template.resolve vars name (some index.toInt)
  /-- The text of the path, which reads alike, is a condition. -/
  parsed : Template.IsIdentifier name.toList → name ∉ Condition.reservedWords →
    Condition.parseText (indexed name index.toInt) = .ok (.path name [.index index.toInt])

/-- The value of a word has 64 signed bits. -/
theorem inInt64_toInt (index : Int64) : inInt64 index.toInt = true :=
  (inInt64_iff _).2 ⟨index.le_toInt, index.toInt_lt⟩

/-- Templates and conditions take the items of a list alike, whatever the variable holds and
whatever the index. -/
theorem indexesAlike (vars : Lookup) (name : String) (index : Int64) :
    IndexesAlike vars name index where
  alike value := Template.resolve_eq_ok_iff.trans Condition.eval_path_eq_ok_iff.symm
  finds := by
    simp only [Template.resolve_eq_ok_iff, ← isSome_itemAt?_iff, Option.isSome_iff_exists]
    exact ⟨fun ⟨value, items, hvars, hitem⟩ => ⟨items, hvars, value, hitem⟩,
      fun ⟨items, hvars, value, hitem⟩ => ⟨value, items, hvars, hitem⟩⟩
  item items hvars k hk hindex :=
    Template.resolve_eq_ok_iff.2 ⟨items, hvars, itemAt?_eq_getElem hk hindex⟩
  words items hvars hlength := by
    rw [itemInWords?_eq hlength, Template.toOption_resolve hvars]
  filled hname := Template.interpolateText_indexed vars hname (inInt64_toInt index)
  parsed hname hreserved := Condition.parseText_indexed hname hreserved (inInt64_toInt index)

end AgentFlow
