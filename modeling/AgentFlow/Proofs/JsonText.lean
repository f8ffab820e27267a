import Mathlib.Data.String.Basic
import AgentFlow.Proofs.Numerals

/-!
# Documents are read back

The compact text of a value is read as the value, but for what becomes of its doubles
(`Value.reread`), if it is a document: its whole numbers have 64 bits, and the names of its maps
increase (`Value.IsDocument`). All the reader needs besides is that the value is not nested too
deeply.
-/

namespace AgentFlow

namespace Json

/-! ## Strings -/

/-- A control character is read back from its number. -/
theorem hexValue4?_control : ∀ n < 32,
    hexValue4? '0' '0' (hexDigit (n / 16)) (hexDigit n) = some n := by
  decide

/-- A character is read back from how it is written in a string. -/
theorem stringBody_escapeChar (c : Char) (rest : List Char) :
    stringBody (escapeChar c ++ rest) = before c (stringBody rest) := by
  unfold escapeChar
  split_ifs with hquote hslash hnewline hreturn htab hbackspace hfeed hcontrol
  · subst hquote
    simp [stringBody, simpleEscape?]
  · subst hslash
    simp [stringBody, simpleEscape?]
  · subst hnewline
    simp [stringBody, simpleEscape?]
  · subst hreturn
    simp [stringBody, simpleEscape?]
  · subst htab
    simp [stringBody, simpleEscape?]
  · subst hbackspace
    simp [stringBody, simpleEscape?]
  · subst hfeed
    simp [stringBody, simpleEscape?]
  · -- A control character is written by its number, which is no half of a surrogate pair.
    have hvalue := hexValue4?_control c.toNat hcontrol
    have hnotLow : ¬ (0xDC00 ≤ c.toNat ∧ c.toNat ≤ 0xDFFF) := by omega
    have hnotHigh : ¬ (0xD800 ≤ c.toNat ∧ c.toNat ≤ 0xDBFF) := by omega
    simp only [List.cons_append, List.nil_append, stringBody, hvalue]
    rw [if_neg hnotLow, if_neg hnotHigh, Char.ofNat_toNat]
  · rw [List.singleton_append, stringBody.eq_def]
    split <;> simp_all

/-- A string is read back character by character, up to its closing quote. -/
theorem stringBody_escaped (text rest : List Char) :
    stringBody (text.flatMap escapeChar ++ '"' :: rest) = .ok (text, rest) := by
  induction text with
  | nil => rw [List.flatMap_nil, List.nil_append, stringBody]
  | cons c text ih =>
    rw [List.flatMap_cons, List.append_assoc, stringBody_escapeChar, ih]
    rfl

/-- A string is read back, behind its opening quote. -/
theorem stringText_quoted (s : String) (rest : List Char) :
    ∃ text, quoted s ++ rest = '"' :: text ∧ stringText text = .ok (s, rest) := by
  refine ⟨s.toList.flatMap escapeChar ++ '"' :: rest, by simp [quoted], ?_⟩
  rw [stringText, stringBody_escaped]
  exact congrArg (fun s => Except.ok (s, rest)) String.ofList_toList

/-! ## One step of the reader -/

variable {steps depth : Nat} {text rest : List Char}

/-- The word `null` is read as null. -/
theorem value_null :
    value (steps + 1) depth ('n' :: 'u' :: 'l' :: 'l' :: rest) = .ok (.null, rest) := by
  simp [value, skipBlanks, isJsonBlank, word]

/-- The word `true` is read as a truth value. -/
theorem value_true :
    value (steps + 1) depth ('t' :: 'r' :: 'u' :: 'e' :: rest) = .ok (.bool true, rest) := by
  simp [value, skipBlanks, isJsonBlank, word]

/-- The word `false` is read as a truth value. -/
theorem value_false :
    value (steps + 1) depth ('f' :: 'a' :: 'l' :: 's' :: 'e' :: rest) =
      .ok (.bool false, rest) := by
  simp [value, skipBlanks, isJsonBlank, word]

/-- A value that starts with a quote is a string. -/
theorem value_quote : value (steps + 1) depth ('"' :: text) =
    (stringText text).map fun (s, rest) => (.string s, rest) := by
  simp [value, skipBlanks, isJsonBlank]

/-- A value that starts with a minus is a negative number. -/
theorem value_minus : value (steps + 1) depth ('-' :: text) = number true text := by
  simp [value, skipBlanks, isJsonBlank]

/-- Nothing is skipped in front of a character that is not blank. -/
theorem skipBlanks_cons {c : Char} (hc : isJsonBlank c = false) :
    skipBlanks (c :: text) = c :: text :=
  List.dropWhile_cons_of_neg (by simp [hc])

/-- No digit is blank. -/
theorem isJsonBlank_of_isDigit {c : Char} (hc : c.isDigit = true) : isJsonBlank c = false := by
  rw [Bool.eq_false_iff]
  intro hblank
  simp only [isJsonBlank, Bool.or_eq_true, decide_eq_true_eq] at hblank
  rcases hblank with ((rfl | rfl) | rfl) | rfl <;> cases hc

/-- A value that starts with a digit is a number. -/
theorem value_digit {c : Char} (hc : c.isDigit = true) :
    value (steps + 1) depth (c :: text) = number false (c :: text) := by
  rw [value, skipBlanks_cons (isJsonBlank_of_isDigit hc)]
  split <;> simp_all

/-- A value that starts with a bracket is a list, one container deep. -/
theorem value_bracket : value (steps + 1) (depth + 1) ('[' :: text) =
    (items steps depth true text).map fun (vs, rest) => (.list vs, rest) := by
  simp [value, skipBlanks, isJsonBlank]

/-- A value that starts with a brace is a map, one container deep. -/
theorem value_brace : value (steps + 1) (depth + 1) ('\x7b' :: text) =
    (fields steps depth true text).map fun (fs, rest) => (.map (Fields.ofList fs), rest) := by
  simp [value, skipBlanks, isJsonBlank]

/-- A text in front of which nothing is skipped, and that is not the end of a list. -/
def StartsItem (text : List Char) : Prop :=
  ∃ c more, text = c :: more ∧ isJsonBlank c = false ∧ c ≠ ']'

/-- The items of a list end with its closing bracket. -/
theorem items_end {first : Bool} :
    items (steps + 1) depth first (']' :: rest) = .ok ([], rest) := by
  simp [items, skipBlanks, isJsonBlank]

/-- The first item of a list stands without a comma. -/
theorem items_first (h : StartsItem text) : items (steps + 1) depth true text = (do
    let (v, rest) ← value steps depth text
    let (vs, rest) ← items steps depth false rest
    return (v :: vs, rest)) := by
  obtain ⟨c, more, rfl, hblank, hend⟩ := h
  rw [items, skipBlanks_cons hblank]
  split <;> simp_all

/-- Behind another item, an item stands after a comma. -/
theorem items_comma (h : StartsItem text) : items (steps + 1) depth false (',' :: text) = (do
    let (v, rest) ← value steps depth text
    let (vs, rest) ← items steps depth false rest
    return (v :: vs, rest)) := by
  obtain ⟨c, more, rfl, hblank, hend⟩ := h
  have hcomma : skipBlanks (',' :: c :: more) = ',' :: c :: more := skipBlanks_cons rfl
  rw [items, hcomma]
  split
  · simp_all
  · simp_all
  · rename_i comma text _ heq
    obtain ⟨rfl, rfl⟩ := List.cons.inj heq
    simp only [Bool.false_eq_true, if_false, if_true, skipBlanks_cons hblank]
    split <;> simp_all

/-- The fields of a map end with its closing brace. -/
theorem fields_end {first : Bool} :
    fields (steps + 1) depth first ('\x7d' :: rest) = .ok ([], rest) := by
  simp [fields, skipBlanks, isJsonBlank]

/-- A field is its name, a colon and its value. -/
theorem fields_first {name : String} (h : stringText text = .ok (name, ':' :: rest)) :
    fields (steps + 1) depth true ('"' :: text) = (do
      let (v, rest) ← value steps depth rest
      let (fs, rest) ← fields steps depth false rest
      return ((name, v) :: fs, rest)) := by
  have hquote : skipBlanks ('"' :: text) = '"' :: text := skipBlanks_cons rfl
  have hcolon : skipBlanks (':' :: rest) = ':' :: rest := skipBlanks_cons rfl
  simp [fields, hquote, h, hcolon, bind, Except.bind]

/-- Behind another field, a field stands after a comma. -/
theorem fields_comma {name : String} (h : stringText text = .ok (name, ':' :: rest)) :
    fields (steps + 1) depth false (',' :: '"' :: text) = (do
      let (v, rest) ← value steps depth rest
      let (fs, rest) ← fields steps depth false rest
      return ((name, v) :: fs, rest)) := by
  have hcomma : skipBlanks (',' :: '"' :: text) = ',' :: '"' :: text := skipBlanks_cons rfl
  have hquote : skipBlanks ('"' :: text) = '"' :: text := skipBlanks_cons rfl
  have hcolon : skipBlanks (':' :: rest) = ':' :: rest := skipBlanks_cons rfl
  simp [fields, hcomma, hquote, h, hcolon, bind, Except.bind]

end Json

/-! ## Documents -/

namespace Value

mutual

/-- A value that a document can have, at most `depth` containers deep: its whole numbers have 64
bits, and the names of its maps increase. -/
def IsDocument : Nat → Value → Prop
  | _, null | _, bool _ | _, string _ => True
  | _, number n => n.IsWord
  | 0, list _ | 0, map _ => False
  | depth + 1, list items => AreDocuments depth items
  | depth + 1, map fields =>
    (Fields.names fields).Pairwise (· < ·) ∧ HoldDocuments depth fields

/-- Values that the items of a document can be, at most `depth` containers deep. -/
def AreDocuments : Nat → List Value → Prop
  | _, [] => True
  | depth, item :: rest => item.IsDocument depth ∧ AreDocuments depth rest

/-- Fields with values that a document can have, at most `depth` containers deep. -/
def HoldDocuments : Nat → List (String × Value) → Prop
  | _, [] => True
  | depth, (_, value) :: rest => value.IsDocument depth ∧ HoldDocuments depth rest

end

mutual

/-- What a value is read as from its text. -/
def reread : Value → Value
  | number n => number n.reread
  | list items => list (rereadItems items)
  | map fields => map (rereadFields fields)
  | value => value

/-- The items that are read from the text of a list. -/
def rereadItems : List Value → List Value
  | [] => []
  | item :: rest => item.reread :: rereadItems rest

/-- The fields that are read from the text of a map. -/
def rereadFields : List (String × Value) → List (String × Value)
  | [] => []
  | (name, value) :: rest => (name, value.reread) :: rereadFields rest

end

/-- The names of fields are read back. -/
theorem names_rereadFields (fields : List (String × Value)) :
    Fields.names (rereadFields fields) = Fields.names fields := by
  induction fields with
  | nil => rfl
  | cons field rest ih => exact congrArg (List.cons field.1) ih

/-- What is read for a name is what the value of that name is read as. -/
theorem lookup_rereadFields (fields : List (String × Value)) (name : String) :
    (rereadFields fields).lookup name = (fields.lookup name).map reread := by
  induction fields with
  | nil => rfl
  | cons field rest ih =>
    rw [rereadFields, List.lookup_cons, List.lookup_cons, ih]
    cases name == field.1 <;> rfl

end Value

namespace Fields

variable {α : Type} {fields : List (String × α)}

/-- A field with a greater name than all comes to stand behind them. -/
theorem put_eq_append {name : String} (value : α) (h : ∀ field ∈ fields, field.1 < name) :
    put name value fields = fields ++ [(name, value)] := by
  induction fields with
  | nil => rfl
  | cons field rest ih =>
    obtain ⟨hfield, hrest⟩ := List.forall_mem_cons.1 h
    rw [put, if_neg (ne_of_gt hfield), if_neg (lt_asymm hfield), ih hrest]
    rfl

/-- Fields whose names increase are the map that they make. -/
theorem ofList_eq_self (h : (names fields).Pairwise (· < ·)) : ofList fields = fields := by
  induction fields using List.reverseRecOn with
  | nil => rfl
  | append_singleton first field ih =>
    rw [names, List.map_append, List.pairwise_append] at h
    obtain ⟨hfirst, -, hless⟩ := h
    have hsplit : ofList (first ++ [field]) = put field.1 field.2 (ofList first) := by
      simp [ofList, putAll]
    rw [hsplit, ih hfirst]
    refine put_eq_append field.2 fun other hother => ?_
    exact hless other.1 (List.mem_map_of_mem hother) field.1 (List.mem_singleton_self _)

end Fields

namespace Json

/-! ## Texts of values -/

/-- Items with a comma in front of each. -/
def commaItems (items : List Value) : List Char :=
  items.flatMap fun item => ',' :: compactChars item

/-- Fields with a comma in front of each. -/
def commaFields (fields : List (String × Value)) : List Char :=
  fields.flatMap fun field => ',' :: (quoted field.1 ++ ':' :: compactChars field.2)

/-- All items but the first one have a comma in front. -/
theorem compactItems_cons (item : Value) (rest : List Value) :
    compactItems (item :: rest) = compactChars item ++ commaItems rest := by
  induction rest generalizing item with
  | nil => simp [compactItems, commaItems]
  | cons next rest ih =>
    rw [compactItems, ih]
    · rfl
    · simp

/-- All fields but the first one have a comma in front. -/
theorem compactFields_cons (field : String × Value) (rest : List (String × Value)) :
    compactFields (field :: rest) =
      quoted field.1 ++ ':' :: (compactChars field.2 ++ commaFields rest) := by
  induction rest generalizing field with
  | nil => simp [compactFields, commaFields]
  | cons next rest ih =>
    obtain ⟨name, value⟩ := field
    rw [compactFields, ih]
    · simp [commaFields]
    · simp

/-- A text that starts with a comma or the end of a list or a map goes on with no number. -/
theorem endsNumber_commaItems (items : List Value) (rest : List Char) :
    EndsNumber (commaItems items ++ ']' :: rest) := by
  cases items <;>
    · rintro c ⟨⟩
      decide

/-- In front of further fields, and of the end of a map, no number goes on. -/
theorem endsNumber_commaFields (fields : List (String × Value)) (rest : List Char) :
    EndsNumber (commaFields fields ++ '\x7d' :: rest) := by
  cases fields <;>
    · rintro c ⟨⟩
      decide

/-- Every text of a value starts with a character that tells its kind. -/
theorem startsItem_compactChars (v : Value) (rest : List Char) :
    StartsItem (compactChars v ++ rest) := by
  cases v with
  | null => exact ⟨'n', _, rfl, rfl, by decide⟩
  | bool b => cases b <;> exact ⟨_, _, rfl, rfl, by decide⟩
  | number n =>
    obtain ⟨c, more, htext, hdigit⟩ := n.numeral_valid.exists_cons
    rw [compactChars, n.toList_numberText, htext]
    split_ifs
    · exact ⟨'-', _, rfl, rfl, by decide⟩
    · refine ⟨c, _, rfl, isJsonBlank_of_isDigit hdigit, ?_⟩
      rintro rfl
      cases hdigit
  | string s => exact ⟨'"', _, rfl, rfl, by decide⟩
  | list items => exact ⟨'[', _, rfl, rfl, by decide⟩
  | map fields => exact ⟨'\x7b', _, rfl, rfl, by decide⟩

/-! ## Reading the text of a value -/

/-- A number is read back from its text, but for its digits if it is a double. -/
theorem value_numberText {n : Number} (h : n.IsWord) (steps depth : Nat) {rest : List Char}
    (hrest : EndsNumber rest) :
    value (steps + 1) depth ((numberText n).toList ++ rest) = .ok (.number n.reread, rest) := by
  have hnumber := n.number_numeral h hrest
  obtain ⟨c, more, htext, hdigit⟩ := n.numeral_valid.exists_cons
  rw [n.toList_numberText]
  rw [htext] at hnumber ⊢
  cases hsign : n.isNegative with
  | true =>
    rw [hsign] at hnumber
    exact value_minus.trans hnumber
  | false =>
    rw [hsign] at hnumber
    exact (value_digit hdigit).trans hnumber

/-- No value has an empty text. -/
theorem length_compactChars_pos (v : Value) : 0 < (compactChars v).length := by
  obtain ⟨c, more, htext, -⟩ := startsItem_compactChars v []
  rw [List.append_nil] at htext
  rw [htext]
  exact Nat.succ_pos _

mutual

/-- Every step of the reader is paid for by a character of the text. -/
theorem value_compactChars (v : Value) {steps depth : Nat} {rest : List Char}
    (hdocument : v.IsDocument depth) (hsteps : 2 * (compactChars v).length ≤ steps + 1)
    (hrest : EndsNumber rest) :
    value steps depth (compactChars v ++ rest) = .ok (v.reread, rest) := by
  obtain ⟨steps, rfl⟩ : ∃ left, steps = left + 1 :=
    ⟨steps - 1, by have := length_compactChars_pos v; omega⟩
  match v, depth with
  | .null, _ => exact value_null
  | .bool true, _ => exact value_true
  | .bool false, _ => exact value_false
  | .number n, _ =>
    exact value_numberText (by simpa [Value.IsDocument] using hdocument) steps _ hrest
  | .string s, _ =>
    obtain ⟨text, htext, hread⟩ := stringText_quoted s rest
    rw [compactChars, htext, value_quote, hread]
    rfl
  | .list [], depth + 1 =>
    obtain ⟨steps, rfl⟩ : ∃ left, steps = left + 1 :=
      ⟨steps - 1, by simp [compactChars, compactItems] at hsteps; omega⟩
    show value _ _ ('[' :: ']' :: rest) = _
    rw [value_bracket, items_end]
    rfl
  | .list (item :: others), depth + 1 =>
    rw [Value.IsDocument] at hdocument
    rw [compactChars, compactItems_cons] at hsteps ⊢
    simp only [List.length_cons, List.length_append, List.length_nil] at hsteps
    obtain ⟨steps, rfl⟩ : ∃ left, steps = left + 1 := ⟨steps - 1, by omega⟩
    -- An item has at least one character, which pays for the end of the list.
    have hpos := length_compactChars_pos item
    have hitem : value steps depth (compactChars item ++ (commaItems others ++ ']' :: rest)) =
        .ok (item.reread, commaItems others ++ ']' :: rest) :=
      value_compactChars item hdocument.1 (by omega) (endsNumber_commaItems others rest)
    have hothers : items steps depth false (commaItems others ++ ']' :: rest) =
        .ok (Value.rereadItems others, rest) :=
      items_commaItems others hdocument.2 (by omega)
    simp only [List.cons_append, List.append_assoc, List.nil_append]
    rw [value_bracket, items_first (startsItem_compactChars item _), hitem]
    simp only [bind, Except.bind, hothers]
    rfl
  | .map [], depth + 1 =>
    obtain ⟨steps, rfl⟩ : ∃ left, steps = left + 1 :=
      ⟨steps - 1, by simp [compactChars, compactFields] at hsteps; omega⟩
    show value _ _ ('\x7b' :: '\x7d' :: rest) = _
    rw [value_brace, fields_end]
    rfl
  | .map ((name, item) :: others), depth + 1 =>
    rw [Value.IsDocument] at hdocument
    obtain ⟨hnames, hitemDocument, hothersDocument⟩ := hdocument
    rw [compactChars, compactFields_cons] at hsteps ⊢
    simp only [List.length_cons, List.length_append, List.length_nil] at hsteps
    obtain ⟨steps, rfl⟩ : ∃ left, steps = left + 1 := ⟨steps - 1, by omega⟩
    have hitem : value steps depth (compactChars item ++ (commaFields others ++ '\x7d' :: rest)) =
        .ok (item.reread, commaFields others ++ '\x7d' :: rest) :=
      value_compactChars item hitemDocument (by omega) (endsNumber_commaFields others rest)
    have hothers : fields steps depth false (commaFields others ++ '\x7d' :: rest) =
        .ok (Value.rereadFields others, rest) :=
      fields_commaFields others hothersDocument (by omega)
    obtain ⟨text, htext, hread⟩ := stringText_quoted name
      (':' :: (compactChars item ++ (commaFields others ++ '\x7d' :: rest)))
    simp only [List.cons_append, List.append_assoc, List.nil_append]
    rw [htext, value_brace, fields_first hread, hitem]
    simp only [bind, Except.bind, hothers]
    -- The names increase, so that putting the fields in order changes nothing.
    have hmap : Fields.ofList (Value.rereadFields ((name, item) :: others)) =
        Value.rereadFields ((name, item) :: others) :=
      Fields.ofList_eq_self (by rwa [Value.names_rereadFields])
    exact congrArg (fun fs => Except.ok (Value.map fs, rest)) hmap
  | .list _, 0 => exact absurd hdocument (by simp [Value.IsDocument])
  | .map _, 0 => exact absurd hdocument (by simp [Value.IsDocument])

/-- Further items are read from their text, up to the end of the list. -/
theorem items_commaItems (vs : List Value) {steps depth : Nat} {rest : List Char}
    (hdocument : Value.AreDocuments depth vs)
    (hsteps : 2 * (commaItems vs).length + 2 ≤ steps) :
    items steps depth false (commaItems vs ++ ']' :: rest) = .ok (Value.rereadItems vs, rest) := by
  obtain ⟨steps, rfl⟩ : ∃ left, steps = left + 1 := ⟨steps - 1, by omega⟩
  match vs with
  | [] => exact items_end
  | item :: others =>
    have hsplit : commaItems (item :: others) = ',' :: (compactChars item ++ commaItems others) :=
      rfl
    rw [hsplit] at hsteps ⊢
    simp only [List.length_cons, List.length_append] at hsteps
    have hitem : value steps depth (compactChars item ++ (commaItems others ++ ']' :: rest)) =
        .ok (item.reread, commaItems others ++ ']' :: rest) :=
      value_compactChars item hdocument.1 (by omega) (endsNumber_commaItems others rest)
    have hothers : items steps depth false (commaItems others ++ ']' :: rest) =
        .ok (Value.rereadItems others, rest) :=
      items_commaItems others hdocument.2 (by omega)
    simp only [List.cons_append, List.append_assoc]
    rw [items_comma (startsItem_compactChars item _), hitem]
    simp only [bind, Except.bind, hothers]
    rfl

/-- Further fields are read from their text, up to the end of the map. -/
theorem fields_commaFields (fs : List (String × Value)) {steps depth : Nat} {rest : List Char}
    (hdocument : Value.HoldDocuments depth fs)
    (hsteps : 2 * (commaFields fs).length + 2 ≤ steps) :
    fields steps depth false (commaFields fs ++ '\x7d' :: rest) =
      .ok (Value.rereadFields fs, rest) := by
  obtain ⟨steps, rfl⟩ : ∃ left, steps = left + 1 := ⟨steps - 1, by omega⟩
  match fs with
  | [] => exact fields_end
  | (name, item) :: others =>
    have hsplit : commaFields ((name, item) :: others) =
        ',' :: (quoted name ++ ':' :: compactChars item ++ commaFields others) := rfl
    rw [hsplit] at hsteps ⊢
    simp only [List.length_cons, List.length_append] at hsteps
    have hitem : value steps depth (compactChars item ++ (commaFields others ++ '\x7d' :: rest)) =
        .ok (item.reread, commaFields others ++ '\x7d' :: rest) :=
      value_compactChars item hdocument.1 (by omega) (endsNumber_commaFields others rest)
    have hothers : fields steps depth false (commaFields others ++ '\x7d' :: rest) =
        .ok (Value.rereadFields others, rest) :=
      fields_commaFields others hdocument.2 (by omega)
    obtain ⟨text, htext, hread⟩ := stringText_quoted name
      (':' :: (compactChars item ++ (commaFields others ++ '\x7d' :: rest)))
    simp only [List.cons_append, List.append_assoc]
    rw [htext, fields_comma hread, hitem]
    simp only [bind, Except.bind, hothers]
    rfl

end

/-- The compact text of a value is read as the value, but for its doubles. -/
theorem document_compactChars {v : Value} (h : v.IsDocument maxDepth) :
    document (compactChars v) = .ok v.reread := by
  have hvalue : value (2 * (compactChars v).length + 1) maxDepth (compactChars v ++ []) =
      .ok (v.reread, []) :=
    value_compactChars v h (by omega) nofun
  rw [List.append_nil] at hvalue
  rw [document, hvalue]
  rfl

end Json

end AgentFlow
