import AgentFlow.Proofs.Numerals
import AgentFlow.Template
import Mathlib.Data.List.TakeWhile

/-!
# References in templates

What the scanner of templates finds, said without it: a reference is well formed if its name is an
identifier and its index, if it has one, a numeral (`Reference.WellFormed`), and the scanner reads a
reference in front of a text exactly where the text of a well-formed one stands
(`wellFormed_of_reference?_eq_some`, `reference?_inner_append`). No brace opens inside a reference,
so that no text in front of one can reach into it, and the pieces of a template with a reference in
it are those of the texts around it and the reference (`scan_append_reference`). Filling goes along
the pieces, so that a template is filled in part by part, and what is filled in is not looked at
(`interpolate_append_reference`).
-/

namespace AgentFlow

namespace Template

/-! ## Well-formed references -/

/-- The characters of an identifier. -/
def IsIdentifier (name : List Char) : Prop :=
  ∃ c rest, name = c :: rest ∧ startsName c = true ∧ ∀ d ∈ rest, continuesName d = true

/-- Decimal digits of any script, perhaps behind a minus sign. -/
def IsNumeral (numeral : List Char) : Prop :=
  ∃ sign digits, numeral = sign ++ digits ∧ (sign = [] ∨ sign = ['-']) ∧ digits ≠ [] ∧
    ∀ d ∈ digits, Text.isDecimalDigit d = true

/-- A reference as templates have it. -/
structure Reference.WellFormed (r : Reference) : Prop where
  name : IsIdentifier r.name.toList
  index : ∀ numeral ∈ r.index, IsNumeral numeral

/-- What stands behind the opening brace of a reference. -/
def Reference.inner (r : Reference) : List Char :=
  match r.index with
  | none => r.name.toList ++ ['\x7d']
  | some numeral => r.name.toList ++ '[' :: (numeral ++ [']', '\x7d'])

/-- A reference is written as an opening brace and what stands behind it. -/
theorem Reference.toList_text (r : Reference) : r.text.toList = '\x7b' :: r.inner := by
  obtain ⟨name, index⟩ := r
  cases index <;> simp [Reference.text, Reference.inner]

/-- What starts a name can go on with it. -/
theorem continuesName_of_startsName {c : Char} (h : startsName c = true) :
    continuesName c = true := by
  unfold startsName at h
  unfold continuesName
  rw [Char.isAlphanum]
  cases hc : c.isAlpha <;> simp_all

/-- All characters of an identifier are those of names. -/
theorem IsIdentifier.continues {name : List Char} (h : IsIdentifier name) :
    ∀ c ∈ name, continuesName c = true := by
  obtain ⟨c, rest, rfl, hstart, hrest⟩ := h
  exact List.forall_mem_cons.2 ⟨continuesName_of_startsName hstart, hrest⟩

/-! ## Reading a reference -/

/-- A numeral is read up to its bracket. -/
theorem indexNumeral?_eq_some_iff {text numeral rest : List Char} :
    indexNumeral? text = some (numeral, rest) ↔
      IsNumeral numeral ∧ text = numeral ++ ']' :: rest := by
  constructor
  -- The sign is split off first, and the digits are what is taken from the rest.
  · fun_cases indexNumeral? text with
    | case1 sign digits hsplit numeral first others rest hdrop htake =>
      intro h
      obtain ⟨rfl, rfl⟩ := Prod.mk.inj (Option.some.inj h)
      obtain ⟨hsign, rfl⟩ : (sign = [] ∨ sign = ['-']) ∧ text = sign ++ digits := by
        split at hsplit
        · obtain ⟨rfl, rfl⟩ := Prod.mk.inj hsplit
          exact ⟨.inr rfl, rfl⟩
        · obtain ⟨rfl, rfl⟩ := Prod.mk.inj hsplit
          exact ⟨.inl rfl, rfl⟩
      refine ⟨⟨sign, numeral, rfl, hsign, htake ▸ List.cons_ne_nil _ _,
        fun d hd => List.mem_takeWhile_imp hd⟩, ?_⟩
      rw [List.append_assoc, ← hdrop, List.takeWhile_append_dropWhile]
    | case2 => exact nofun
  · rintro ⟨⟨sign, digits, rfl, hsign, hne, hdigits⟩, rfl⟩
    obtain ⟨d, ds, rfl⟩ := List.exists_cons_of_ne_nil hne
    have hbracket : ∀ c ∈ (']' :: rest).head?, Text.isDecimalDigit c = false := by
      rintro c ⟨⟩
      decide
    obtain ⟨htake, hdrop⟩ := span_append hdigits hbracket
    obtain rfl | rfl := hsign
    · -- The first digit is no sign.
      have hd : d ≠ '-' := by
        rintro rfl
        exact absurd (hdigits '-' List.mem_cons_self) (by decide)
      show indexNumeral? (d :: ds ++ ']' :: rest) = some (d :: ds, rest)
      unfold indexNumeral?
      split
      · rename_i heq
        exact absurd (List.cons.inj heq).1 hd
      · dsimp only
        rw [htake, hdrop]
        rfl
    · show indexNumeral? ('-' :: (d :: ds ++ ']' :: rest)) = some ('-' :: d :: ds, rest)
      simp only [indexNumeral?, htake, hdrop]
      rfl

/-- What is read as a reference is a well-formed one, and stands in front. -/
theorem wellFormed_of_reference?_eq_some {text rest : List Char} {r : Reference}
    (h : reference? text = some (r, rest)) : r.WellFormed ∧ text = r.inner ++ rest := by
  unfold reference? at h
  split at h
  · cases h
  rename_i c more
  split_ifs at h with hstart
  have hname : IsIdentifier (String.ofList ((c :: more).takeWhile continuesName)).toList := by
    rw [String.toList_ofList, List.takeWhile_cons_of_pos (continuesName_of_startsName hstart)]
    exact ⟨c, _, rfl, hstart, fun d hd => List.mem_takeWhile_imp hd⟩
  -- The name is all that continues it, and what follows is a brace, or a numeral in brackets.
  have htext := List.takeWhile_append_dropWhile (p := continuesName) (l := c :: more)
  dsimp only at h
  split at h
  · rename_i behind hdrop
    cases h
    refine ⟨⟨hname, nofun⟩, ?_⟩
    rw [hdrop] at htext
    simp [Reference.inner, htext]
  · rename_i behind hdrop
    split at h
    · rename_i numeral last hnumeral
      cases h
      obtain ⟨hnumeral, rfl⟩ := indexNumeral?_eq_some_iff.1 hnumeral
      refine ⟨⟨hname, fun other hmem => ?_⟩, ?_⟩
      · rwa [← Option.some.inj hmem]
      · rw [hdrop] at htext
        simp [Reference.inner, htext]
    · cases h
  · cases h

/-- Every well-formed reference is read. -/
theorem reference?_inner_append {r : Reference} (hr : r.WellFormed) (rest : List Char) :
    reference? (r.inner ++ rest) = some (r, rest) := by
  obtain ⟨hname, hindex⟩ := hr
  obtain ⟨name, index⟩ := r
  dsimp only at hname hindex
  have hcontinues := hname.continues
  obtain ⟨c, more, hcons, hstart, -⟩ := hname
  have hofList : String.ofList (c :: more) = name := by
    rw [← hcons, String.ofList_toList]
  rw [hcons] at hcontinues
  cases index with
  | none =>
    -- The name ends at the closing brace, which continues no name.
    have hbrace : ∀ c ∈ ('\x7d' :: rest).head?, continuesName c = false := by
      rintro c ⟨⟩
      decide
    obtain ⟨htake, hdrop⟩ := span_append hcontinues hbrace
    have htext : Reference.inner ⟨name, none⟩ ++ rest = c :: more ++ '\x7d' :: rest := by
      simp [Reference.inner, hcons]
    rw [htext]
    unfold reference?
    rw [List.cons_append] at htake hdrop ⊢
    dsimp only
    rw [if_pos hstart, htake, hdrop, hofList]
    rfl
  | some numeral =>
    have hnumeral : indexNumeral? (numeral ++ ']' :: '\x7d' :: rest) =
        some (numeral, '\x7d' :: rest) :=
      indexNumeral?_eq_some_iff.2 ⟨hindex numeral rfl, rfl⟩
    -- The name ends at the bracket, behind which the numeral is read up to its own.
    have hbracket : ∀ c ∈ ('[' :: (numeral ++ ']' :: '\x7d' :: rest)).head?,
        continuesName c = false := by
      rintro c ⟨⟩
      decide
    obtain ⟨htake, hdrop⟩ := span_append hcontinues hbracket
    have htext : Reference.inner ⟨name, some numeral⟩ ++ rest =
        c :: more ++ '[' :: (numeral ++ ']' :: '\x7d' :: rest) := by
      simp [Reference.inner, hcons]
    rw [htext]
    unfold reference?
    rw [List.cons_append] at htake hdrop ⊢
    dsimp only
    rw [if_pos hstart, htake, hdrop, hofList]
    simp only [hnumeral]

/-! ## Scanning a template -/

/-- The pieces of a text. -/
def scan (text : List Char) : List Piece := piecesFrom text.length text

/-- The pieces of a template are those of its characters. -/
theorem pieces_eq_scan (template : String) : pieces template = scan template.toList := by
  rw [pieces, scan, String.length_toList]

/-- The number of steps does not matter, if it is no less than the length. -/
theorem piecesFrom_congr {m n : Nat} {text : List Char} (hm : text.length ≤ m)
    (hn : text.length ≤ n) : piecesFrom m text = piecesFrom n text := by
  induction m generalizing n text with
  | zero => rw [List.length_eq_zero_iff.1 (Nat.le_zero.1 hm), piecesFrom, piecesFrom]
  | succ m ih =>
    cases text with
    | nil => rw [piecesFrom, piecesFrom]
    | cons c rest =>
      rw [List.length_cons] at hm hn
      obtain ⟨n, rfl⟩ : ∃ left, n = left + 1 := ⟨n - 1, by omega⟩
      have hrest : piecesFrom m rest = piecesFrom n rest := ih (by omega) (by omega)
      rw [piecesFrom, piecesFrom, hrest]
      cases hread : reference? rest with
      | none => rfl
      | some found =>
        obtain ⟨r, behind⟩ := found
        -- What is left behind a reference is shorter.
        obtain ⟨-, rfl⟩ := wellFormed_of_reference?_eq_some hread
        rw [List.length_append] at hm hn
        have hbehind : piecesFrom m behind = piecesFrom n behind := ih (by omega) (by omega)
        dsimp only
        rw [hbehind]

/-- A character that opens no brace is plain text. -/
theorem scan_cons_of_ne {c : Char} (hc : c ≠ '\x7b') (rest : List Char) :
    scan (c :: rest) = .plain c :: scan rest := by
  rw [scan, List.length_cons, piecesFrom, if_neg hc, scan]

/-- A reference is one piece, and the scan goes on behind it. -/
theorem scan_text {r : Reference} (hr : r.WellFormed) (rest : List Char) :
    scan (r.text.toList ++ rest) = .reference r :: scan rest := by
  rw [r.toList_text, List.cons_append, scan, List.length_cons, piecesFrom, if_pos rfl,
    reference?_inner_append hr]
  dsimp only
  rw [piecesFrom_congr (by simp) le_rfl, scan]

/-- A brace in front of what is no reference is plain text. -/
theorem scan_brace {rest : List Char} (h : reference? rest = none) :
    scan ('\x7b' :: rest) = .plain '\x7b' :: scan rest := by
  rw [scan, List.length_cons, piecesFrom, if_pos rfl, h, scan]

/-- No brace opens inside a reference. -/
theorem Reference.WellFormed.not_mem_inner {r : Reference} (hr : r.WellFormed) :
    '\x7b' ∉ r.inner := by
  have hname : '\x7b' ∉ r.name.toList := fun hmem =>
    absurd (hr.name.continues _ hmem) (by decide)
  obtain ⟨name, index⟩ := r
  cases index with
  | none => simpa [Reference.inner] using hname
  | some numeral =>
    obtain ⟨sign, digits, rfl, hsign, -, hdigits⟩ := hr.index numeral rfl
    have hnumeral : '\x7b' ∉ digits := fun hmem => absurd (hdigits _ hmem) (by decide)
    obtain rfl | rfl := hsign <;> simpa [Reference.inner, hnumeral] using hname

/-- What stands behind a brace does not become a reference by a brace that follows. -/
theorem reference?_append_brace {before : List Char} (h : reference? before = none)
    (after : List Char) : reference? (before ++ '\x7b' :: after) = none := by
  refine Option.eq_none_iff_forall_ne_some.2 fun ⟨r, rest⟩ hread => ?_
  obtain ⟨hr, htext⟩ := wellFormed_of_reference?_eq_some hread
  have hnone : ∀ behind, before ≠ r.inner ++ behind := by
    rintro behind rfl
    rw [reference?_inner_append hr] at h
    cases h
  obtain ⟨more, hinner, hafter⟩ | ⟨behind, hbefore, -⟩ := List.append_eq_append_iff.1 htext
  · cases more with
    | nil => exact hnone [] (by rw [hinner, List.append_nil, List.append_nil])
    | cons c more =>
      -- The reference would have the brace inside.
      obtain ⟨rfl, -⟩ := List.cons.inj hafter
      exact hr.not_mem_inner (hinner ▸ List.mem_append_right before List.mem_cons_self)
  · exact hnone behind hbefore

/-- A text in front of a reference is scanned as if it stood alone, and so is the text behind. -/
theorem scan_append_reference {r : Reference} (hr : r.WellFormed) (before after : List Char) :
    scan (before ++ (r.text.toList ++ after)) = scan before ++ .reference r :: scan after := by
  induction hlength : before.length using Nat.strong_induction_on generalizing before with
  | _ n ih =>
    subst hlength
    cases before with
    | nil => exact scan_text hr after
    | cons c rest =>
      have hrest := ih rest.length (Nat.lt_succ_self _) rest rfl
      rw [List.cons_append]
      by_cases hc : c = '\x7b'
      · subst hc
        cases hread : reference? rest with
        | none =>
          have hnone : reference? (rest ++ (r.text.toList ++ after)) = none := by
            rw [r.toList_text, List.cons_append]
            exact reference?_append_brace hread _
          rw [scan_brace hread, scan_brace hnone, hrest]
          rfl
        | some found =>
          -- The text starts with a reference of its own.
          obtain ⟨first, behind⟩ := found
          obtain ⟨hfirst, rfl⟩ := wellFormed_of_reference?_eq_some hread
          have hshorter : behind.length < ('\x7b' :: (first.inner ++ behind)).length := by
            rw [List.length_cons, List.length_append]
            omega
          have hbehind := ih behind.length hshorter behind rfl
          rw [List.append_assoc, ← List.cons_append, ← List.cons_append, ← first.toList_text,
            scan_text hfirst, scan_text hfirst, hbehind]
          rfl
      · rw [scan_cons_of_ne hc, scan_cons_of_ne hc, hrest]
        rfl

/-- Whether a reference stands somewhere in a template. -/
def Mentions (template : String) : Prop :=
  ∃ (before after : String) (r : Reference), r.WellFormed ∧ template = before ++ r.text ++ after

/-- A text in which no reference stands has plain characters only. -/
theorem scan_eq_map_plain {text : List Char}
    (h : ∀ before after (r : Reference), r.WellFormed → text ≠ before ++ (r.text.toList ++ after)) :
    scan text = text.map .plain := by
  induction text with
  | nil => rfl
  | cons c rest ih =>
    have hrest : scan rest = rest.map .plain := ih fun before after r hr heq =>
      h (c :: before) after r hr (congrArg (List.cons c) heq)
    by_cases hc : c = '\x7b'
    · subst hc
      have hread : reference? rest = none := by
        refine Option.eq_none_iff_forall_ne_some.2 fun ⟨r, behind⟩ hread => ?_
        obtain ⟨hr, hinner⟩ := wellFormed_of_reference?_eq_some hread
        refine h [] behind r hr ?_
        rw [List.nil_append, r.toList_text, hinner]
        rfl
      rw [scan_brace hread, hrest]
      rfl
    · rw [scan_cons_of_ne hc, hrest]
      rfl

/-! ## Filling in the references -/

/-- The pieces of two texts are filled in one after the other. -/
theorem fill_append (vars : Lookup) (first last : List Piece) :
    fill vars (first ++ last) = (do
      let a ← fill vars first
      let b ← fill vars last
      return a ++ b) := by
  induction first with
  | nil =>
    rw [List.nil_append]
    cases fill vars last <;> rfl
  | cons piece rest ih =>
    cases piece with
    | plain c =>
      rw [List.cons_append, fill, fill, ih]
      cases fill vars rest <;> cases fill vars last <;> rfl
    | reference r =>
      rw [List.cons_append, fill, fill, ih]
      cases r.resolve vars <;> cases fill vars rest <;> cases fill vars last <;>
        simp [bind, Except.bind, pure, Except.pure]

/-- Plain text is filled in with itself. -/
theorem fill_plain (vars : Lookup) (text : List Char) :
    fill vars (text.map .plain) = .ok text := by
  induction text with
  | nil => rfl
  | cons c rest ih =>
    rw [List.map_cons, fill, ih]
    rfl

/-- The reference to a variable, or to an item of the list that it holds. -/
def Reference.to (name : String) (index : Option Int) : Reference :=
  ⟨name, index.map fun i => (integerText i).toList⟩

/-- The text of a whole number is a numeral. -/
theorem isNumeral_integerText (i : Int) : IsNumeral (integerText i).toList := by
  refine ⟨if i < 0 then ['-'] else [], decimalDigits i.natAbs, ?_, ?_, decimalDigits_ne_nil _,
    fun d hd => Text.isDecimalDigit_of_isDigit (isDigit_of_mem_decimalDigits hd)⟩
  · rw [toList_integerText]
    split_ifs <;> rfl
  · split_ifs <;> simp

/-- The reference to an identifier, with an index or without, is one that templates have. -/
theorem Reference.to_wellFormed {name : String} (hname : IsIdentifier name.toList)
    (index : Option Int) : (Reference.to name index).WellFormed := by
  refine ⟨hname, fun numeral hmem => ?_⟩
  obtain ⟨i, -, rfl⟩ := Option.map_eq_some_iff.1 hmem
  exact isNumeral_integerText i

/-- The reference to a variable, or to an item of its list, stands for what is found there. -/
theorem Reference.resolve_to (vars : Lookup) (name : String) {index : Option Int}
    (hindex : ∀ i ∈ index, inInt64 i = true) :
    (Reference.to name index).resolve vars = Template.resolve vars name index := by
  cases index with
  | none => rfl
  | some i =>
    simp only [Reference.resolve, Reference.to, Option.map_some,
      readInteger?_integerText (hindex i rfl)]

/-- A template with a reference in it is filled in from left to right: the text in front, the
reference, the text behind. -/
theorem interpolate_append_reference (vars : Lookup) {r : Reference} (hr : r.WellFormed)
    (before after : String) :
    interpolate vars (before ++ r.text ++ after) = (do
      let first ← interpolate vars before
      let value ← r.resolve vars
      let last ← interpolate vars after
      return first ++ value.render ++ last) := by
  simp only [interpolate, pieces_eq_scan, String.toList_append, List.append_assoc]
  rw [scan_append_reference hr, fill_append, fill]
  cases fill vars (scan before.toList) <;> cases r.resolve vars <;>
    cases fill vars (scan after.toList) <;>
      simp [bind, Except.bind, pure, Except.pure, Except.map, String.append_assoc]

/-- A template in which no reference stands has plain characters only. -/
theorem pieces_eq_map_plain {template : String} (h : ¬ Mentions template) :
    pieces template = template.toList.map .plain := by
  rw [pieces_eq_scan]
  refine scan_eq_map_plain fun before after r hr htext => h ?_
  refine ⟨String.ofList before, String.ofList after, r, hr, String.toList_injective ?_⟩
  simp [htext]

/-- A template in which no reference stands is filled in with itself. -/
theorem interpolate_eq_self (vars : Lookup) {template : String} (h : ¬ Mentions template) :
    interpolate vars template = .ok template := by
  rw [interpolate, pieces_eq_map_plain h, fill_plain]
  exact congrArg Except.ok String.ofList_toList

/-- Whatever stands around the reference to a variable, or to an item of a list, the template is
filled in as its three parts are, and fails as the first of them that does. What the reference is
replaced by is not looked at, as nothing is in a template without references. -/
theorem interpolate_compositional (vars : Lookup) {name : String} {index : Option Int}
    (hname : IsIdentifier name.toList) (hindex : ∀ i ∈ index, inInt64 i = true) :
    (∀ before after : String,
      interpolate vars (before ++ (Reference.to name index).text ++ after) = (do
        let first ← interpolate vars before
        let value ← resolve vars name index
        let last ← interpolate vars after
        return first ++ value.render ++ last)) ∧
    ∀ template, ¬ Mentions template → interpolate vars template = .ok template := by
  refine ⟨fun before after => ?_, fun _ h => interpolate_eq_self vars h⟩
  rw [interpolate_append_reference vars (Reference.to_wellFormed hname index),
    Reference.resolve_to vars name hindex]

end Template

/-! ## A sample

The last item of a list, between braces that belong to no reference; the item is the text of a
reference. -/

namespace Sample.Naming

open Template

/-- A list of names, one of which looks like a reference. -/
def vars : Lookup := fun name =>
  if name = "names" then some (.list [.string "Ada", .string "\x7bnames\x7d"]) else none

/-- The text of the item is left as it is. -/
theorem last_item : IsIdentifier "names".toList ∧ (∀ i ∈ some (-1), inInt64 i = true) ∧
    interpolate vars "\x7b\x7bnames[-1]\x7d\x7d \x7bx[" = .ok "\x7b\x7bnames\x7d\x7d \x7bx[" := by
  have hname : IsIdentifier "names".toList :=
    ⟨'n', ['a', 'm', 'e', 's'], rfl, rfl, List.all_eq_true.1 rfl⟩
  have hindex : ∀ i ∈ some (-1), inInt64 i = true := by decide
  refine ⟨hname, hindex, ?_⟩
  have htext : "\x7b\x7bnames[-1]\x7d\x7d \x7bx[" =
      "\x7b" ++ (Reference.to "names" (some (-1))).text ++ "\x7d \x7bx[" := by decide +kernel
  rw [htext, (interpolate_compositional vars hname hindex).1]
  rfl

end Sample.Naming

end AgentFlow
