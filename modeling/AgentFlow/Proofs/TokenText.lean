import AgentFlow.Condition.Lexer
import AgentFlow.Proofs.References

/-!
# Tokens are read back

A list of tokens is written with blanks between its tokens (`Written`), a string in quotes of either
kind, and is read as the same list (`tokens_eq_of_written`). All that has to be asked of the list is
that no negative number stands behind the end of an operand, where its sign would be a subtraction.
-/

namespace AgentFlow.Condition

/-! ## Texts of tokens -/

/-- The quotes in which a string can stand. -/
inductive Quote where
  | single
  | double

/-- The character of a quote. -/
def Quote.mark : Quote → Char
  | single => '\''
  | double => '"'

/-- A character of a string as it stands between quotes. -/
def Quote.escape (quote : Quote) (c : Char) : List Char :=
  if c = quote.mark ∨ c = '\\' then ['\\', c] else [c]

/-- The text of a token, strings in the given quotes. -/
def Token.text (quote : Quote) : Token → List Char
  | ident name => name.toList
  | int n => (integerText n).toList
  | float x => (realText x).toList
  | str text => quote.mark :: (text.toList.flatMap quote.escape ++ [quote.mark])
  | openParen => ['(']
  | closeParen => [')']
  | openBracket => ['[']
  | closeBracket => [']']
  | comma => [',']
  | dot => ['.']
  | equal => ['=', '=']
  | notEqual => ['!', '=']
  | less => ['<']
  | lessEqual => ['<', '=']
  | greater => ['>']
  | greaterEqual => ['>', '=']
  | andSign => ['&', '&']
  | orSign => ['|', '|']
  | bang => ['!']

/-- The tokens that are read back: names are identifiers, whole numbers have 64 bits, and there are
no real numbers. -/
def Token.IsPlain : Token → Prop
  | ident name => Template.IsIdentifier name.toList
  | int n => inInt64 n = true
  | float _ => False
  | _ => True

/-- A run of blanks. -/
def IsGap (gap : List Char) : Prop := gap ≠ [] ∧ ∀ c ∈ gap, Text.isBlank c = true

/-- The texts of a list of tokens, with blanks between any two of them. -/
inductive Written : List Token → List Char → Prop where
  | nil : Written [] []
  | last (t : Token) (quote : Quote) : Written [t] (t.text quote)
  | cons (t : Token) (quote : Quote) {gap : List Char} (hgap : IsGap gap) {u : Token}
    {ts : List Token} {rest : List Char} (more : Written (u :: ts) rest) :
    Written (t :: u :: ts) (t.text quote ++ (gap ++ rest))

/-- The tokens behind which a minus sign is none of a number: whole numbers, strings, closing
parentheses and brackets, and words other than the connectives. -/
inductive Token.Ends : Token → Prop where
  | int (n : Int) : Ends (.int n)
  | str (text : String) : Ends (.str text)
  | closeParen : Ends .closeParen
  | closeBracket : Ends .closeBracket
  | ident {name : String} (h : name ∉ ["and", "or", "not", "in"]) : Ends (.ident name)

/-- The whole numbers with a minus sign. -/
inductive Token.IsNegative : Token → Prop where
  | int {n : Int} (h : n < 0) : IsNegative (.int n)

/-- A plain token that ends an operand is one behind which a minus sign is none of a number. -/
theorem Token.IsPlain.ends_of_endsOperand {t : Token} (h : t.IsPlain)
    (hends : t.endsOperand = true) : t.Ends := by
  cases t with
  | ident name => exact .ident (by simpa [endsOperand, and_assoc] using hends)
  | int n => exact .int n
  | float x => exact h.elim
  | str text => exact .str text
  | closeParen => exact .closeParen
  | closeBracket => exact .closeBracket
  | _ => cases hends

/-! ## Where a token ends -/

/-- A text that goes on with a blank, if it goes on at all. -/
def EndsToken (rest : List Char) : Prop := ∀ c ∈ rest.head?, Text.isBlank c = true

/-- A token ends in front of a run of blanks. -/
theorem IsGap.endsToken {gap : List Char} (h : IsGap gap) (rest : List Char) :
    EndsToken (gap ++ rest) := by
  obtain ⟨c, more, rfl⟩ := List.exists_cons_of_ne_nil h.1
  rintro _ ⟨⟩
  exact h.2 c List.mem_cons_self

/-- A blank belongs to no name, no number and no sign of two characters. -/
theorem of_isBlank {c : Char} (h : Text.isBlank c = true) :
    continuesName c = false ∧ startsName c = false ∧ c.isDigit = false ∧
      c ∉ ['=', '.', '-', '"', '\''] := by
  have hall : (Text.blanks.all fun b => decide (continuesName b = false ∧ startsName b = false ∧
      b.isDigit = false ∧ b ∉ ['=', '.', '-', '"', '\''])) = true := by decide +kernel
  exact of_decide_eq_true (List.all_eq_true.1 hall c (List.contains_iff_mem.1 h))

/-! ## Tokens one by one -/

/-- Nothing but a sign starts with one of these characters. -/
theorem lexSign_eq_none {c : Char}
    (h : c ∉ ['(', ')', '[', ']', ',', '.', '=', '!', '<', '>', '&', '|']) (rest : List Char) :
    lexSign (c :: rest) = none := by
  unfold lexSign
  split <;> simp_all

/-- The digits of a whole number are read up to what is no digit, unless decimals may follow. -/
theorem lexNumber_decimalDigits {n : Int} (h : inInt64 n = true) {rest : List Char}
    (hrest : ∀ c ∈ rest.head?, c.isDigit = false ∧ c ≠ '.') :
    lexNumber (n < 0) (decimalDigits n.natAbs ++ rest) = .ok (.int n, rest) := by
  have hread : readInteger? ((if n < 0 then ['-'] else []) ++ decimalDigits n.natAbs) = some n := by
    rw [← readInteger?_integerText h, toList_integerText]
    split_ifs <;> rfl
  have hdigits : ∀ c ∈ decimalDigits n.natAbs, c.isDigit = true :=
    fun c hc => isDigit_of_mem_decimalDigits hc
  obtain ⟨hwhole, hleft⟩ := span_append hdigits fun c hc => (hrest c hc).1
  unfold lexNumber
  simp only [hwhole, hleft, decide_eq_true_eq, hread]
  split
  · exact absurd rfl (hrest '.' rfl).2
  · rfl

/-- A string is read back from between its quotes. -/
theorem lexString_escape (quote : Quote) (text rest : List Char) :
    lexString quote.mark (text.flatMap quote.escape ++ quote.mark :: rest) = .ok (text, rest) := by
  induction text with
  | nil => cases quote <;> simp [lexString, Quote.mark]
  | cons c text ih =>
    rw [List.flatMap_cons, List.append_assoc, Quote.escape]
    split_ifs with hescaped
    · -- Behind a backslash only two letters mean something else.
      have hletter : c ≠ 'n' ∧ c ≠ 't' := by
        obtain rfl | rfl := hescaped
        · cases quote <;> decide
        · decide
      simp [lexString, hletter, ih, Except.map]
    · obtain ⟨hquote, hslash⟩ := not_or.1 hescaped
      rw [List.singleton_append, lexString]
      · rw [if_neg hquote, ih]
        rfl
      · exact fun h _ => hslash h
      · exact fun _ _ h _ => hslash h

/-- A sign that another character could extend is read up to a blank. -/
theorem lexSign_cons {c : Char} {t : Token}
    (h : (c, t) ∈ [('!', Token.bang), ('<', Token.less), ('>', Token.greater)]) {rest : List Char}
    (hrest : EndsToken rest) : lexSign (c :: rest) = some (t, rest) := by
  have hequal : ∀ more, rest ≠ '=' :: more := by
    rintro more rfl
    exact absurd (by simp) (of_isBlank (hrest '=' rfl)).2.2.2
  simp only [List.mem_cons, List.not_mem_nil, or_false, Prod.mk.injEq] at h
  obtain ⟨rfl, rfl⟩ | ⟨rfl, rfl⟩ | ⟨rfl, rfl⟩ := h
  all_goals
    rw [lexSign]
    exact hequal

/-- The characters that start signs, strings and negative numbers start nothing else. -/
theorem notMem_of_starts {c : Char} (h : startsName c = true ∨ c.isDigit = true) :
    c ∉ ['(', ')', '[', ']', ',', '.', '=', '!', '<', '>', '&', '|'] ∧
      c ∉ ['=', '"', '\'', '-'] ∧ Text.isBlank c = false := by
  refine ⟨fun hsign => ?_, fun hother => ?_, ?_⟩
  · have hall : (['(', ')', '[', ']', ',', '.', '=', '!', '<', '>', '&', '|'].all fun d =>
        decide ¬ (startsName d = true ∨ d.isDigit = true)) = true := by decide +kernel
    exact of_decide_eq_true (List.all_eq_true.1 hall c hsign) h
  · have hall : (['=', '"', '\'', '-'].all fun d =>
        decide ¬ (startsName d = true ∨ d.isDigit = true)) = true := by decide +kernel
    exact of_decide_eq_true (List.all_eq_true.1 hall c hother) h
  · by_contra hblank
    obtain ⟨-, hname, hdigit, -⟩ := of_isBlank (Bool.not_eq_false _ ▸ hblank)
    simp [hname, hdigit] at h

/-- A letter is no digit. -/
theorem isDigit_of_startsName {c : Char} (h : startsName c = true) : c.isDigit = false := by
  have hupper (hletter : c.isUpper = true) : 65 ≤ c.toNat := (of_decide_eq_true hletter).1
  have hlower (hletter : c.isLower = true) : 97 ≤ c.toNat :=
    of_decide_eq_true (Bool.and_eq_true_iff.1 hletter).1
  by_contra hdigit
  simp only [Char.isDigit, Bool.not_eq_false, Bool.and_eq_true, decide_eq_true_eq] at hdigit
  have hhigh : c.toNat ≤ 57 := hdigit.2
  rw [startsName, Bool.or_eq_true, decide_eq_true_eq] at h
  obtain hletter | rfl := h
  · obtain hletter | hletter := Bool.or_eq_true_iff.1 hletter
    · exact absurd (hupper hletter) (by omega)
    · exact absurd (hlower hletter) (by omega)
  · exact absurd hhigh (by decide)

/-- A text, which does not start with a blank, is read as a token up to the rest. -/
def IsRead (previous : Option Token) (text rest : List Char) (t : Token) : Prop :=
  ∃ c cs, text = c :: cs ∧ Text.isBlank c = false ∧ lexToken previous c (cs ++ rest) = .ok (t, rest)

section

variable {previous : Option Token} {rest : List Char}

/-- A name is read up to a character that does not continue it. -/
theorem isRead_ident {name : String} (h : Template.IsIdentifier name.toList)
    (hrest : ∀ c ∈ rest.head?, continuesName c = false) :
    IsRead previous name.toList rest (.ident name) := by
  obtain ⟨c, cs, hname, hstart, hcontinue⟩ := h
  obtain ⟨hsign, hother, hblank⟩ := notMem_of_starts (.inl hstart)
  have hrun : ∀ d ∈ cs, continuesName d = true := hcontinue
  obtain ⟨hwhole, hleft⟩ := span_append hrun hrest
  have hword : startsName c = true := hstart
  simp only [List.mem_cons, List.not_mem_nil, or_false, not_or] at hother
  refine ⟨c, cs, hname, hblank, ?_⟩
  simp only [lexToken, lexSign_eq_none hsign, hother, isDigit_of_startsName hstart, hword, hwhole,
    hleft, ← hname, String.ofList_toList]
  simp

/-- A whole number is read up to what does not belong to numbers, with a minus sign only where no
operand ends. -/
theorem isRead_int {n : Int} (h : inInt64 n = true)
    (hminus : n < 0 → previous.any Token.endsOperand = false)
    (hrest : ∀ c ∈ rest.head?, c.isDigit = false ∧ c ≠ '.') :
    IsRead previous (integerText n).toList rest (.int n) := by
  obtain ⟨d, ds, hdigits⟩ := List.exists_cons_of_ne_nil (decimalDigits_ne_nil n.natAbs)
  have hd : d.isDigit = true :=
    isDigit_of_mem_decimalDigits (n := n.natAbs) (hdigits ▸ List.mem_cons_self)
  have hread := lexNumber_decimalDigits h hrest
  rw [hdigits] at hread
  obtain hneg | hnonneg := lt_or_ge n 0
  · refine ⟨'-', d :: ds, ?_, by decide, ?_⟩
    · rw [toList_integerText, if_pos hneg, hdigits]
    · rw [decide_eq_true hneg] at hread
      have hnone : lexSign ('-' :: (d :: ds ++ rest)) = none := lexSign_eq_none (by decide) _
      simp only [lexToken, hnone, hminus hneg]
      simpa [hd] using hread
  · obtain ⟨hsign, hother, hblank⟩ := notMem_of_starts (.inr hd)
    refine ⟨d, ds, ?_, hblank, ?_⟩
    · rw [toList_integerText, if_neg (not_lt.2 hnonneg), hdigits]
    · rw [decide_eq_false (not_lt.2 hnonneg)] at hread
      simp only [List.mem_cons, List.not_mem_nil, or_false, not_or] at hother
      simp only [lexToken, lexSign_eq_none hsign, hother, hd]
      simpa using hread

/-- A string is read up to its closing quote, whatever stands behind that. -/
theorem isRead_str (quote : Quote) (text : String) :
    IsRead previous ((Token.str text).text quote) rest (.str text) := by
  refine ⟨quote.mark, _, rfl, by cases quote <;> decide, ?_⟩
  have hnone : ∀ more, lexSign (quote.mark :: more) = none :=
    lexSign_eq_none (by cases quote <;> decide)
  have hmark : quote.mark ≠ '=' ∧ (quote.mark = '"' ∨ quote.mark = '\'') := by
    cases quote <;> decide
  simp only [lexToken, hnone, if_neg hmark.1, if_pos hmark.2, List.append_assoc,
    List.singleton_append, lexString_escape]
  simp [Except.map]

/-- A token is read from its text, if no minus sign is taken for a subtraction. -/
theorem isRead_text {t : Token} (h : t.IsPlain) (quote : Quote)
    (hminus : t.IsNegative → previous.any Token.endsOperand = false) (hrest : EndsToken rest) :
    IsRead previous (t.text quote) rest t := by
  cases t with
  | ident name => exact isRead_ident h fun c hc => (of_isBlank (hrest c hc)).1
  | int n =>
    refine isRead_int h (fun hneg => hminus (.int hneg)) fun c hc => ?_
    obtain ⟨-, -, hdigit, hother⟩ := of_isBlank (hrest c hc)
    exact ⟨hdigit, fun hpoint => hother (by simp [hpoint])⟩
  | float x => exact h.elim
  | str text => exact isRead_str quote text
  | bang =>
    refine ⟨_, _, rfl, by decide, ?_⟩
    rw [lexToken, List.nil_append, lexSign_cons (t := .bang) (by simp) hrest]
  | less =>
    refine ⟨_, _, rfl, by decide, ?_⟩
    rw [lexToken, List.nil_append, lexSign_cons (t := .less) (by simp) hrest]
  | greater =>
    refine ⟨_, _, rfl, by decide, ?_⟩
    rw [lexToken, List.nil_append, lexSign_cons (t := .greater) (by simp) hrest]
  | _ =>
    -- No other character can make one of these signs longer.
    refine ⟨_, _, rfl, by decide, ?_⟩
    rfl

end

/-! ## Lists of tokens -/

/-- Blanks mean nothing. -/
theorem lex_gap {gap : List Char} (h : ∀ c ∈ gap, Text.isBlank c = true) (steps : Nat)
    (previous : Option Token) (text : List Char) :
    lex (gap.length + steps) previous (gap ++ text) = lex steps previous text := by
  induction gap with
  | nil => rw [List.length_nil, Nat.zero_add, List.nil_append]
  | cons c gap ih =>
    obtain ⟨hc, hgap⟩ := List.forall_mem_cons.1 h
    rw [List.length_cons, Nat.succ_add, List.cons_append, lex, if_pos hc, ih hgap]

/-- A token is read, and then the rest behind it. -/
theorem IsRead.lex {previous : Option Token} {text rest : List Char} {t : Token}
    (h : IsRead previous text rest t) {steps : Nat} (hsteps : (text ++ rest).length ≤ steps) :
    ∃ left, rest.length ≤ left ∧
      lex steps previous (text ++ rest) = (t :: ·) <$> lex left (some t) rest := by
  obtain ⟨c, cs, rfl, hblank, htoken⟩ := h
  rw [List.length_append, List.length_cons] at hsteps
  obtain ⟨left, rfl⟩ := Nat.exists_eq_add_of_lt (show 0 < steps by omega)
  refine ⟨left, by omega, ?_⟩
  rw [Nat.zero_add, List.cons_append, Condition.lex, hblank, htoken]
  rfl

/-- A list of tokens is read from its text, whatever token stands before it. -/
theorem lex_of_written {ts : List Token} {text : List Char} (h : Written ts text)
    (hplain : ∀ t ∈ ts, t.IsPlain) (hminus : ts.IsChain fun t u => t.Ends → ¬ u.IsNegative)
    {previous : Option Token}
    (hfirst : ∀ t ∈ ts.head?, t.IsNegative → previous.any Token.endsOperand = false)
    {steps : Nat} (hsteps : text.length ≤ steps) : lex steps previous text = .ok ts := by
  induction h generalizing previous steps with
  | nil => cases steps <;> rfl
  | last t quote =>
    have ht := hplain t List.mem_cons_self
    have hend : EndsToken [] := fun c hc => by cases hc
    rw [← List.append_nil (t.text quote)] at hsteps ⊢
    obtain ⟨left, -, hlex⟩ := (isRead_text ht quote (hfirst t rfl) hend).lex hsteps
    rw [hlex]
    cases left <;> rfl
  | @cons t quote gap hgap u ts rest more ih =>
    obtain ⟨ht, hmore⟩ := List.forall_mem_cons.1 hplain
    obtain ⟨htu, hchain⟩ := List.isChain_cons_cons.1 hminus
    obtain ⟨left, hleft, hlex⟩ :=
      (isRead_text ht quote (hfirst t rfl) (hgap.endsToken rest)).lex hsteps
    rw [List.length_append] at hleft
    obtain ⟨steps, rfl⟩ := Nat.exists_eq_add_of_le ((Nat.le_add_right _ _).trans hleft)
    -- Behind a token that ends an operand there is no minus sign to be taken for a subtraction.
    have hnext : ∀ v ∈ (u :: ts).head?, v.IsNegative → (some t).any Token.endsOperand = false := by
      rintro _ ⟨⟩ hnegative
      by_contra hends
      exact htu (ht.ends_of_endsOperand (by simpa using hends)) hnegative
    rw [hlex, lex_gap hgap.2, ih hmore hchain hnext (by omega)]
    rfl

/-- A list of tokens is what is read from its text, in any quotes and with any blanks between the
tokens. -/
theorem tokens_eq_of_written {ts : List Token} {text : List Char} (h : Written ts text)
    (hplain : ∀ t ∈ ts, t.IsPlain) (hminus : ts.IsChain fun t u => t.Ends → ¬ u.IsNegative) :
    tokens text = .ok ts :=
  lex_of_written h hplain hminus (fun _ _ _ => rfl) le_rfl

end AgentFlow.Condition

namespace AgentFlow.Sample.Reading

open Condition

/-- A list with the least whole number behind the word that a minus sign may follow. -/
def words : List Token :=
  [.ident "n", .ident "not", .ident "in", .openBracket, .int (-9223372036854775808), .comma,
    .str "it's \\ \"this\"", .closeBracket, .notEqual, .int (-1)]

/-- A text of the tokens, with blanks of several kinds and a quote inside a string. -/
def text : String :=
  "n not\tin\n[ -9223372036854775808 ,\u00a0'it\\'s \\\\ \"this\"'  ] != -1"

/-- The text is one of the tokens. -/
theorem written : Written words text.toList := by
  have hgap : ∀ gap : List Char, gap ≠ [] → gap.all Text.isBlank = true → IsGap gap :=
    fun _ hne hblank => ⟨hne, List.all_eq_true.1 hblank⟩
  have hwritten := Written.cons (.ident "n") .single (hgap [' '] nofun rfl) <|
    .cons (.ident "not") .single (hgap ['\t'] nofun rfl) <|
    .cons (.ident "in") .single (hgap ['\n'] nofun rfl) <|
    .cons .openBracket .single (hgap [' '] nofun rfl) <|
    .cons (.int (-9223372036854775808)) .single (hgap [' '] nofun rfl) <|
    .cons .comma .single (hgap ['\u00a0'] nofun rfl) <|
    .cons (.str "it's \\ \"this\"") .single (hgap [' ', ' '] nofun rfl) <|
    .cons .closeBracket .single (hgap [' '] nofun rfl) <|
    .cons .notEqual .single (hgap [' '] nofun rfl) <| .last (.int (-1)) .single
  refine Eq.mp (congrArg (Written words) ?_) hwritten
  decide +kernel

/-- The tokens are read from the text. -/
theorem read_words : Written words text.toList ∧ (∀ t ∈ words, t.IsPlain) ∧
    (words.IsChain fun t u => t.Ends → ¬ u.IsNegative) ∧ tokens text.toList = .ok words := by
  have hplain : ∀ t ∈ words, t.IsPlain := by
    have hnot : Template.IsIdentifier "not".toList :=
      ⟨'n', ['o', 't'], rfl, rfl, List.all_eq_true.1 rfl⟩
    have hin : Template.IsIdentifier "in".toList := ⟨'i', ['n'], rfl, rfl, List.all_eq_true.1 rfl⟩
    have hleast : inInt64 (-9223372036854775808) = true := by decide
    have hnegative : inInt64 (-1) = true := by decide
    simp only [words, List.forall_mem_cons]
    exact ⟨⟨'n', [], rfl, rfl, nofun⟩, hnot, hin, trivial, hleast, trivial, trivial, trivial,
      trivial, hnegative, List.forall_mem_nil _⟩
  have hminus : words.IsChain fun t u => t.Ends → ¬ u.IsNegative := by
    simp only [words, List.isChain_cons_cons, List.isChain_singleton]
    exact ⟨fun _ => nofun, fun _ => nofun, fun _ => nofun, nofun, fun _ => nofun, fun _ => nofun,
      fun _ => nofun, fun _ => nofun, nofun, trivial⟩
  exact ⟨written, hplain, hminus, tokens_eq_of_written written hplain hminus⟩

end AgentFlow.Sample.Reading
