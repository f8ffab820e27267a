import AgentFlow.Condition.Parser
import Mathlib.Data.List.Chain

/-!
# The grammar of conditions

What a condition may look like, said without a parser: which tokens spell the connectives, the
comparisons, the literals and the steps of a path, and which expression a list of tokens derives as
a phrase of a kind. The kinds are those of the language's description, from disjunctions, which bind
weakest, to operands; a phrase of a kind that binds tighter is also one of a kind that binds weaker.
The connectives group to the left, and a comparison stands between two operands, so that there is
no way to derive `a < b < c`.
-/

namespace AgentFlow.Condition

/-! ## Spelling -/

/-- The signs of a disjunction. -/
inductive SpellsOr : Token → Prop where
  | word : SpellsOr (.ident "or")
  | symbol : SpellsOr .orSign

/-- The signs of a conjunction. -/
inductive SpellsAnd : Token → Prop where
  | word : SpellsAnd (.ident "and")
  | symbol : SpellsAnd .andSign

/-- The signs of a negation. -/
inductive SpellsNot : Token → Prop where
  | word : SpellsNot (.ident "not")
  | symbol : SpellsNot .bang

/-- The comparison operators; `not in` is one of them. -/
inductive SpellsComparison : List Token → Comparison → Prop where
  | eq : SpellsComparison [.equal] .eq
  | ne : SpellsComparison [.notEqual] .ne
  | lt : SpellsComparison [.less] .lt
  | le : SpellsComparison [.lessEqual] .le
  | gt : SpellsComparison [.greater] .gt
  | ge : SpellsComparison [.greaterEqual] .ge
  | member : SpellsComparison [.ident "in"] .member
  | notMember : SpellsComparison [.ident "not", .ident "in"] .notMember

/-- The literals that are one token. A number has to be finite. -/
inductive SpellsLiteral : Token → Value → Prop where
  | int (n : Int) : SpellsLiteral (.int n) (.int n)
  | float (x : Binary64) : SpellsLiteral (.float (.finite x)) (.float x)
  | str (text : String) : SpellsLiteral (.str text) (.string text)
  | true : SpellsLiteral (.ident "true") (.bool true)
  | false : SpellsLiteral (.ident "false") (.bool false)
  | null : SpellsLiteral (.ident "null") .null

/-- The steps of a path: `.name`, `[integer]` and `[string]`. -/
inductive SpellsSegments : List Token → List Segment → Prop where
  | none : SpellsSegments [] []
  | field (name : String) {ts : List Token} {path : List Segment} (rest : SpellsSegments ts path) :
    SpellsSegments (.dot :: .ident name :: ts) (.field name :: path)
  | index (i : Int) {ts : List Token} {path : List Segment} (rest : SpellsSegments ts path) :
    SpellsSegments (.openBracket :: .int i :: .closeBracket :: ts) (.index i :: path)
  | key (name : String) {ts : List Token} {path : List Segment} (rest : SpellsSegments ts path) :
    SpellsSegments (.openBracket :: .str name :: .closeBracket :: ts) (.field name :: path)

/-- The words that cannot be the root of a path. -/
def reservedWords : List String := ["true", "false", "null", "and", "or", "in", "not"]

/-! ## Phrases -/

/-- The kinds of phrases. -/
inductive Phrase where
  | or
  | and
  | not
  | comparison
  | operand
  /-- The items of a list that is not empty, which derive the list. -/
  | items

/-- The expression that tokens derive as a phrase of a kind. Nothing can follow a path but an
operator, a separator or a closing token, so that a word before an opening parenthesis is `len` and
no path. -/
inductive Derives : Phrase → List Token → Expr → Prop where
  | conjunction {ts : List Token} {e : Expr} (h : Derives .and ts e) : Derives .or ts e
  | or {ts us : List Token} {t : Token} {l r : Expr} (left : Derives .or ts l) (sign : SpellsOr t)
    (right : Derives .and us r) : Derives .or (ts ++ t :: us) (.or l r)
  | negation {ts : List Token} {e : Expr} (h : Derives .not ts e) : Derives .and ts e
  | and {ts us : List Token} {t : Token} {l r : Expr} (left : Derives .and ts l)
    (sign : SpellsAnd t) (right : Derives .not us r) : Derives .and (ts ++ t :: us) (.and l r)
  | comparison {ts : List Token} {e : Expr} (h : Derives .comparison ts e) : Derives .not ts e
  | not {ts : List Token} {t : Token} {e : Expr} (sign : SpellsNot t) (h : Derives .not ts e) :
    Derives .not (t :: ts) (.not e)
  | operand {ts : List Token} {e : Expr} (h : Derives .operand ts e) : Derives .comparison ts e
  | compare {ts os us : List Token} {op : Comparison} {l r : Expr} (left : Derives .operand ts l)
    (sign : SpellsComparison os op) (right : Derives .operand us r) :
    Derives .comparison (ts ++ (os ++ us)) (.compare op l r)
  | literal {t : Token} {value : Value} (h : SpellsLiteral t value) :
    Derives .operand [t] (.literal value)
  | path {name : String} {ts : List Token} {path : List Segment} (root : name ∉ reservedWords)
    (h : SpellsSegments ts path) : Derives .operand (.ident name :: ts) (.path name path)
  | length {ts : List Token} {e : Expr} (h : Derives .or ts e) :
    Derives .operand (.ident "len" :: .openParen :: (ts ++ [.closeParen])) (.length e)
  | parenthesised {ts : List Token} {e : Expr} (h : Derives .or ts e) :
    Derives .operand (.openParen :: (ts ++ [.closeParen])) e
  | emptyList : Derives .operand [.openBracket, .closeBracket] (.list [])
  | list {ts : List Token} {e : Expr} (h : Derives .items ts e) :
    Derives .operand (.openBracket :: (ts ++ [.closeBracket])) e
  | lastItem {ts : List Token} {e : Expr} (h : Derives .or ts e) : Derives .items ts (.list [e])
  | item {ts us : List Token} {e : Expr} {es : List Expr} (h : Derives .or ts e)
    (rest : Derives .items us (.list es)) :
    Derives .items (ts ++ .comma :: us) (.list (e :: es))

/-! ## Where phrases start and end -/

/-- The tokens that close a parenthesis or a bracket. -/
def Token.closes (t : Token) : Bool := t = .closeParen || t = .closeBracket

namespace Derives

variable {p : Phrase} {ts : List Token} {e : Expr}

/-- A phrase starts with a token that neither closes nor separates anything. -/
theorem exists_cons (h : Derives p ts e) :
    ∃ t rest, ts = t :: rest ∧ t.closes = false ∧ t ≠ .comma := by
  induction h with
  | conjunction _ ih | negation _ ih | comparison _ ih | operand _ ih | lastItem _ ih => exact ih
  | or _ _ _ ih _ | and _ _ _ ih _ | compare _ _ _ ih _ | item _ _ ih _ =>
    obtain ⟨t, rest, rfl, hcloses, hcomma⟩ := ih
    exact ⟨t, _, rfl, hcloses, hcomma⟩
  | not sign _ _ => cases sign <;> exact ⟨_, _, rfl, rfl, nofun⟩
  | literal h => cases h <;> exact ⟨_, _, rfl, rfl, nofun⟩
  | path | length | parenthesised | emptyList | list => exact ⟨_, _, rfl, rfl, nofun⟩

/-- A phrase has at least one token. -/
theorem length_pos (h : Derives p ts e) : 0 < ts.length := by
  obtain ⟨t, rest, rfl, -⟩ := h.exists_cons
  exact Nat.succ_pos _

end Derives

/-- Tokens with a last one that is neither a comma nor a dot. -/
def Ends (ts : List Token) : Prop := ∃ before t, ts = before ++ [t] ∧ t ≠ .comma ∧ t ≠ .dot

/-- The last token stays the last one, whatever is put in front. -/
theorem Ends.append {us : List Token} (h : Ends us) (ts : List Token) : Ends (ts ++ us) := by
  obtain ⟨before, t, rfl, ht⟩ := h
  exact ⟨ts ++ before, t, by simp, ht⟩

/-- The last token stays the last one behind one more token. -/
theorem Ends.cons {us : List Token} (h : Ends us) (t : Token) : Ends (t :: us) := h.append [t]

/-- A name by itself ends with the name. -/
theorem ends_ident (name : String) : Ends [.ident name] := ⟨[], _, rfl, nofun, nofun⟩

/-- A closing parenthesis by itself is an end. -/
theorem ends_closeParen : Ends [.closeParen] := ⟨[], _, rfl, nofun, nofun⟩

/-- A closing bracket by itself is an end. -/
theorem ends_closeBracket : Ends [.closeBracket] := ⟨[], _, rfl, nofun, nofun⟩

/-- A path ends with its last step, or with its root. -/
theorem SpellsSegments.ends {ts : List Token} {path : List Segment} (h : SpellsSegments ts path)
    {root : Token} (hroot : Ends [root]) : Ends (root :: ts) := by
  induction h generalizing root with
  | none => exact hroot
  | field name _ ih => exact ((ih (ends_ident name)).cons _).cons _
  | index i _ ih | key name _ ih =>
    exact (((ih ends_closeBracket).cons _).cons _).cons _

/-- A phrase ends with a token that is neither a comma nor a dot. -/
theorem Derives.ends {p : Phrase} {ts : List Token} {e : Expr} (h : Derives p ts e) : Ends ts := by
  induction h with
  | conjunction _ ih | negation _ ih | comparison _ ih | operand _ ih | lastItem _ ih => exact ih
  | or _ _ _ _ ih | and _ _ _ _ ih | item _ _ _ ih => exact (ih.cons _).append _
  | not _ _ ih => exact ih.cons _
  | compare _ _ _ _ ih => exact (ih.append _).append _
  | literal h => cases h <;> exact ⟨[], _, rfl, nofun, nofun⟩
  | path _ h => exact h.ends (ends_ident _)
  | length => exact ((ends_closeParen.append _).cons _).cons _
  | parenthesised => exact (ends_closeParen.append _).cons _
  | emptyList => exact ends_closeBracket.cons _
  | list => exact (ends_closeBracket.append _).cons _

/-! ## What stands next to each other -/

/-- The words that may stand before an opening parenthesis. -/
def wordsBeforeParen : List String := ["and", "or", "in", "not", "len"]

/-- Two tokens that may be neighbours: only some words stand before an opening parenthesis, and a
comma is not followed by a token that closes. -/
def Adjoins (t u : Token) : Prop :=
  (u = .openParen → ∀ name, t = .ident name → name ∈ wordsBeforeParen) ∧
    (t = .comma → u.closes = false)

/-- Two lists without bad neighbours go together if the first does not end with a comma and the
second does not start with a parenthesis. -/
theorem isChain_append_of {ts us : List Token} (hts : ts.IsChain Adjoins) (hend : Ends ts)
    (hus : us.IsChain Adjoins) (hstart : us.head? ≠ some .openParen) :
    (ts ++ us).IsChain Adjoins := by
  obtain ⟨before, last, rfl, hlast, -⟩ := hend
  refine hts.append hus fun t ht u hu => ⟨fun hparen => ?_, fun hcomma => ?_⟩
  · exact absurd (hparen ▸ hu) hstart
  · obtain rfl : last = t := by simpa using ht
    exact absurd hcomma hlast

/-- A sign goes before a phrase, unless it is a word that cannot stand before a parenthesis. -/
theorem isChain_cons_of {p : Phrase} {t : Token} {us : List Token} {e : Expr}
    (h : Derives p us e) (hus : us.IsChain Adjoins)
    (hword : ∀ name, t = .ident name → name ∈ wordsBeforeParen) : (t :: us).IsChain Adjoins := by
  obtain ⟨u, rest, rfl, hcloses, -⟩ := h.exists_cons
  exact List.isChain_cons_cons.2 ⟨⟨fun _ => hword, fun _ => hcloses⟩, hus⟩

/-- A phrase goes between parentheses or brackets. -/
theorem isChain_enclose {p : Phrase} {ts : List Token} {e : Expr} (h : Derives p ts e)
    (hts : ts.IsChain Adjoins) {opening closing : Token} (hopening : ∀ name, opening ≠ .ident name)
    (hclosing : closing ≠ .openParen) :
    (opening :: (ts ++ [closing])).IsChain Adjoins := by
  have hinner : (opening :: ts).IsChain Adjoins :=
    isChain_cons_of h hts fun name hname => absurd hname (hopening name)
  exact isChain_append_of hinner (h.ends.cons _) (List.isChain_singleton _)
    (by simpa using hclosing)

/-- The steps of a path have no bad neighbours, and do not start with a parenthesis. -/
theorem SpellsSegments.isChain {ts : List Token} {path : List Segment}
    (h : SpellsSegments ts path) : ts.IsChain Adjoins ∧ ts.head? ≠ some .openParen := by
  have hadjoins : ∀ t u : Token, u ≠ .openParen → t ≠ .comma → Adjoins t u :=
    fun t u hu ht => ⟨fun h => absurd h hu, fun h => absurd h ht⟩
  induction h with
  | none => exact ⟨.nil, nofun⟩
  | field name _ ih =>
    refine ⟨List.isChain_cons_cons.2 ⟨hadjoins _ _ nofun nofun, List.isChain_cons.2 ⟨?_, ih.1⟩⟩,
      nofun⟩
    exact fun t ht => hadjoins _ _ (fun h => ih.2 (h ▸ ht)) nofun
  | index i _ ih =>
    refine ⟨List.isChain_cons_cons.2 ⟨hadjoins _ _ nofun nofun, List.isChain_cons_cons.2
      ⟨hadjoins _ _ nofun nofun, List.isChain_cons.2 ⟨?_, ih.1⟩⟩⟩, nofun⟩
    exact fun t ht => hadjoins _ _ (fun h => ih.2 (h ▸ ht)) nofun
  | key name _ ih =>
    refine ⟨List.isChain_cons_cons.2 ⟨hadjoins _ _ nofun nofun, List.isChain_cons_cons.2
      ⟨hadjoins _ _ nofun nofun, List.isChain_cons.2 ⟨?_, ih.1⟩⟩⟩, nofun⟩
    exact fun t ht => hadjoins _ _ (fun h => ih.2 (h ▸ ht)) nofun

/-- A phrase has no bad neighbours. -/
theorem Derives.isChain {p : Phrase} {ts : List Token} {e : Expr} (h : Derives p ts e) :
    ts.IsChain Adjoins := by
  induction h with
  | conjunction _ ih | negation _ ih | comparison _ ih | operand _ ih | lastItem _ ih => exact ih
  | or left sign right ihl ihr =>
    refine isChain_append_of ihl left.ends (isChain_cons_of right ihr ?_) ?_ <;>
      cases sign <;> simp [wordsBeforeParen]
  | and left sign right ihl ihr =>
    refine isChain_append_of ihl left.ends (isChain_cons_of right ihr ?_) ?_ <;>
      cases sign <;> simp [wordsBeforeParen]
  | not sign h ih =>
    refine isChain_cons_of h ih ?_
    cases sign <;> simp [wordsBeforeParen]
  | compare left sign right ihl ihr =>
    have hoperator : ∀ t : Token, (∀ name, t = .ident name → name ∈ wordsBeforeParen) →
        (t :: _).IsChain Adjoins := fun t ht => isChain_cons_of right ihr ht
    refine isChain_append_of ihl left.ends ?_ (by cases sign <;> simp)
    cases sign with
    | notMember =>
      -- The only operator with two tokens, which are neighbours themselves.
      refine List.isChain_cons_cons.2 ⟨⟨nofun, nofun⟩, hoperator _ ?_⟩
      simp [wordsBeforeParen]
    | _ => exact hoperator _ (by simp [wordsBeforeParen])
  | literal => exact List.isChain_singleton _
  | path _ h =>
    refine List.isChain_cons.2 ⟨fun t ht => ⟨fun hparen => ?_, nofun⟩, h.isChain.1⟩
    exact absurd (hparen ▸ ht) h.isChain.2
  | length h ih =>
    refine List.isChain_cons_cons.2 ⟨⟨fun _ name hname => ?_, nofun⟩,
      isChain_enclose h ih nofun nofun⟩
    simp [← Token.ident.inj hname, wordsBeforeParen]
  | parenthesised h ih | list h ih => exact isChain_enclose h ih nofun nofun
  | emptyList => exact List.isChain_pair.2 ⟨nofun, nofun⟩
  | item h rest ihe ihr =>
    exact isChain_append_of ihe h.ends (isChain_cons_of rest ihr nofun) nofun

/-! ## Fields are not called -/

/-- Somewhere an opening parenthesis stands behind the name of a field. -/
def CallsField (ts : List Token) : Prop :=
  ∃ before name after, ts = before ++ .dot :: .ident name :: .openParen :: after

/-- A token that is no dot has no part in the call of a field behind it. -/
theorem CallsField.of_cons {t : Token} {ts : List Token} (h : CallsField (t :: ts))
    (ht : t ≠ .dot) : CallsField ts := by
  obtain ⟨before, name, after, heq⟩ := h
  cases before with
  | nil => exact absurd (List.head_eq_of_cons_eq heq) ht
  | cons _ before => exact ⟨before, name, after, List.tail_eq_of_cons_eq heq⟩

/-- A call of a field is in one of two parts, unless the first one ends within it. -/
theorem CallsField.of_append {ts us : List Token} (h : CallsField (ts ++ us)) (hend : Ends ts)
    (hstart : us.head? ≠ some .openParen) : CallsField ts ∨ CallsField us := by
  obtain ⟨before, name, after, heq⟩ := h
  obtain ⟨as, -, hus⟩ | ⟨bs, hts, heq⟩ := List.append_eq_append_iff.1 heq
  · exact .inr ⟨as, name, after, hus⟩
  · -- How many of the three tokens are in the first part.
    match bs, heq with
    | [], heq => exact .inr ⟨[], name, after, heq.symm⟩
    | [_], hbehind =>
      obtain ⟨last, t, rfl, -, ht⟩ := hend
      obtain ⟨rfl, -⟩ := List.cons.inj hbehind
      exact absurd (List.append_inj_right' hts rfl) (by simpa using ht)
    | [_, _], heq =>
      obtain ⟨-, -, rfl⟩ : _ ∧ _ ∧ _ = us := by simpa using heq
      exact absurd rfl hstart
    | _ :: _ :: _ :: bs, heq =>
      obtain ⟨rfl, rfl, rfl, -⟩ : _ ∧ _ ∧ _ ∧ _ := by simpa using heq
      exact .inl ⟨before, name, bs, hts⟩

/-- The steps of a path call no field. -/
theorem SpellsSegments.not_callsField {ts : List Token} {path : List Segment}
    (h : SpellsSegments ts path) : ¬ CallsField ts := by
  induction h with
  | none =>
    rintro ⟨before, name, after, heq⟩
    simp at heq
  | field name rest ih =>
    rintro ⟨before, name, after, heq⟩
    cases before with
    | nil =>
      obtain ⟨-, rfl⟩ : _ ∧ _ = _ := by simpa using heq
      exact rest.isChain.2 rfl
    | cons _ before =>
      have hcalls : CallsField (.ident _ :: _) :=
        ⟨before, name, after, List.tail_eq_of_cons_eq heq⟩
      exact ih (hcalls.of_cons nofun)
  | index i _ ih | key name _ ih =>
    exact fun hcalls => ih (((hcalls.of_cons nofun).of_cons nofun).of_cons nofun)

/-- No phrase calls a field. -/
theorem Derives.not_callsField {p : Phrase} {ts : List Token} {e : Expr} (h : Derives p ts e) :
    ¬ CallsField ts := by
  have hsingle : ∀ {t : Token}, ¬ CallsField [t] := by
    rintro t ⟨before, name, after, heq⟩
    have hlength := congrArg List.length heq
    simp at hlength
    omega
  induction h with
  | conjunction _ ih | negation _ ih | comparison _ ih | operand _ ih | lastItem _ ih => exact ih
  -- A field name stands behind a dot, which ends no phrase: a call lies in one of the parts.
  | or left sign right ihl ihr | and left sign right ihl ihr =>
    intro hcalls
    refine (hcalls.of_append left.ends (by cases sign <;> simp)).elim ihl fun h => ihr ?_
    exact h.of_cons (by cases sign <;> nofun)
  | item h rest ihe ihr =>
    exact fun hcalls => (hcalls.of_append h.ends nofun).elim ihe fun h => ihr (h.of_cons nofun)
  | not sign h ih => exact fun hcalls => ih (hcalls.of_cons (by cases sign <;> nofun))
  | compare left sign right ihl ihr =>
    intro hcalls
    refine (hcalls.of_append left.ends (by cases sign <;> simp)).elim ihl fun h => ihr ?_
    cases sign with
    | notMember => exact (h.of_cons nofun).of_cons nofun
    | _ => exact h.of_cons nofun
  | literal => exact hsingle
  | path root h => exact fun hcalls => h.not_callsField (hcalls.of_cons nofun)
  | length h ih =>
    exact fun hcalls => (((hcalls.of_cons nofun).of_cons nofun).of_append h.ends nofun).elim ih
      hsingle
  | parenthesised h ih | list h ih =>
    exact fun hcalls => ((hcalls.of_cons nofun).of_append h.ends nofun).elim ih hsingle
  | emptyList => exact fun hcalls => hsingle (hcalls.of_cons nofun)

/-! ## Chained comparisons -/

/-- Whether a token is a comparison operator, or the end of one. -/
def Token.compares : Token → Bool
  | .equal | .notEqual | .less | .lessEqual | .greater | .greaterEqual => true
  | t => t = .ident "in"

/-- Whether a token stands between comparisons that do not make a chain. -/
def Token.separates (t : Token) : Bool :=
  t = .ident "and" || t = .ident "or" || t = .andSign || t = .orSign || t = .comma

/-- The levels of parentheses and brackets behind a token, from the innermost one; each with
whether a comparison was read at it since the last connective or comma. A second one is not
passed. -/
def Token.pass (t : Token) (levels : List Bool) : Option (List Bool) :=
  if t = .openParen || t = .openBracket then some (false :: levels)
  else if t.closes then some levels.tail
  else if t.compares then if levels.headD false then none else some (true :: levels.tail)
  else if t.separates then some (false :: levels.tail)
  else some levels

/-- Passes tokens one by one. The word behind a dot is the name of a field, whatever it is. -/
def passAll : List Bool → List Token → Option (List Bool)
  | levels, [] => some levels
  | levels, .dot :: _ :: ts => passAll levels ts
  | levels, t :: ts => (t.pass levels).bind fun levels => passAll levels ts

/-- At some level of parentheses and brackets, a comparison follows another one with no connective
and no comma in between. -/
def Chained (ts : List Token) : Prop := passAll [false] ts = none

/-- A token that is no dot is passed, and then the rest. -/
theorem passAll_cons {t : Token} (ht : t ≠ .dot) (levels : List Bool) (ts : List Token) :
    passAll levels (t :: ts) = (t.pass levels).bind fun levels => passAll levels ts := by
  rw [passAll]
  exact fun _ _ hdot _ => ht hdot

/-- The steps of a path leave the levels as they are. -/
theorem SpellsSegments.passAll {ts : List Token} {path : List Segment}
    (h : SpellsSegments ts path) (levels : List Bool) (us : List Token) :
    Condition.passAll levels (ts ++ us) = Condition.passAll levels us := by
  induction h with
  | none => rfl
  | field name _ ih => exact ih
  | index i _ ih | key name _ ih =>
    simpa [passAll_cons, Token.pass, Token.closes, Token.compares, Token.separates] using ih

/-- What passing a phrase does to the levels: an operand leaves them as they are, and any other
phrase at most reads a comparison at the innermost one. -/
def Phrase.Passes (ts : List Token) : Phrase → Prop
  | operand =>
    ∀ level levels us, passAll (level :: levels) (ts ++ us) = passAll (level :: levels) us
  | _ => ∃ level, ∀ levels us, passAll (false :: levels) (ts ++ us) = passAll (level :: levels) us

/-- A phrase passes, at the level at which it stands. -/
theorem Derives.passes {p : Phrase} {ts : List Token} {e : Expr} (h : Derives p ts e) :
    p.Passes ts := by
  induction h with
  | conjunction _ ih | negation _ ih | comparison _ ih | lastItem _ ih => exact ih
  | operand _ ih => exact ⟨false, ih false⟩
  | @or ts us t _ _ left sign right ihl ihr | @and ts us t _ _ left sign right ihl ihr =>
    obtain ⟨level, hleft⟩ := ihl
    obtain ⟨level', hright⟩ := ihr
    refine ⟨level', fun levels us => ?_⟩
    -- The sign has it forgotten what was read in the first part.
    rw [List.append_assoc, hleft, List.cons_append, ← hright]
    cases sign <;> simp [passAll_cons, Token.pass, Token.closes, Token.compares, Token.separates]
  | @item ts us e es h rest ihe ihr =>
    obtain ⟨level, hleft⟩ := ihe
    obtain ⟨level', hright⟩ := ihr
    refine ⟨level', fun levels us => ?_⟩
    rw [List.append_assoc, hleft, List.cons_append, ← hright]
    simp [passAll_cons, Token.pass, Token.closes, Token.compares, Token.separates]
  | not sign h ih =>
    obtain ⟨level, hlevel⟩ := ih
    refine ⟨level, fun levels us => ?_⟩
    rw [← hlevel]
    cases sign <;> simp [passAll_cons, Token.pass, Token.closes, Token.compares, Token.separates]
  | compare left sign right ihl ihr =>
    refine ⟨true, fun levels us => ?_⟩
    -- The operator finds no other one, since an operand leaves the levels as they are.
    rw [List.append_assoc, ihl, List.append_assoc, ← ihr true levels us]
    cases sign <;>
      simp [passAll_cons, Token.pass, Token.closes, Token.compares, Token.separates]
  | literal h =>
    intro level levels us
    cases h <;> simp [passAll_cons, Token.pass, Token.closes, Token.compares, Token.separates]
  | path root h =>
    intro level levels us
    rw [List.cons_append, ← h.passAll (level :: levels) us]
    simp only [reservedWords, List.mem_cons, not_or] at root
    simp [passAll_cons, Token.pass, Token.closes, Token.compares, Token.separates, root]
  | length h ih | parenthesised h ih | list h ih =>
    intro level levels us
    obtain ⟨level', hlevel⟩ := ih
    -- What is inside has a level of its own, which is left with the closing token.
    have hinner := hlevel (level :: levels)
    simp [passAll_cons, Token.pass, Token.closes, Token.compares, Token.separates, hinner]
  | emptyList =>
    intro level levels us
    simp [passAll_cons, Token.pass, Token.closes]

/-- No expression has chained comparisons. -/
theorem Derives.not_chained {ts : List Token} {e : Expr} (h : Derives .or ts e) : ¬ Chained ts := by
  obtain ⟨level, hlevel⟩ := h.passes
  have hpassed := hlevel [] []
  rw [List.append_nil] at hpassed
  unfold Chained
  rw [hpassed]
  nofun

/-- A comparison between comparisons is a chain, also in parentheses. -/
example : Chained [.openParen, .int 1, .less, .ident "x", .less, .int 3, .closeParen] := by
  unfold Chained
  decide

end AgentFlow.Condition
