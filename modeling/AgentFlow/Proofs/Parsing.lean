import Mathlib.Order.MinMax
import AgentFlow.Proofs.Grammar
import AgentFlow.Proofs.Results

/-!
# The parser reads the grammar

The parser accepts just the token lists that derive an expression, with that expression. What it
reads is derived (`sound`, by induction on the steps); a phrase that is derived is read, whatever
stands behind it as long as the phrase cannot go on there (`Derives.reads`, by induction on the
derivation); and the number of steps does not matter once it is large enough (`steady`), so that the
steps that `parse` allows never run out.
-/

namespace AgentFlow.Condition

/-! ## Tokens -/

/-- The parser takes the signs of a disjunction for one, and no other tokens. -/
theorem isOr_iff {t : Token} : t.isOr ↔ SpellsOr t := by
  refine ⟨fun h => ?_, fun h => by cases h <;> rfl⟩
  have h : t = .ident "or" ∨ t = .orSign := by simpa [Token.isOr] using h
  rcases h with rfl | rfl
  · exact .word
  · exact .symbol

/-- The parser takes the signs of a conjunction for one, and no other tokens. -/
theorem isAnd_iff {t : Token} : t.isAnd ↔ SpellsAnd t := by
  refine ⟨fun h => ?_, fun h => by cases h <;> rfl⟩
  have h : t = .ident "and" ∨ t = .andSign := by simpa [Token.isAnd] using h
  rcases h with rfl | rfl
  · exact .word
  · exact .symbol

/-- The parser takes the signs of a negation for one, and no other tokens. -/
theorem isNot_iff {t : Token} : t.isNot ↔ SpellsNot t := by
  refine ⟨fun h => ?_, fun h => by cases h <;> rfl⟩
  have h : t = .ident "not" ∨ t = .bang := by simpa [Token.isNot] using h
  rcases h with rfl | rfl
  · exact .word
  · exact .symbol

/-- A comparison operator is found where it is spelled. -/
theorem operator?_append {os : List Token} {op : Comparison} (h : SpellsComparison os op)
    (rest : List Token) : operator? (os ++ rest) = some (op, rest) := by
  cases h <;> rfl

/-- A comparison operator that is found is spelled there. -/
theorem exists_of_operator?_eq_some {ts rest : List Token} {op : Comparison}
    (h : operator? ts = some (op, rest)) : ∃ os, ts = os ++ rest ∧ SpellsComparison os op := by
  unfold operator? at h
  split at h
  · cases h
    exact ⟨_, rfl, .member⟩
  · cases h
    exact ⟨_, rfl, .notMember⟩
  · rename_i t us _ _
    obtain ⟨op', hop, heq⟩ := Option.map_eq_some_iff.1 h
    cases heq
    refine ⟨[t], rfl, ?_⟩
    unfold Token.comparison? at hop
    split at hop <;> cases hop <;> constructor
  · cases h

/-- A word is read as a literal exactly if it spells one. -/
theorem wordLiteral?_eq_some_iff {name : String} {value : Value} :
    wordLiteral? name = some value ↔ SpellsLiteral (.ident name) value := by
  refine ⟨fun h => ?_, fun h => by cases h <;> rfl⟩
  unfold wordLiteral? at h
  split_ifs at h with htrue hfalse hnull
  · cases h
    exact htrue ▸ .true
  · cases h
    exact hfalse ▸ .false
  · cases h
    exact hnull ▸ .null

/-- A word is reserved if it is a literal or a keyword. -/
theorem mem_reservedWords_iff {name : String} :
    name ∈ reservedWords ↔ wordLiteral? name ≠ none ∨ isKeyword name := by
  unfold reservedWords wordLiteral? isKeyword
  by_cases htrue : name = "true" <;> by_cases hfalse : name = "false" <;>
    by_cases hnull : name = "null" <;> simp [htrue, hfalse, hnull, or_assoc]

/-! ## What is read is derived -/

/-- What is read as the steps of a path spells them. -/
theorem segments_sound {ts : List Token} {path : List Segment} {rest : List Token}
    (h : segments ts = .ok (path, rest)) :
    ∃ read, ts = read ++ rest ∧ SpellsSegments read path := by
  fun_induction segments ts generalizing path rest with
  | case1 name ts ih =>
    obtain ⟨⟨more, rest'⟩, hmore, heq⟩ := exists_of_map_eq_ok h
    cases heq
    obtain ⟨read, rfl, hread⟩ := ih hmore
    exact ⟨_, rfl, .field name hread⟩
  | case4 i ts ih =>
    obtain ⟨⟨more, rest'⟩, hmore, heq⟩ := exists_of_map_eq_ok h
    cases heq
    obtain ⟨read, rfl, hread⟩ := ih hmore
    exact ⟨_, rfl, .index i hread⟩
  | case5 name ts ih =>
    obtain ⟨⟨more, rest'⟩, hmore, heq⟩ := exists_of_map_eq_ok h
    cases heq
    obtain ⟨read, rfl, hread⟩ := ih hmore
    exact ⟨_, rfl, .key name hread⟩
  | case10 ts =>
    cases h
    exact ⟨[], rfl, .none⟩
  | _ => cases h

/-- What a function of the parser reads is a phrase of a kind. -/
def ReadsPhrase (p : Phrase) (f : List Token → Except Fault (Expr × List Token)) : Prop :=
  ∀ ⦃ts e rest⦄, f ts = .ok (e, rest) → ∃ read, ts = read ++ rest ∧ Derives p read e

/-- What a function of the parser reads behind a phrase of a kind makes it a longer one. -/
def ReadsBehind (p : Phrase) (f : Expr → List Token → Except Fault (Expr × List Token)) : Prop :=
  ∀ ⦃before left ts e rest⦄, Derives p before left → f left ts = .ok (e, rest) →
    ∃ read, ts = read ++ rest ∧ Derives p (before ++ read) e

/-- What the functions of the parser read with a number of steps. -/
structure Sound (steps : Nat) : Prop where
  or : ReadsPhrase .or (orExpr steps)
  orTail : ReadsBehind .or (orTail steps)
  and : ReadsPhrase .and (andExpr steps)
  andTail : ReadsBehind .and (andTail steps)
  not : ReadsPhrase .not (notExpr steps)
  comparison : ReadsPhrase .comparison (comparisonExpr steps)
  operand : ReadsPhrase .operand (operand steps)
  items : ∀ {ts es rest}, listItems steps ts = .ok (es, rest) →
    ∃ read, ts = read ++ .closeBracket :: rest ∧ Derives .items read (.list es)

/-- A token that is expected, and found, is the first one. -/
theorem expect_eq_ok {token : Token} {ts rest : List Token} (h : expect token ts = .ok rest) :
    ts = token :: rest := by
  unfold expect at h
  split at h
  · split_ifs at h with ht
    cases h
    rw [ht]
  · cases h

namespace Sound

variable {steps : Nat} (ih : Sound steps)
include ih

/-- A disjunction that is read is derived, with one step more than for what it is made of. -/
theorem or_succ : ReadsPhrase .or (orExpr (steps + 1)) := by
  intro ts e rest h
  rw [orExpr] at h
  obtain ⟨⟨left, rest'⟩, hleft, htail⟩ := exists_of_bind_eq_ok h
  obtain ⟨read, rfl, hread⟩ := ih.and hleft
  obtain ⟨more, rfl, hmore⟩ := ih.orTail (.conjunction hread) htail
  exact ⟨read ++ more, (List.append_assoc _ _ _).symm, hmore⟩

/-- What is read behind a disjunction makes it a longer one, with one step more. -/
theorem orTail_succ : ReadsBehind .or (Condition.orTail (steps + 1)) := by
  intro before left ts e rest hbefore h
  -- Where no sign of a disjunction follows, what was read before is all there is.
  have hstop : ∀ {us}, .ok (left, us) = Except.ok (ε := Fault) (e, rest) →
      ∃ read, us = read ++ rest ∧ Derives .or (before ++ read) e := by
    intro us heq
    cases heq
    exact ⟨[], rfl, (List.append_nil before).symm ▸ hbefore⟩
  cases ts with
  | nil => exact hstop h
  | cons t ts =>
    rw [Condition.orTail] at h
    split_ifs at h with ht
    · obtain ⟨⟨right, rest'⟩, hright, htail⟩ := exists_of_bind_eq_ok h
      obtain ⟨read, rfl, hread⟩ := ih.and hright
      obtain ⟨more, rfl, hmore⟩ := ih.orTail (.or hbefore (isOr_iff.1 ht) hread) htail
      exact ⟨t :: (read ++ more), by simp, by simpa using hmore⟩
    · exact hstop h

/-- A conjunction that is read is derived, with one step more. -/
theorem and_succ : ReadsPhrase .and (andExpr (steps + 1)) := by
  intro ts e rest h
  rw [andExpr] at h
  obtain ⟨⟨left, rest'⟩, hleft, htail⟩ := exists_of_bind_eq_ok h
  obtain ⟨read, rfl, hread⟩ := ih.not hleft
  obtain ⟨more, rfl, hmore⟩ := ih.andTail (.negation hread) htail
  exact ⟨read ++ more, (List.append_assoc _ _ _).symm, hmore⟩

/-- What is read behind a conjunction makes it a longer one, with one step more. -/
theorem andTail_succ : ReadsBehind .and (Condition.andTail (steps + 1)) := by
  intro before left ts e rest hbefore h
  have hstop : ∀ {us}, .ok (left, us) = Except.ok (ε := Fault) (e, rest) →
      ∃ read, us = read ++ rest ∧ Derives .and (before ++ read) e := by
    intro us heq
    cases heq
    exact ⟨[], rfl, (List.append_nil before).symm ▸ hbefore⟩
  cases ts with
  | nil => exact hstop h
  | cons t ts =>
    rw [Condition.andTail] at h
    split_ifs at h with ht
    · obtain ⟨⟨right, rest'⟩, hright, htail⟩ := exists_of_bind_eq_ok h
      obtain ⟨read, rfl, hread⟩ := ih.not hright
      obtain ⟨more, rfl, hmore⟩ := ih.andTail (.and hbefore (isAnd_iff.1 ht) hread) htail
      exact ⟨t :: (read ++ more), by simp, by simpa using hmore⟩
    · exact hstop h

/-- A negation that is read is derived, with one step more. -/
theorem not_succ : ReadsPhrase .not (notExpr (steps + 1)) := by
  intro ts e rest h
  have hcomparison : ∀ {us}, comparisonExpr steps us = .ok (e, rest) →
      ∃ read, us = read ++ rest ∧ Derives .not read e := fun h => by
    obtain ⟨read, rfl, hread⟩ := ih.comparison h
    exact ⟨read, rfl, .comparison hread⟩
  cases ts with
  | nil => exact hcomparison h
  | cons t ts =>
    rw [notExpr] at h
    split_ifs at h with ht
    · obtain ⟨⟨inner, rest'⟩, hinner, heq⟩ := exists_of_bind_eq_ok h
      cases heq
      obtain ⟨read, rfl, hread⟩ := ih.not hinner
      exact ⟨t :: read, rfl, .not (isNot_iff.1 ht) hread⟩
    · exact hcomparison h

/-- A comparison that is read is derived, with one step more. -/
theorem comparison_succ : ReadsPhrase .comparison (comparisonExpr (steps + 1)) := by
  intro ts e rest h
  rw [comparisonExpr] at h
  obtain ⟨⟨left, rest'⟩, hleft, hmore⟩ := exists_of_bind_eq_ok h
  obtain ⟨read, rfl, hread⟩ := ih.operand hleft
  dsimp only at hmore
  split at hmore
  · cases hmore
    exact ⟨read, rfl, .operand hread⟩
  · rename_i op behind hop
    obtain ⟨os, rfl, hos⟩ := exists_of_operator?_eq_some hop
    obtain ⟨⟨right, rest''⟩, hright, hend⟩ := exists_of_bind_eq_ok hmore
    obtain ⟨more, rfl, hoperand⟩ := ih.operand hright
    dsimp only at hend
    split_ifs at hend
    cases hend
    exact ⟨read ++ (os ++ more), by simp, .compare hread hos hoperand⟩

/-- What is read behind an opening parenthesis is an expression and the closing one. -/
theorem exists_of_enclosed {ts rest : List Token} {e : Expr} (make : Expr → Expr)
    (h : (do
      let (e, rest) ← orExpr steps ts
      let rest ← expect .closeParen rest
      return (make e, rest)) = Except.ok (ε := Fault) (e, rest)) :
    ∃ read inner, ts = read ++ .closeParen :: rest ∧ Derives .or read inner ∧ e = make inner := by
  obtain ⟨⟨inner, rest'⟩, hinner, hclose⟩ := exists_of_bind_eq_ok h
  obtain ⟨rest'', hexpect, heq⟩ := exists_of_bind_eq_ok hclose
  cases heq
  obtain ⟨read, rfl, hread⟩ := ih.or hinner
  exact ⟨read, inner, by rw [expect_eq_ok hexpect], hread, rfl⟩

/-- An operand that is read is derived, with one step more: a path, a call, a literal, a list, or an
expression between parentheses. -/
theorem operand_succ : ReadsPhrase .operand (Condition.operand (steps + 1)) := by
  intro ts e rest h
  rw [Condition.operand.eq_def] at h
  dsimp only at h
  -- What an operand is shows at its first token, but for the words.
  split at h
  · cases h
  · cases h
    exact ⟨[_], rfl, .literal (.int _)⟩
  · cases h
    exact ⟨[_], rfl, .literal (.float _)⟩
  · cases h
  · cases h
    exact ⟨[_], rfl, .literal (.str _)⟩
  · obtain ⟨read, inner, rfl, hread, rfl⟩ := ih.exists_of_enclosed id h
    exact ⟨_ :: (read ++ [.closeParen]), by simp, .parenthesised hread⟩
  · cases h
    exact ⟨[_, _], rfl, .emptyList⟩
  · obtain ⟨⟨es, rest'⟩, hitems, heq⟩ := exists_of_map_eq_ok h
    cases heq
    obtain ⟨read, rfl, hread⟩ := ih.items hitems
    exact ⟨_ :: (read ++ [.closeBracket]), by simp, .list hread⟩
  · -- A word is a literal, `len`, or the root of a path.
    rename_i name us
    split at h
    · rename_i value hvalue
      cases h
      exact ⟨[_], rfl, .literal (wordLiteral?_eq_some_iff.1 hvalue)⟩
    · rename_i hvalue
      split at h
      · cases h
      rename_i hkeyword
      split at h
      · split at h
        · cases h
        rename_i hlen
        obtain rfl : name = "len" := not_not.1 hlen
        obtain ⟨read, inner, rfl, hread, rfl⟩ := ih.exists_of_enclosed .length h
        exact ⟨_ :: _ :: (read ++ [.closeParen]), by simp, .length hread⟩
      · obtain ⟨⟨path, rest'⟩, hsegments, heq⟩ := exists_of_map_eq_ok h
        cases heq
        obtain ⟨read, rfl, hread⟩ := segments_sound hsegments
        refine ⟨.ident name :: read, rfl, .path (fun hreserved => ?_) hread⟩
        exact (mem_reservedWords_iff.1 hreserved).elim (absurd hvalue) hkeyword
  · cases h

/-- Items that are read up to the closing bracket are derived, with one step more. -/
theorem items_succ {ts : List Token} {es : List Expr} {rest : List Token}
    (h : listItems (steps + 1) ts = .ok (es, rest)) :
    ∃ read, ts = read ++ .closeBracket :: rest ∧ Derives .items read (.list es) := by
  rw [listItems] at h
  obtain ⟨⟨item, rest'⟩, hitem, hmore⟩ := exists_of_bind_eq_ok h
  obtain ⟨read, rfl, hread⟩ := ih.or hitem
  dsimp only at hmore
  split at hmore
  · obtain ⟨⟨items, rest''⟩, hitems, heq⟩ := exists_of_bind_eq_ok hmore
    cases heq
    obtain ⟨more, rfl, hothers⟩ := ih.items hitems
    exact ⟨read ++ .comma :: more, by simp, .item hread hothers⟩
  · cases hmore
    exact ⟨read, rfl, .lastItem hread⟩
  · cases hmore
  · cases hmore

end Sound

/-- Whatever the number of steps, what is read is derived. -/
theorem sound (steps : Nat) : Sound steps := by
  induction steps with
  | zero => exact ⟨nofun, nofun, nofun, nofun, nofun, nofun, nofun, nofun⟩
  | succ steps ih =>
    exact ⟨ih.or_succ, ih.orTail_succ, ih.and_succ, ih.andTail_succ, ih.not_succ,
      ih.comparison_succ, ih.operand_succ, ih.items_succ⟩

/-! ## The steps that are enough -/

/-- A phrase that is read takes at least one token. -/
theorem ReadsPhrase.length_lt {p : Phrase} {f : List Token → Except Fault (Expr × List Token)}
    (hf : ReadsPhrase p f) {ts rest : List Token} {e : Expr} (h : f ts = .ok (e, rest)) :
    rest.length < ts.length := by
  obtain ⟨read, rfl, hread⟩ := hf h
  have hpos := hread.length_pos
  rw [List.length_append]
  omega

/-- A comparison operator that is found takes at least one token. -/
theorem length_lt_of_operator? {ts rest : List Token} {op : Comparison}
    (h : operator? ts = some (op, rest)) : rest.length < ts.length := by
  obtain ⟨os, rfl, hos⟩ := exists_of_operator?_eq_some h
  have hpos : 0 < os.length := by cases hos <;> exact Nat.succ_pos _
  rw [List.length_append]
  omega

/-- One step more makes no difference once there are seven steps a token, and as many more as calls
can nest before the next token is read. -/
structure Steady (steps : Nat) : Prop where
  or : ∀ ts, 7 * ts.length + 5 ≤ steps → orExpr (steps + 1) ts = orExpr steps ts
  orTail : ∀ e ts, 7 * ts.length + 1 ≤ steps → orTail (steps + 1) e ts = orTail steps e ts
  and : ∀ ts, 7 * ts.length + 4 ≤ steps → andExpr (steps + 1) ts = andExpr steps ts
  andTail : ∀ e ts, 7 * ts.length + 1 ≤ steps → andTail (steps + 1) e ts = andTail steps e ts
  not : ∀ ts, 7 * ts.length + 3 ≤ steps → notExpr (steps + 1) ts = notExpr steps ts
  comparison : ∀ ts, 7 * ts.length + 2 ≤ steps →
    comparisonExpr (steps + 1) ts = comparisonExpr steps ts
  operand : ∀ ts, 7 * ts.length + 1 ≤ steps → operand (steps + 1) ts = operand steps ts
  items : ∀ ts, 7 * ts.length + 6 ≤ steps → listItems (steps + 1) ts = listItems steps ts

namespace Steady

variable {steps : Nat} (ih : Steady steps)
include ih

/-- A disjunction needs no further step if its parts do not. -/
theorem or_succ (ts : List Token) (h : 7 * ts.length + 5 ≤ steps + 1) :
    orExpr (steps + 2) ts = orExpr (steps + 1) ts := by
  rw [orExpr, orExpr, ih.and ts (by omega)]
  refine bind_congr_of_ok fun (left, rest) hleft => ih.orTail left rest ?_
  have hlength := (sound steps).and.length_lt hleft
  omega

/-- What stands behind a disjunction needs no further step if its parts do not. -/
theorem orTail_succ (left : Expr) (ts : List Token) (h : 7 * ts.length + 1 ≤ steps + 1) :
    Condition.orTail (steps + 2) left ts = Condition.orTail (steps + 1) left ts := by
  cases ts with
  | nil => rfl
  | cons t ts =>
    rw [List.length_cons] at h
    rw [Condition.orTail, Condition.orTail, ih.and ts (by omega)]
    refine if_congr Iff.rfl (bind_congr_of_ok fun (right, rest) hright => ?_) rfl
    have hlength := (sound steps).and.length_lt hright
    exact ih.orTail _ rest (by omega)

/-- A conjunction needs no further step if its parts do not. -/
theorem and_succ (ts : List Token) (h : 7 * ts.length + 4 ≤ steps + 1) :
    andExpr (steps + 2) ts = andExpr (steps + 1) ts := by
  rw [andExpr, andExpr, ih.not ts (by omega)]
  refine bind_congr_of_ok fun (left, rest) hleft => ih.andTail left rest ?_
  have hlength := (sound steps).not.length_lt hleft
  omega

/-- What stands behind a conjunction needs no further step if its parts do not. -/
theorem andTail_succ (left : Expr) (ts : List Token) (h : 7 * ts.length + 1 ≤ steps + 1) :
    Condition.andTail (steps + 2) left ts = Condition.andTail (steps + 1) left ts := by
  cases ts with
  | nil => rfl
  | cons t ts =>
    rw [List.length_cons] at h
    rw [Condition.andTail, Condition.andTail, ih.not ts (by omega)]
    refine if_congr Iff.rfl (bind_congr_of_ok fun (right, rest) hright => ?_) rfl
    have hlength := (sound steps).not.length_lt hright
    exact ih.andTail _ rest (by omega)

/-- A negation needs no further step if its parts do not. -/
theorem not_succ (ts : List Token) (h : 7 * ts.length + 3 ≤ steps + 1) :
    notExpr (steps + 2) ts = notExpr (steps + 1) ts := by
  cases ts with
  | nil => exact ih.comparison [] (by omega)
  | cons t ts =>
    rw [notExpr, notExpr, ih.comparison _ (by omega), ih.not ts]
    rw [List.length_cons] at h
    omega

/-- A comparison needs no further step if its operands do not. -/
theorem comparison_succ (ts : List Token) (h : 7 * ts.length + 2 ≤ steps + 1) :
    comparisonExpr (steps + 2) ts = comparisonExpr (steps + 1) ts := by
  rw [comparisonExpr, comparisonExpr, ih.operand ts (by omega)]
  refine bind_congr_of_ok fun (left, rest) hleft => ?_
  have hlength := (sound steps).operand.length_lt hleft
  dsimp only
  split
  · rfl
  · rename_i op rest' hop
    have hlength' := length_lt_of_operator? hop
    rw [ih.operand rest' (by omega)]

/-- An operand needs no further step if what it encloses does not. -/
theorem operand_succ (ts : List Token) (h : 7 * ts.length + 1 ≤ steps + 1) :
    Condition.operand (steps + 2) ts = Condition.operand (steps + 1) ts := by
  rw [Condition.operand.eq_def, Condition.operand.eq_def]
  dsimp only
  split
  all_goals try rfl
  · rw [ih.or _ (by simp at h; omega)]
  · rw [ih.items _ (by simp at h; omega)]
  · split
    · rfl
    refine if_congr Iff.rfl rfl ?_
    split
    · rw [ih.or _ (by simp at h; omega)]
    · rfl

/-- Items need no further step if each of them does not. -/
theorem items_succ (ts : List Token) (h : 7 * ts.length + 6 ≤ steps + 1) :
    listItems (steps + 2) ts = listItems (steps + 1) ts := by
  rw [listItems, listItems, ih.or ts (by omega)]
  refine bind_congr_of_ok fun (item, rest) hitem => ?_
  have hlength := (sound steps).or.length_lt hitem
  dsimp only
  split
  · rw [ih.items _ (by simp at hlength; omega)]
  all_goals rfl

end Steady

/-- From seven steps a token on, no function of the parser needs a further step, by induction on the
steps. -/
theorem steady (steps : Nat) : Steady steps := by
  induction steps with
  | zero =>
    -- No steps are not enough for anything.
    constructor <;> intros <;> omega
  | succ steps ih =>
    exact ⟨ih.or_succ, ih.orTail_succ, ih.and_succ, ih.andTail_succ, ih.not_succ,
      ih.comparison_succ, ih.operand_succ, ih.items_succ⟩

/-- Any number of steps from what `parse` allows on gives the same. -/
theorem orExpr_eq_of_le (ts : List Token) {steps : Nat} (h : 8 * (ts.length + 1) ≤ steps) :
    orExpr steps ts = orExpr (8 * (ts.length + 1)) ts := by
  induction steps, h using Nat.le_induction with
  | base => rfl
  | succ steps hsteps ih => rw [(steady steps).or ts (by omega), ih]

/-! ## What is derived is read -/

/-- A function of a number of steps has a result, with any number from some on. -/
def Reads {α : Type} (f : Nat → Except Fault α) (a : α) : Prop :=
  ∃ enough, ∀ steps, enough ≤ steps → f steps = .ok a

namespace Reads

variable {α β : Type} {f g : Nat → Except Fault α} {a : α}

/-- A result that takes no steps is there with any number of them. -/
theorem const (a : α) : Reads (fun _ => .ok a) a := ⟨0, fun _ _ => rfl⟩

/-- A function that goes on from a result has what it goes on to, with any number of steps from some
on. -/
theorem bind {k : Nat → α → Except Fault β} {b : β} (hf : Reads f a)
    (hk : Reads (fun steps => k steps a) b) : Reads (fun steps => f steps >>= k steps) b := by
  obtain ⟨enough, hf⟩ := hf
  obtain ⟨enough', hk⟩ := hk
  refine ⟨max enough enough', fun steps hsteps => ?_⟩
  have hfst := hf steps (le_of_max_le_left hsteps)
  exact (congrArg (· >>= k steps) hfst).trans (hk steps (le_of_max_le_right hsteps))

/-- A function of a result has the image of the result. -/
theorem map {k : α → β} (hf : Reads f a) : Reads (fun steps => (f steps).map k) (k a) := by
  obtain ⟨enough, hf⟩ := hf
  exact ⟨enough, fun steps hsteps => congrArg (Except.map k) (hf steps hsteps)⟩

/-- One step leads from one function to another. -/
theorem of_succ (hg : Reads g a) (h : ∀ steps, f (steps + 1) = g steps) : Reads f a := by
  obtain ⟨enough, hg⟩ := hg
  refine ⟨enough + 1, fun steps hsteps => ?_⟩
  obtain ⟨steps, rfl⟩ := Nat.exists_eq_add_of_le' (Nat.one_le_of_lt hsteps)
  exact (h steps).trans (hg steps (Nat.le_of_succ_le_succ hsteps))

end Reads

/-- Tokens with which an operand in front of them does not go on. -/
structure StopsOperand (rest : List Token) : Prop where
  segment : ∀ t ∈ rest.head?, t ≠ .dot ∧ t ≠ .openBracket ∧ t ≠ .openParen

/-- Tokens with which a comparison, or a negation, in front of them does not go on. -/
structure StopsComparison (rest : List Token) : Prop extends StopsOperand rest where
  operator : operator? rest = none

/-- Tokens with which a conjunction in front of them does not go on. -/
structure StopsAnd (rest : List Token) : Prop extends StopsComparison rest where
  conjunct : ∀ t ∈ rest.head?, t.isAnd = false

/-- Tokens with which a disjunction in front of them does not go on. -/
structure StopsOr (rest : List Token) : Prop extends StopsAnd rest where
  disjunct : ∀ t ∈ rest.head?, t.isOr = false

/-- A conjunction does not go on with the sign of a disjunction. -/
theorem stopsAnd_of_spellsOr {t : Token} (sign : SpellsOr t) (rest : List Token) :
    StopsAnd (t :: rest) := by
  cases sign <;> exact ⟨⟨⟨by simp⟩, rfl⟩, by simp [Token.isAnd]⟩

/-- A comparison does not go on with the sign of a conjunction. -/
theorem stopsComparison_of_spellsAnd {t : Token} (sign : SpellsAnd t) (rest : List Token) :
    StopsComparison (t :: rest) := by
  cases sign <;> exact ⟨⟨by simp⟩, rfl⟩

/-- An operand does not go on with a comparison operator. -/
theorem stopsOperand_of_spellsComparison {os : List Token} {op : Comparison}
    (sign : SpellsComparison os op) (rest : List Token) : StopsOperand (os ++ rest) := by
  cases sign <;> exact ⟨by simp⟩

/-- Whatever is inside stops where it is closed, and an item stops at a comma. -/
theorem stopsOr_of_closes {t : Token} (ht : t.closes ∨ t = .comma) (rest : List Token) :
    StopsOr (t :: rest) := by
  have ht : t = .closeParen ∨ t = .closeBracket ∨ t = .comma := by
    simpa [Token.closes, or_assoc] using ht
  rcases ht with rfl | rfl | rfl <;>
    exact ⟨⟨⟨⟨by simp⟩, rfl⟩, by simp [Token.isAnd]⟩, by simp [Token.isOr]⟩

/-- Nothing goes on where there are no more tokens. -/
theorem stopsOr_nil : StopsOr [] := ⟨⟨⟨⟨by simp⟩, rfl⟩, by simp⟩, by simp⟩

/-- Where a comparison stops, there is no sign of a second one. -/
theorem StopsComparison.head?_bind_comparison? {rest : List Token} (h : StopsComparison rest) :
    rest.head?.bind Token.comparison? = none := by
  have hnone := h.operator
  unfold operator? at hnone
  split at hnone
  · cases hnone
  · cases hnone
  · exact Option.map_eq_none_iff.1 hnone
  · rfl

/-- Where an operand stops, there are no steps of a path. -/
theorem segments_of_stops {rest : List Token} (h : StopsOperand rest) :
    segments rest = .ok ([], rest) := by
  rw [segments.eq_def]
  split
  all_goals try rfl
  all_goals simpa using h.segment _ rfl

/-- The steps of a path are read up to where an operand stops. -/
theorem segments_append {ts : List Token} {path : List Segment} (h : SpellsSegments ts path)
    {rest : List Token} (hrest : StopsOperand rest) : segments (ts ++ rest) = .ok (path, rest) := by
  induction h with
  | none => exact segments_of_stops hrest
  | field name _ ih | index i _ ih | key name _ ih =>
    simp only [List.cons_append, segments, ih]
    rfl

/-- Before a word that is not reserved and not called, there is a path. -/
theorem operand_path {name : String} (root : name ∉ reservedWords) {us : List Token}
    (hus : us.head? ≠ some .openParen) (steps : Nat) :
    operand (steps + 1) (.ident name :: us) =
      (segments us).map fun (path, rest) => (.path name path, rest) := by
  have hword : wordLiteral? name = none := by
    by_contra hword
    exact root (mem_reservedWords_iff.2 (.inl hword))
  have hkeyword : ¬ isKeyword name := fun h => root (mem_reservedWords_iff.2 (.inr h))
  rw [operand.eq_def]
  simp only [hword, if_neg hkeyword]
  split
  · exact absurd rfl hus
  · rfl

/-- Behind a bracket that is not closed at once, there are items. -/
theorem operand_list {us : List Token} (hus : us.head? ≠ some .closeBracket) (steps : Nat) :
    operand (steps + 1) (.openBracket :: us) =
      (listItems steps us).map fun (items, rest) => (.list items, rest) := by
  rw [operand]
  rintro rest rfl
  exact hus rfl

/-- An operand, and so a comparison, starts with no negation. -/
theorem Derives.exists_cons_not {p : Phrase} {ts : List Token} {e : Expr} (h : Derives p ts e)
    (hp : p = .operand ∨ p = .comparison) : ∃ t rest, ts = t :: rest ∧ t.isNot = false := by
  induction h with
  | conjunction | or | negation | and | comparison | not | lastItem | item => simp at hp
  | operand _ ih => exact ih (.inl rfl)
  | compare _ _ _ ih _ =>
    obtain ⟨t, rest, rfl, ht⟩ := ih (.inl rfl)
    exact ⟨t, _, rfl, ht⟩
  | literal h => cases h <;> exact ⟨_, _, rfl, rfl⟩
  | path root =>
    simp only [reservedWords, List.mem_cons, not_or] at root
    exact ⟨_, _, rfl, by simp [Token.isNot, root]⟩
  | length | parenthesised | emptyList | list => exact ⟨_, _, rfl, rfl⟩

/-- The parser reads tokens as a phrase of a kind that derives an expression, whatever follows with
which the phrase does not go on. Connectives are read from the left: behind a first part, what
counts is what becomes of it and the rest. -/
def Phrase.ReadAs (ts : List Token) (e : Expr) : Phrase → Prop
  | or => ∀ rest r, StopsAnd rest → Reads (fun steps => orTail steps e rest) r →
    Reads (fun steps => orExpr steps (ts ++ rest)) r
  | and => ∀ rest r, StopsComparison rest → Reads (fun steps => andTail steps e rest) r →
    Reads (fun steps => andExpr steps (ts ++ rest)) r
  | not => ∀ rest, StopsComparison rest → Reads (fun steps => notExpr steps (ts ++ rest)) (e, rest)
  | comparison => ∀ rest, StopsComparison rest →
    Reads (fun steps => comparisonExpr steps (ts ++ rest)) (e, rest)
  | operand => ∀ rest, StopsOperand rest →
    Reads (fun steps => Condition.operand steps (ts ++ rest)) (e, rest)
  | items => ∃ es, e = .list es ∧ ∀ rest,
    Reads (fun steps => listItems steps (ts ++ .closeBracket :: rest)) (es, rest)

section Tails

variable {e : Expr} {rest : List Token}

/-- Without the sign of a disjunction, nothing is read behind one. -/
theorem reads_orTail (hrest : ∀ t ∈ rest.head?, t.isOr = false) :
    Reads (fun steps => orTail steps e rest) (e, rest) := by
  refine (Reads.const _).of_succ fun steps => ?_
  cases rest with
  | nil => rfl
  | cons t rest => rw [orTail, if_neg (by simp [hrest t rfl])]

/-- Without the sign of a conjunction, nothing is read behind one. -/
theorem reads_andTail (hrest : ∀ t ∈ rest.head?, t.isAnd = false) :
    Reads (fun steps => andTail steps e rest) (e, rest) := by
  refine (Reads.const _).of_succ fun steps => ?_
  cases rest with
  | nil => rfl
  | cons t rest => rw [andTail, if_neg (by simp [hrest t rfl])]

end Tails

namespace Phrase.ReadAs

variable {ts : List Token} {e : Expr}

/-- A whole disjunction is read. -/
theorem reads_or (h : Phrase.or.ReadAs ts e) {rest : List Token} (hrest : StopsOr rest) :
    Reads (fun steps => orExpr steps (ts ++ rest)) (e, rest) :=
  h rest _ hrest.toStopsAnd (reads_orTail hrest.disjunct)

/-- A disjunction is read between parentheses. -/
theorem reads_enclosed (h : Phrase.or.ReadAs ts e) (make : Expr → Expr) (rest : List Token) :
    Reads (fun steps => do
      let (e, rest) ← orExpr steps (ts ++ .closeParen :: rest)
      let rest ← expect .closeParen rest
      return (make e, rest)) (make e, rest) := by
  refine (h.reads_or (stopsOr_of_closes (.inl rfl) rest)).bind ?_
  simp only [expect, if_pos]
  exact Reads.const _

/-- A conjunction alone is a disjunction: no `or` stands behind it that it does not leave to what is
read next. -/
theorem conjunction (h : Phrase.and.ReadAs ts e) : Phrase.or.ReadAs ts e := by
  intro rest r hrest htail
  refine Reads.of_succ ?_ fun steps => by rw [orExpr]
  exact (h rest _ hrest.toStopsComparison (reads_andTail hrest.conjunct)).bind htail

/-- A disjunction goes on with its sign and a conjunction. -/
theorem disjoin {l r : Expr} {t : Token} {us : List Token} (left : Phrase.or.ReadAs ts l)
    (sign : SpellsOr t) (right : Phrase.and.ReadAs us r) :
    Phrase.or.ReadAs (ts ++ t :: us) (.or l r) := by
  intro rest result hrest htail
  rw [List.append_assoc]
  -- What is left to read behind the first part is the sign, the second part, and what follows.
  have hright : Reads (fun steps => do
      let (right, rest) ← andExpr steps (us ++ rest)
      orTail steps (.or l right) rest) result :=
    (right rest _ hrest.toStopsComparison (reads_andTail hrest.conjunct)).bind htail
  refine left _ result (stopsAnd_of_spellsOr sign _) (hright.of_succ fun steps => ?_)
  rw [List.cons_append, orTail, if_pos (isOr_iff.2 sign)]

/-- A negation alone is a conjunction. -/
theorem negation (h : Phrase.not.ReadAs ts e) : Phrase.and.ReadAs ts e := by
  intro rest r hrest htail
  refine Reads.of_succ ?_ fun steps => by rw [andExpr]
  exact (h rest hrest).bind htail

/-- A conjunction goes on with its sign and a negation. -/
theorem conjoin {l r : Expr} {t : Token} {us : List Token} (left : Phrase.and.ReadAs ts l)
    (sign : SpellsAnd t) (right : Phrase.not.ReadAs us r) :
    Phrase.and.ReadAs (ts ++ t :: us) (.and l r) := by
  intro rest result hrest htail
  rw [List.append_assoc]
  have hright : Reads (fun steps => do
      let (right, rest) ← notExpr steps (us ++ rest)
      andTail steps (.and l right) rest) result := (right rest hrest).bind htail
  refine left _ result (stopsComparison_of_spellsAnd sign _) (hright.of_succ fun steps => ?_)
  rw [List.cons_append, andTail, if_pos (isAnd_iff.2 sign)]

/-- A comparison is read as such where a negation could stand, since it starts with none. -/
theorem positive (h : Phrase.comparison.ReadAs ts e) (hderives : Derives .comparison ts e) :
    Phrase.not.ReadAs ts e := by
  intro rest hrest
  obtain ⟨t, us, rfl, ht⟩ := hderives.exists_cons_not (.inr rfl)
  refine (h rest hrest).of_succ fun steps => ?_
  rw [List.cons_append, notExpr, if_neg (by simp [ht])]

/-- The sign of a negation, with a negation behind it, is read as one. -/
theorem negative {t : Token} (sign : SpellsNot t) (h : Phrase.not.ReadAs ts e) :
    Phrase.not.ReadAs (t :: ts) (.not e) := by
  intro rest hrest
  refine Reads.of_succ ((h rest hrest).bind (k := fun _ r => .ok (.not r.1, r.2))
    (Reads.const _)) fun steps => ?_
  rw [List.cons_append, notExpr, if_pos (isNot_iff.2 sign)]
  rfl

/-- An operand alone is a comparison. -/
theorem single (h : Phrase.operand.ReadAs ts e) : Phrase.comparison.ReadAs ts e := by
  intro rest hrest
  refine Reads.of_succ ((h rest hrest.toStopsOperand).bind ?_) fun steps => by rw [comparisonExpr]
  dsimp only
  rw [hrest.operator]
  exact Reads.const _

/-- Two operands with an operator between them are read as a comparison. -/
theorem compared {l r : Expr} {op : Comparison} {os us : List Token}
    (left : Phrase.operand.ReadAs ts l) (sign : SpellsComparison os op)
    (right : Phrase.operand.ReadAs us r) :
    Phrase.comparison.ReadAs (ts ++ (os ++ us)) (.compare op l r) := by
  intro rest hrest
  rw [List.append_assoc, List.append_assoc]
  refine Reads.of_succ ((left _ (stopsOperand_of_spellsComparison sign _)).bind ?_)
    fun steps => by rw [comparisonExpr]
  simp only [operator?_append sign]
  refine (right rest hrest.toStopsOperand).bind ?_
  simp only [hrest.head?_bind_comparison?]
  exact Reads.const _

/-- A word that is not reserved, with steps behind it, is read as a path. -/
theorem path {name : String} {path : List Segment} (root : name ∉ reservedWords)
    (h : SpellsSegments ts path) : Phrase.operand.ReadAs (.ident name :: ts) (.path name path) := by
  intro rest hrest
  -- Neither the path nor what follows it makes a call of the root.
  have hcall : (ts ++ rest).head? ≠ some .openParen := by
    rw [List.head?_append]
    intro hparen
    rcases Option.or_eq_some_iff.1 hparen with hparen | ⟨-, hparen⟩
    · exact h.isChain.2 hparen
    · exact (hrest.segment _ hparen).2.2 rfl
  refine (Reads.const _).of_succ fun steps => ?_
  rw [List.cons_append, operand_path root hcall, segments_append h hrest]
  rfl

/-- Items between brackets are read as a list. -/
theorem list {es : Expr} (h : Phrase.items.ReadAs ts es) (hderives : Derives .items ts es) :
    Phrase.operand.ReadAs (.openBracket :: (ts ++ [.closeBracket])) es := by
  obtain ⟨es, rfl, h⟩ := h
  intro rest hrest
  have hlist := (h rest).map (k := fun (es, rest) => (Expr.list es, rest))
  refine hlist.of_succ fun steps => ?_
  -- The first item does not close the list.
  obtain ⟨t, us, rfl, ht, -⟩ := hderives.exists_cons
  have hclose : t ≠ .closeBracket := fun hclose => by cases hclose ▸ ht
  rw [List.cons_append, List.append_assoc, operand_list (by simpa using hclose)]
  rfl

/-- An expression is read as the last item of a list. -/
theorem lastItem (h : Phrase.or.ReadAs ts e) : Phrase.items.ReadAs ts (.list [e]) := by
  refine ⟨_, rfl, fun rest => ?_⟩
  refine Reads.of_succ ((h.reads_or (stopsOr_of_closes (.inl rfl) rest)).bind ?_)
    fun steps => by rw [listItems]
  exact Reads.const _

/-- An expression in front of a comma is read as an item of a list, before the others. -/
theorem item {es : List Expr} {us : List Token} (first : Phrase.or.ReadAs ts e)
    (others : Phrase.items.ReadAs us (.list es)) :
    Phrase.items.ReadAs (ts ++ .comma :: us) (.list (e :: es)) := by
  obtain ⟨es, heq, others⟩ := others
  cases heq
  refine ⟨_, rfl, fun rest => ?_⟩
  rw [List.append_assoc]
  have hothers : Reads (fun steps => do
      let (es, rest) ← listItems steps (us ++ .closeBracket :: rest)
      return (e :: es, rest)) (e :: _, rest) := (others rest).bind (Reads.const _)
  refine Reads.of_succ ((first.reads_or (stopsOr_of_closes (.inr rfl)
    (us ++ .closeBracket :: rest))).bind ?_) fun steps => by rw [listItems]; rfl
  exact hothers

end Phrase.ReadAs

/-- What is derived is read. -/
theorem Derives.readAs {p : Phrase} {ts : List Token} {e : Expr} (h : Derives p ts e) :
    p.ReadAs ts e := by
  -- The grammar has one production for each way in which a function of the parser goes on.
  induction h with
  | conjunction _ ih => exact ih.conjunction
  | or _ sign _ ihl ihr => exact ihl.disjoin sign ihr
  | negation _ ih => exact ih.negation
  | and _ sign _ ihl ihr => exact ihl.conjoin sign ihr
  | comparison h ih => exact ih.positive h
  | not sign _ ih => exact ih.negative sign
  | operand _ ih => exact ih.single
  | compare _ sign _ ihl ihr => exact ihl.compared sign ihr
  | literal h =>
    intro rest hrest
    refine (Reads.const _).of_succ fun steps => ?_
    cases h <;> rfl
  | path root h => exact .path root h
  | length _ ih =>
    intro rest hrest
    refine (ih.reads_enclosed .length rest).of_succ fun steps => ?_
    simp [Condition.operand, wordLiteral?, isKeyword]
  | parenthesised _ ih =>
    intro rest hrest
    refine (ih.reads_enclosed id rest).of_succ fun steps => ?_
    simp [Condition.operand]
  | emptyList =>
    intro rest hrest
    exact (Reads.const _).of_succ fun steps => by rfl
  | list h ih => exact ih.list h
  | lastItem _ ih => exact ih.lastItem
  | item _ _ ihe ihr => exact ihe.item ihr

/-! ## The whole parser -/

/-- With enough steps, an expression is read up to where it stops. -/
theorem Derives.orExpr_eq {ts : List Token} {e : Expr} (h : Derives .or ts e) {rest : List Token}
    (hrest : StopsOr rest) :
    orExpr (8 * ((ts ++ rest).length + 1)) (ts ++ rest) = .ok (e, rest) := by
  -- Some number of steps is enough, and any from the parser's on gives the same.
  obtain ⟨enough, hread⟩ := h.readAs.reads_or hrest
  rw [← orExpr_eq_of_le _ (le_max_right enough _)]
  exact hread _ (le_max_left _ _)

/-- The parser accepts what derives an expression, and nothing else. -/
theorem parse_eq_ok_iff {ts : List Token} {e : Expr} : parse ts = .ok e ↔ Derives .or ts e := by
  unfold parse
  constructor
  · intro h
    split_ifs at h
    split at h
    · cases h
    · rename_i hread
      cases h
      obtain ⟨read, rfl, hderives⟩ := (sound _).or hread
      rwa [List.append_nil]
    · cases h
  · intro h
    have hread := h.orExpr_eq stopsOr_nil
    rw [List.append_nil] at hread
    rw [if_neg (by simpa using List.ne_nil_of_length_pos h.length_pos), hread]

/-- Behind an expression, the first token that does not belong to it is reported. -/
theorem parse_append_eq_error {ts : List Token} {e : Expr} (h : Derives .or ts e) {t : Token}
    {rest : List Token} (hstop : StopsOr (t :: rest)) :
    parse (ts ++ t :: rest) = .error (.afterExpression t) := by
  unfold parse
  rw [if_neg (by simp), h.orExpr_eq hstop]

/-- What derives nothing is refused. -/
theorem exists_parse_eq_error {ts : List Token} (h : ∀ e, ¬ Derives .or ts e) :
    ∃ fault, parse ts = .error fault := by
  cases hparse : parse ts with
  | ok e => exact absurd (parse_eq_ok_iff.1 hparse) (h e)
  | error fault => exact ⟨fault, rfl⟩

/-- What the parser makes of tokens. -/
structure ParsesExactly (ts : List Token) : Prop where
  /-- What is accepted is what the grammar derives. -/
  accepts : ∀ e, parse ts = .ok e ↔ Derives .or ts e
  /-- No two expressions are derived. -/
  unambiguous : ∀ e e', Derives .or ts e → Derives .or ts e' → e = e'
  /-- Tokens behind an expression that it does not go on with are refused. -/
  trailing : ∀ before e t after, ts = before ++ t :: after → Derives .or before e →
    StopsOr (t :: after) → parse ts = .error (.afterExpression t)
  /-- A comparison of comparisons is refused, at whatever depth. -/
  chained : Chained ts → ∃ fault, parse ts = .error fault
  /-- Nothing but `len` is called. -/
  calls : ∀ before name after, ts = before ++ .ident name :: .openParen :: after →
    name ∉ wordsBeforeParen → ∃ fault, parse ts = .error fault
  /-- Nor is a field, whatever its name. -/
  callsField : CallsField ts → ∃ fault, parse ts = .error fault
  /-- A comma has something behind it. -/
  trailingComma : ∀ before after, ts = before ++ .comma :: after →
    (∀ t ∈ after.head?, t.closes) → ∃ fault, parse ts = .error fault
  /-- The recursion ends within the steps that are allowed: with any number of further ones, the
  result is the same. -/
  terminates : ∀ steps, 8 * (ts.length + 1) ≤ steps →
    orExpr steps ts = orExpr (8 * (ts.length + 1)) ts

/-- The parser reads the grammar. -/
theorem parsesExactly (ts : List Token) : ParsesExactly ts where
  accepts _ := parse_eq_ok_iff
  unambiguous _ _ h h' := Except.ok.inj ((parse_eq_ok_iff.2 h).symm.trans (parse_eq_ok_iff.2 h'))
  trailing := by
    rintro before e t after rfl h hstop
    exact parse_append_eq_error h hstop
  chained hchained := exists_parse_eq_error fun _ h => h.not_chained hchained
  calls := by
    rintro before name after rfl hname
    refine exists_parse_eq_error fun e h => hname ?_
    -- In a phrase, the word would be one of those that may stand there.
    have hadjoins := List.isChain_iff_forall_rel_of_append_cons_cons.1 h.isChain rfl
    exact hadjoins.1 rfl name rfl
  callsField hcalls := exists_parse_eq_error fun _ h => h.not_callsField hcalls
  trailingComma := by
    rintro before after rfl hafter
    refine exists_parse_eq_error fun e h => ?_
    cases after with
    | nil =>
      obtain ⟨before', t, heq, hcomma, -⟩ := h.ends
      exact hcomma (List.append_inj_right' heq rfl |> List.head_eq_of_cons_eq).symm
    | cons t after =>
      have hadjoins := List.isChain_iff_forall_rel_of_append_cons_cons.1 h.isChain rfl
      have hcloses := hafter t rfl
      rw [hadjoins.2 rfl] at hcloses
      cases hcloses
  terminates _ := orExpr_eq_of_le ts

end AgentFlow.Condition
