import AgentFlow.Config.Load
import Mathlib.Data.List.Basic

/-!
# Expanding the variables of a text

What the expansion of variables does to a text, said without the scan. A text is read from its front
as characters, spans, and perhaps a span at its end that is not closed (`Config.Reads`). A span
reaches from an opening to the next closing brace, whatever stands in between, and a character
stands for itself only where no span opens. Every text has one reading, which spells it, and the
text is expanded piece by piece (`Config.expands`).

Where every span is closed and no variable of a span is set, nothing is changed. A span that is not
closed gets a closing brace if its variable is not set: the text is changed by what is no reference
at all (`Sample.Unclosed.not_a_configuration`).
-/

namespace AgentFlow

namespace Text

variable {mark : Char} {before rest : List Char}

/-- A text is split at the first mark, if there is one. -/
theorem splitAtFirst?_eq_some_iff {text : List Char} :
    splitAtFirst? mark text = some (before, rest) ↔
      mark ∉ before ∧ text = before ++ mark :: rest := by
  refine ⟨fun h => ⟨?_, eq_append_of_splitAtFirst? h⟩, ?_⟩
  · induction text generalizing before with
    | nil => simp [splitAtFirst?] at h
    | cons c cs ih =>
      rw [splitAtFirst?] at h
      split at h
      · obtain ⟨rfl, -⟩ := Prod.mk.inj (Option.some.inj h)
        exact List.not_mem_nil
      · rename_i hc
        obtain ⟨⟨parts, behind⟩, hparts, heq⟩ := Option.map_eq_some_iff.1 h
        obtain ⟨rfl, rfl⟩ := Prod.mk.inj heq
        rw [List.mem_cons, not_or]
        exact ⟨Ne.symm hc, ih hparts⟩
  · rintro ⟨hbefore, rfl⟩
    induction before with
    | nil => simp [splitAtFirst?]
    | cons c cs ih =>
      rw [List.mem_cons, not_or] at hbefore
      simp [splitAtFirst?, Ne.symm hbefore.1, ih hbefore.2]

/-- A text is not split exactly if the mark does not occur in it. -/
theorem splitAtFirst?_eq_none_iff {text : List Char} :
    splitAtFirst? mark text = none ↔ mark ∉ text := by
  induction text with
  | nil => simp [splitAtFirst?]
  | cons c cs ih =>
    rw [splitAtFirst?, List.mem_cons, not_or]
    split
    · rename_i hc
      simp [hc]
    · rename_i hc
      rw [Option.map_eq_none_iff, ih]
      exact (and_iff_right (Ne.symm hc)).symm

end Text

namespace Config

/-! ## Readings -/

/-- A piece of a text. -/
inductive Piece where
  | plain (c : Char)
  | span (name : List Char)
  /-- A span that is not closed. -/
  | unclosed (name : List Char)

namespace Piece

/-- How a piece is written. -/
def written : Piece → List Char
  | plain c => [c]
  | span name => '$' :: '\x7b' :: (name ++ ['\x7d'])
  | unclosed name => '$' :: '\x7b' :: name

/-- The variable that a piece names. -/
def name? : Piece → Option String
  | plain _ => none
  | span name | unclosed name => some (String.ofList name)

/-- What a piece is expanded to: a span is the value of its variable, if that is set. -/
def expanded (env : Environment) : Piece → List Char
  | plain c => [c]
  | span name | unclosed name =>
    match env (String.ofList name) with
    | some value => value.toList
    | none => (span name).written

end Piece

/-- Whether a span opens in front of a text. -/
def Opens (text : List Char) : Prop := ∃ rest, text = '$' :: '\x7b' :: rest

/-- Reading a text from its front. -/
inductive Reads : List Char → List Piece → Prop where
  | nil : Reads [] []
  /-- A character stands for itself if no span opens with it. -/
  | plain {c : Char} {rest : List Char} {pieces : List Piece} (hc : ¬ Opens (c :: rest))
    (h : Reads rest pieces) : Reads (c :: rest) (.plain c :: pieces)
  /-- A span reaches to the next closing brace. -/
  | span {name rest : List Char} {pieces : List Piece} (hname : '\x7d' ∉ name)
    (h : Reads rest pieces) :
    Reads ('$' :: '\x7b' :: (name ++ '\x7d' :: rest)) (.span name :: pieces)
  /-- Without a closing brace it reaches to the end. -/
  | unclosed {name : List Char} (hname : '\x7d' ∉ name) :
    Reads ('$' :: '\x7b' :: name) [.unclosed name]

namespace Reads

variable {text : List Char} {pieces : List Piece}

/-- Every text has a reading. -/
theorem exists_reads (text : List Char) : ∃ pieces, Reads text pieces := by
  induction hlength : text.length using Nat.strongRecOn generalizing text with
  | ind length ih =>
    match text with
    | [] => exact ⟨[], .nil⟩
    | c :: rest =>
      simp only [List.length_cons] at hlength
      by_cases hopens : Opens (c :: rest)
      · obtain ⟨inner, heq⟩ := hopens
        obtain ⟨rfl, rfl⟩ := List.cons.inj heq
        cases hsplit : Text.splitAtFirst? '\x7d' inner with
        | some parts =>
          obtain ⟨hname, rfl⟩ := Text.splitAtFirst?_eq_some_iff.1 hsplit
          simp only [List.length_cons, List.length_append] at hlength
          obtain ⟨pieces, hpieces⟩ := ih parts.2.length (by omega) parts.2 rfl
          exact ⟨_, .span hname hpieces⟩
        | none => exact ⟨_, .unclosed (Text.splitAtFirst?_eq_none_iff.1 hsplit)⟩
      · obtain ⟨pieces, hpieces⟩ := ih rest.length (by omega) rest rfl
        exact ⟨_, .plain hopens hpieces⟩

/-- A text has no other reading. -/
theorem unique {other : List Piece} (h : Reads text pieces) (hother : Reads text other) :
    other = pieces := by
  induction h generalizing other with
  | nil =>
    cases hother
    rfl
  | plain hc h ih =>
    cases hother with
    | plain _ hother => rw [ih hother]
    | span => exact absurd ⟨_, rfl⟩ hc
    | unclosed => exact absurd ⟨_, rfl⟩ hc
  | @span name rest pieces hname h ih =>
    generalize htext : '$' :: '\x7b' :: (name ++ '\x7d' :: rest) = text at hother
    cases hother with
    | nil => cases htext
    | plain hc => exact absurd ⟨_, htext.symm⟩ hc
    | span hname' hother =>
      -- Both spans end at the first closing brace.
      have hinner := (List.cons.inj (List.cons.inj htext).2).2
      have hsplit := Text.splitAtFirst?_eq_some_iff.2 ⟨hname, hinner.symm⟩
      rw [Text.splitAtFirst?_eq_some_iff.2 ⟨hname', rfl⟩] at hsplit
      obtain ⟨rfl, rfl⟩ := Prod.mk.inj (Option.some.inj hsplit)
      rw [ih hother]
    | unclosed hname' =>
      have hinner := (List.cons.inj (List.cons.inj htext).2).2
      exact absurd (hinner ▸ List.mem_append_right _ List.mem_cons_self) hname'
  | @unclosed name hname =>
    generalize htext : '$' :: '\x7b' :: name = text at hother
    cases hother with
    | nil => cases htext
    | plain hc => exact absurd ⟨_, htext.symm⟩ hc
    | span hname' hother =>
      have hinner := (List.cons.inj (List.cons.inj htext).2).2
      exact absurd (hinner ▸ List.mem_append_right _ List.mem_cons_self) hname
    | unclosed hname' => rw [(List.cons.inj (List.cons.inj htext).2).2]

/-- A reading spells its text. -/
theorem flatMap_written (h : Reads text pieces) : pieces.flatMap Piece.written = text := by
  induction h with
  | nil => rfl
  | plain hc h ih => rw [List.flatMap_cons, ih]; rfl
  | span hname h ih => simp [Piece.written, ih]
  | unclosed hname => simp [Piece.written]

/-- A text is expanded piece by piece. -/
theorem expandFrom_eq (env : Environment) (h : Reads text pieces) {steps : Nat}
    (hsteps : text.length ≤ steps) :
    expandFrom env steps text = pieces.flatMap (Piece.expanded env) := by
  -- Along the reading, each piece of which pays for a step with a character.
  induction h generalizing steps with
  | nil => cases steps <;> rfl
  | @plain c rest pieces hc h ih =>
    cases steps with
    | zero => cases hsteps
    | succ steps =>
      have hrest := ih (Nat.le_of_succ_le_succ hsteps)
      rw [expandFrom]
      · rw [hrest]
        rfl
      · rintro more rfl rfl
        exact hc ⟨_, rfl⟩
  | @span name rest pieces hname h ih =>
    cases steps with
    | zero => cases hsteps
    | succ steps =>
      simp only [List.length_cons, List.length_append] at hsteps
      rw [expandFrom, Text.splitAtFirst?_eq_some_iff.2 ⟨hname, rfl⟩]
      dsimp only
      rw [ih (by omega), List.flatMap_cons]
      rfl
  | @unclosed name hname =>
    cases steps with
    | zero => cases hsteps
    | succ steps =>
      rw [expandFrom, Text.splitAtFirst?_eq_none_iff.2 hname, List.flatMap_singleton]
      rfl

end Reads

/-! ## Texts without variables -/

/-- Every opening has a closing brace somewhere behind it. -/
def Closed (text : List Char) : Prop :=
  ∀ before rest, text = before ++ '$' :: '\x7b' :: rest → '\x7d' ∈ rest

section Closed

variable {c : Char} {name rest : List Char}

/-- The empty text has no opening that could lack its closing brace. -/
theorem closed_nil : Closed [] := by
  intro before rest h
  cases before <;> cases h

/-- A character in front of a text makes no difference to its openings, unless one begins with
it. -/
theorem closed_cons_iff (hc : ¬ Opens (c :: rest)) : Closed (c :: rest) ↔ Closed rest := by
  constructor
  · rintro h before more rfl
    exact h (c :: before) more rfl
  · intro h before more heq
    cases before with
    | nil => exact absurd ⟨more, heq⟩ hc
    | cons d before => exact h before more (List.cons.inj heq).2

/-- A span in front of a text makes no difference to the openings behind it. -/
theorem closed_span_iff :
    Closed ('$' :: '\x7b' :: (name ++ '\x7d' :: rest)) ↔ Closed rest := by
  have hspan : '$' :: '\x7b' :: (name ++ '\x7d' :: rest) =
      ('$' :: '\x7b' :: name ++ ['\x7d']) ++ rest := by simp
  rw [hspan]
  constructor
  · rintro h before more rfl
    exact h _ more (List.append_assoc _ _ _).symm
  · intro h before more heq
    obtain ⟨middle, rfl, hrest⟩ | ⟨middle, hbefore, hmore⟩ := List.append_eq_append_iff.1 heq
    · exact h middle more hrest
    · obtain rfl | ⟨front, last, rfl⟩ := List.eq_nil_or_concat middle
      · exact h [] more hmore.symm
      · -- The opening stands in the span, so that its closing brace is behind it.
        rw [List.concat_eq_append, ← List.append_assoc] at hbefore
        obtain rfl : '\x7d' = last := by simpa using (List.append_inj' hbefore rfl).2
        have hmem : '\x7d' ∈ '$' :: '\x7b' :: more := by simp [hmore]
        simpa using hmem

/-- An opening with no brace behind it is not closed. -/
theorem not_closed (hname : '\x7d' ∉ name) : ¬ Closed ('$' :: '\x7b' :: name) :=
  fun h => hname (h [] name rfl)

end Closed

/-- None of the variables that the pieces name is set. -/
def Unset (env : Environment) (pieces : List Piece) : Prop :=
  ∀ name ∈ pieces.filterMap Piece.name?, env name = none

/-- Without variables a text stays as it is, but for a closing brace behind an opening without
one. -/
theorem Reads.flatMap_expanded {env : Environment} {text : List Char} {pieces : List Piece}
    (h : Reads text pieces) (hunset : Unset env pieces) :
    (Closed text → pieces.flatMap (Piece.expanded env) = text) ∧
      (¬ Closed text → pieces.flatMap (Piece.expanded env) = text ++ ['\x7d']) := by
  induction h with
  | nil => exact ⟨fun _ => rfl, fun hnot => absurd closed_nil hnot⟩
  | plain hc h ih =>
    rw [closed_cons_iff hc]
    obtain ⟨hclosed, hopen⟩ := ih hunset
    exact ⟨fun h => congrArg _ (hclosed h), fun h => congrArg _ (hopen h)⟩
  | @span name rest pieces hname h ih =>
    rw [closed_span_iff]
    have hnone : env (String.ofList name) = none := hunset _ List.mem_cons_self
    obtain ⟨hclosed, hopen⟩ := ih fun other hother => hunset other (List.mem_cons_of_mem _ hother)
    simp only [List.flatMap_cons, Piece.expanded, hnone, Piece.written]
    refine ⟨fun h => ?_, fun h => ?_⟩
    · rw [hclosed h]
      simp
    · rw [hopen h]
      simp
  | @unclosed name hname =>
    have hnone : env (String.ofList name) = none := hunset _ List.mem_cons_self
    refine ⟨fun h => absurd h (not_closed hname), fun _ => ?_⟩
    simp [Piece.expanded, hnone, Piece.written]

/-! ## Expansion -/

/-- What the expansion of a text comes to. -/
structure Expands (env : Environment) (text : String) (pieces : List Piece) : Prop where
  reads : Reads text.toList pieces
  unique : ∀ other, Reads text.toList other → other = pieces
  /-- What is no span stays as it is, and what is one is replaced by its value or stays. -/
  expanded : (expand env text).toList = pieces.flatMap (Piece.expanded env)
  written : pieces.flatMap Piece.written = text.toList
  /-- Without variables a text stays as it is if all its spans are closed. -/
  unset : Unset env pieces → Closed text.toList → expand env text = text
  /-- Otherwise the last one is closed. -/
  unclosed : Unset env pieces → ¬ Closed text.toList → expand env text = text ++ "\x7d"

/-- A text is expanded piece by piece, and stays as it is without variables, unless its last span is
not closed. -/
theorem expands (env : Environment) (text : String) : ∃ pieces, Expands env text pieces := by
  obtain ⟨pieces, hreads⟩ := Reads.exists_reads text.toList
  have hexpanded : (expand env text).toList = pieces.flatMap (Piece.expanded env) := by
    rw [expand, String.toList_ofList]
    exact hreads.expandFrom_eq env (Nat.le_of_eq String.length_toList)
  refine ⟨pieces, hreads, fun other hother => hreads.unique hother, hexpanded,
    hreads.flatMap_written, fun hunset hclosed => ?_, fun hunset hnot => ?_⟩
  · refine String.toList_inj.1 ?_
    rw [hexpanded, (hreads.flatMap_expanded hunset).1 hclosed]
  · refine String.toList_inj.1 ?_
    rw [hexpanded, (hreads.flatMap_expanded hunset).2 hnot, String.toList_append]
    rfl

end Config

/-! ## Samples -/

namespace Sample.Unclosed

/-- A file in which an opening stands for itself. -/
def text : String := "[model]\nmodel_id = \"m $\x7bREGION\"\n"

/-- It describes a configuration, but is not read as one, although no variable is set: a closing
brace is added to it. -/
theorem not_a_configuration :
    Config.expand (fun _ => none) text ≠ text ∧
    Config.expand (fun _ => none) text = text ++ "\x7d" ∧
    (Config.ofToml? text).isSome ∧
    (Config.ofToml? (Config.expand (fun _ => none) text)).isNone := by
  refine ⟨?_, ?_, ?_, ?_⟩ <;> decide +kernel

end Sample.Unclosed

end AgentFlow
