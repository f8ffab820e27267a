import AgentFlow.Proofs.Fences
import Mathlib.Data.List.DropRight

/-!
# Stripping fences twice

What is left of a text when its fences are stripped is a part of it that no blank starts or ends,
and stripping that part changes nothing (`stripFences_idempotent`). The reason depends on where the
part comes from. What stands between two fences has no fence in it, since it ends in front of the
first one. Where nothing is cut out, only blanks are trimmed, and there is just as little to be cut
out of what is left. That can still have fences in it, as many as there are in a line that is
skipped.
-/

namespace AgentFlow

/-! ## Trimmed texts -/

namespace Text

variable {s : List Char}

/-- A text that no blank starts or ends. -/
structure Unpadded (s : List Char) : Prop where
  head : ∀ c ∈ s.head?, isBlank c = false
  last : ∀ c ∈ s.getLast?, isBlank c = false

/-- Trimming the end of a text leaves a front part of it. -/
theorem trimRight_isPrefix (s : List Char) : trimRight s <+: s := List.rdropWhile_prefix isBlank s

/-- Trimming a text leaves a part of it. -/
theorem trim_isInfix (s : List Char) : trim s <:+: s :=
  (trimRight_isPrefix (trimLeft s)).isInfix.trans (List.dropWhile_suffix isBlank).isInfix

/-- No blank starts or ends what is left of a text by trimming. -/
theorem unpadded_trim (s : List Char) : Unpadded (trim s) := by
  constructor
  · intro c hc
    -- What is trimmed at the right leaves the first character alone.
    have hleft : (trimLeft s).head? = some c := by
      obtain ⟨rest, hrest⟩ := trimRight_isPrefix (trimLeft s)
      rw [← hrest, List.head?_append, ← trim, hc]
      rfl
    have hhead := List.head?_dropWhile_not isBlank s
    rw [trimLeft] at hleft
    rwa [hleft] at hhead
  · intro c hc
    have hne : trim s ≠ [] := by
      intro hnil
      rw [hnil] at hc
      cases hc
    have hlast := List.rdropWhile_last_not isBlank (trimLeft s) hne
    rw [List.getLast?_eq_some_getLast hne] at hc
    rw [← Option.some.inj hc]
    exact Bool.eq_false_iff.2 hlast

/-- Nothing is trimmed off a text that no blank starts or ends. -/
theorem Unpadded.trim_eq (h : Unpadded s) : trim s = s := by
  have hleft : trimLeft s = s := by
    cases s with
    | nil => rfl
    | cons c rest => exact List.dropWhile_cons_of_neg (Bool.eq_false_iff.1 (h.head c rfl))
  have hright : trimRight s = s := by
    refine (List.rdropWhile_eq_self_iff (p := isBlank)).2 fun hne => ?_
    exact Bool.eq_false_iff.1 (h.last _ (List.getLast?_eq_some_getLast hne))
  rw [trim, hleft, hright]

end Text

/-! ## What is left -/

namespace Answer

/-- What is cut out is a part of the text with no blanks around it and no fence in it. -/
theorem of_fenced?_eq_some {mark text inside : List Char} {skipLine : Bool}
    (h : fenced? mark skipLine text = some inside) :
    inside <:+: text ∧ Text.Unpadded inside ∧ ¬ fence <:+: inside := by
  obtain ⟨before, line, body, after, rfl, hplain, rfl⟩ := exists_of_fenced?_eq_some h
  have hbody : Text.trim body <:+: body := Text.trim_isInfix body
  refine ⟨hbody.trans ?_, Text.unpadded_trim body, fun hfence => hplain (hfence.trans hbody)⟩
  exact ⟨before ++ mark ++ line, fence ++ after, by simp only [List.append_assoc]⟩

/-- What is left of a text was cut out between two fences, or there was nothing to be cut out of
what is left when blanks are trimmed. -/
theorem stripFences_cases (text : List Char) :
    (∃ mark skipLine, fenced? mark skipLine (Text.trim text) = some (stripFences text)) ∨
      stripFences text = Text.trim text ∧ fenced? jsonFence false (Text.trim text) = none ∧
        fenced? fence true (Text.trim text) = none := by
  unfold stripFences
  dsimp only
  cases hjson : fenced? jsonFence false (Text.trim text) with
  | some inside => exact .inl ⟨jsonFence, false, hjson⟩
  | none =>
    cases hfence : fenced? fence true (Text.trim text) with
    | some inside => exact .inl ⟨fence, true, hfence⟩
    | none => exact .inr ⟨rfl, rfl, rfl⟩

/-- Stripping the fences of a text only cuts: what is left is a part of the text, without blanks
around it. There is nothing more to be stripped off it. -/
theorem stripFences_idempotent (text : List Char) :
    stripFences (stripFences text) = stripFences text ∧ stripFences text <:+: text ∧
      Text.Unpadded (stripFences text) := by
  obtain ⟨mark, skipLine, hinside⟩ | ⟨htrim, hjson, hfence⟩ := stripFences_cases text
  · obtain ⟨hpart, hunpadded, hplain⟩ := of_fenced?_eq_some hinside
    have htrim : Text.trim (stripFences text) = stripFences text := hunpadded.trim_eq
    have hagain : stripFences (stripFences text) = Text.trim (stripFences text) :=
      stripFences_eq_trim fun hfenced => hplain (htrim ▸ hfenced.isInfix)
    exact ⟨hagain.trans htrim, hpart.trans (Text.trim_isInfix text), hunpadded⟩
  · -- The text is searched a second time, from the same start.
    have hunpadded := Text.unpadded_trim text
    rw [htrim]
    refine ⟨?_, Text.trim_isInfix text, hunpadded⟩
    rw [stripFences, hunpadded.trim_eq, hjson, hfence]
    rfl

/-- A line that is skipped is left with its fences if no other follows. -/
example : stripFences "\t```a``` b\nc ".toList = "```a``` b\nc".toList := by decide +kernel

end Answer

end AgentFlow
