import AgentFlow.Answer
import Mathlib.Data.List.Infix

/-!
# Code fences

An answer is read from what stands between its first two fences, if it has two of them, one behind
the other (`Answer.Fenced`). Without, only blanks are cut off it (`stripFences_eq_trim`). A single
fence is plain text, and so are more backticks in a row that are not enough for two.
-/

namespace AgentFlow

namespace Text

/-- Behind a pattern that a text starts with stands the rest of the text. -/
theorem afterPrefix?_append (pattern rest : List Char) :
    afterPrefix? pattern (pattern ++ rest) = some rest := by
  induction pattern with
  | nil => rfl
  | cons p ps ih => rw [List.cons_append, afterPrefix?, if_pos rfl, ih]

/-- The first occurrence of a pattern leaves at least what another one does. -/
theorem exists_splitFirst?_append (before pattern after : List Char) :
    ∃ first rest, splitFirst? pattern (before ++ (pattern ++ after)) = some (first, rest) ∧
      after <:+ rest := by
  induction before with
  | nil =>
    refine ⟨[], after, ?_, List.suffix_rfl⟩
    have hprefix := afterPrefix?_append pattern after
    rw [List.nil_append]
    cases htext : pattern ++ after with
    | nil => rw [splitFirst?, ← htext, hprefix, Option.map_some]
    | cons c cs => rw [splitFirst?, ← htext, hprefix]
  | cons c before ih =>
    rw [List.cons_append, splitFirst?]
    cases hprefix : afterPrefix? pattern (c :: (before ++ (pattern ++ after))) with
    | none =>
      obtain ⟨first, rest, hsplit, hsuffix⟩ := ih
      exact ⟨c :: first, rest, by rw [hsplit]; rfl, hsuffix⟩
    | some rest =>
      -- Both rests end the text, and the pattern in front of this one starts earlier.
      refine ⟨[], rest, rfl, ?_⟩
      have htext := eq_append_of_afterPrefix? hprefix
      have hlength := congrArg List.length htext
      simp only [List.length_cons, List.length_append] at hlength
      refine List.suffix_of_suffix_length_le ⟨c :: (before ++ pattern), ?_⟩ ⟨pattern, htext.symm⟩
        (by omega)
      simp only [List.cons_append, List.append_assoc]

/-- What stands in front of the first occurrence of a pattern has no other in it. -/
theorem not_isInfix_of_splitFirst? {pattern text before after : List Char} (hne : pattern ≠ [])
    (h : splitFirst? pattern text = some (before, after)) : ¬ pattern <:+: before := by
  rintro ⟨front, back, rfl⟩
  have htext : text = front ++ (pattern ++ (back ++ pattern ++ after)) := by
    rw [eq_append_of_splitFirst? h]
    simp only [List.append_assoc]
  -- The first occurrence would leave what the one in front of it does, with a pattern more.
  obtain ⟨first, rest, hsplit, hsuffix⟩ :=
    exists_splitFirst?_append front pattern (back ++ pattern ++ after)
  rw [← htext, h] at hsplit
  obtain ⟨-, rfl⟩ := Prod.mk.inj (Option.some.inj hsplit)
  have hlength := hsuffix.length_le
  have hpattern := List.length_pos_of_ne_nil hne
  simp only [List.length_append] at hlength
  omega

/-- A text contains a pattern exactly if the pattern is a stretch of the text. -/
theorem contains_iff {pattern text : List Char} :
    contains pattern text = true ↔ pattern <:+: text := by
  constructor
  · intro h
    obtain ⟨⟨before, after⟩, hsplit⟩ := Option.isSome_iff_exists.1 h
    exact ⟨before, after, (eq_append_of_splitFirst? hsplit).symm⟩
  · rintro ⟨before, after, rfl⟩
    obtain ⟨first, rest, hsplit, -⟩ := exists_splitFirst?_append before pattern after
    rw [List.append_assoc, contains, hsplit]
    rfl

end Text

namespace Answer

/-- A text with two fences, one behind the other. -/
def Fenced (text : List Char) : Prop :=
  ∃ before inside after, text = before ++ fence ++ inside ++ fence ++ after

/-- A text with two fences has one. -/
theorem Fenced.isInfix {text : List Char} (h : Fenced text) : fence <:+: text := by
  obtain ⟨before, inside, after, rfl⟩ := h
  exact ⟨before, inside ++ fence ++ after, by simp only [List.append_assoc]⟩

/-- A text has two fences exactly if one is found behind the first one that is found. -/
theorem fenced_iff {text : List Char} : Fenced text ↔
    (Text.splitFirst? fence text).any (fun parts => Text.contains fence parts.2) = true := by
  rw [Option.any_eq_true]
  constructor
  · rintro ⟨before, inside, after, rfl⟩
    obtain ⟨first, rest, hsplit, hsuffix⟩ :=
      Text.exists_splitFirst?_append before fence (inside ++ (fence ++ after))
    refine ⟨(first, rest), by rw [← hsplit]; simp only [List.append_assoc], ?_⟩
    exact Text.contains_iff.2 (List.IsInfix.trans ⟨inside, after, by simp⟩ hsuffix.isInfix)
  · rintro ⟨⟨before, rest⟩, hsplit, hcontains⟩
    obtain ⟨inside, after, rfl⟩ := Text.contains_iff.1 hcontains
    refine ⟨before, inside, after, ?_⟩
    rw [Text.eq_append_of_splitFirst? hsplit]
    simp only [List.append_assoc]

/-- It can be decided whether a text has two fences. -/
instance : DecidablePred Fenced := fun _ => decidable_of_iff _ fenced_iff.symm

/-- What is cut out of a text is trimmed, and is all that stands between what belongs to the opening
mark and the first fence behind that. -/
theorem exists_of_fenced?_eq_some {mark text inside : List Char} {skipLine : Bool}
    (h : fenced? mark skipLine text = some inside) :
    ∃ before line body after, text = before ++ mark ++ line ++ body ++ fence ++ after ∧
      ¬ fence <:+: body ∧ inside = Text.trim body := by
  unfold fenced? at h
  obtain ⟨⟨before, after⟩, hopen, h⟩ := Option.bind_eq_some_iff.1 h
  obtain ⟨⟨body, rest⟩, hclose, h⟩ := Option.bind_eq_some_iff.1 h
  have hafter := Text.eq_append_of_splitFirst? hopen
  have hbody := Text.eq_append_of_splitFirst? hclose
  have hplain := Text.not_isInfix_of_splitFirst? (by decide) hclose
  -- A line that is skipped stands in front of what is left of the text.
  obtain ⟨line, hline⟩ : ∃ line, after = line ++
      (if skipLine then ((Text.splitAtFirst? '\n' after).map Prod.snd).getD after else after) := by
    split_ifs
    · cases hsplit : Text.splitAtFirst? '\n' after with
      | none => exact ⟨[], rfl⟩
      | some parts =>
        obtain ⟨line, left⟩ := parts
        refine ⟨line ++ ['\n'], ?_⟩
        rw [List.append_assoc]
        exact Text.eq_append_of_splitAtFirst? hsplit
    · exact ⟨[], rfl⟩
  refine ⟨before, line, body, rest, ?_, hplain, (Option.some.inj h).symm⟩
  rw [hafter, hline, hbody]
  simp only [List.append_assoc]

/-- What is cut out of a text stands between two fences, whatever else belongs to the first mark. -/
theorem fenced_of_fenced?_eq_some {mark text inside : List Char} {skipLine : Bool}
    (h : fenced? mark skipLine text = some inside) (hmark : fence <+: mark) : Fenced text := by
  obtain ⟨more, rfl⟩ := hmark
  obtain ⟨before, line, body, after, rfl, -, -⟩ := exists_of_fenced?_eq_some h
  refine ⟨before, more ++ line ++ body, after, ?_⟩
  simp only [List.append_assoc]

/-- Without two fences, only blanks are cut off. -/
theorem stripFences_eq_trim {text : List Char} (h : ¬ Fenced (Text.trim text)) :
    stripFences text = Text.trim text := by
  have hnone : ∀ mark skipLine, fence <+: mark → fenced? mark skipLine (Text.trim text) = none :=
    fun mark skipLine hmark => Option.eq_none_iff_forall_ne_some.2 fun _ hinside =>
      h (fenced_of_fenced?_eq_some hinside hmark)
  have hjson : fence <+: jsonFence := ⟨['j', 's', 'o', 'n'], rfl⟩
  rw [stripFences, hnone jsonFence false hjson, hnone fence true List.prefix_rfl]
  rfl

end Answer

end AgentFlow
