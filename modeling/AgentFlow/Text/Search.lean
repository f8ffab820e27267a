/-!
# Searching a text

Cutting a text at the first or last place where something occurs. Each cut gives back the text:
what it returns, with the pattern put back in between, is the input.
-/

namespace AgentFlow.Text

/-- What follows `pattern` if the text starts with it. -/
def afterPrefix? : (pattern text : List Char) → Option (List Char)
  | [], text => some text
  | _ :: _, [] => none
  | p :: ps, c :: cs => if p = c then afterPrefix? ps cs else none

/-- Splits a text around the first occurrence of `pattern`. -/
def splitFirst? (pattern : List Char) : List Char → Option (List Char × List Char)
  | [] => (afterPrefix? pattern []).map fun rest => ([], rest)
  | c :: cs =>
    match afterPrefix? pattern (c :: cs) with
    | some rest => some ([], rest)
    | none => (splitFirst? pattern cs).map fun (before, after) => (c :: before, after)

/-- Whether `pattern` occurs in the text. -/
def contains (pattern text : List Char) : Bool := (splitFirst? pattern text).isSome

/-- Splits a text around the first occurrence of a character. -/
def splitAtFirst? (mark : Char) : List Char → Option (List Char × List Char)
  | [] => none
  | c :: cs =>
    if c = mark then some ([], cs)
    else (splitAtFirst? mark cs).map fun (before, after) => (c :: before, after)

/-- Splits a text around the last occurrence of a character. -/
def splitAtLast? (mark : Char) (text : List Char) : Option (List Char × List Char) :=
  (splitAtFirst? mark text.reverse).map fun (after, before) => (before.reverse, after.reverse)

/-- What stands behind a pattern has the pattern in front of it. -/
theorem eq_append_of_afterPrefix? {pattern text rest : List Char}
    (h : afterPrefix? pattern text = some rest) : text = pattern ++ rest := by
  induction pattern generalizing text with
  | nil => simpa [afterPrefix?] using h
  | cons p ps ih =>
    cases text with
    | nil => simp [afterPrefix?] at h
    | cons c cs =>
      simp only [afterPrefix?] at h
      split at h
      · next hpc => rw [hpc, ih h]; rfl
      · simp at h

/-- The two parts of a split, with the pattern between them, are the text. -/
theorem eq_append_of_splitFirst? {pattern text before after : List Char}
    (h : splitFirst? pattern text = some (before, after)) : text = before ++ pattern ++ after := by
  induction text generalizing before with
  | nil =>
    simp only [splitFirst?, Option.map_eq_some_iff, Prod.mk.injEq] at h
    obtain ⟨rest, hrest, rfl, rfl⟩ := h
    simpa using eq_append_of_afterPrefix? hrest
  | cons c cs ih =>
    simp only [splitFirst?] at h
    split at h
    · next rest hrest =>
      simp only [Option.some.injEq, Prod.mk.injEq] at h
      obtain ⟨rfl, rfl⟩ := h
      simpa using eq_append_of_afterPrefix? hrest
    · simp only [Option.map_eq_some_iff, Prod.mk.injEq, Prod.exists] at h
      obtain ⟨b, a, hba, rfl, rfl⟩ := h
      rw [ih hba]
      simp

/-- The two parts of a split at a character, with it between them, are the text. -/
theorem eq_append_of_splitAtFirst? {mark : Char} {text before after : List Char}
    (h : splitAtFirst? mark text = some (before, after)) : text = before ++ mark :: after := by
  induction text generalizing before with
  | nil => simp [splitAtFirst?] at h
  | cons c cs ih =>
    simp only [splitAtFirst?] at h
    split at h
    · next hc =>
      simp only [Option.some.injEq, Prod.mk.injEq] at h
      obtain ⟨rfl, rfl⟩ := h
      simp [hc]
    · simp only [Option.map_eq_some_iff, Prod.mk.injEq, Prod.exists] at h
      obtain ⟨b, a, hba, rfl, rfl⟩ := h
      rw [ih hba]
      simp

end AgentFlow.Text
