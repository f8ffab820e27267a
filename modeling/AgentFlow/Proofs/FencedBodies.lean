import AgentFlow.Proofs.Fences
import Mathlib.Data.List.DropRight

/-!
# Bodies of code fences

What is cut out of a text with one fenced block. In such a text three backticks in a row stand at
the two ends of the block and nowhere else, so that the search for a fence has no choice
(`eq_of_append_fence`). The first line of the block is its tag, which is skipped with the line. A
tag that starts as the mark of JSON is different: the block then starts behind the mark, so that the
rest of the tag is part of what is cut out. `stripFences_fenced` says what comes out in either case,
and for which tags it is the body.
-/

namespace AgentFlow

/-! ## Trimming -/

namespace Text

variable {s blank : List Char} {c d : Char}

/-- Nothing is trimmed behind a character that is not blank. -/
theorem trimLeft_append_cons (hc : isBlank c = false) (s rest : List Char) :
    trimLeft (s ++ c :: rest) = trimLeft s ++ c :: rest := by
  unfold trimLeft
  rw [List.dropWhile_append, List.dropWhile_cons_of_neg (by simp [hc])]
  split_ifs with hs
  · rw [List.isEmpty_iff.1 hs, List.nil_append]
  · rfl

/-- Nothing is trimmed in front of a character that is not blank. -/
theorem trimRight_append_cons (hc : isBlank c = false) (s rest : List Char) :
    trimRight (rest ++ c :: s) = rest ++ c :: trimRight s := by
  have h := trimLeft_append_cons hc s.reverse rest.reverse
  unfold trimLeft at h
  unfold trimRight
  rw [List.reverse_append, List.reverse_cons, List.append_assoc, List.singleton_append, h,
    List.reverse_append, List.reverse_cons, List.reverse_reverse, List.append_assoc,
    List.singleton_append]

/-- Between two characters that are not blank nothing is trimmed. -/
theorem trim_enclosed (hc : isBlank c = false) (hd : isBlank d = false)
    (before middle after : List Char) :
    trim (before ++ c :: (middle ++ d :: after)) =
      trimLeft before ++ c :: (middle ++ d :: trimRight after) := by
  rw [trim, trimLeft_append_cons hc, ← List.cons_append, ← List.append_assoc,
    trimRight_append_cons hd, List.append_assoc, List.cons_append]

/-- Blanks in front of a text are trimmed. -/
theorem trim_blank_append (hblank : ∀ c ∈ blank, isBlank c = true) (s : List Char) :
    trim (blank ++ s) = trim s := by
  rw [trim, trimLeft, List.dropWhile_append_of_pos hblank]
  rfl

/-- Blanks behind a text are trimmed. -/
theorem trim_append_blank (hblank : ∀ c ∈ blank, isBlank c = true) (s : List Char) :
    trim (s ++ blank) = trim s := by
  have hright : ∀ t, trimRight (t ++ blank) = trimRight t := by
    intro t
    rw [trimRight, List.reverse_append, List.dropWhile_append_of_pos, trimRight]
    exact fun c hc => hblank c (List.mem_reverse.1 hc)
  rw [trim, trimLeft, List.dropWhile_append]
  split_ifs with hs
  · have hnone : blank.dropWhile isBlank = [] := List.dropWhile_eq_nil_iff.2 hblank
    rw [hnone, trim, trimLeft, List.isEmpty_iff.1 hs]
  · exact hright _

/-- More text in front does not make less of what is left of a text. -/
theorem length_trimRight_le (before s : List Char) :
    (trimRight s).length ≤ (trimRight (before ++ s)).length := by
  unfold trimRight
  rw [List.reverse_append, List.dropWhile_append, List.length_reverse, List.length_reverse]
  split_ifs with hs
  · rw [List.isEmpty_iff.1 hs]
    exact Nat.zero_le _
  · rw [List.length_append]
    exact Nat.le_add_right _ _

/-- Trimming both ends of a text leaves no more than trimming its end. -/
theorem length_trim_le (s : List Char) : (trim s).length ≤ (trimRight s).length := by
  have hsplit : s.takeWhile isBlank ++ trimLeft s = s := List.takeWhile_append_dropWhile
  have h := length_trimRight_le (s.takeWhile isBlank) (trimLeft s)
  rwa [hsplit] at h

/-- What is put in front of a text disappears with the blanks only if it is blank. -/
theorem trim_append_eq_trim_iff {before : List Char} :
    trim (before ++ s) = trim s ↔ ∀ c ∈ before, isBlank c = true := by
  refine ⟨fun h => ?_, fun h => trim_blank_append h s⟩
  by_contra hsome
  obtain ⟨c, hfind⟩ : ∃ c, before.find? (fun c => !isBlank c) = some c := by
    rw [← Option.isSome_iff_exists, List.find?_isSome]
    simpa using hsome
  obtain ⟨hc, blank, rest, rfl, hblank⟩ := List.find?_eq_some_iff_append.1 hfind
  replace hc : isBlank c = false := by simpa using hc
  -- From the first character that is not blank on, nothing is lost in front.
  have htrim : trim (blank ++ c :: rest ++ s) = c :: trimRight (rest ++ s) := by
    rw [List.append_assoc, trim_blank_append fun d hd => by simpa using hblank d hd,
      List.cons_append, trim, ← List.nil_append (c :: (rest ++ s)), trimLeft_append_cons hc]
    exact trimRight_append_cons hc (rest ++ s) []
  have hlength := congrArg List.length (htrim.symm.trans h)
  have hmore := length_trimRight_le rest s
  have hless := length_trim_le s
  rw [List.length_cons] at hlength
  omega

/-! ## The first occurrence -/

/-- Where the first character of a pattern does not occur, the pattern does not start. -/
theorem splitFirst?_append_of_notMem {first : Char} {pattern before : List Char}
    (h : first ∉ before) (after : List Char) :
    splitFirst? (first :: pattern) (before ++ (first :: pattern ++ after)) =
      some (before, after) := by
  induction before with
  | nil =>
    have hprefix := afterPrefix?_append (first :: pattern) after
    rw [List.cons_append] at hprefix
    rw [List.nil_append, List.cons_append, splitFirst?, hprefix]
  | cons c before ih =>
    obtain ⟨hc, hbefore⟩ := not_or.1 (List.mem_cons.not.1 h)
    rw [List.cons_append, splitFirst?, afterPrefix?, if_neg hc, ih hbefore]
    rfl

/-- A text is split at the mark that no other one comes before. -/
theorem splitAtFirst?_append {mark : Char} {before : List Char} (h : mark ∉ before)
    (after : List Char) : splitAtFirst? mark (before ++ mark :: after) = some (before, after) := by
  induction before with
  | nil => rw [List.nil_append, splitAtFirst?, if_pos rfl]
  | cons c before ih =>
    obtain ⟨hc, hbefore⟩ := not_or.1 (List.mem_cons.not.1 h)
    rw [List.cons_append, splitAtFirst?, if_neg (Ne.symm hc), ih hbefore]
    rfl

end Text

namespace Answer

/-! ## A text with one fence -/

/-- Where a fence stands behind a text that no backtick ends, with no backtick behind it, any other
fence is inside that text. -/
theorem append_fence_cases {before after first rest : List Char}
    (hlast : before.getLast? ≠ some '`') (hafter : '`' ∉ after)
    (h : before ++ (fence ++ after) = first ++ (fence ++ rest)) :
    (first = before ∧ rest = after) ∨
      ∃ more, before = first ++ (fence ++ more) ∧ rest = more ++ (fence ++ after) := by
  obtain ⟨more, rfl, hmore⟩ | ⟨more, rfl, hmore⟩ := List.append_eq_append_iff.1 h
  · cases more with
    | nil => exact .inl ⟨List.append_nil _, (List.append_cancel_left hmore).symm⟩
    | cons c more =>
      -- A fence that starts later ends behind the first one.
      refine absurd ?_ hafter
      rcases more with _ | ⟨d, _ | ⟨e, more⟩⟩ <;>
        simp only [fence, List.cons_append, List.nil_append, List.cons.injEq] at hmore
      · exact hmore.2.2.2 ▸ List.mem_cons_self
      · exact hmore.2.2.2 ▸ List.mem_cons_self
      · rw [hmore.2.2.2]
        simp
  · cases more with
    | nil => exact .inl ⟨(List.append_nil _).symm, List.append_cancel_left hmore⟩
    | cons c more =>
      -- One that starts earlier ends earlier too, as no backtick ends the text.
      rcases more with _ | ⟨d, _ | ⟨e, more⟩⟩ <;>
        simp only [fence, List.cons_append, List.nil_append, List.cons.injEq] at hmore
      · exact absurd (by simp [← hmore.1]) hlast
      · exact absurd (by simp [← hmore.2.1]) hlast
      · obtain ⟨rfl, rfl, rfl, hrest⟩ := hmore
        exact .inr ⟨more, rfl, hrest⟩

/-- A fence between a text without one, which no backtick ends, and a text without backticks is the
only one there is. -/
theorem eq_of_append_fence {before after first rest : List Char} (hbefore : ¬ fence <:+: before)
    (hlast : before.getLast? ≠ some '`') (hafter : '`' ∉ after)
    (h : before ++ (fence ++ after) = first ++ (fence ++ rest)) :
    first = before ∧ rest = after := by
  obtain heq | ⟨more, rfl, -⟩ := append_fence_cases hlast hafter h
  · exact heq
  · exact absurd ⟨first, more, List.append_assoc _ _ _⟩ hbefore

/-- A fence between a text without backticks and a text without a fence, which no backtick begins,
is the only one there is. -/
theorem eq_of_fence_append {before after first rest : List Char} (hafter : ¬ fence <:+: after)
    (hhead : after.head? ≠ some '`') (hbefore : '`' ∉ before)
    (h : before ++ (fence ++ after) = first ++ (fence ++ rest)) :
    first = before ∧ rest = after := by
  have hfence : fence.reverse = fence := rfl
  have hreverse := congrArg List.reverse h
  simp only [List.reverse_append, List.append_assoc, hfence] at hreverse
  rw [← List.getLast?_reverse] at hhead
  rw [← List.reverse_infix, hfence] at hafter
  obtain ⟨hrest, hfirst⟩ :=
    eq_of_append_fence hafter hhead (fun hmem => hbefore (List.mem_reverse.1 hmem)) hreverse
  exact ⟨List.reverse_injective hfirst, List.reverse_injective hrest⟩

/-- A text is split at its only fence. -/
theorem splitFirst?_fence {before after : List Char} (hbefore : ¬ fence <:+: before)
    (hlast : before.getLast? ≠ some '`') (hafter : '`' ∉ after) :
    Text.splitFirst? fence (before ++ (fence ++ after)) = some (before, after) := by
  obtain ⟨first, rest, hsplit, -⟩ := Text.exists_splitFirst?_append before fence after
  have htext := Text.eq_append_of_splitFirst? hsplit
  rw [List.append_assoc first] at htext
  obtain ⟨rfl, rfl⟩ := eq_of_append_fence hbefore hlast hafter htext
  exact hsplit

/-- A character other than a backtick parts the fences of a text. -/
theorem fence_isInfix_append_cons {c : Char} (hc : c ≠ '`') {before after : List Char} :
    fence <:+: before ++ c :: after ↔ fence <:+: before ∨ fence <:+: after := by
  constructor
  · rintro ⟨first, rest, htext⟩
    rw [List.append_assoc] at htext
    obtain ⟨more, rfl, hmore⟩ | ⟨more, rfl, hmore⟩ := List.append_eq_append_iff.1 htext
    · -- The whole fence stands in front of the character.
      rcases more with _ | ⟨d, _ | ⟨e, _ | ⟨f, more⟩⟩⟩ <;>
        simp only [fence, List.cons_append, List.nil_append, List.cons.injEq] at hmore
      · exact absurd hmore.1.symm hc
      · exact absurd hmore.2.1.symm hc
      · exact absurd hmore.2.2.1.symm hc
      · obtain ⟨rfl, rfl, rfl, -⟩ := hmore
        exact .inl ⟨first, more, by simp [fence]⟩
    · cases more with
      | nil => exact absurd (List.cons.inj hmore).1 hc
      | cons d more =>
        exact .inr ⟨more, rest, (List.append_assoc _ _ _).trans (List.cons.inj hmore).2.symm⟩
  · rintro (h | h)
    · exact h.trans (List.prefix_append before (c :: after)).isInfix
    · exact h.trans ((List.suffix_cons c after).trans (List.suffix_append before _)).isInfix

/-- There is no fence without a backtick. -/
theorem not_fence_isInfix {text : List Char} (h : '`' ∉ text) : ¬ fence <:+: text :=
  fun hfence => h (hfence.subset List.mem_cons_self)

/-! ## A text with one block -/

/-- A text with one fenced block: what stands around the block, its tag and its body. -/
structure FencedBlock where
  before : List Char
  tag : List Char
  body : List Char
  after : List Char
  before_plain : '`' ∉ before := by decide
  tag_plain : '`' ∉ tag := by decide
  tag_line : '\n' ∉ tag := by decide
  body_plain : ¬ fence <:+: body := by decide
  after_plain : '`' ∉ after := by decide

namespace FencedBlock

variable (block : FencedBlock)

/-- The text: the words in front, the block from its opening fence to its closing one, and the words
behind. -/
def text : List Char :=
  block.before ++ (fence ++ (block.tag ++ '\n' :: (block.body ++ '\n' :: (fence ++ block.after))))

/-- The block with the blanks around it cut off. -/
def trimmed : FencedBlock where
  before := Text.trimLeft block.before
  tag := block.tag
  body := block.body
  after := Text.trimRight block.after
  before_plain h := block.before_plain ((List.dropWhile_sublist _).subset h)
  tag_plain := block.tag_plain
  tag_line := block.tag_line
  body_plain := block.body_plain
  after_plain h := block.after_plain
    (List.mem_reverse.1 ((List.dropWhile_sublist _).subset (List.mem_reverse.1 h)))

/-- Trimming the text cuts off the blanks around it, and leaves the block. -/
theorem trim_text : Text.trim block.text = block.trimmed.text := by
  have hmark : Text.isBlank '`' = false := by decide
  have h := Text.trim_enclosed hmark hmark block.before
    ('`' :: '`' :: (block.tag ++ '\n' :: (block.body ++ ['\n', '`', '`']))) block.after
  simpa [text, trimmed, fence] using h

/-- The block is closed by the first fence behind a text without one. -/
theorem splitFirst?_close {inside : List Char} (h : ¬ fence <:+: inside) :
    Text.splitFirst? fence (inside ++ '\n' :: (fence ++ block.after)) =
      some (inside ++ ['\n'], block.after) := by
  have hinside : ¬ fence <:+: inside ++ ['\n'] := by
    rw [fence_isInfix_append_cons (by decide), not_or]
    exact ⟨h, by decide⟩
  have hlast : (inside ++ ['\n']).getLast? ≠ some '`' := by simp
  have hsplit := splitFirst?_fence hinside hlast block.after_plain
  rwa [List.append_assoc] at hsplit

/-- The line break in front of the closing fence is trimmed. -/
theorem trim_close (inside : List Char) : Text.trim (inside ++ ['\n']) = Text.trim inside :=
  Text.trim_append_blank (List.forall_mem_singleton.2 (by decide)) inside

/-- The mark of JSON, with a fence behind it, stands only where the tag starts with it. -/
theorem tag_of_text_eq {first rest : List Char} (hrest : '`' ∈ rest)
    (h : block.text = first ++ (fence ++ ('j' :: 's' :: 'o' :: 'n' :: rest))) :
    ∃ more, block.tag = 'j' :: 's' :: 'o' :: 'n' :: more := by
  -- What stands between the two fences of the block.
  set inside := block.tag ++ '\n' :: block.body ++ ['\n'] with hinside
  have htext : block.before ++ (fence ++ inside) ++ (fence ++ block.after) = block.text := by
    simp [text, inside]
  have hplain : ¬ fence <:+: inside := by
    rw [hinside, fence_isInfix_append_cons (by decide), fence_isInfix_append_cons (by decide),
      not_or, not_or]
    exact ⟨⟨not_fence_isInfix block.tag_plain, block.body_plain⟩, by decide⟩
  have hlast : (block.before ++ (fence ++ inside)).getLast? ≠ some '`' := by
    rw [hinside, ← List.append_assoc, ← List.append_assoc, List.getLast?_concat]
    decide
  have hhead : inside.head? ≠ some '`' := by
    have hplain := block.tag_plain
    rw [hinside]
    cases htag : block.tag with
    | nil => simp
    | cons c line => exact fun hc => hplain (by simp [htag, Option.some.inj hc])
  obtain ⟨-, hbehind⟩ | ⟨more, hopen, hmore⟩ :=
    append_fence_cases hlast block.after_plain (htext.trans h)
  · exact absurd (by simp [← hbehind, hrest]) block.after_plain
  · obtain ⟨-, rfl⟩ := eq_of_fence_append hplain hhead block.before_plain hopen
    -- The line break behind the tag is no part of the mark.
    have hstart : ['j', 's', 'o', 'n'] ++ rest =
        block.tag ++ '\n' :: (block.body ++ '\n' :: (fence ++ block.after)) := by
      simpa [inside] using hmore
    obtain ⟨more, htag, -⟩ | ⟨more, htag, hmore⟩ := List.append_eq_append_iff.1 hstart
    · exact ⟨more, htag⟩
    · cases more with
      | nil => exact ⟨[], by simpa using htag.symm⟩
      | cons c more =>
        obtain rfl := (List.cons.inj hmore).1
        have hbreak : '\n' ∈ ['j', 's', 'o', 'n'] := by
          rw [htag]
          exact List.mem_append_right _ List.mem_cons_self
        exact absurd hbreak (by decide)

/-- Behind the mark of JSON, what is cut out starts with the rest of the tag. -/
theorem fenced?_json {more : List Char} (htag : block.tag = 'j' :: 's' :: 'o' :: 'n' :: more) :
    fenced? jsonFence false block.text = some (Text.trim (more ++ '\n' :: block.body)) := by
  have hmore : '`' ∉ more := fun h => block.tag_plain (by simp [htag, h])
  have hopen : Text.splitFirst? jsonFence block.text = some (block.before,
      more ++ '\n' :: block.body ++ '\n' :: (fence ++ block.after)) := by
    rw [text, htag, List.append_assoc]
    exact Text.splitFirst?_append_of_notMem block.before_plain
      (more ++ '\n' :: (block.body ++ '\n' :: (fence ++ block.after)))
  have hinside : ¬ fence <:+: more ++ '\n' :: block.body := by
    rw [fence_isInfix_append_cons (by decide), not_or]
    exact ⟨not_fence_isInfix hmore, block.body_plain⟩
  have hclose := block.splitFirst?_close hinside
  simp only [fenced?, hopen, Option.bind_eq_bind, Option.bind_some, Bool.false_eq_true, if_false,
    hclose, Option.pure_def, trim_close]

/-- The line of a tag is skipped. -/
theorem fenced?_fence : fenced? fence true block.text = some (Text.trim block.body) := by
  have hopen : Text.splitFirst? fence block.text = some (block.before,
      block.tag ++ '\n' :: (block.body ++ '\n' :: (fence ++ block.after))) :=
    Text.splitFirst?_append_of_notMem block.before_plain _
  have hline := Text.splitAtFirst?_append block.tag_line
    (block.body ++ '\n' :: (fence ++ block.after))
  have hclose := block.splitFirst?_close block.body_plain
  simp only [fenced?, hopen, Option.bind_eq_bind, Option.bind_some, if_true, hline,
    Option.map_some, Option.getD_some, hclose, Option.pure_def, trim_close]

/-- No other tag is taken for the mark of JSON, nor is anything else in the text. -/
theorem fenced?_json_eq_none (h : ∀ more, block.tag ≠ 'j' :: 's' :: 'o' :: 'n' :: more) :
    fenced? jsonFence false block.text = none := by
  refine Option.eq_none_iff_forall_ne_some.2 fun inside hinside => ?_
  obtain ⟨⟨first, rest⟩, hopen, hbody⟩ := Option.bind_eq_some_iff.1 hinside
  obtain ⟨⟨body, behind⟩, hclose, -⟩ := Option.bind_eq_some_iff.1 hbody
  have hrest : '`' ∈ rest := by
    have htext : rest = body ++ fence ++ behind := Text.eq_append_of_splitFirst? hclose
    simp [htext, fence]
  have htext := Text.eq_append_of_splitFirst? hopen
  obtain ⟨more, htag⟩ := block.tag_of_text_eq hrest (htext.trans (List.append_assoc _ _ _))
  exact h more htag

/-- If the tag starts with the mark of JSON, the rest of the tag stays in front of the body. -/
theorem stripFences_of_json {more : List Char}
    (htag : block.tag = 'j' :: 's' :: 'o' :: 'n' :: more) :
    stripFences block.text = Text.trim (more ++ '\n' :: block.body) := by
  have hjson := block.trimmed.fenced?_json htag
  rw [stripFences, trim_text, hjson, Option.some_or, Option.getD_some]
  rfl

/-- If the tag does not start with the mark of JSON, the body is cut out, without the blanks around
it. -/
theorem stripFences_of_not_json (h : ∀ more, block.tag ≠ 'j' :: 's' :: 'o' :: 'n' :: more) :
    stripFences block.text = Text.trim block.body := by
  have hnone := block.trimmed.fenced?_json_eq_none h
  rw [stripFences, trim_text, hnone, Option.none_or, fenced?_fence, Option.getD_some]
  rfl

/-- What is cut out of a text with one fenced block is the body without the blanks around it, unless
the tag goes on behind the mark of JSON with something that is not blank. What stands behind that
mark is always a part of what is cut out. -/
theorem stripFences_fenced :
    (stripFences block.text = Text.trim block.body ↔
      ∀ more, block.tag = ['j', 's', 'o', 'n'] ++ more → ∀ c ∈ more, Text.isBlank c = true) ∧
    ∀ more, block.tag = ['j', 's', 'o', 'n'] ++ more →
      stripFences block.text = Text.trim (more ++ '\n' :: block.body) := by
  refine ⟨?_, fun more htag => block.stripFences_of_json htag⟩
  by_cases hjson : ∃ more, block.tag = ['j', 's', 'o', 'n'] ++ more
  · obtain ⟨more, htag⟩ := hjson
    have hblank : (∀ c ∈ more ++ ['\n'], Text.isBlank c = true) ↔
        ∀ c ∈ more, Text.isBlank c = true := by
      rw [List.forall_mem_append]
      exact and_iff_left (List.forall_mem_singleton.2 (by decide))
    have hstrip : stripFences block.text = Text.trim (more ++ '\n' :: block.body) :=
      block.stripFences_of_json htag
    rw [hstrip, List.append_cons, Text.trim_append_eq_trim_iff, hblank]
    refine ⟨fun h other hother => ?_, fun h => h more htag⟩
    rwa [← List.append_cancel_left (htag.symm.trans hother)]
  · have hnone := not_exists.1 hjson
    exact iff_of_true (block.stripFences_of_not_json hnone)
      fun more htag => absurd htag (hnone more)

end FencedBlock

end Answer

/-! ## Samples -/

namespace Sample.Quoting

open Answer

/-- A block of code between words. -/
def listing : FencedBlock where
  before := "So: ".toList
  tag := "sh".toList
  body := " echo '``'".toList
  after := " Done.".toList

/-- The body of the listing is cut out of the words around it. -/
theorem strip_listing :
    (∀ more, listing.tag = ['j', 's', 'o', 'n'] ++ more → ∀ c ∈ more, Text.isBlank c = true) ∧
      stripFences listing.text = "echo '``'".toList := by
  have htag : ∀ more, listing.tag = ['j', 's', 'o', 'n'] ++ more →
      ∀ c ∈ more, Text.isBlank c = true := by
    intro more h
    have hstart : some 's' = some 'j' := congrArg List.head? h
    exact absurd hstart (by decide)
  exact ⟨htag, listing.stripFences_fenced.1.2 htag⟩

/-- A block in a dialect of JSON. -/
def json5 : FencedBlock where
  before := []
  tag := "json5".toList
  body := "\x7b\x7d".toList
  after := []

/-- What is cut out of it starts with the end of the tag. -/
theorem strip_json5 :
    stripFences json5.text = "5\n\x7b\x7d".toList ∧
      stripFences json5.text ≠ Text.trim json5.body := by
  decide +kernel

end Sample.Quoting

end AgentFlow
