import AgentFlow.Field
import Mathlib.Data.Option.Basic
import Mathlib.Tactic.SplitIfs

/-!
# Conversion to a declared type

What is converted to a type is a value of the type (`FieldKind.has`), and a value of a type is
converted to itself (`coerce_of_has`), so that to convert twice is to convert once. The exception is
a text that spells an infinity, no number, or a number past the greatest double: it is taken for a
real number, and comes out as null (`has_or_null_of_coerce`), which no type has.
-/

namespace AgentFlow

/-- What is read as a whole number has 64 bits. -/
theorem inInt64_of_readInteger?_eq_some {text : List Char} {n : Int}
    (h : readInteger? text = some n) : inInt64 n = true := by
  unfold readInteger? at h
  dsimp only at h
  split at h
  · cases h
  · generalize (if (splitSign text).1 = true then _ else _ : Int) = m at h
    split_ifs at h with hrange
    exact Option.some.inj h ▸ hrange

namespace FieldKind

/-- Whether a value is one of a type: a whole number has 64 bits with a sign, and a real number is a
double. -/
def has : FieldKind → Value → Bool
  | string, .string _ => true
  | int, .number (.int n) => inInt64 n
  | float, .number (.float _) => true
  | bool, .bool _ => true
  | list, .list _ => true
  | map, .map _ => true
  | _, _ => false

/-- What is taken for a whole number is one, within 64 bits. -/
theorem exists_of_wholeNumber?_eq_some {n : Number} {value : Value}
    (h : wholeNumber? n = some value) : ∃ i, value = .int i ∧ inInt64 i = true := by
  unfold wholeNumber? at h
  cases hint : n.toInt64? with
  | some i =>
    rw [hint] at h
    refine ⟨i, (Option.some.inj h).symm, ?_⟩
    cases n with
    | int m =>
      rw [Number.toInt64?] at hint
      split_ifs at hint with hrange
      exact Option.some.inj hint ▸ hrange
    | float x => cases hint
  | none =>
    rw [hint] at h
    obtain ⟨i, hi, rfl⟩ := Option.map_eq_some_iff.1 h
    exact ⟨i, rfl, (Option.filter_eq_some_iff.1 hi).2⟩

/-- A value of a type is left as it is. -/
theorem coerce_of_has {kind : FieldKind} {value : Value} (h : kind.has value = true) :
    kind.coerce value = some value := by
  revert h
  fun_cases has kind value with
  | case2 n =>
    intro hrange
    show wholeNumber? (.int n) = some (.int n)
    rw [wholeNumber?, Number.toInt64?, if_pos hrange]
  | case7 => exact nofun
  | _ => exact fun _ => rfl

/-- Whether a text is taken for a real number, but for none that a double can have. -/
def SpellsNoDouble (text : String) : Prop :=
  ∃ r, readReal? (Text.trim text.toList) = some r ∧ ∀ x, r ≠ .finite x

/-- What a value is converted to has the type, or is the null of a text that spells no double. -/
theorem has_of_coerce {kind : FieldKind} {value result : Value} :
    kind.coerce value = some result → kind.has result = true ∨
      (kind = .float ∧ result = .null ∧ ∃ s, value = .string s ∧ SpellsNoDouble s) := by
  fun_cases coerce kind value with
  | case4 n =>
    intro h
    obtain ⟨i, rfl, hrange⟩ := exists_of_wholeNumber?_eq_some h
    exact .inl hrange
  | case5 s =>
    intro h
    obtain ⟨n, hn, rfl⟩ := Option.map_eq_some_iff.1 h
    exact .inl (inInt64_of_readInteger?_eq_some hn)
  | case7 s =>
    intro h
    obtain ⟨r, hr, rfl⟩ := Option.map_eq_some_iff.1 h
    cases r with
    | finite x => exact .inl rfl
    | infinite negative => exact .inr ⟨rfl, rfl, s, rfl, .infinite negative, hr, fun _ => nofun⟩
    | undefined => exact .inr ⟨rfl, rfl, s, rfl, .undefined, hr, fun _ => nofun⟩
  | case9 s =>
    intro h
    obtain ⟨b, -, rfl⟩ := Option.map_eq_some_iff.1 h
    exact .inl rfl
  | case2 | case12 | case15 | case16 => exact nofun
  | _ =>
    rintro ⟨⟩
    exact .inl rfl

/-- A value that can be converted to a type is converted to a value of the type, which is converted
to itself; but a text that spells no double is converted to null in the place of a real number. -/
theorem has_or_null_of_coerce {kind : FieldKind} {value result : Value}
    (h : kind.coerce value = some result) :
    (kind.has result = true ∧ kind.coerce result = some result) ∨
      (kind = .float ∧ result = .null ∧ ∃ s, value = .string s ∧ SpellsNoDouble s) :=
  (has_of_coerce h).imp_left fun hhas => ⟨hhas, coerce_of_has hhas⟩

/-- Text that is no number is converted to null as a real number, and null is converted to none. -/
theorem coerce_not_a_number : float.coerce (.string "nan") = some .null ∧
    float.has .null = false ∧ float.coerce .null = none := by
  decide +kernel

/-- A whole number in a text. -/
theorem has_of_coerce_text : int.coerce (.string " -42") = some (.int (-42)) ∧
    int.has (.int (-42)) = true ∧ int.coerce (.int (-42)) = some (.int (-42)) := by
  have h : int.coerce (.string " -42") = some (.int (-42)) := by decide +kernel
  obtain hhas | ⟨hfloat, -⟩ := has_or_null_of_coerce h
  · exact ⟨h, hhas⟩
  · cases hfloat

end FieldKind

end AgentFlow
