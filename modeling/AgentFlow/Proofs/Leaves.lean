import AgentFlow.Proofs.References
import AgentFlow.Proofs.Results

/-!
# Templates inside values

A value is filled in string by string. `Value.strings` are the strings in a value, and
`Value.mapStrings` puts something in the place of each: names of fields, the order of items and
everything that is no string stay. Filling in a value succeeds if it does for each of its strings,
and what comes out is the value with each string replaced (`exists_interpolateValue_iff`,
`interpolateValue_eq_ok_iff`). For a string alone it agrees with the filling in of text, up to
the rendering of what a lone reference stands for (`interpolate_eq_map_render`).
-/

namespace AgentFlow

namespace Value

mutual

/-- The strings in a value, in their order; names of fields are none. -/
def strings : Value → List String
  | string s => [s]
  | list items => itemStrings items
  | map fields => fieldStrings fields
  | _ => []

/-- The strings in a list, in their order. -/
def itemStrings : List Value → List String
  | [] => []
  | item :: rest => item.strings ++ itemStrings rest

/-- The strings in the values of a map, in their order. -/
def fieldStrings : List (String × Value) → List String
  | [] => []
  | (_, value) :: rest => value.strings ++ fieldStrings rest

end

mutual

/-- A value with something in the place of each string. -/
def mapStrings (f : String → Value) : Value → Value
  | string s => f s
  | list items => list (mapItemStrings f items)
  | map fields => map (mapFieldStrings f fields)
  | value => value

/-- A list with something in the place of each string. -/
def mapItemStrings (f : String → Value) : List Value → List Value
  | [] => []
  | item :: rest => item.mapStrings f :: mapItemStrings f rest

/-- A map with something in the place of each string of its values. -/
def mapFieldStrings (f : String → Value) : List (String × Value) → List (String × Value)
  | [] => []
  | (name, value) :: rest => (name, value.mapStrings f) :: mapFieldStrings f rest

end

mutual

/-- A value with each string in its own place is the value. -/
theorem mapStrings_string : (value : Value) → value.mapStrings string = value
  | null | bool _ | number _ | string _ => by simp [mapStrings]
  | list items => by rw [mapStrings, mapItemStrings_string items]
  | map fields => by rw [mapStrings, mapFieldStrings_string fields]

/-- A list with each string in its own place is the list. -/
theorem mapItemStrings_string : (items : List Value) → mapItemStrings string items = items
  | [] => rfl
  | item :: rest => by rw [mapItemStrings, mapStrings_string item, mapItemStrings_string rest]

/-- A map with each string in its own place is the map. -/
theorem mapFieldStrings_string : (fields : List (String × Value)) →
    mapFieldStrings string fields = fields
  | [] => rfl
  | (_, value) :: rest => by
    rw [mapFieldStrings, mapStrings_string value, mapFieldStrings_string rest]

end

end Value

namespace Template

variable (vars : Lookup)

/-- A string is filled in as text, up to the rendering of what a lone reference stands for. -/
theorem interpolate_eq_map_render (template : String) :
    interpolate vars template = (interpolateText vars template).map Value.render := by
  unfold interpolateText
  split
  · rename_i r hpieces
    rw [interpolate, hpieces, fill, fill]
    cases r.resolve vars with
    | error error => rfl
    | ok value => simp [bind, Except.bind, pure, Except.pure, Except.map]
  · cases interpolate vars template <;> rfl

/-- A text without references is filled in with itself. -/
theorem interpolateText_eq_self {template : String} (h : ¬ Mentions template) :
    interpolateText vars template = .ok (.string template) := by
  unfold interpolateText
  split
  · rename_i r hpieces
    rw [pieces_eq_map_plain h] at hpieces
    obtain ⟨c, -, hc⟩ := List.map_eq_singleton_iff.1 hpieces
    cases hc
  · rw [interpolate_eq_self vars h]
    rfl

mutual

/-- What is known of each string is known of the value. -/
theorem interpolateValue_of_strings {f : String → Value} : (value : Value) →
    (∀ s ∈ value.strings, interpolateText vars s = .ok (f s)) →
      interpolateValue vars value = .ok (value.mapStrings f)
  | .null, _ | .bool _, _ | .number _, _ => by simp [interpolateValue, Value.mapStrings]
  | .string s, h => by
    rw [interpolateValue, Value.mapStrings]
    exact h s (List.mem_singleton_self s)
  | .list items, h => by
    rw [interpolateValue, interpolateItems_of_strings items h, Value.mapStrings]
    rfl
  | .map fields, h => by
    rw [interpolateValue, interpolateFields_of_strings fields h, Value.mapStrings]
    rfl

/-- What is known of each string of a list is known of the list. -/
theorem interpolateItems_of_strings {f : String → Value} : (items : List Value) →
    (∀ s ∈ Value.itemStrings items, interpolateText vars s = .ok (f s)) →
      interpolateItems vars items = .ok (Value.mapItemStrings f items)
  | [], _ => rfl
  | item :: rest, h => by
    rw [Value.itemStrings, List.forall_mem_append] at h
    rw [interpolateItems, interpolateValue_of_strings item h.1,
      interpolateItems_of_strings rest h.2, Value.mapItemStrings]
    rfl

/-- What is known of each string of a map is known of the map. -/
theorem interpolateFields_of_strings {f : String → Value} : (fields : List (String × Value)) →
    (∀ s ∈ Value.fieldStrings fields, interpolateText vars s = .ok (f s)) →
      interpolateFields vars fields = .ok (Value.mapFieldStrings f fields)
  | [], _ => rfl
  | (_, value) :: rest, h => by
    rw [Value.fieldStrings, List.forall_mem_append] at h
    rw [interpolateFields, interpolateValue_of_strings value h.1,
      interpolateFields_of_strings rest h.2, Value.mapFieldStrings]
    rfl

end

mutual

/-- A value is filled in only if each of its strings is. -/
theorem exists_of_interpolateValue_eq_ok : (value : Value) → {filled : Value} →
    interpolateValue vars value = .ok filled →
      ∀ s ∈ value.strings, ∃ v, interpolateText vars s = .ok v
  | .null, _, _ | .bool _, _, _ | .number _, _, _ => fun _ hs => absurd hs List.not_mem_nil
  | .string s, filled, h => by
    rw [interpolateValue] at h
    intro t ht
    exact ⟨filled, List.mem_singleton.1 ht ▸ h⟩
  | .list items, _, h => by
    rw [interpolateValue] at h
    obtain ⟨_, hitems, -⟩ := exists_of_map_eq_ok h
    exact exists_of_interpolateItems_eq_ok items hitems
  | .map fields, _, h => by
    rw [interpolateValue] at h
    obtain ⟨_, hfields, -⟩ := exists_of_map_eq_ok h
    exact exists_of_interpolateFields_eq_ok fields hfields

/-- A list is filled in only if each of its strings is. -/
theorem exists_of_interpolateItems_eq_ok : (items : List Value) → {filled : List Value} →
    interpolateItems vars items = .ok filled →
      ∀ s ∈ Value.itemStrings items, ∃ v, interpolateText vars s = .ok v
  | [], _, _ => fun _ hs => absurd hs List.not_mem_nil
  | item :: rest, _, h => by
    rw [interpolateItems] at h
    obtain ⟨_, hitem, h⟩ := exists_of_bind_eq_ok h
    obtain ⟨_, hrest, -⟩ := exists_of_bind_eq_ok h
    rw [Value.itemStrings]
    exact List.forall_mem_append.2 ⟨exists_of_interpolateValue_eq_ok item hitem,
      exists_of_interpolateItems_eq_ok rest hrest⟩

/-- A map is filled in only if each of its strings is. -/
theorem exists_of_interpolateFields_eq_ok : (fields : List (String × Value)) →
    {filled : List (String × Value)} → interpolateFields vars fields = .ok filled →
      ∀ s ∈ Value.fieldStrings fields, ∃ v, interpolateText vars s = .ok v
  | [], _, _ => fun _ hs => absurd hs List.not_mem_nil
  | (_, value) :: rest, _, h => by
    rw [interpolateFields] at h
    obtain ⟨_, hvalue, h⟩ := exists_of_bind_eq_ok h
    obtain ⟨_, hrest, -⟩ := exists_of_bind_eq_ok h
    rw [Value.fieldStrings]
    exact List.forall_mem_append.2 ⟨exists_of_interpolateValue_eq_ok value hvalue,
      exists_of_interpolateFields_eq_ok rest hrest⟩

end

/-- What the strings of a value are filled in with, if all of them are. -/
theorem exists_filling {strings : List String}
    (h : ∀ s ∈ strings, ∃ v, interpolateText vars s = .ok v) :
    ∃ f : String → Value, ∀ s ∈ strings, interpolateText vars s = .ok (f s) := by
  choose! f hf using h
  exact ⟨f, hf⟩

/-- What comes out is the value with what its strings are filled in with. -/
theorem interpolateValue_eq_ok_iff {value filled : Value} :
    interpolateValue vars value = .ok filled ↔ ∃ f : String → Value,
      (∀ s ∈ value.strings, interpolateText vars s = .ok (f s)) ∧ filled = value.mapStrings f := by
  constructor
  · intro h
    obtain ⟨f, hf⟩ := exists_filling vars (exists_of_interpolateValue_eq_ok vars value h)
    rw [interpolateValue_of_strings vars value hf] at h
    exact ⟨f, hf, (Except.ok.inj h).symm⟩
  · rintro ⟨f, hf, rfl⟩
    exact interpolateValue_of_strings vars value hf

/-- A string is filled in, to a value of any kind, if it is as text. -/
theorem exists_interpolateText_iff {template : String} :
    (∃ v, interpolateText vars template = .ok v) ↔
      ∃ text, interpolate vars template = .ok text := by
  rw [interpolate_eq_map_render]
  cases interpolateText vars template <;> simp [Except.map]

/-- A value is filled in if and only if each of its strings is. -/
theorem exists_interpolateValue_iff {value : Value} :
    (∃ filled, interpolateValue vars value = .ok filled) ↔
      ∀ s ∈ value.strings, ∃ text, interpolate vars s = .ok text := by
  simp only [← exists_interpolateText_iff]
  constructor
  · rintro ⟨filled, h⟩
    exact exists_of_interpolateValue_eq_ok vars value h
  · intro h
    obtain ⟨f, hf⟩ := exists_filling vars h
    exact ⟨_, interpolateValue_of_strings vars value hf⟩

/-- A value without references is filled in with itself. -/
theorem interpolateValue_eq_self {value : Value} (h : ∀ s ∈ value.strings, ¬ Mentions s) :
    interpolateValue vars value = .ok value := by
  have hself := interpolateValue_of_strings vars value fun s hs =>
    interpolateText_eq_self vars (h s hs)
  rwa [Value.mapStrings_string] at hself

/-- A string is filled in as text, up to the rendering of what a lone reference stands for, and it
fails as the text does. A value is filled in exactly if each of its strings is, and what comes out
is the value with every string replaced by what it is filled in with. Without a reference in any of
its strings it is the value itself. -/
theorem interpolateValue_keeps_shape :
    (∀ s : String, interpolate vars s = (interpolateValue vars (.string s)).map Value.render) ∧
    ∀ value : Value,
      ((∃ filled, interpolateValue vars value = .ok filled) ↔
        ∀ s ∈ value.strings, ∃ text, interpolate vars s = .ok text) ∧
      (∀ filled, interpolateValue vars value = .ok filled ↔
        ∃ f : String → Value,
          (∀ s ∈ value.strings, interpolateValue vars (.string s) = .ok (f s)) ∧
            filled = value.mapStrings f) ∧
      ((∀ s ∈ value.strings, ¬ Mentions s) → interpolateValue vars value = .ok value) := by
  have hstring : ∀ s, interpolateValue vars (.string s) = interpolateText vars s := fun s => by
    rw [interpolateValue]
  simp only [hstring]
  exact ⟨interpolate_eq_map_render vars, fun value => ⟨exists_interpolateValue_iff vars,
    fun filled => interpolateValue_eq_ok_iff vars, interpolateValue_eq_self vars⟩⟩

end Template

namespace Sample.Naming

open Template

/-- A request with a lone reference, a reference inside a text, and a field whose name looks like a
reference. -/
def request : Value := .map [
  ("all", .string "\x7bnames\x7d"),
  ("first", .list [.string "Dear \x7bnames[0]\x7d", .null]),
  ("\x7bnames\x7d", .int 2)]

/-- A note without references. -/
def note : Value := .list [.string "names", .bool true]

/-- What the strings of the request are filled in with. -/
def filling (s : String) : Value :=
  if s = "\x7bnames\x7d" then .list [.string "Ada", .string "\x7bnames\x7d"] else .string "Dear Ada"

/-- The request is filled in with the shape that it has, and the note stays as it is. -/
theorem filled_request :
    (∀ s ∈ request.strings, ∃ text, interpolate vars s = .ok text) ∧
    interpolateValue vars request = .ok (.map [
      ("all", .list [.string "Ada", .string "\x7bnames\x7d"]),
      ("first", .list [.string "Dear Ada", .null]),
      ("\x7bnames\x7d", .int 2)]) ∧
    (∀ s ∈ note.strings, ¬ Mentions s) ∧ interpolateValue vars note = .ok note := by
  have hrequest := (interpolateValue_keeps_shape vars).2 request
  have hnote := (interpolateValue_keeps_shape vars).2 note
  have hfilling : ∀ s ∈ request.strings, interpolateValue vars (.string s) = .ok (filling s) := by
    intro s hs
    obtain rfl | rfl : s = "\x7bnames\x7d" ∨ s = "Dear \x7bnames[0]\x7d" := by
      simpa [request, Value.strings, Value.itemStrings, Value.fieldStrings] using hs
    · rfl
    · rfl
  have hfilled := (hrequest.2.1 _).2 ⟨filling, hfilling, rfl⟩
  have hplain : ∀ s ∈ note.strings, ¬ Mentions s := by
    intro s hs
    obtain rfl : s = "names" := by
      simpa [note, Value.strings, Value.itemStrings] using hs
    rintro ⟨before, after, r, -, htext⟩
    have hbrace : '\x7b' ∈ "names".toList := by
      rw [htext]
      simp [r.toList_text]
    exact absurd hbrace (by decide)
  exact ⟨hrequest.1.1 ⟨_, hfilled⟩, hfilled, hplain, hnote.2.2 hplain⟩

end Sample.Naming

end AgentFlow
