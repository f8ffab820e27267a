import AgentFlow.Proofs.Fences
import AgentFlow.Proofs.JsonText
import AgentFlow.Proofs.Writes

/-!
# Answers that are objects

An answer that is the compact text of an object is read as the object gives the fields
(`parse_compact`), whatever else the object has, and whatever its strings are. The text goes through
the cutting of fences first, which leaves it alone unless it has two of them (`Answer.Fenced`), and
is then read as a document, which changes nothing but doubles (`Value.reread`). Both matter: the
sample has an object that is read as something else for its fences, and one that is refused for a
double.
-/

namespace AgentFlow

namespace Answer

variable {fields : List OutputField} {object values : List (String × Value)}

/-! ## Values in the order of the fields -/

/-- Values under the names of fields are found again for each field. -/
theorem filterMap_lookup_reverse (hnames : (fields.map OutputField.name).Nodup)
    (hvalues : values.map Prod.fst = fields.map OutputField.name) :
    (fields.filterMap fun f => (values.reverse.lookup f.name).map (f.name, ·)) = values := by
  have hdistinct : (Fields.names values).Nodup := by
    rw [Fields.names, hvalues]
    exact hnames
  calc (fields.filterMap fun f => (values.reverse.lookup f.name).map (f.name, ·))
      = (fields.map OutputField.name).filterMap
          fun name => (values.reverse.lookup name).map (name, ·) := by
        rw [List.filterMap_map]
        rfl
    _ = values.filterMap fun entry => (values.reverse.lookup entry.1).map (entry.1, ·) := by
        rw [← hvalues, List.filterMap_map]
        rfl
    _ = values.filterMap some := by
        refine List.filterMap_congr fun entry hentry => ?_
        rw [← Fields.lookup_ofList, Fields.lookup_ofList_of_mem hdistinct hentry]
        rfl
    _ = values := List.filterMap_some

/-- Where nothing was filled before, an answer is read for all the fields. -/
theorem parse_nil (hnames : (fields.map OutputField.name).Nodup) (text : String) :
    parse fields text [] = readExpected fields text := by
  have hall : (fields.filter fun f => !Fields.has f.name ([] : List (String × Value))) = fields :=
    List.filter_eq_self.2 fun _ _ => rfl
  rw [parse_eq_map, hall]
  cases hread : readExpected fields text with
  | error fault => rfl
  | ok values =>
    have hvalues := filterMap_lookup_reverse hnames (map_fst_readExpected hread)
    exact congrArg Except.ok hvalues

/-! ## Reading an object -/

/-- The values that an object gives some fields, in their order: the value of each field, as it is
read from its text, converted to the type of the field. -/
def Gives (object : List (String × Value)) : List OutputField → List (String × Value) → Prop :=
  List.Forall₂ fun field entry => entry.1 = field.name ∧ ∃ value,
    object.lookup field.name = some value ∧ field.kind.coerce value.reread = some entry.2

/-- The fields of an object that gives them all, each with a value that converts, can be assigned
from it. -/
theorem assignAll_of_gives (h : Gives object fields values) :
    assignAll (Value.rereadFields object) fields = .ok values := by
  induction h with
  | nil => rfl
  | @cons field entry rest others hentry _ ih =>
    obtain ⟨name, result⟩ := entry
    obtain ⟨rfl, value, hvalue, hcoerce⟩ := hentry
    have hassign : assign field value.reread = .ok (field.name, result) := by
      rw [assign, OutputField.coerce, hcoerce]
    rw [assignAll, Value.lookup_rereadFields, hvalue, Option.map_some]
    simp only [hassign, ih]
    rfl

/-- An object that gives the fields has each of them. -/
theorem has_of_gives (h : Gives object fields values) :
    ∀ field ∈ fields, Fields.has field.name (Value.rereadFields object) = true := by
  induction h with
  | nil => exact fun _ => nofun
  | cons hentry _ ih =>
    obtain ⟨-, value, hvalue, -⟩ := hentry
    refine List.forall_mem_cons.2 ⟨?_, ih⟩
    rw [Fields.has, Value.lookup_rereadFields, hvalue]
    rfl

/-- Where an object has all the fields that are expected, a lone text field is read from it too. -/
theorem distribute_object (text : List Char)
    (h : ∀ field ∈ fields, Fields.has field.name object = true) :
    distribute text (some (.map object)) fields = assignAll object fields := by
  match fields with
  | [] => rfl
  | [field] =>
    rw [distribute]
    exact if_pos (h field (List.mem_singleton_self field))
  | first :: second :: rest => rfl

/-- Nothing is cut off the text of an object that has no two fences in it. -/
theorem stripFences_compactChars (h : ¬ Fenced (Json.compactChars (.map object))) :
    stripFences (Json.compactChars (.map object)) = Json.compactChars (.map object) := by
  have htrim : Text.trim (Json.compactChars (.map object)) = Json.compactChars (.map object) := by
    simp [Json.compactChars, Text.trim, Text.trimLeft, Text.trimRight, Text.isBlank, Text.blanks]
  rw [stripFences_eq_trim (by rwa [htrim]), htrim]

/-- The text of an object is read as the values that the object gives. -/
theorem readExpected_compact (hobject : (Value.map object).IsDocument Json.maxDepth)
    (hfenced : ¬ Fenced (Json.compactChars (.map object))) (h : Gives object fields values) :
    readExpected fields (Json.compact (.map object)) = .ok values := by
  have hvalue : extractJson? (Json.compactChars (.map object)) =
      some (.map (Value.rereadFields object)) := by
    rw [extractJson?, Json.document_compactChars hobject]
    rfl
  unfold readExpected
  split_ifs with hnone
  · rw [List.isEmpty_iff.1 hnone] at h
    cases h
    rfl
  · rw [Json.compact, String.toList_ofList, stripFences_compactChars hfenced, hvalue,
      distribute_object _ (has_of_gives h), assignAll_of_gives h]

/-- An object that gives each field a value that can be converted is read from its compact text as
just these values, in the order of the fields. The text may have one fence, but not two. -/
theorem parse_compact (hnames : (fields.map OutputField.name).Nodup)
    (hobject : (Value.map object).IsDocument Json.maxDepth)
    (hfenced : ¬ Fenced (Json.compactChars (.map object))) (h : Gives object fields values) :
    parse fields (Json.compact (.map object)) [] = .ok values := by
  rw [parse_nil hnames, readExpected_compact hobject hfenced h]

end Answer

/-! ## A sample -/

namespace Sample.Recounting

open Answer

/-- A field of text. -/
def title : OutputField := { name := "title" }

/-- A field of whole numbers. -/
def score : OutputField := { name := "score", kind := .int }

/-- An object with braces, a line break and a single fence in its strings, and a field besides. -/
def review : List (String × Value) :=
  [("note", .list [.null]), ("score", .string " 7"), ("title", .string "\x7d\n```json \x7b\"")]

/-- The object is read back from its text. -/
theorem review_read : (Value.map review).IsDocument Json.maxDepth ∧
    ¬ Fenced (Json.compactChars (.map review)) ∧
    parse [title, score] (Json.compact (.map review)) [] =
      .ok [("title", .string "\x7d\n```json \x7b\""), ("score", .int 7)] := by
  have hnames : ([title, score].map OutputField.name).Nodup := by decide
  have hobject : (Value.map review).IsDocument Json.maxDepth := by
    refine ⟨?_, ⟨trivial, trivial⟩, trivial, trivial, trivial⟩
    decide
  have hfenced : ¬ Fenced (Json.compactChars (.map review)) := by decide +kernel
  have hgives : Gives review [title, score]
      [("title", .string "\x7d\n```json \x7b\""), ("score", .int 7)] :=
    .cons ⟨rfl, _, rfl, rfl⟩ (.cons ⟨rfl, .string " 7", rfl, by decide +kernel⟩ .nil)
  exact ⟨hobject, hfenced, parse_compact hnames hobject hfenced hgives⟩

/-- An object with two fences in a string. -/
def quoting : List (String × Value) := [("title", .string "```x```")]

/-- An object with a double that is whole, but is read as one that is not. -/
def halved : List (String × Value) :=
  [("score", .float ⟨false, 7205759403792796, -1, by decide⟩)]

/-- Both objects give their field a value that can be converted to its type. Of the one, only what
stands between the fences is read, and the other is refused. -/
theorem misread :
    ((Value.map quoting).IsDocument Json.maxDepth ∧
      title.coerce (.string "```x```") = .ok (.string "```x```") ∧
      parse [title] (Json.compact (.map quoting)) [] = .ok [("title", .string "x")]) ∧
    (Value.map halved).IsDocument Json.maxDepth ∧
      score.coerce (.float ⟨false, 7205759403792796, -1, by decide⟩) =
        .ok (.int 3602879701896398) ∧
      parse [score] (Json.compact (.map halved)) [] =
        .error (.mismatch "score" "int" "float") := by
  refine ⟨⟨⟨?_, trivial, trivial⟩, rfl, ?_⟩, ⟨?_, trivial, trivial⟩, ?_, ?_⟩
  · exact List.pairwise_singleton _ _
  · decide +kernel
  · exact List.pairwise_singleton _ _
  · decide +kernel
  · decide +kernel

end Sample.Recounting

end AgentFlow
