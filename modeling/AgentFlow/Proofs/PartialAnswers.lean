import AgentFlow.Proofs.Answers
import AgentFlow.Proofs.Capture

/-!
# Answers for some of the fields

Fields can be filled before an answer is read. The answer is then read for the fields that are
missing, as if there were no others (`parse_eq_map_parse`), and what it says about them is put
between the values from before, in the order of the declarations. So it is the fields that are
missing which decide in what forms they can be answered, and where none is missing, any text will
do: a conversation that tools have completed gives a value for every field.
-/

namespace AgentFlow

/-! ## Lists with different names -/

namespace Fields

variable {α : Type} {pairs others : List (String × α)}

/-- Nothing is found under a name that no pair has. -/
theorem lookup_eq_none {name : String} (h : name ∉ names pairs) : pairs.lookup name = none := by
  refine List.lookup_eq_none_iff.2 fun pair hpair => ?_
  rw [bne_iff_ne]
  rintro rfl
  exact h (List.mem_map_of_mem hpair)

/-- Of pairs with different names, it does not matter from which end one is looked up. -/
theorem lookup_reverse (h : (names pairs).Nodup) (name : String) :
    pairs.reverse.lookup name = pairs.lookup name := by
  induction pairs with
  | nil => rfl
  | cons pair rest ih =>
    obtain ⟨n, v⟩ := pair
    obtain ⟨hn, hrest⟩ := List.nodup_cons.1 h
    rw [List.reverse_cons, List.lookup_append, ih hrest]
    by_cases hname : name = n
    · subst hname
      simp [lookup_eq_none hn]
    · simp [List.lookup_cons, beq_eq_false_iff_ne.mpr hname]

/-- Pairs with different names are determined by the order of the names and what is found under
each. -/
theorem ext_lookup (hnames : names pairs = names others) (h : (names pairs).Nodup)
    (hlookup : ∀ name ∈ names pairs, pairs.lookup name = others.lookup name) : pairs = others := by
  induction pairs generalizing others with
  | nil => exact (List.map_eq_nil_iff.1 hnames.symm).symm
  | cons pair rest ih =>
    obtain ⟨n, v⟩ := pair
    cases others with
    | nil => cases hnames
    | cons other more =>
      obtain ⟨n', v'⟩ := other
      obtain ⟨hfirst, hmore⟩ := List.cons.inj hnames
      obtain rfl : n = n' := hfirst
      obtain ⟨hn, hrest⟩ := List.nodup_cons.1 h
      have hv := hlookup n List.mem_cons_self
      rw [List.lookup_cons_self, List.lookup_cons_self] at hv
      have htail : rest = more := ih hmore hrest fun name hname => by
        have hne : name ≠ n := fun heq => hn (heq ▸ hname)
        have hboth := hlookup name (List.mem_cons_of_mem n hname)
        simpa [List.lookup_cons, beq_eq_false_iff_ne.mpr hne] using hboth
      rw [Option.some.inj hv, htail]

end Fields

namespace Answer

variable {fields : List OutputField} {captured answered values : List (String × Value)}
  {text : String}

/-! ## What is missing -/

/-- The fields that were not filled before. -/
def missing (fields : List OutputField) (captured : List (String × Value)) : List OutputField :=
  fields.filter fun field => !Fields.has field.name captured

/-- A field is missing if it is declared and has no value from before. -/
theorem mem_missing_iff {field : OutputField} :
    field ∈ missing fields captured ↔ field ∈ fields ∧ captured.lookup field.name = none := by
  rw [missing, List.mem_filter, Bool.not_eq_true', Fields.has, Option.isSome_eq_false_iff,
    Option.isNone_iff_eq_none]

/-- The values from before, and those answered for the other fields, in the order of the fields. -/
def complete (fields : List OutputField) (captured answered : List (String × Value)) :
    List (String × Value) :=
  fields.filterMap fun field =>
    ((captured.lookup field.name).or (answered.lookup field.name)).map (field.name, ·)

/-- With something filled before, an answer is read for the fields that are missing, and completed
with what was filled. -/
theorem parse_eq_map_parse (hnames : (fields.map OutputField.name).Nodup) (text : String)
    (captured : List (String × Value)) :
    parse fields text captured =
      (parse (missing fields captured) text []).map (complete fields captured) := by
  have hmissing : ((missing fields captured).map OutputField.name).Nodup :=
    hnames.sublist (List.filter_sublist.map _)
  rw [parse_nil hmissing, parse_eq_map, ← missing]
  cases hread : readExpected (missing fields captured) text with
  | error fault => rfl
  | ok answered =>
    have hanswered : (Fields.names answered).Nodup := by
      rw [Fields.names, map_fst_readExpected hread]
      exact hmissing
    simp only [Except.map, Fields.lookup_reverse hanswered]
    rfl

/-! ## Completed answers -/

/-- Each field once and in order, with the value from before where there is one, and else with the
one that was answered. -/
structure Completes (fields : List OutputField) (captured answered values : List (String × Value)) :
    Prop where
  names : values.map Prod.fst = fields.map OutputField.name
  filled : ∀ field ∈ fields, ∀ value, captured.lookup field.name = some value →
    values.lookup field.name = some value
  taken : ∀ field ∈ missing fields captured,
    values.lookup field.name = answered.lookup field.name

/-- A completed answer has for each field the value from before, and else the one that was
answered. -/
theorem lookup_complete {field : OutputField} (hfield : field ∈ fields)
    (captured answered : List (String × Value)) :
    (complete fields captured answered).lookup field.name =
      (captured.lookup field.name).or (answered.lookup field.name) := by
  rw [complete, OutputField.lookup_filterMap fields fun name =>
    (captured.lookup name).or (answered.lookup name)]
  exact if_pos (List.mem_map_of_mem hfield)

/-- What is read is a completed answer for the fields that are missing. -/
theorem completes_of_parse (hnames : (fields.map OutputField.name).Nodup)
    (hanswered : parse (missing fields captured) text [] = .ok answered)
    (hvalues : parse fields text captured = .ok values) :
    Completes fields captured answered values where
  names := map_fst_parse hvalues
  filled _ hfield _ hvalue := lookup_parse hvalues hfield hvalue
  taken field hfield := by
    obtain ⟨hdeclared, hnone⟩ := mem_missing_iff.1 hfield
    rw [parse_eq_map_parse hnames, hanswered] at hvalues
    rw [← Except.ok.inj hvalues, lookup_complete hdeclared, hnone, Option.none_or]

/-- There is one way to complete an answer. -/
theorem Completes.unique (hnames : (fields.map OutputField.name).Nodup)
    {others : List (String × Value)} (h : Completes fields captured answered values)
    (h' : Completes fields captured answered others) : values = others := by
  have hnodup : (Fields.names values).Nodup := by
    rw [Fields.names, h.names]
    exact hnames
  refine Fields.ext_lookup (h.names.trans h'.names.symm) hnodup fun name hname => ?_
  rw [Fields.names, h.names] at hname
  obtain ⟨field, hfield, rfl⟩ := List.mem_map.1 hname
  cases hvalue : captured.lookup field.name with
  | some value => rw [h.filled field hfield value hvalue, h'.filled field hfield value hvalue]
  | none =>
    have hmissing : field ∈ missing fields captured := mem_missing_iff.2 ⟨hfield, hvalue⟩
    rw [h.taken field hmissing, h'.taken field hmissing]

/-- An answer gives values if it does for the fields that are missing, and these are then completed
with what was filled before. -/
theorem parse_eq_ok_iff_completes (hnames : (fields.map OutputField.name).Nodup) :
    parse fields text captured = .ok values ↔ ∃ answered,
      parse (missing fields captured) text [] = .ok answered ∧
        Completes fields captured answered values := by
  constructor
  · intro hvalues
    have hmap := hvalues
    rw [parse_eq_map_parse hnames] at hmap
    obtain ⟨answered, hanswered, -⟩ := exists_of_map_eq_ok hmap
    exact ⟨answered, hanswered, completes_of_parse hnames hanswered hvalues⟩
  · rintro ⟨answered, hanswered, hcompletes⟩
    have hparse : parse fields text captured = .ok (complete fields captured answered) := by
      rw [parse_eq_map_parse hnames, hanswered]
      rfl
    rw [hparse, (completes_of_parse hnames hanswered hparse).unique hnames hcompletes]

/-- An answer is refused exactly if it is for the fields that are missing, and with the same
fault. -/
theorem parse_eq_error_iff (hnames : (fields.map OutputField.name).Nodup) {fault : Fault} :
    parse fields text captured = .error fault ↔
      parse (missing fields captured) text [] = .error fault := by
  rw [parse_eq_map_parse hnames]
  cases parse (missing fields captured) text [] with
  | error other => exact Iff.rfl
  | ok answered => exact ⟨nofun, nofun⟩

/-- Where nothing is missing, there is nothing to be read, so that any answer will do. -/
theorem exists_parse_of_filled (hnames : (fields.map OutputField.name).Nodup)
    (h : ∀ field ∈ fields, Fields.has field.name captured = true) (text : String) :
    ∃ values, parse fields text captured = .ok values ∧ Completes fields captured [] values := by
  have hmissing : missing fields captured = [] :=
    List.filter_eq_nil_iff.2 fun field hfield => by simp [h field hfield]
  have hanswered : parse (missing fields captured) text [] = .ok [] := by
    rw [hmissing]
    rfl
  have hparse : parse fields text captured = .ok (complete fields captured []) := by
    rw [parse_eq_map_parse hnames, hanswered]
    rfl
  exact ⟨_, hparse, completes_of_parse hnames hanswered hparse⟩

end Answer

/-- When the results of tools that fill all fields are in, a conversation is done, with the values
of all the fields. -/
theorem ModelStep.deal_of_isComplete {node : Node} {step : ModelStep} {talk : Talk}
    (hnames : (node.output.map OutputField.name).Nodup) (hobserved : talk.observations ≠ [])
    (hcomplete : talk.isComplete node step = true) (brief : Brief) (steps attempts : Nat) :
    ∃ values, deal node step brief steps attempts (.all talk) =
        .stops (.complete { fields := values }) ∧
      Answer.Completes node.output talk.captured [] values := by
  obtain ⟨values, hparse, hcompletes⟩ :=
    Answer.exists_parse_of_filled hnames (Talk.has_of_isComplete hcomplete) ""
  -- Sending the results changes nothing about the fields.
  have hsome : (!talk.observations.isEmpty) = true := by simpa using hobserved
  have hsent : talk.sent = talk.feedBack := if_pos hsome
  have hstop : (!talk.observations.isEmpty && talk.feedBack.isComplete node step) = true :=
    Bool.and_eq_true_iff.2 ⟨hsome, hcomplete⟩
  have hvalues : Answer.parse node.output "" talk.feedBack.captured = .ok values := hparse
  refine ⟨values, ?_, hcompletes⟩
  rw [deal, hsent, if_pos hstop, hvalues]
  rfl

namespace Answer

variable {fields : List OutputField}

/-- Values that were filled before and an answer meet field by field. -/
structure ReadsApart (fields : List OutputField) (captured : List (String × Value)) : Prop where
  /-- The values are what the answer gives for the missing fields, completed with what was filled,
  and there are values if it gives any. -/
  reads : ∀ text values, parse fields text captured = .ok values ↔ ∃ answered,
    parse (missing fields captured) text [] = .ok answered ∧
      Completes fields captured answered values
  /-- The answer is refused for what is wrong with it for the missing fields. -/
  refuses : ∀ text fault, parse fields text captured = .error fault ↔
    parse (missing fields captured) text [] = .error fault
  /-- Where no field is missing, every answer gives what was filled. -/
  filled : (∀ field ∈ fields, Fields.has field.name captured = true) → ∀ text, ∃ values,
    parse fields text captured = .ok values ∧ Completes fields captured [] values
  /-- So a conversation that ends when tools have filled all fields has a value for each. -/
  finishes : ∀ (node : Node) (step : ModelStep) (talk : Talk), node.output = fields →
    talk.captured = captured → talk.observations ≠ [] → talk.isComplete node step = true →
      ∀ brief steps attempts, ∃ values,
        ModelStep.deal node step brief steps attempts (.all talk) =
          .stops (.complete { fields := values }) ∧ Completes fields captured [] values
  /-- What was filled under other names than those of the fields makes no difference. -/
  ignores : ∀ others, (∀ field ∈ fields, others.lookup field.name = captured.lookup field.name) →
    ∀ text, parse fields text others = parse fields text captured

/-- Whatever was filled before, an answer is read for the fields that are missing, and for them
alone. -/
theorem readsApart (hnames : (fields.map OutputField.name).Nodup)
    (captured : List (String × Value)) : ReadsApart fields captured where
  reads _ _ := parse_eq_ok_iff_completes hnames
  refuses _ _ := parse_eq_error_iff hnames
  filled h text := exists_parse_of_filled hnames h text
  finishes node step talk houtput hcaptured hobserved hcomplete brief steps attempts := by
    subst houtput hcaptured
    exact ModelStep.deal_of_isComplete hnames hobserved hcomplete brief steps attempts
  ignores _ h text := parse_congr text h

end Answer

/-! ## A sample

A node with a field that a tool fills between two that the model answers. -/

namespace Sample.Completing

open Answer

/-- A field of whole numbers. -/
def score : OutputField := { name := "score", kind := .int }

/-- A field of text that a tool is to fill. -/
def page : OutputField := { name := "page" }

/-- A field of text that the model is to answer. -/
def summary : OutputField := { name := "summary" }

/-- What tools have filled, under the name of a field and under another. -/
def filled : List (String × Value) := [("log", .null), ("page", .string "the page")]

/-- An answer that has all three fields, one of them as a text for a number. -/
def answer : String := "\x7b\"summary\": \"short\", \"page\": \"made up\", \"score\": \"7\"\x7d"

/-- The answer is read for the two fields that are missing. -/
theorem read_answer : ([score, page, summary].map OutputField.name).Nodup ∧
    missing [score, page, summary] filled = [score, summary] ∧
    parse [score, page, summary] answer filled =
      .ok [("score", .int 7), ("page", .string "the page"), ("summary", .string "short")] ∧
    parse [score, page, summary] "7" filled = .error (.notObject "int") := by
  have hnames : ([score, page, summary].map OutputField.name).Nodup := by decide
  have hmissing : missing [score, page, summary] filled = [score, summary] := by decide
  have hapart : ReadsApart [score, page, summary] filled := readsApart hnames filled
  have hanswered : parse [score, summary] answer [] =
      .ok [("score", .int 7), ("summary", .string "short")] := by decide +kernel
  have hrefused : parse [score, summary] "7" [] = .error (.notObject "int") := by decide +kernel
  refine ⟨hnames, hmissing, (hapart.reads _ _).2 ⟨_, hmissing ▸ hanswered, ?_⟩,
    (hapart.refuses _ _).2 (hmissing ▸ hrefused)⟩
  refine ⟨rfl, ?_, ?_⟩
  · decide
  · decide

end Sample.Completing

end AgentFlow
