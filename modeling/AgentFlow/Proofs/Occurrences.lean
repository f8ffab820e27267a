import AgentFlow.Condition.Basic
import AgentFlow.FanOut.Basic
import AgentFlow.Proofs.Leaves
import Mathlib.Data.Set.Function

/-!
# The variables that occur

What a condition, a template or a value reads of the variables: those whose names occur in it, and
nothing else. Two lookups that agree on these names cannot be told apart, neither by a value nor by
an error (`Condition.evaluate_congr`, `Template.interpolate_congr`,
`Template.interpolateValue_congr`). Which names occur is said without evaluating or scanning
anything: the roots of the paths of an expression, and the names of the references that stand
somewhere in a text.

A scope finds what a single store would hold in which its private variables were set after those of
the base (`Scope.lookup_withLocals`), so that reading through it needs no care: it is reading from
that store.
-/

namespace AgentFlow

section

variable {vars other : Lookup}

/-! ## Conditions -/

namespace Condition

mutual

/-- The names with which the paths in an expression start. -/
def Expr.roots : Expr → List String
  | .literal _ => []
  | .path root _ => [root]
  | .list items => itemRoots items
  | .length e | .not e => e.roots
  | .and left right | .or left right | .compare _ left right => left.roots ++ right.roots

/-- The names with which the paths in a list of expressions start. -/
def Expr.itemRoots : List Expr → List String
  | [] => []
  | e :: es => e.roots ++ itemRoots es

end

/-- The names of variables in a condition. -/
def names (condition : Condition) : Set String := {name | name ∈ condition.expr.roots}

mutual

/-- An expression has the same value, or the same fault, wherever its variables are the same. -/
theorem eval_congr : (e : Expr) → (∀ name ∈ e.roots, vars name = other name) →
    eval vars e = eval other e
  | .literal _, _ => by rw [eval, eval]
  | .path root segments, h => by
    rw [eval, eval, h root (List.mem_singleton_self root)]
  | .list items, h => by rw [eval, eval, evalItems_congr items h]
  | .length e, h | .not e, h => by rw [eval, eval, eval_congr e h]
  | .and left right, h | .or left right, h | .compare _ left right, h => by
    rw [Expr.roots, List.forall_mem_append] at h
    rw [eval, eval, eval_congr left h.1, eval_congr right h.2]

/-- A list of expressions has the same values, or the same fault, wherever its variables are the
same. -/
theorem evalItems_congr : (es : List Expr) → (∀ name ∈ Expr.itemRoots es, vars name = other name) →
    evalItems vars es = evalItems other es
  | [], _ => by rw [evalItems, evalItems]
  | e :: es, h => by
    rw [Expr.itemRoots, List.forall_mem_append] at h
    rw [evalItems, evalItems, eval_congr e h.1, evalItems_congr es h.2]

end

/-- A condition comes to the same wherever its variables are the same. -/
theorem evaluate_congr {condition : Condition} (h : Set.EqOn vars other condition.names) :
    condition.evaluate vars = condition.evaluate other := by
  have heval : eval vars condition.expr = eval other condition.expr :=
    eval_congr condition.expr fun _ hname => h hname
  rw [evaluate, evaluate, heval]

end Condition

/-! ## Templates -/

namespace Template

/-- The names of the references that stand somewhere in a template. -/
def names (template : String) : Set String :=
  {name | ∃ (before after : String) (r : Reference),
    r.WellFormed ∧ r.name = name ∧ template = before ++ r.text ++ after}

/-- A reference that the scan finds stands in the text. -/
theorem exists_of_mem_scan {text : List Char} {r : Reference} (h : .reference r ∈ scan text) :
    r.WellFormed ∧ ∃ before after, text = before ++ (r.text.toList ++ after) := by
  induction hlength : text.length using Nat.strong_induction_on generalizing text with
  | _ n ih =>
    subst hlength
    -- Whatever is found behind the first piece stands in the whole text as well.
    have hbehind : ∀ (first : List Char) {rest : List Char}, text = first ++ rest →
        rest.length < text.length → .reference r ∈ scan rest →
        r.WellFormed ∧ ∃ before after, text = before ++ (r.text.toList ++ after) := by
      intro first rest htext hshorter hmem
      obtain ⟨hr, before, after, hrest⟩ := ih rest.length hshorter hmem rfl
      exact ⟨hr, first ++ before, after, by rw [htext, hrest, List.append_assoc]⟩
    cases text with
    | nil => exact absurd h List.not_mem_nil
    | cons c rest =>
      have hrest := hbehind [c] rfl (Nat.lt_succ_self _)
      by_cases hc : c = '\x7b'
      · subst hc
        cases hread : reference? rest with
        | none =>
          rw [scan_brace hread] at h
          exact hrest ((List.mem_cons.1 h).resolve_left nofun)
        | some found =>
          obtain ⟨first, behind⟩ := found
          obtain ⟨hfirst, hinner⟩ := wellFormed_of_reference?_eq_some hread
          have htext : '\x7b' :: rest = first.text.toList ++ behind := by
            rw [first.toList_text, hinner, List.cons_append]
          rw [htext, scan_text hfirst] at h
          obtain hfound | hlater := List.mem_cons.1 h
          · obtain rfl := Piece.reference.inj hfound
            exact ⟨hfirst, [], behind, htext⟩
          · refine hbehind first.text.toList htext ?_ hlater
            rw [htext, first.toList_text, List.cons_append, List.length_cons, List.length_append]
            omega
      · rw [scan_cons_of_ne hc] at h
        exact hrest ((List.mem_cons.1 h).resolve_left nofun)

/-- The scan finds the references that stand in a template, and no others. -/
theorem reference_mem_pieces_iff {template : String} {r : Reference} :
    .reference r ∈ pieces template ↔
      r.WellFormed ∧ ∃ before after, template = before ++ r.text ++ after := by
  rw [pieces_eq_scan]
  constructor
  · intro h
    obtain ⟨hr, before, after, htext⟩ := exists_of_mem_scan h
    refine ⟨hr, String.ofList before, String.ofList after, String.toList_injective ?_⟩
    simp [htext]
  · rintro ⟨hr, before, after, rfl⟩
    rw [String.toList_append, String.toList_append, List.append_assoc, scan_append_reference hr]
    exact List.mem_append_right _ List.mem_cons_self

/-- The names in a template are those of the references that the scan finds. -/
theorem mem_names_iff {template name : String} :
    name ∈ names template ↔ ∃ r, .reference r ∈ pieces template ∧ r.name = name := by
  simp only [reference_mem_pieces_iff]
  constructor
  · rintro ⟨before, after, r, hr, hname, htext⟩
    exact ⟨r, ⟨hr, before, after, htext⟩, hname⟩
  · rintro ⟨r, ⟨hr, before, after, htext⟩, hname⟩
    exact ⟨before, after, r, hr, hname, htext⟩

/-- A reference stands for the same wherever its variable is the same. -/
theorem Reference.resolve_congr {r : Reference} (h : vars r.name = other r.name) :
    r.resolve vars = r.resolve other := by
  simp only [Reference.resolve, Template.resolve, h]

/-- Pieces are filled in with the same text where their references stand for the same. -/
theorem fill_congr {pieces : List Piece}
    (h : ∀ r, .reference r ∈ pieces → r.resolve vars = r.resolve other) :
    fill vars pieces = fill other pieces := by
  induction pieces with
  | nil => rfl
  | cons piece rest ih =>
    have hrest : fill vars rest = fill other rest :=
      ih fun r hr => h r (List.mem_cons_of_mem _ hr)
    cases piece with
    | plain c => rw [fill, fill, hrest]
    | reference r => rw [fill, fill, hrest, h r List.mem_cons_self]

variable {template : String}

/-- What the scan finds are references to these names. -/
theorem resolve_congr_of_mem (h : Set.EqOn vars other (names template)) {r : Reference}
    (hr : .reference r ∈ pieces template) : r.resolve vars = r.resolve other :=
  Reference.resolve_congr (h (mem_names_iff.2 ⟨r, hr, rfl⟩))

/-- A template is filled in with the same text wherever its variables are the same. -/
theorem interpolate_congr (h : Set.EqOn vars other (names template)) :
    interpolate vars template = interpolate other template := by
  rw [interpolate, interpolate, fill_congr fun r => resolve_congr_of_mem h]

/-- A template is filled in with the same value wherever its variables are the same. -/
theorem interpolateText_congr (h : Set.EqOn vars other (names template)) :
    interpolateText vars template = interpolateText other template := by
  unfold interpolateText
  split
  · rename_i r hpieces
    exact resolve_congr_of_mem h (hpieces ▸ List.mem_singleton_self _)
  · rw [interpolate_congr h]

end Template

/-! ## Values -/

/-- The names of variables in the strings of a value. -/
def Value.names (value : Value) : Set String :=
  {name | ∃ s ∈ value.strings, name ∈ Template.names s}

namespace Template

mutual

/-- A value is filled in with the same wherever each of its strings is. -/
theorem interpolateValue_congr_strings : (value : Value) →
    (∀ s ∈ value.strings, interpolateText vars s = interpolateText other s) →
      interpolateValue vars value = interpolateValue other value
  | .null, _ | .bool _, _ | .number _, _ => by rw [interpolateValue, interpolateValue] <;> nofun
  | .string s, h => by
    rw [interpolateValue, interpolateValue, h s (List.mem_singleton_self s)]
  | .list items, h => by
    rw [interpolateValue, interpolateValue, interpolateItems_congr_strings items h]
  | .map fields, h => by
    rw [interpolateValue, interpolateValue, interpolateFields_congr_strings fields h]

/-- A list is filled in with the same wherever each of its strings is. -/
theorem interpolateItems_congr_strings : (items : List Value) →
    (∀ s ∈ Value.itemStrings items, interpolateText vars s = interpolateText other s) →
      interpolateItems vars items = interpolateItems other items
  | [], _ => rfl
  | item :: rest, h => by
    rw [Value.itemStrings, List.forall_mem_append] at h
    rw [interpolateItems, interpolateItems, interpolateValue_congr_strings item h.1,
      interpolateItems_congr_strings rest h.2]

/-- A map is filled in with the same wherever each of its strings is. -/
theorem interpolateFields_congr_strings : (fields : List (String × Value)) →
    (∀ s ∈ Value.fieldStrings fields, interpolateText vars s = interpolateText other s) →
      interpolateFields vars fields = interpolateFields other fields
  | [], _ => rfl
  | (_, value) :: rest, h => by
    rw [Value.fieldStrings, List.forall_mem_append] at h
    rw [interpolateFields, interpolateFields, interpolateValue_congr_strings value h.1,
      interpolateFields_congr_strings rest h.2]

end

/-- A value is filled in with the same wherever its variables are the same. -/
theorem interpolateValue_congr {value : Value} (h : Set.EqOn vars other value.names) :
    interpolateValue vars value = interpolateValue other value :=
  interpolateValue_congr_strings value fun s hs =>
    interpolateText_congr fun _ hname => h ⟨s, hs, hname⟩

end Template

/-! ## Scopes -/

namespace Scope

/-- Private variables that are set, in order, in front of a store. -/
def withLocals (base : Store) (locals : List (String × Value)) : Scope :=
  locals.foldl (fun scope field => scope.withLocal field.1 field.2) (.ofStore base)

/-- Private variables that are set in order are those that the list makes. -/
theorem withLocals_eq (base : Store) (locals : List (String × Value)) :
    withLocals base locals = ⟨base, Fields.ofList locals⟩ := by
  -- Setting a variable adds to the private ones only, whichever there are already.
  have hall : ∀ (locals fields : List (String × Value)),
      locals.foldl (fun scope field => scope.withLocal field.1 field.2) (⟨base, fields⟩ : Scope) =
        ⟨base, Fields.putAll fields locals⟩ := by
    intro locals
    induction locals with
    | nil => exact fun _ => rfl
    | cons field rest ih => exact fun fields => ih (Fields.put field.1 field.2 fields)
  exact hall locals []

/-- A scope finds what is in the store with its private variables set. -/
theorem lookup_withLocals (base : Store) (locals : List (String × Value)) :
    (withLocals base locals).lookup = (base.merge locals).get? := by
  funext name
  rw [withLocals_eq, lookup, Fields.lookup_ofList, Store.get?_merge]

end Scope

/-- The worker of an item reads the state as if the item and its index were set in it. -/
theorem ForEach.lookup_scope (each : ForEach) (state : Store) (index : Nat) (item : Value) :
    (each.scope state index item).lookup =
      (state.merge [(each.itemName, item), (each.indexName, .int index)]).get? :=
  Scope.lookup_withLocals state [(each.itemName, item), (each.indexName, .int index)]

/-- What a condition, a template or a value comes to, with a result or with an error, depends on the
variables that occur in it and on no others. To read through private variables in front of a store
is to read from one store in which they were set in order, and leaves the store itself as it was. So
the worker of an item reads the state as if the item and its index were set in it. -/
theorem Scope.reads_as_merged :
    (∀ vars other : Lookup,
      (∀ condition : Condition, Set.EqOn vars other condition.names →
        condition.evaluate vars = condition.evaluate other) ∧
      (∀ template : String, Set.EqOn vars other (Template.names template) →
        Template.interpolate vars template = Template.interpolate other template) ∧
      ∀ value : Value, Set.EqOn vars other value.names →
        Template.interpolateValue vars value = Template.interpolateValue other value) ∧
    (∀ (base : Store) (locals : List (String × Value)),
      (withLocals base locals).base = base ∧
      (∀ condition : Condition, condition.evaluate (withLocals base locals).lookup =
        condition.evaluate (base.merge locals).get?) ∧
      (∀ template : String, Template.interpolate (withLocals base locals).lookup template =
        Template.interpolate (base.merge locals).get? template) ∧
      ∀ value : Value, Template.interpolateValue (withLocals base locals).lookup value =
        Template.interpolateValue (base.merge locals).get? value) ∧
    ∀ (each : ForEach) (state : Store) (index : Nat) (item : Value),
      (each.scope state index item).lookup =
        (state.merge [(each.itemName, item), (each.indexName, .int index)]).get? := by
  refine ⟨fun vars other => ⟨fun _ => Condition.evaluate_congr,
    fun _ => Template.interpolate_congr, fun _ => Template.interpolateValue_congr⟩,
    fun base locals => ⟨?_, ?_⟩, ForEach.lookup_scope⟩
  · rw [withLocals_eq]
  · simp only [lookup_withLocals, implies_true, and_self]

end

/-! ## A sample

The request of before, and two lookups that have nothing in common but the list that it names. -/

namespace Sample.Naming

open Template

/-- Every other variable has a value here, and none before. -/
def altered : Lookup := fun name => (vars name).or (some .null)

/-- Whether Ada is one of the names. -/
def listed : Condition where
  source := "'Ada' in names"
  expr := .compare .member (.literal (.string "Ada")) (.path "names" [])

/-- A template whose references are all to one variable has no other name in it. -/
theorem eq_of_mem_names {template : String}
    (h : (pieces template).all (fun piece => match piece with
      | .plain _ => true
      | .reference r => r.name = "names") = true) {name : String}
    (hname : name ∈ Template.names template) : name = "names" := by
  obtain ⟨r, hr, rfl⟩ := mem_names_iff.1 hname
  simpa using List.all_eq_true.1 h _ hr

/-- A condition, a template and a value read the same from variables that differ only where they do
not look. -/
theorem reads_altered :
    (Set.EqOn vars altered listed.names ∧ listed.evaluate altered = .ok true) ∧
    (Set.EqOn vars altered (Template.names "Dear \x7bnames[0]\x7d") ∧
      interpolate altered "Dear \x7bnames[0]\x7d" = .ok "Dear Ada") ∧
    (Set.EqOn vars altered request.names ∧
      interpolateValue altered request = interpolateValue vars request) ∧
    vars "rest" ≠ altered "rest" := by
  have hsame : ∀ {names : Set String}, (∀ name ∈ names, name = "names") →
      Set.EqOn vars altered names := by
    intro names hnames name hname
    rw [hnames name hname]
    rfl
  have hlisted : Set.EqOn vars altered listed.names :=
    hsame fun name hname => List.mem_singleton.1 hname
  have hdear : Set.EqOn vars altered (Template.names "Dear \x7bnames[0]\x7d") :=
    hsame fun name => eq_of_mem_names (by decide +kernel)
  have hrequest : Set.EqOn vars altered request.names := by
    refine hsame ?_
    rintro name ⟨s, hs, hname⟩
    obtain rfl | rfl : s = "\x7bnames\x7d" ∨ s = "Dear \x7bnames[0]\x7d" := by
      simpa [request, Value.strings, Value.itemStrings, Value.fieldStrings] using hs
    · exact eq_of_mem_names (by decide +kernel) hname
    · exact eq_of_mem_names (by decide +kernel) hname
  have hrest : vars "rest" ≠ altered "rest" := by
    rintro ⟨⟩
  obtain ⟨hcondition, htemplate, hvalue⟩ := Scope.reads_as_merged.1 vars altered
  exact ⟨⟨hlisted, (hcondition listed hlisted).symm⟩, ⟨hdear, (htemplate _ hdear).symm.trans rfl⟩,
    ⟨hrequest, (hvalue request hrequest).symm⟩, hrest⟩

end Sample.Naming

end AgentFlow
