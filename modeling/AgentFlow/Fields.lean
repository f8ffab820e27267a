/-!
# Named fields

A finite map from names to values as a list of pairs whose names strictly increase, so that equal
maps are equal lists and every walk over one is in name order. `List.lookup` is the view: `put`
and `erase` are described by what a look-up finds afterwards.
-/

namespace AgentFlow.Fields

variable {α : Type}

/-- Sets a field, keeping the names in order. -/
def put (name : String) (value : α) : List (String × α) → List (String × α)
  | [] => [(name, value)]
  | (n, v) :: rest =>
    if name = n then (name, value) :: rest
    else if name < n then (name, value) :: (n, v) :: rest
    else (n, v) :: put name value rest

/-- Removes a field. -/
def erase (name : String) (fields : List (String × α)) : List (String × α) :=
  fields.filter fun field => field.1 ≠ name

/-- Sets several fields in order: of two with one name the later stays. -/
def putAll (fields : List (String × α)) (more : List (String × α)) : List (String × α) :=
  more.foldl (fun acc field => put field.1 field.2 acc) fields

/-- The map of a list of pairs, of two with one name the later. -/
def ofList (pairs : List (String × α)) : List (String × α) := putAll [] pairs

/-- The names in increasing order. -/
def names (fields : List (String × α)) : List String := fields.map Prod.fst

/-- Whether a field is present. -/
def has (name : String) (fields : List (String × α)) : Bool := (fields.lookup name).isSome

/-- Texts in increasing order, each once. -/
def sortedSet (texts : List String) : List String :=
  names (ofList (texts.map fun text => (text, ())))

/-- A look-up after `put` finds the new value under its name and what was there elsewhere. -/
theorem lookup_put (name key : String) (value : α) (fields : List (String × α)) :
    (put name value fields).lookup key =
      if key = name then some value else fields.lookup key := by
  induction fields with
  | nil => by_cases h : key = name <;> simp [put, List.lookup_cons, h, beq_eq_false_iff_ne.mpr]
  | cons field rest ih =>
    obtain ⟨n, v⟩ := field
    simp only [put]
    split
    · next hn =>
      subst hn
      by_cases h : key = name <;> simp [List.lookup_cons, h, beq_eq_false_iff_ne.mpr]
    · next hn =>
      split
      · by_cases h : key = name
        · simp [h]
        · simp [List.lookup_cons, h, beq_eq_false_iff_ne.mpr]
      · by_cases h : key = n
        · subst h
          simp [Ne.symm hn]
        · simp [List.lookup_cons, beq_eq_false_iff_ne.mpr h, ih]

/-- A look-up after `putAll` finds the last value put under the name. -/
theorem lookup_putAll (key : String) (more fields : List (String × α)) :
    (putAll fields more).lookup key = (more.reverse.lookup key).or (fields.lookup key) := by
  induction more generalizing fields with
  | nil => simp [putAll]
  | cons field rest ih =>
    obtain ⟨n, v⟩ := field
    have step : putAll fields ((n, v) :: rest) = putAll (put n v fields) rest := rfl
    rw [step, ih, lookup_put, List.reverse_cons, List.lookup_append]
    by_cases h : key = n
    · simp [h]
    · simp [List.lookup_cons, h, beq_eq_false_iff_ne.mpr]

/-- A look-up in the map of a list of pairs finds the last one of the name. -/
theorem lookup_ofList (pairs : List (String × α)) (key : String) :
    (ofList pairs).lookup key = pairs.reverse.lookup key := by
  rw [ofList, lookup_putAll]
  exact Option.or_none

/-- Of pairs with different names, each is found. -/
theorem lookup_ofList_of_mem {pairs : List (String × α)} (h : (names pairs).Nodup)
    {pair : String × α} (hmem : pair ∈ pairs) : (ofList pairs).lookup pair.1 = some pair.2 := by
  obtain ⟨first, later, rfl⟩ := List.append_of_mem hmem
  rw [names, List.map_append, List.map_cons, List.nodup_append] at h
  rw [lookup_ofList, List.lookup_eq_some_iff]
  refine ⟨later.reverse, first.reverse, by simp, fun other hother => ?_⟩
  have hne : pair.1 ∉ later.map Prod.fst := (List.nodup_cons.1 h.2.1).1
  rw [bne_iff_ne]
  exact fun heq => hne (heq ▸ List.mem_map_of_mem (List.mem_reverse.1 hother))

end AgentFlow.Fields
