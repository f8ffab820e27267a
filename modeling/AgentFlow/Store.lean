import AgentFlow.Fields
import AgentFlow.Value.Basic

/-!
# State

The variables that the nodes of a run share, and the views through which conditions and templates
read them. A `Lookup` is all that reading needs; a `Scope` puts private variables before those of
a store without touching it.
-/

namespace AgentFlow

/-- Read access to variables. -/
abbrev Lookup : Type := String → Option Value

/-- The variables of a run: each has at most one value. -/
structure Store where
  entries : List (String × Value)
deriving DecidableEq, Inhabited

namespace Store

/-- The store of a run in which nothing was written yet. -/
def empty : Store := ⟨[]⟩

/-- A store that holds the given values; of two under one name the later counts. -/
def ofList (values : List (String × Value)) : Store := ⟨Fields.ofList values⟩

/-- The value under a name. -/
def get? (store : Store) (name : String) : Option Value := store.entries.lookup name

/-- Whether there is a value under a name. -/
def contains (store : Store) (name : String) : Bool := (store.get? name).isSome

/-- The text under a name, if it is a string. -/
def getText? (store : Store) (name : String) : Option String := (store.get? name).bind Value.string?

/-- Writes a variable, in place of what it held. -/
def set (store : Store) (name : String) (value : Value) : Store :=
  ⟨Fields.put name value store.entries⟩

/-- Sets several variables in order: the last write of a name stays. -/
def merge (store : Store) (values : List (String × Value)) : Store :=
  ⟨Fields.putAll store.entries values⟩

/-- The number of variables. -/
def size (store : Store) : Nat := store.entries.length

/-- The store as a map. -/
def toValue (store : Store) : Value := .map store.entries

/-- Reading follows writing. -/
theorem get?_set (store : Store) (name key : String) (value : Value) :
    (store.set name value).get? key = if key = name then some value else store.get? key :=
  Fields.lookup_put name key value store.entries

/-- After a merge a name holds the last value merged under it, or else what it held before. -/
theorem get?_merge (store : Store) (values : List (String × Value)) (key : String) :
    (store.merge values).get? key = (values.reverse.lookup key).or (store.get? key) :=
  Fields.lookup_putAll key values store.entries

end Store

/-- Private variables in front of a store. -/
structure Scope where
  base : Store
  locals : List (String × Value)

namespace Scope

/-- A scope without private variables. -/
def ofStore (base : Store) : Scope := ⟨base, []⟩

/-- Adds a private variable, hiding one of the same name. -/
def withLocal (scope : Scope) (name : String) (value : Value) : Scope :=
  { scope with locals := Fields.put name value scope.locals }

/-- What is read under a name: a private variable before one of the store. -/
def lookup (scope : Scope) (name : String) : Option Value :=
  (scope.locals.lookup name).or (scope.base.get? name)

/-- A private variable is read where it is set, everything else as before. -/
theorem lookup_withLocal (scope : Scope) (name key : String) (value : Value) :
    (scope.withLocal name value).lookup key =
      if key = name then some value else scope.lookup key := by
  simp only [lookup, withLocal, Fields.lookup_put]
  split <;> simp

end Scope

/-- The item at an index; a negative index counts from the end. -/
def itemAt? (items : List Value) (index : Int) : Option Value :=
  let position := if index < 0 then items.length + index else index
  if position < 0 then none else items[position.toNat]?

end AgentFlow
