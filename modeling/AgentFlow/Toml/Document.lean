import AgentFlow.Fields
import AgentFlow.Toml.Scalar

/-!
# TOML documents

A document is a list of lines: headers, which open a table, and entries, which set a key of the
open table. Tables may be opened once and keys set once; a table that exists only because a
longer header or a key with points went through it may still be opened or extended, but not by
the other of the two.
-/

namespace AgentFlow.Toml

/-- What a key stands for while a document is read. -/
inductive Entry where
  | value (v : Value)
  /-- A table: whether it was never opened, and whether keys with points made it. -/
  | table (implicit dotted : Bool) (entries : List (String × Entry))
  /-- A list of tables, the last first. -/
  | tables (reversed : List (List (String × Entry)))
deriving Inhabited

/-- The entries of a table. -/
abbrev Entries : Type := List (String × Entry)

/-! ## Changing tables -/

/-- Changes the table at the end of a path of headers, making tables on the way. -/
def throughHeaders (change : Entries → Option Entries) : List String → Entries → Option Entries
  | [], entries => change entries
  | key :: path, entries =>
    match entries.lookup key with
    | none => do
      let inner ← throughHeaders change path []
      return Fields.put key (.table true false inner) entries
    | some (.table implicit dotted inner) => do
      let inner ← throughHeaders change path inner
      return Fields.put key (.table implicit dotted inner) entries
    | some (.tables (last :: before)) => do
      let last ← throughHeaders change path last
      return Fields.put key (.tables (last :: before)) entries
    | some _ => none

/-- Sets a key that may have points; the first keys name tables made in this way. -/
def setKey (v : Value) : List String → Entries → Option Entries
  | [], _ => none
  | [key], entries =>
    if Fields.has key entries then none else some (Fields.put key (.value v) entries)
  | key :: path, entries =>
    match entries.lookup key with
    | none => do
      let inner ← setKey v path []
      return Fields.put key (.table true true inner) entries
    | some (.table true dotted inner) => do
      -- The last of the tables has to be one that keys with points made.
      if path.length = 1 && !dotted then none
      let inner ← setKey v path inner
      return Fields.put key (.table true dotted inner) entries
    | some (.tables (last :: before)) => do
      if path.length = 1 then none
      let last ← setKey v path last
      return Fields.put key (.tables (last :: before)) entries
    | some _ => none

/-- Opens a table. -/
def openTable (key : String) (entries : Entries) : Option Entries :=
  match entries.lookup key with
  | none => some (Fields.put key (.table false false []) entries)
  | some (.table true false inner) => some (Fields.put key (.table false false inner) entries)
  | some _ => none

/-- Opens a further table of a list. -/
def openListed (key : String) (entries : Entries) : Option Entries :=
  match entries.lookup key with
  | none => some (Fields.put key (.tables [[]]) entries)
  | some (.tables reversed) => some (Fields.put key (.tables ([] :: reversed)) entries)
  | some _ => none

mutual

/-- An entry as a value. -/
def Entry.toValue : Entry → Value
  | .value v => v
  | .table _ _ entries => .map (entriesToFields entries)
  | .tables reversed => .list (tablesToValues reversed).reverse

/-- Entries as the fields of a map. -/
def entriesToFields : List (String × Entry) → List (String × Value)
  | [] => []
  | (key, entry) :: rest => (key, entry.toValue) :: entriesToFields rest

/-- Tables as values, in the given order. -/
def tablesToValues : List (List (String × Entry)) → List Value
  | [] => []
  | entries :: rest => .map (entriesToFields entries) :: tablesToValues rest

end

/-! ## Values -/

mutual

/-- A value; at most `steps` steps and `depth` levels. -/
def value? : (steps depth : Nat) → List Char → Option (Value × List Char)
  | 0, _, _ => none
  | steps + 1, depth, text =>
    match text with
    | [] => none
    | '[' :: rest => do
      if depth = 0 then none
      let (items, rest) ← listItems? steps (depth - 1) rest
      return (.list items, rest)
    | '\x7b' :: rest => do
      if depth = 0 then none
      let (entries, rest) ← match skipLineBlanks rest with
        | '\x7d' :: rest => some ([], rest)
        | rest => inlineEntries? steps (depth - 1) [] rest
      return (.map (entriesToFields entries), rest)
    | c :: rest =>
      if c = '"' ∨ c = '\'' then
        (string? (c :: rest)).map fun (s, rest) => (.string s, rest)
      else do
        let (word, rest) := spanWord (c :: rest)
        return (← wordValue? word, rest)

/-- The items of a list up to its closing bracket. -/
def listItems? : (steps depth : Nat) → List Char → Option (List Value × List Char)
  | 0, _, _ => none
  | steps + 1, depth, text =>
    match skipLines false text with
    | ']' :: rest => some ([], rest)
    | text => do
      let (item, rest) ← value? steps depth text
      match skipLines false rest with
      | ',' :: rest =>
        let (items, rest) ← listItems? steps depth rest
        return (item :: items, rest)
      | ']' :: rest => return ([item], rest)
      | _ => none

/-- The entries of an inline table up to its closing brace, behind those set before. -/
def inlineEntries? : (steps depth : Nat) → Entries → List Char → Option (Entries × List Char)
  | 0, _, _, _ => none
  | steps + 1, depth, entries, text => do
    let (key, rest) ← key? text
    let rest ← passed? '=' rest
    let (v, rest) ← value? steps depth (skipLineBlanks rest)
    let entries ← setKey v key entries
    match skipLineBlanks rest with
    | ',' :: rest => inlineEntries? steps depth entries rest
    | '\x7d' :: rest => return (entries, rest)
    | _ => none

end

/-! ## Lines -/

/-- A document while it is read: its entries and the path of the open table. -/
structure Draft where
  root : Entries
  path : List String

/-- The text behind the end of a line, on which only a comment may still stand. -/
def lineEnd? (text : List Char) : Option (List Char) :=
  match skipComment (skipLineBlanks text) with
  | [] => some []
  | rest => lineBreak? rest

/-- Applies a header, behind its brackets. -/
def header? (draft : Draft) (listed : Bool) (text : List Char) : Option (Draft × List Char) := do
  let (path, rest) ← key? text
  let rest ← passed? ']' rest
  let rest ← if listed then passed? ']' rest else some rest
  let key ← path.getLast?
  let opener := if listed then openListed key else openTable key
  let root ← throughHeaders opener path.dropLast draft.root
  return ({ root, path }, rest)

/-- Applies an entry. -/
def entry? (draft : Draft) (text : List Char) : Option (Draft × List Char) := do
  let (key, rest) ← key? text
  let rest ← passed? '=' rest
  let (v, rest) ← value? (2 * text.length + 2) maxDepth (skipLineBlanks rest)
  let root ← throughHeaders (setKey v key) draft.path draft.root
  return ({ draft with root }, rest)

/-- Reads lines, at most `steps` of them. -/
def lines? : Nat → Draft → List Char → Option Draft
  | _, draft, [] => some draft
  | 0, _, _ :: _ => none
  | steps + 1, draft, text =>
    match skipLineBlanks text with
    | [] => some draft
    | '[' :: '[' :: rest => do
      let (draft, rest) ← header? draft true rest
      lines? steps draft (← lineEnd? rest)
    | '[' :: rest => do
      let (draft, rest) ← header? draft false rest
      lines? steps draft (← lineEnd? rest)
    | c :: rest =>
      if c = '#' ∨ (lineBreak? (c :: rest)).isSome then do
        lines? steps draft (← lineEnd? (c :: rest))
      else do
        let (draft, rest) ← entry? draft (c :: rest)
        lines? steps draft (← lineEnd? rest)

/-- The map that a document describes. A byte order mark in front of it means nothing. -/
def document? (text : String) : Option Value :=
  let chars := match text.toList with
    | '\ufeff' :: rest => rest
    | chars => chars
  (lines? (chars.length + 1) ⟨[], []⟩ chars).map fun draft => .map (entriesToFields draft.root)

end AgentFlow.Toml
