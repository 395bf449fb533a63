import CommandFiles.Record

/-!
# TOML documents

Tables of keys and values, and how the statements of a document build them. A table is defined once:
by a header, by dotted keys or as a value; only tables that headers imply may still get a header.
Main statement: a pair that is put in keeps the keys that were there.
-/

namespace CommandFiles

/-- How a table came about. A header may name a table, or imply those around it; keys with points
make tables too, and so do values in braces. -/
inductive Toml.Form where
  | header | implied | dotted | inline
  deriving DecidableEq, Repr, Inhabited

/-- A value. Numbers, truth values and dates stay as they are written. -/
inductive Toml where
  | string (text : String)
  | scalar (text : String)
  | array (items : List Toml)
  | table (form : Toml.Form) (entries : List (String × Toml))
  | tables (elements : List (List (String × Toml)))
  deriving Inhabited

namespace Toml

/-- The entries of a table, in the order of the document. -/
abbrev Table := List (String × Toml)

/-- A statement of a document. A path says in which table something is. -/
inductive Statement where
  | pair (path : List String) (key : String) (value : Toml)
  | header (path : List String) (key : String)
  | element (path : List String) (key : String)

/-- Changes the table at a path; tables on the way are made where they are missing. Values in braces
are closed, and keys with points do not lead into tables that have a header. -/
def enter (dotted : Bool) (change : Form → Table → Option Table) :
    List String → Form → Table → Option Table
  | [], form, t => change form t
  | key :: rest, _, t => match t.lookup key with
    | none => do
      let form := if dotted then .dotted else .implied
      let inner ← enter dotted change rest form []
      return t ++ [(key, table form inner)]
    | some (.table form inner) =>
      if form = .inline || dotted && form = .header then none
      else do
        let inner ← enter dotted change rest form inner
        return Record.insertInto key (table form inner) t
    | some (.tables elements) => match elements.getLast? with
      | none => none
      | some last => do
        let last ← enter dotted change rest .header last
        return Record.insertInto key (tables (elements.dropLast ++ [last])) t
    | some _ => none

/-- Puts a pair into a table that has not got its key. -/
def addPair (key : String) (value : Toml) (t : Table) : Option Table :=
  if (t.lookup key).isSome then none else some (t ++ [(key, value)])

/-- Puts a pair into a table or, if its key has points, into a table below that only such keys have
made. -/
def insertPair (path : List String) (key : String) (value : Toml) (form : Form) (t : Table) :
    Option Table :=
  enter true (fun form t =>
    if path ≠ [] && form ≠ .dotted then none else addPair key value t) path form t

/-- Opens the table of a header. -/
def openTable (key : String) (t : Table) : Option Table :=
  match t.lookup key with
  | none => some (t ++ [(key, table .header [])])
  | some (.table .implied inner) => some (Record.insertInto key (table .header inner) t)
  | some _ => none

/-- Opens one more table of an array of tables. -/
def openElement (key : String) (t : Table) : Option Table :=
  match t.lookup key with
  | none => some (t ++ [(key, tables [[]])])
  | some (.tables elements) => some (Record.insertInto key (tables (elements ++ [[]])) t)
  | some _ => none

/-- What the statements so far have built, and the table that is open. -/
structure Building where
  table : Table := []
  cursor : List String := []

/-- Takes up a statement. -/
def Building.add (b : Building) : Statement → Option Building
  | .pair path key value => do
    let t ← enter false (fun form t => insertPair path key value form t) b.cursor .header b.table
    return { b with table := t }
  | .header path key => do
    let t ← enter false (fun _ t => openTable key t) path .header b.table
    return ⟨t, path ++ [key]⟩
  | .element path key => do
    let t ← enter false (fun _ t => openElement key t) path .header b.table
    return ⟨t, path ++ [key]⟩

/-- The table that the statements of a document build. -/
def build (statements : List Statement) : Option Table :=
  (statements.foldlM Building.add {}).map (·.table)

/-- The table that the pairs of a value in braces build. -/
def buildInline (pairs : List (List String × String × Toml)) : Option Table :=
  pairs.foldlM (fun t (path, key, value) => insertPair path key value .inline t) []

theorem keys_addPair {key : String} {value : Toml} {t u : Table}
    (h : addPair key value t = some u) : u.map Prod.fst = t.map Prod.fst ++ [key] := by
  unfold addPair at h
  split at h
  · cases h
  · cases h; simp

end Toml

end CommandFiles
