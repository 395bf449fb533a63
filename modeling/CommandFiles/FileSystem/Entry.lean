import CommandFiles.Record

/-!
# Entries of a file system

Files and directories. A directory lists what it holds in an order of its own; nothing that is
computed from a directory may depend on more than that. Main statements: what stands at a path after
an entry was put at one.
-/

namespace CommandFiles

/-- What a file holds. -/
inductive Content where
  | text (text : String)
  | binary (bytes : List UInt8)
  deriving DecidableEq, Repr, Inhabited

/-- A file, or a directory with its named entries. -/
inductive Entry where
  | file (content : Content)
  | directory (entries : List (String × Entry))
  deriving Inhabited

namespace Entry

/-- Whether an entry is a file. -/
def isFile : Entry → Bool
  | file _ => true
  | directory _ => false

/-- The entry at names below an entry. -/
def at? (e : Entry) : List String → Option Entry
  | [] => some e
  | name :: rest => match e with
    | file _ => none
    | directory entries => match entries.lookup name with
      | none => none
      | some e => at? e rest

/-- Puts an entry at names below an entry. Nothing changes where the names lead through a file or
through a directory that is not there. -/
def put (new : Entry) : List String → Entry → Entry
  | [], _ => new
  | _ :: _, file content => file content
  | [name], directory entries => directory (Record.insertInto name new entries)
  | name :: next :: rest, directory entries => match entries.lookup name with
    | none => directory entries
    | some old => directory (Record.insertInto name (put new (next :: rest) old) entries)

/-- Takes away the entry at names below an entry. -/
def erase : List String → Entry → Entry
  | [], e => e
  | _ :: _, file content => file content
  | [name], directory entries => directory (entries.filter fun m => m.1 != name)
  | name :: next :: rest, directory entries => match entries.lookup name with
    | none => directory entries
    | some old => directory (Record.insertInto name (erase (next :: rest) old) entries)

mutual

/-- The names of all files of an entry, each as the names on the way to it. -/
def files (trail : List String) : Entry → List (List String)
  | file _ => [trail]
  | directory entries => filesIn trail entries

/-- The files of several entries, one after another. -/
def filesIn (trail : List String) : List (String × Entry) → List (List String)
  | [] => []
  | (name, e) :: rest => files (trail ++ [name]) e ++ filesIn trail rest

end

theorem at?_put_self (new : Entry) (name : String) (entries : List (String × Entry)) :
    (put new [name] (directory entries)).at? [name] = some new := by
  simp [put, at?, Record.lookup_insertInto]

theorem at?_put_other (new : Entry) {name other : String} (rest more : List String)
    (entries : List (String × Entry)) (h : other ≠ name) :
    (put new (name :: rest) (directory entries)).at? (other :: more) =
      (directory entries).at? (other :: more) := by
  cases rest with
  | nil => simp [put, at?, Record.lookup_insertInto, h]
  | cons next rest =>
    simp only [put]
    split
    · rfl
    · simp [at?, Record.lookup_insertInto, h]

end Entry

end CommandFiles
