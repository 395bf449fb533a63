import CommandFiles.Command.Plain
import CommandFiles.Context
import CommandFiles.FileSystem
import CommandFiles.Literal.Evaluate
import CommandFiles.Literal.Extract
import CommandFiles.Script.Reader.Module
import CommandFiles.Value.Source

/-!
# The cache

Keeps a discovered tree in a file. The file is a module whose default export is the tree as a
literal, so that hooks stay what they are and the file is read like any command file. A cache that
cannot be read is passed over with a warning. Main statement: where there is no file there is no
warning either.
-/

namespace CommandFiles

/-- Why a cache cannot be read. -/
inductive CacheError where
  | os (cause : OsError)
  | unparsed (path : String) (line column : Nat)
  | refused (cause : Literal.Refusal)
  | nothingExported (path : String)
  | mismatch (cause : Json.Mismatch)

/-- The words of the error. -/
def CacheError.message : CacheError → String
  | os e => e.message
  | unparsed path line column =>
    s!"failed parsing {path} (line {line}, col {column}): syntax error"
  | refused r => r.message
  | nothingExported path => s!"{path} has no default export"
  | mismatch m => m.message

namespace Cache

/-! ## Writing -/

/-- The lines that a cache begins with. -/
def heading : String :=
  "// zli command cache (schema 1, zli 0.3.0).\n// Generated file; rebuild with `--write-cache`."

/-- The file that keeps a tree. -/
def textOf (tree : Command) : String :=
  heading ++ "\nexport default " ++ (Value.ofJson tree.toJson).source ++ ";\n"

/-- Keeps a tree in a file. -/
def save (tree : Command) (path : String) (fs : FileSystem) :
    Except OsError Unit × FileSystem :=
  fs.writeDeep path (textOf tree)

/-! ## Reading -/

/-- A computation that gives warnings and may find the cache unreadable. -/
abbrev Loading := ExceptT CacheError Logged

/-- Goes on with a result or fails. -/
def ofExcept {α : Type} (r : Except CacheError α) : Loading α := ExceptT.mk ⟨r, []⟩

/-- Evaluates a default export; all other nodes are passed over. -/
def evaluateExport (c : Context) (path : String) (found : Option Value) (v : Script.Visit) :
    Loading (Option Value) :=
  match v.node with
  | .exportedDefault node => match node.expr with
    | none => throw (.refused ⟨"default export is not an expression", node.line⟩)
    | some e =>
      let result := Literal.evaluateExpr e path c.globals c.cwd
      ExceptT.mk ⟨(result.value.map some).mapError fun r => .refused ⟨r.message, node.line⟩,
        result.warnings⟩
  | _ => return found

/-- Reads the tree that a file keeps. -/
def load (fs : FileSystem) (c : Context) (path : String) : Loading Command := do
  let text ← ofExcept ((fs.read path).mapError .os)
  let o ← ofExcept <|
    (Script.Outline.read (Script.Dialect.ofExtension (Path.extension? path)) text).mapError
      fun p => .unparsed path p.line p.column
  match ← o.visits.foldlM (evaluateExport c path) none with
  | none => throw (.nothingExported path)
  | some v => ofExcept ((Command.ofJson v.toJson).mapError .mismatch)

/-- The tree that a file keeps, if there is a file and it can be read. -/
def loadIfPresent (fs : FileSystem) (c : Context) (path : String) : Logged (Option Command) :=
  if fs.isFile path then
    let result := (load fs c path).run
    match result.value with
    | .ok tree => ⟨some tree, result.warnings⟩
    | .error e => ⟨none, result.warnings ++ [.cacheIgnored path e.message]⟩
  else ⟨none, []⟩

theorem loadIfPresent_of_not_file {fs : FileSystem} {c : Context} {path : String}
    (h : fs.isFile path = false) : loadIfPresent fs c path = ⟨none, []⟩ := by
  simp [loadIfPresent, h]

end Cache

end CommandFiles
