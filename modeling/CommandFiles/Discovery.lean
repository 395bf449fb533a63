import CommandFiles.Command.Plain
import CommandFiles.Command.Tree
import CommandFiles.Context
import CommandFiles.Discovery.Search
import CommandFiles.FileSystem
import CommandFiles.Literal.Evaluate
import CommandFiles.Literal.Extract
import CommandFiles.Script.Reader.Module

/-!
# Discovery

Builds the tree of commands from the files below the command root. Every file is read, its option
literal is evaluated and takes its place in the tree; files without one are passed over. The first
file at fault ends the discovery, so that no tree lacks a command.
-/

namespace CommandFiles

/-- Why discovery fails. The export that was looked for goes with what went wrong in a file. -/
inductive DiscoveryError where
  | exclusion (cause : ExclusionError)
  | root (path : String) (cause : OsError)
  | unread (path looked : String) (cause : OsError)
  | unparsed (path looked : String) (line column : Nat)
  | refused (path looked : String) (cause : Literal.Refusal)
  | rejected (cause : Literal.Rejection)

namespace DiscoveryError

/-- What was done when something went wrong in a file. -/
def context (path looked : String) : String := s!"could not extract {looked} from {path}"

/-- The words of what went wrong, without what was done. -/
def cause : DiscoveryError → String
  | exclusion e => e.message
  | root path e => s!"could not read command root {path}: {e.message}"
  | unread path _ e => s!"failed parsing {path}: {e.message}"
  | unparsed path _ line column =>
    s!"failed parsing {path} (line {line}, col {column}): syntax error"
  | refused _ _ r => r.message
  | rejected r => r.message

/-- The words of the error. -/
def message (e : DiscoveryError) : String :=
  match e with
  | unread path looked _ | unparsed path looked _ _ | refused path looked _ =>
    s!"{context path looked}: {e.cause}"
  | e => e.cause

/-- The literal as it would be written, if the error is about one. -/
def generated? : DiscoveryError → Option String
  | rejected (.compile _ _ generated) => generated
  | _ => none

end DiscoveryError

/-- A computation that gives warnings and may end a discovery. -/
abbrev Discovery := ExceptT DiscoveryError Logged

namespace Discovery

/-- Goes on with a result or fails. -/
def ofExcept {α : Type} (r : Except DiscoveryError α) : Discovery α := ExceptT.mk ⟨r, []⟩

/-- The files below a directory that pass a filter, in the order of the search. -/
def search (fs : FileSystem) (filter : FileFilter) (directory : String) :
    Except OsError (List String) := do
  match ← fs.entry directory with
  | .file _ => throw .notDirectory
  | e => return (e.commandFiles filter []).map fun names => Path.under directory (Entry.pathOf names)

/-- The command files below the command root of a context, in the order of the search. -/
def commandFiles (fs : FileSystem) (c : Context) : Except DiscoveryError (List String) := do
  let filter ← (FileFilter.ofConfig c.config).mapError .exclusion
  (search fs filter c.commandsRoot).mapError (.root c.commandsRoot)

/-- Reads the outline of a file. -/
def outline (fs : FileSystem) (looked path : String) : Except DiscoveryError Script.Outline := do
  let text ← (fs.read path).mapError (.unread path looked)
  (Script.Outline.read (Script.Dialect.ofExtension (Path.extension? path)) text).mapError fun p =>
    .unparsed path looked p.line p.column

/-- The option literal of an outline. -/
def options (path : String) (o : Script.Outline) : Discovery (Option Literal.Fragment) :=
  let found := Literal.optionFragment path o
  ExceptT.mk ⟨found.value.mapError (.refused path Literal.optionsName), found.warnings⟩

/-- The dependencies of an outline. -/
def dependenciesOf (path : String) (o : Script.Outline) :
    Except DiscoveryError (Option (List String)) :=
  (Literal.dependencies o).mapError (.refused path Literal.dependenciesName)

/-- Evaluates an option literal. -/
def evaluate (c : Context) (f : Literal.Fragment) : Discovery Value :=
  let result := f.evaluate c.globals c.cwd
  ExceptT.mk ⟨result.value.mapError .rejected, result.warnings⟩

/-- The command that an option literal has come to. -/
def commandOf (f : Literal.Fragment) (v : Value) : Except DiscoveryError Command :=
  (Command.ofJson v.toJson).mapError fun m =>
    .rejected (.compile f.path m.message f.source.toOption)

/-- A command with the dependencies of its file, if the file declares any. -/
def withDependencies (found : Option (List String)) : Command → Command
  | .mk d subs => .mk { d with dependencies := found <|> d.dependencies } subs

/-- The command of a file; none if the file exports no option literal. -/
def load (fs : FileSystem) (c : Context) (path : String) : Discovery (Option Command) := do
  let o ← ofExcept (outline fs Literal.optionsName path)
  match ← options path o with
  | none => return none
  | some f =>
    let found ← ofExcept (dependenciesOf path o)
    let v ← evaluate c f
    let command ← ofExcept (commandOf f v)
    return some (withDependencies found command)

/-- Puts the command of a file at its place in a tree. -/
def addFile (fs : FileSystem) (c : Context) (tree : Command) (path : String) :
    Discovery Command := do
  match ← load fs c path with
  | none => return tree
  | some command => return Command.merge command (Path.segmentsBelow c.commandsRoot path) tree

/-- Builds the tree from some files, in their order. -/
def addFiles (fs : FileSystem) (c : Context) : Command → List String → Discovery Command
  | tree, [] => return tree
  | tree, path :: rest => do
    let tree ← addFile fs c tree path
    addFiles fs c tree rest

/-- Builds the tree of all commands. -/
def discover (fs : FileSystem) (c : Context) : Discovery Command := do
  let files ← ofExcept (commandFiles fs c)
  addFiles fs c Command.empty files

/-- The dependencies that a file declares. -/
def fileDependencies (fs : FileSystem) (path : String) :
    Except DiscoveryError (Option (List String)) := do
  dependenciesOf path (← outline fs Literal.dependenciesName path)

/-- The dependencies that all command files declare. -/
def allDependencies (fs : FileSystem) (c : Context) :
    Except DiscoveryError (List (String × Option (List String))) := do
  (← commandFiles fs c).mapM fun path => do return (path, ← fileDependencies fs path)

/-- The option literal of a file, written anew; none if the file exports none. -/
def printedOptions (fs : FileSystem) (path : String) : Discovery (Option String) := do
  let o ← ofExcept (outline fs Literal.optionsName path)
  match ← options path o with
  | none => return none
  | some f => match f.source with
    | .ok source => return some source
    | .error u => throw (.rejected (.unsupported f.path u))

theorem addFiles_cons (fs : FileSystem) (c : Context) (tree : Command) (path : String)
    (rest : List String) :
    addFiles fs c tree (path :: rest) =
      addFile fs c tree path >>= fun tree => addFiles fs c tree rest := rfl

end Discovery

end CommandFiles
