import CommandFiles.Config.Load
import CommandFiles.Vocabulary

/-!
# Scaffolding

Sets up a project: a configuration file and, below the root directory, an index file, a command file
that shows all globals and a package file. Files that are there stay as they are unless overwriting
is asked for. Main statement: an existing configuration is a reason to do nothing at all.
-/

namespace CommandFiles

namespace Scaffold

/-- What is asked of a scaffold. -/
structure Request where
  root : Option String := none
  executable : Option String := none
  overwrite : Bool := false
  deriving DecidableEq, Repr, Inhabited

/-- Why a scaffold is not made. -/
inductive Failure where
  | present (path : String)
  | unwritten (path : String) (cause : OsError)
  deriving DecidableEq, Repr

/-- The words of a failure. -/
def Failure.message : Failure → String
  | present path => s!"{path} already exists; pass --overwrite to replace it"
  | unwritten path cause => s!"failed to write {path}: {cause.message}"

/-- What a scaffold has touched. -/
structure Report where
  configPath : String
  written : List String := []
  kept : List String := []
  deriving DecidableEq, Repr, Inhabited

/-! ## The files -/

/-- Lines as a text. -/
def ofLines (lines : List String) : String := String.join (lines.map (· ++ "\n"))

/-- The lines of an option that is a flag. -/
def flagLines (name description : String) : List String :=
  ["    \x7b", s!"      name: '{name}',", s!"      description: '{description}',",
   "      type: OPTION_TYPES.BOOLEAN,", "    \x7d,"]

/-- The index file of a project. -/
def indexText (executable : String) : String :=
  ofLines <|
    ["export const OPTS = \x7b", s!"  name: '{executable}',",
     s!"  description: '{executable} commands',", "  options: ["] ++
    flagLines "verbose" "Like spam? This is for you." ++
    Runtime.all.flatMap (fun r => flagLines r.flag s!"set {r.name} runtime") ++
    ["  ],", "\x7d;"]

/-- The command file that shows all globals. -/
def showGlobalsText : String :=
  ofLines
  ["export const OPTS = \x7b",
   "  name: 'show-globals',",
   "  description: 'Display the globals visible to OPTS literals',",
   "  options: [",
   "    \x7b",
   "      name: 'list',",
   "      description: 'Only list global names',",
   "      type: OPTION_TYPES.BOOLEAN,",
   "    \x7d,",
   "  ],",
   "\x7d;",
   "",
   "const globals = JSON.parse(process.env.ZLI_GLOBALS ?? '\x7b\x7d');",
   "for (const name of [...Object.keys(globals), '_z']) \x7b",
   "  const value = globalThis[name];",
   "  console.log(ARGS.list ? name : `$\x7bname\x7d ($\x7btypeof value\x7d): $\x7bJSON.stringify(value)\x7d`);",
   "\x7d"]

/-- The package file; it says that command files are modules. -/
def packageText : String := ofLines ["\x7b", "  \"type\": \"module\"", "\x7d"]

/-- The configuration that is asked for. -/
def configFor (directory : String) (r : Request) : Config :=
  let c := Config.anchored directory
  let c := { c with root := r.root.getD c.root }
  { c with executable := r.executable.getD c.executable }

/-- The files of a project besides its configuration, and what they hold. -/
def seeds (home : String) (c : Config) : List (String × String) :=
  let commands := c.commandsRoot home
  [(Path.under commands "index.js", indexText c.executable),
   (Path.under commands "show-globals.js", showGlobalsText),
   (Path.under (c.rootDir home) "package.json", packageText)]

/-! ## Making them -/

/-- A change of files that may fail halfway. -/
abbrev Change (α : Type) := FileSystem → Except Failure α × FileSystem

/-- Writes a file. -/
def writeFile (path text : String) : Change Unit := fun fs =>
  match fs.writeDeep path text with
  | (.ok (), fs) => (.ok (), fs)
  | (.error e, fs) => (.error (.unwritten path e), fs)

/-- Writes files, one after another. Those that are there are kept unless they are overwritten. -/
def plant (overwrite : Bool) : List (String × String) → Report → Change Report
  | [], report, fs => (.ok report, fs)
  | (path, text) :: rest, report, fs =>
    if fs.hasPath path && !overwrite then
      plant overwrite rest { report with kept := report.kept ++ [path] } fs
    else match writeFile path text fs with
      | (.error e, fs) => (.error e, fs)
      | (.ok (), fs) =>
        plant overwrite rest { report with written := report.written ++ [path] } fs

/-- Sets up a project in a directory. -/
def configure (home directory : String) (r : Request) : Change Report := fun fs =>
  let configPath := Path.under directory Config.fileName
  let c := configFor directory r
  if fs.hasPath configPath && !r.overwrite then (.error (.present configPath), fs)
  else match writeFile configPath c.toText fs with
    | (.error e, fs) => (.error e, fs)
    | (.ok (), fs) => plant r.overwrite (seeds home c) { configPath := configPath } fs

theorem configure_of_present {home directory : String} {r : Request} {fs : FileSystem}
    (hp : fs.hasPath (Path.under directory Config.fileName) = true) (ho : r.overwrite = false) :
    configure home directory r fs =
      (.error (.present (Path.under directory Config.fileName)), fs) := by
  simp [configure, hp, ho]

end Scaffold

end CommandFiles
