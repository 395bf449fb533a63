import CommandFiles.Config.Document
import CommandFiles.FileSystem

/-!
# Finding the configuration

The configuration of a directory is the file that the environment names, or else the nearest
configuration file in the directory and those around it. Without a file the defaults hold.
-/

namespace CommandFiles

/-- Why there is no configuration. -/
inductive ConfigError where
  | read (path : String) (cause : OsError)
  | parse (path : String)
  deriving DecidableEq, Repr

/-- The words of a configuration error. -/
def ConfigError.message : ConfigError → String
  | read path cause => s!"failed to read {path}: {cause.message}"
  | parse path => s!"failed to parse {path}: the file is not a valid configuration"

namespace Config

/-- The nearest configuration file in a directory and those around it. -/
def find? (fs : FileSystem) (directory : String) : Option String :=
  ((Path.ancestors directory).map fun d => Path.under d fileName).find? fs.isFile

/-- The configuration in a file. -/
def loadFile (fs : FileSystem) (path : String) : Except ConfigError Config := do
  let text ← (fs.read path).mapError (.read path)
  match ofText text with
  | none => throw (.parse path)
  | some c => return { c with baseDir := (Path.parent? path).getD ".", source := some path }

/-- The configuration for a directory. The file that the environment names comes first; an empty
name counts for nothing. -/
def load (fs : FileSystem) (explicit : Option String) (directory : String) :
    Except ConfigError Config :=
  match explicit.filter (· ≠ ""), find? fs directory with
  | some file, _ => loadFile fs (Path.under directory file)
  | none, some file => loadFile fs file
  | none, none => .ok (anchored directory)

end Config

end CommandFiles
