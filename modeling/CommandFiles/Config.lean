import CommandFiles.Path.File

/-!
# Configuration

The settings of a project of command files. Every setting has a default; paths start from the
directory the configuration lies in.
-/

namespace CommandFiles

/-- The settings of a project. -/
structure Config where
  root : String := "zli_commands"
  commandsDir : String := "commands"
  executable : String := "zli"
  interpreter : String := "node"
  extensions : List String := ["js", "mjs"]
  exclude : List String := []
  cacheFile : String := ".zli-cache.js"
  globals : List (String × String) := []
  baseDir : String := "."
  source : Option String := none
  deriving DecidableEq, Repr, Inhabited

namespace Config

/-- The name of a configuration file. -/
def fileName : String := ".zli.toml"

/-- The default settings of a directory. -/
def anchored (directory : String) : Config := { baseDir := directory }

/-- Replaces a tilde at the beginning of a path by the home directory. -/
def expandTilde (home path : String) : String :=
  match path.toList with
  | ['~'] => home
  | '~' :: '/' :: rest => Path.under home (String.ofList rest)
  | _ => path

/-- The directory that holds the command tree and the cache. -/
def rootDir (c : Config) (home : String) : String :=
  Path.under c.baseDir (expandTilde home c.root)

/-- The directory that command files are searched in. -/
def commandsRoot (c : Config) (home : String) : String :=
  Path.under (c.rootDir home) c.commandsDir

/-- The file that keeps a discovered tree. -/
def cachePath (c : Config) (home : String) : String :=
  Path.under (c.rootDir home) c.cacheFile

end Config

end CommandFiles
