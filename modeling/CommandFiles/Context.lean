import CommandFiles.Config
import CommandFiles.Value
import CommandFiles.Vocabulary

/-!
# Context of an invocation

The settings, the working directory and the home directory of one invocation, and the names that
option literals can use under them.
-/

namespace CommandFiles

/-- What an invocation runs in. -/
structure Context where
  config : Config
  cwd : String
  home : String
  deriving DecidableEq, Repr, Inhabited

namespace Context

/-- The directory that holds the command tree and the cache. -/
def rootDir (c : Context) : String := c.config.rootDir c.home

/-- The directory that command files are searched in. -/
def commandsRoot (c : Context) : String := c.config.commandsRoot c.home

/-- The file that keeps a discovered tree. -/
def cachePath (c : Context) : String := c.config.cachePath c.home

/-- An object of constants. -/
def constants (entries : List (String × String)) : Value :=
  .object (Record.ofList (entries.map fun (name, text) => (name, Value.string text)))

/-- The constants for kinds of options. -/
def optionKinds : Value := constants (OptionKind.all.map fun k => (k.constant, k.tag))

/-- The constants for runtimes. -/
def runtimes : Value := constants (Runtime.all.map fun r => (r.constant, r.name))

/-- The constants for kinds of input. -/
def inputKinds : Value :=
  constants [("TEXT", "text"), ("PASSWORD", "password"), ("CONFIRM", "confirm"),
    ("LIST", "list"), ("CHECKBOX", "checkbox")]

/-- The helpers for paths. -/
def pathHelpers : Value :=
  .object (Record.ofList [("join", .helper .join), ("resolve", .helper .resolve),
    ("dirname", .helper .dirname), ("basename", .helper .basename),
    ("extname", .helper .extname)])

/-- The names that option literals can use and their values. Names from the configuration come
first, so that the names of the library keep their meaning. -/
def globals (c : Context) : Record Value :=
  (Record.ofList (c.config.globals.map fun (name, text) => (name, Value.string text))).insertAll
    [("OPTION_TYPES", optionKinds), ("RUNTIMES", runtimes), ("INPUT_TYPES", inputKinds),
     ("root", .string c.rootDir), ("_z", pathHelpers), ("String", .helper .string)]

end Context

end CommandFiles
