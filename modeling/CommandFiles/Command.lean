import CommandFiles.Json
import CommandFiles.Path.File
import CommandFiles.Vocabulary

/-!
# Commands

A command with its options, its hooks and its subcommands. A command comes from a command file or
stands for a directory; a tree of commands is its root. Main statement: the walk over a tree begins
with the root.
-/

namespace CommandFiles

/-- The name of an option: a long name, or a short and a long one. -/
inductive OptionName where
  | long (name : String)
  | pair (short long : String)
  deriving DecidableEq, Repr, Inhabited

/-- The long name. -/
def OptionName.longName : OptionName → String
  | long name => name
  | pair _ name => name

/-- The short name, if one was declared. -/
def OptionName.shortName? : OptionName → Option String
  | long _ => none
  | pair short _ => some short

/-- An option that a command declares. -/
structure OptionSpec where
  name : OptionName
  description : Option String := none
  defaultValue : Option Json := none
  required : Bool := false
  kind : OptionKind
  choices : Option (List String) := none
  deriving Inhabited

/-- The long name of an option. -/
def OptionSpec.long (o : OptionSpec) : String := o.name.longName

/-- A function that a command declares, as its text. -/
structure Hook where
  source : String
  deriving DecidableEq, Repr, Inhabited

/-- A demand for a runtime, and the one to take where none is given. -/
structure RuntimeDemand where
  default : Option Runtime := none
  deriving DecidableEq, Repr, Inhabited

/-- What a command declares besides its subcommands. A command without a file stands for a
directory. -/
structure Declaration where
  name : String := ""
  description : Option String := none
  secondName : Option String := none
  filePath : Option String := none
  options : Option (List OptionSpec) := none
  runtimeDemand : Option RuntimeDemand := none
  beforeRun : Option Hook := none
  validate : Option Hook := none
  showsHelp : Option Bool := none
  dependencies : Option (List String) := none
  deriving Inhabited

/-- A command and the commands below it. -/
inductive Command where
  | mk (declared : Declaration) (subcommands : List Command)
  deriving Inhabited

namespace Command

/-- The name of the files that describe their own directory. -/
def indexName : String := "index"

/-- The description of a command that declares none. -/
def defaultDescription (name : String) : String := s!"commands pertaining to {name}-like stuff"

/-- What a command declares. -/
def declared : Command → Declaration
  | mk d _ => d

/-- The commands below a command. -/
def subcommands : Command → List Command
  | mk _ subs => subs

/-- The name of a command. -/
def name (c : Command) : String := c.declared.name

/-- The file a command comes from. -/
def filePath (c : Command) : Option String := c.declared.filePath

/-- A command that stands for a directory. -/
def placeholder (name : String) : Command := mk { name } []

/-- The tree without commands. -/
def empty : Command := placeholder ""

/-- Whether a command stands for a directory. -/
def isPlaceholder (c : Command) : Bool := c.filePath.isNone

/-- The directory a command stands for if its file describes its own directory. -/
def indexDirectory? (c : Command) : Option String := do
  let path ← c.filePath
  if Path.stem? path = some indexName then
    let directory ← Path.parent? path
    Path.fileName? directory
  else none

/-- The description of a command, or the default one. -/
def description (c : Command) : String :=
  c.declared.description.getD (defaultDescription c.name)

/-- The options of a command. -/
def options (c : Command) : List OptionSpec := c.declared.options.getD []

/-- Whether a command shows help when nothing is given to it. -/
def showsHelpWhenEmpty (c : Command) : Bool := c.declared.showsHelp.getD false

mutual

/-- A command and all commands below it, each with the names of the commands it lies in, the
outermost first. A command comes before those below it. -/
def walkFrom (trail : List String) : Command → List (List String × Command)
  | mk d subs => (trail, mk d subs) :: walkAll (trail ++ [d.name]) subs

/-- The walks over several commands, one after another. -/
def walkAll (trail : List String) : List Command → List (List String × Command)
  | [] => []
  | c :: rest => walkFrom trail c ++ walkAll trail rest

end

/-- The walk over a tree. -/
def walk (c : Command) : List (List String × Command) := walkFrom [] c

theorem walk_head (c : Command) : c.walk.head? = some ([], c) := by
  cases c; simp [walk, walkFrom]

end Command

end CommandFiles
