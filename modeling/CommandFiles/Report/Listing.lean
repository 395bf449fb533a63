import CommandFiles.Command.Naming

/-!
# Listings

What can be looked up about a project without running anything: the names of all commands with the
flags of their options, and the dependencies of all files.
-/

namespace CommandFiles.Report

/-- The name a command is listed under. Only the root may go without a name; the fallback stands for
it then. -/
def listedName? (fallback : String) (trail : List String) (name : String) : Option String :=
  if name ≠ "" then some name else if trail = [] then some fallback else none

/-- The line of a command: its name behind that of the command it lies in. -/
def commandLine (fallback : String) (trail : List String) (name : String) : String :=
  match trail.getLast? with
  | none => s!"> {name}\n"
  | some parent =>
    let shown := if parent = "" then fallback else parent
    s!"{shown} > {name}\n"

/-- The lines of the options of a command: their flags and the keys that their values are passed
under. -/
def optionLines : List OptionSpec → List String → Except NamingError String
  | [], _ => .ok ""
  | o :: rest, used =>
    if Naming.reserved.contains o.long then optionLines rest used
    else do
      let (flags, used) ← Naming.flagsText o used
      let more ← optionLines rest used
      return s!"----> {flags} => {Naming.argumentKey o.long}\n" ++ more

/-- The lines of a command and its options. -/
def commandLines (fallback : String) (trail : List String) (c : Command) :
    Except NamingError String :=
  match listedName? fallback trail c.name with
  | none => .ok ""
  | some name => do
    let options ← optionLines c.options [Naming.helpFlag]
    return commandLine fallback trail name ++ options

/-- The names of all commands of a tree and the flags of their options. -/
def nameMap (tree : Command) (fallback : String) : Except NamingError String := do
  let parts ← tree.walk.mapM fun (trail, c) => commandLines fallback trail c
  return String.join parts

/-- The dependencies of a file as they are listed. -/
def dependencyText : Option (List String) → String
  | none => "(no dependencies declared)"
  | some [] => "(empty)"
  | some ds => ", ".intercalate ds

/-- The dependencies of files, which are named as seen from a directory. -/
def dependencyListing (root : String) (entries : List (String × Option (List String))) : String :=
  String.join <| entries.map fun (file, ds) =>
    s!"{(Path.below? root file).getD file}: {dependencyText ds}\n"

end CommandFiles.Report
