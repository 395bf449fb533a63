import CommandFiles.CommandLine.Match

/-!
# Invocations

What matched arguments ask for: a command of the tree, the names on the way to it, the values of its
options by their keys, and the runtimes. Main statements: the path of an invocation names the root
first, and options with a reserved name leave no value.
-/

namespace CommandFiles

open CommandLine (Level)

/-- The arguments of a command by their keys, in the order of the keys. -/
abbrev Arguments := List (String × Json)

namespace Arguments

/-- Puts an argument in; one under the same key is replaced. -/
def insert (key : String) (value : Json) (args : Arguments) : Arguments :=
  Json.insertMember key value args

/-- Puts more arguments in, one after another. -/
def insertAll (args more : Arguments) : Arguments :=
  more.foldl (fun acc m => insert m.1 m.2 acc) args

/-- Whether there is an argument under a key. -/
def has (key : String) (args : Arguments) : Bool := (args.lookup key).isSome

/-- The arguments as a document. -/
def toJson (args : Arguments) : Json := .object args

end Arguments

/-- A command that is asked for. -/
structure Invocation where
  path : List String
  command : Command
  arguments : Arguments := []
  runtimes : RuntimeSet := {}
  verbose : Bool := false
  deriving Inhabited

namespace Invocation

/-- The command as it is typed. -/
def commandLine (i : Invocation) : String := " ".intercalate i.path

/-- The value of an option at a level, if there is one. -/
def optionValue? (l : Level) (o : OptionSpec) : Option Json :=
  if !o.kind.takesValue then
    if l.hasFlag o.long then some (.bool true)
    else match o.defaultValue with
      | some .null => none
      | v => v
  else if o.kind.isMultiple then (l.values? o.long).map fun vs => .array (vs.map .string)
  else (l.values? o.long).bind fun vs => vs.head?.map .string

/-- Puts in the value of an option. Options with a reserved name have none. -/
def addOption (l : Level) (args : Arguments) (o : OptionSpec) : Arguments :=
  if Naming.reserved.contains o.long then args
  else match optionValue? l o with
    | some v => args.insert (Naming.argumentKey o.long) v
    | none => args

/-- Puts in the arguments without a flag. -/
def addPositional (l : Level) (args : Arguments) : Arguments :=
  match l.values? Naming.positionalName with
  | none | some [] => args
  | some vs => args.insert Naming.positionalName (.array (vs.map .string))

/-- The arguments for a command whose options were given at a level. -/
def argumentsAt (l : Level) (c : Command) : Arguments :=
  addPositional l (c.options.foldl (addOption l) [])

/-- The runtimes that were given at some levels. -/
def runtimesOf (levels : List Level) : RuntimeSet :=
  RuntimeSet.ofList (levels.flatMap fun l => Runtime.all.filter fun r => l.hasFlag r.flag)

/-- Whether more output was asked for at some of the levels. -/
def verboseAt (levels : List Level) : Bool := levels.any fun l => l.hasFlag Naming.verboseName

/-- The command that the levels below a command name, the levels up to it, and the names on the way.
A name stands for the first command that has it; levels behind an unknown name do not count. -/
def descend (c : Command) (own : Level) : List Level → Command × Level × List Level × List String
  | [] => (c, own, [], [])
  | l :: rest =>
    match c.subcommands.find? fun sub => sub.name = l.name with
    | none => (c, own, [], [])
    | some sub =>
      let (target, last, below, names) := descend sub l rest
      (target, last, l :: below, sub.name :: names)

/-- What matched arguments ask for. -/
def ofLevels (tree : Command) (fallback : String) (levels : List Level) : Invocation :=
  let top := levels.head?.getD ⟨"", []⟩
  let (target, last, below, names) := descend tree top levels.tail
  { path := Interface.rootName tree fallback :: names
    command := target
    arguments := argumentsAt last target
    runtimes := runtimesOf (top :: below)
    verbose := verboseAt (top :: below) }

theorem path_ofLevels_head (tree : Command) (fallback : String) (levels : List Level) :
    (ofLevels tree fallback levels).path.head? = some (Interface.rootName tree fallback) := rfl

theorem addOption_of_reserved {l : Level} {args : Arguments} {o : OptionSpec}
    (h : o.long ∈ Naming.reserved) : addOption l args o = args := by
  simp [addOption, h]

end Invocation

end CommandFiles
