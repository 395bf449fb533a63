import CommandFiles.Command.Naming
import CommandFiles.Logged

/-!
# Command-line interfaces

The interface that a tree of commands offers on the command line: for every command its flags, its
options and its subcommands. Names that clash are dropped with a warning; short flags that clash are
an error.
-/

namespace CommandFiles

/-- How a parameter takes what is given to it. -/
inductive ParameterAction where
  | flag
  | set
  | append
  | positional
  | help
  deriving DecidableEq, Repr, Inhabited

/-- A parameter of a command: a flag, an option with values, or the arguments without a flag. -/
structure Parameter where
  id : String
  long : Option String := none
  short : Option Char := none
  help : Option String := none
  action : ParameterAction
  valueName : Option String := none
  choices : Option (List String) := none
  defaults : List String := []
  isGlobal : Bool := false
  deriving DecidableEq, Repr, Inhabited

/-- Whether a parameter is given values. -/
def Parameter.takesValue (p : Parameter) : Bool :=
  p.action = .set || p.action = .append || p.action = .positional

/-- Whether a parameter takes any number of values in a row. -/
def Parameter.isGreedy (p : Parameter) : Bool := p.action = .append || p.action = .positional

/-- Whether a parameter accepts a value. -/
def Parameter.accepts (p : Parameter) (value : String) : Bool :=
  (p.choices.map (·.contains value)).getD true

/-- What a command offers besides its subcommands. -/
structure Usage where
  name : String
  about : Option String := none
  note : Option String := none
  aliases : List String := []
  parameters : List Parameter := []
  deriving DecidableEq, Repr, Inhabited

/-- The interface of a command and of the commands below it. -/
inductive Interface where
  | mk (usage : Usage) (subcommands : List Interface)
  deriving Inhabited

/-- Why a tree of commands has no interface. -/
inductive InterfaceError where
  | naming (command : String) (cause : NamingError)
  | duplicateShort (command short : String)
  deriving DecidableEq, Repr

/-- The words of an interface error. -/
def InterfaceError.message : InterfaceError → String
  | naming command cause => s!"could not register options of `{command}`: {cause.message}"
  | duplicateShort command short =>
    s!"short flag -{short} is declared twice in `{command}`"

namespace Interface

/-- What a command offers. -/
def usage : Interface → Usage
  | mk u _ => u

/-- The interfaces of the commands below a command. -/
def subcommands : Interface → List Interface
  | mk _ subs => subs

/-- The name of a command. -/
def name (i : Interface) : String := i.usage.name

/-! ## Parameters -/

/-- A value as it is given on the command line: texts as they are, other values as documents. -/
def argumentText : Json → String
  | .string s => s
  | j => j.compact

/-- The values an option takes where none is given. -/
def defaultTexts : Option Json → List String
  | none | some .null => []
  | some (.array items) => items.map argumentText
  | some j => [argumentText j]

/-- The parameter of an option. A short flag of several characters is none. -/
def parameterOf (o : OptionSpec) (short : String) : Parameter :=
  let base : Parameter :=
    { id := o.long, long := some o.long, help := o.description, action := .flag
      short := match short.toList with
        | [c] => some c
        | _ => none }
  if o.kind.takesValue then
    { base with
      action := if o.kind.isMultiple then .append else .set
      valueName := some (if o.kind = .password then "password" else o.long)
      choices := o.choices
      defaults := defaultTexts o.defaultValue }
  else base

/-- The parameter that takes the arguments without a flag. -/
def positional : Parameter :=
  { id := Naming.positionalName, action := .positional, valueName := some "ARGS"
    help := some "arguments passed through to the command" }

/-- The flags that every command accepts. -/
def globalFlags : List Parameter :=
  Runtime.all.map (fun r =>
    { id := r.flag, long := some r.flag, action := .flag, isGlobal := true
      help := some s!"run against the {r.name} runtime" }) ++
  [{ id := Naming.verboseName, long := some Naming.verboseName, action := .flag, isGlobal := true
     help := some "show debug output" }]

/-- The flag that shows help; every command has it. -/
def helpParameter : Parameter :=
  { id := Naming.helpName, long := some Naming.helpName, short := some 'h', action := .help }

/-- The note on runtimes in the help of a command. -/
def runtimeNote (d : Declaration) : Option String :=
  d.runtimeDemand.map fun demand => match demand.default with
    | some r =>
      s!"* Command is runtime sensitive, defaults to {r.name} if no runtime flag provided"
    | none => "* Requires a runtime flag"

/-! ## Building -/

/-- A computation that gives warnings and may find that there is no interface. -/
abbrev Build := ExceptT InterfaceError Logged

/-- Gives a warning. -/
def warn (w : Warning) : Build Unit := ExceptT.lift (Logged.warn w)

/-- The parameters of the options of a command. Options with a reserved name are left out, and of
two with one name the first is kept. -/
def parametersOf (command : String) :
    List OptionSpec → (seen used : List String) → Build (List Parameter)
  | [], _, _ => return []
  | o :: rest, seen, used =>
    if Naming.reserved.contains o.long then parametersOf command rest seen used
    else if seen.contains o.long then do
      warn (.optionRepeated command o.long)
      parametersOf command rest seen used
    else if (o.name.shortName?.map used.contains).getD false then
      throw (.duplicateShort command (o.name.shortName?.getD ""))
    else match Naming.assign o used with
      | .error e => throw (.naming command e)
      | .ok (short, used) => do
        let more ← parametersOf command rest (o.long :: seen) used
        return parameterOf o short :: more

/-- What a command offers, arguments without a flag included if no command lies below it. -/
def usageOf (d : Declaration) (about : Option String) (isLeaf : Bool) : Build Usage := do
  let parameters ← parametersOf d.name (d.options.getD []) [] [Naming.helpFlag]
  return { name := d.name, about := about, note := runtimeNote d
           parameters := parameters ++ if isLeaf then [positional] else [] }

/-- An interface with an alias. -/
def withAlias (name : String) : Interface → Interface
  | mk u subs => mk { u with aliases := u.aliases ++ [name] } subs

mutual

/-- The interface of a command below another one. -/
def ofSubcommand : Command → Build Interface
  | .mk d subs => do
    let u ← usageOf d (some (d.description.getD (Command.defaultDescription d.name))) subs.isEmpty
    let subs ← ofSubcommands d.name (subs.map Command.name) subs [] []
    return mk u subs

/-- The interfaces of the commands below a command. Of two with one name the first is kept, and an
alias is dropped where it is a name or an alias already. -/
def ofSubcommands (parent : String) (names : List String) :
    List Command → (seenNames seenAliases : List String) → Build (List Interface)
  | [], _, _ => return []
  | c :: rest, seenNames, seenAliases =>
    if c.name = Naming.helpName then do
      warn (.helpIsBuiltIn parent)
      ofSubcommands parent names rest seenNames seenAliases
    else if seenNames.contains c.name then do
      warn (.commandRepeated parent c.name)
      ofSubcommands parent names rest seenNames seenAliases
    else do
      let i ← ofSubcommand c
      match c.declared.secondName with
      | none => return i :: (← ofSubcommands parent names rest (c.name :: seenNames) seenAliases)
      | some name =>
        if name = Naming.helpName || names.contains name || seenAliases.contains name then do
          warn (.aliasTaken parent name c.name)
          return i :: (← ofSubcommands parent names rest (c.name :: seenNames) seenAliases)
        else
          return withAlias name i ::
            (← ofSubcommands parent names rest (c.name :: seenNames) (name :: seenAliases))

end

/-- The name of the root: its own, or the fallback. -/
def rootName (tree : Command) (fallback : String) : String :=
  if tree.name = "" then fallback else tree.name

/-- The interface of a tree of commands. -/
def ofTree (tree : Command) (fallback : String) : Build Interface := do
  let d := { tree.declared with name := rootName tree fallback }
  let u ← usageOf d d.description tree.subcommands.isEmpty
  let subs ← ofSubcommands d.name (tree.subcommands.map Command.name) tree.subcommands [] []
  return mk { u with parameters := u.parameters ++ globalFlags } subs

/-- Whether a command is called by a name: its own or an alias. -/
def isCalled (name : String) (i : Interface) : Bool :=
  i.usage.name = name || i.usage.aliases.contains name

/-- The command below a command that is called by a name. -/
def find? (name : String) (i : Interface) : Option Interface :=
  i.subcommands.find? (isCalled name)

/-- The command at a path of names below a command. -/
def findPath? (i : Interface) : List String → Option Interface
  | [] => some i
  | name :: rest => (i.find? name).bind (findPath? · rest)

end Interface

end CommandFiles
