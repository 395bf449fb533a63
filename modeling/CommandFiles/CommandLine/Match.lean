import CommandFiles.CommandLine.Interface

/-!
# Matching arguments

Reads the arguments of a program against its interface. The outcome is a list of levels, one for
the program and one for each subcommand that the arguments name, with what was given at each.
-/

namespace CommandFiles.CommandLine

/-- Why arguments are refused. A demand for help counts among the refusals, because nothing is run
after it. -/
inductive Refusal where
  | displayHelp
  | unknownArgument (argument : String)
  | unknownSubcommand (name : String)
  | invalidValue (parameter value : String)
  | missingValue (parameter : String)
  | repeated (parameter : String)
  | valueForFlag (parameter : String)
  deriving DecidableEq, Repr

/-- The status that a program which refuses its arguments ends with. -/
def Refusal.exitCode : Refusal → Nat
  | displayHelp => 0
  | _ => 2

/-- What was given for a parameter. -/
inductive Given where
  | flag
  | values (texts : List String)
  deriving DecidableEq, Repr

/-- What was given at one level, by parameters. -/
structure Level where
  name : String
  given : List (String × Given)
  deriving DecidableEq, Repr

namespace Level

/-- Whether a flag was given. -/
def hasFlag (l : Level) (id : String) : Bool := l.given.lookup id = some .flag

/-- The values that were given for a parameter. -/
def values? (l : Level) (id : String) : Option (List String) :=
  match l.given.lookup id with
  | some (.values texts) => some texts
  | _ => none

end Level

/-- What the arguments read so far come to. `pending` is an option whose values are still being
collected; `isOpen` says that the next argument may be one of them, and `onlyValues` that flags are
no longer looked for. -/
structure Progress where
  given : List (String × Given) := []
  pending : Option (Parameter × List String) := none
  isOpen : Bool := false
  onlyValues : Bool := false

/-- What was given for a parameter, together with what was given before. -/
def put (id : String) (more : Given) : List (String × Given) → List (String × Given)
  | [] => [(id, more)]
  | (k, g) :: rest =>
    if k = id then
      match g, more with
      | .values old, .values new => (k, .values (old ++ new)) :: rest
      | _, g => (k, g) :: rest
    else (k, g) :: put id more rest

/-- Notes a flag that was given. -/
def noteFlag (p : Parameter) (given : List (String × Given)) :
    Except Refusal (List (String × Given)) :=
  if p.action = .help then .error .displayHelp
  else if (given.lookup p.id).isSome then .error (.repeated p.id)
  else .ok (put p.id .flag given)

/-- The first value that a parameter does not accept. -/
def checkValues (p : Parameter) (values : List String) : Except Refusal Unit :=
  match values.find? fun v => !p.accepts v with
  | some v => .error (.invalidValue p.id v)
  | none => .ok ()

/-- Notes the values that were given for an option. Only options that collect may be repeated. -/
def noteValues (p : Parameter) (values : List String) (given : List (String × Given)) :
    Except Refusal (List (String × Given)) := do
  if values.isEmpty && p.action ≠ .positional then throw (.missingValue p.id)
  if p.action = .set && (given.lookup p.id).isSome then throw (.repeated p.id)
  checkValues p values
  return put p.id (.values values) given

namespace Progress

/-- Notes the values collected so far. -/
def settle (s : Progress) : Except Refusal Progress :=
  match s.pending with
  | none => .ok { s with isOpen := false }
  | some (p, values) => do
    let given ← noteValues p values s.given
    return { s with given := given, pending := none, isOpen := false }

/-- A flag was given. -/
def flag (s : Progress) (p : Parameter) : Except Refusal Progress := do
  let s ← s.settle
  return { s with given := ← noteFlag p s.given }

/-- An option was given, with a value attached to it or without one. -/
def option (s : Progress) (p : Parameter) (attached : Option String) :
    Except Refusal Progress := do
  let s ← s.settle
  match attached with
  | some v => return { s with given := ← noteValues p [v] s.given }
  | none => return { s with pending := some (p, []), isOpen := true }

/-- A value for the option that is open. -/
def value (s : Progress) (text : String) : Progress :=
  match s.pending with
  | some (p, values) => { s with pending := some (p, values ++ [text]), isOpen := p.isGreedy }
  | none => s

/-- An argument without a flag. All that follows it is taken as it is. -/
def argument (s : Progress) (p : Parameter) (text : String) : Except Refusal Progress :=
  match s.pending with
  | some (q, values) =>
    if q.id = p.id then
      .ok { s with pending := some (q, values ++ [text]), onlyValues := true }
    else do
      let s ← s.settle
      return { s with pending := some (p, [text]), onlyValues := true }
  | none => .ok { s with pending := some (p, [text]), isOpen := false, onlyValues := true }

end Progress

/-! ## Single arguments -/

/-- An argument as it looks. -/
inductive Look where
  | escape
  | long (name : String) (attached : Option String)
  | shorts (flags : List Char)
  | plain
  deriving DecidableEq, Repr

/-- How an argument looks. A single hyphen is a plain argument. -/
def look (argument : String) : Look :=
  match argument.toList with
  | ['-', '-'] => .escape
  | '-' :: '-' :: rest =>
    let name := String.ofList (rest.takeWhile (· != '='))
    match rest.dropWhile (· != '=') with
    | [] => .long name none
    | _ :: attached => .long name (some (String.ofList attached))
  | '-' :: c :: rest => .shorts (c :: rest)
  | _ => .plain

/-- All parameters at a level: those of the command, those of the program that hold everywhere, and
the help flag. -/
def parametersAt (i : Interface) (inherited : List Parameter) : List Parameter :=
  let own := i.usage.parameters
  own ++ inherited.filter (fun p => !own.any (·.id == p.id)) ++ [Interface.helpParameter]

/-- Reads an argument that names a flag or an option by its long name. -/
def readLong (ps : List Parameter) (name : String) (attached : Option String) (s : Progress) :
    Except Refusal Progress :=
  match ps.find? fun p => p.long = some name with
  | none => .error (.unknownArgument ("--" ++ name))
  | some p =>
    if p.takesValue then s.option p attached
    else if attached.isSome then .error (.valueForFlag p.id)
    else s.flag p

/-- The value that is attached to a short option; an equals sign before it does not count. -/
def attachedValue? : List Char → Option String
  | [] => none
  | '=' :: rest => some (String.ofList rest)
  | rest => some (String.ofList rest)

/-- Reads an argument that names flags and options by their letters. -/
def readShorts (ps : List Parameter) : List Char → Progress → Except Refusal Progress
  | [], s => .ok s
  | c :: rest, s =>
    match ps.find? fun p => p.short = some c with
    | none => .error (.unknownArgument (String.ofList ['-', c]))
    | some p =>
      if p.takesValue then s.option p (attachedValue? rest)
      else do
        let s ← s.flag p
        readShorts ps rest s

/-- Reads an argument that is no flag. -/
def readPlain (i : Interface) (ps : List Parameter) (text : String) (s : Progress) :
    Except Refusal Progress :=
  if s.isOpen && !s.onlyValues then .ok (s.value text)
  else match ps.find? fun p => p.action = .positional with
    | some p => s.argument p text
    | none =>
      if i.subcommands.isEmpty then .error (.unknownArgument text)
      else if s.onlyValues && (text = Naming.helpName || (i.find? text).isSome) then
        .error (.unknownArgument text)
      else .error (.unknownSubcommand text)

/-- Reads an argument that names no subcommand. -/
def readArgument (i : Interface) (ps : List Parameter) (text : String) (s : Progress) :
    Except Refusal Progress :=
  if s.onlyValues then readPlain i ps text s
  else match look text with
    | .escape => .ok { s with onlyValues := true }
    | .long name attached => readLong ps name attached s
    | .shorts flags => readShorts ps flags s
    | .plain => readPlain i ps text s

/-! ## All arguments -/

/-- Puts in the defaults of the parameters that were not given. -/
def addDefaults : List Parameter → List (String × Given) → Except Refusal (List (String × Given))
  | [], given => .ok given
  | p :: rest, given =>
    if p.defaults.isEmpty || (given.lookup p.id).isSome then addDefaults rest given
    else do
      checkValues p p.defaults
      addDefaults rest (put p.id (.values p.defaults) given)

/-- The level that reading ends with. -/
def Progress.finish (s : Progress) (name : String) (ps : List Parameter) :
    Except Refusal Level := do
  let s ← s.settle
  return ⟨name, ← addDefaults ps s.given⟩

/-- The answer to a demand for help on the command at a path: help, unless there is none. -/
def helpOn (i : Interface) : List String → Refusal
  | [] => .displayHelp
  | name :: rest =>
    match i.find? name with
    | some sub => helpOn sub rest
    | none =>
      if name = Naming.helpName && !i.subcommands.isEmpty then
        match rest with
        | [] => .displayHelp
        | more :: _ => .unknownSubcommand more
      else .unknownSubcommand name

/-- Reads arguments at a level. A subcommand is looked for as long as no option is open and no
argument without a flag was given; it takes all arguments behind its name. -/
def readArguments (inherited : List Parameter) (i : Interface) (s : Progress) :
    List String → Except Refusal (List Level)
  | [] => do
    let own ← s.finish i.name (parametersAt i inherited)
    return [own]
  | text :: rest =>
    let looksDown := !s.onlyValues && !s.isOpen
    match if looksDown then i.find? text else none with
    | some sub => do
      let below ← readArguments inherited sub {} rest
      let own ← s.finish i.name (parametersAt i inherited)
      return own :: below
    | none =>
      if looksDown && text = Naming.helpName && !i.subcommands.isEmpty then
        .error (helpOn i rest)
      else do
        let s ← readArgument i (parametersAt i inherited) text s
        readArguments inherited i s rest

/-- Reads the arguments of a program. -/
def «match» (i : Interface) (arguments : List String) : Except Refusal (List Level) :=
  readArguments (i.usage.parameters.filter (·.isGlobal)) i {} arguments

end CommandFiles.CommandLine
