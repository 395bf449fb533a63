import CommandFiles.Action.Interpreter
import CommandFiles.Cache
import CommandFiles.CommandLine.Reserved
import CommandFiles.Config.Load
import CommandFiles.Discovery
import CommandFiles.Report.Failure
import CommandFiles.Report.Help
import CommandFiles.Report.Listing
import CommandFiles.Scaffold

/-!
# The program

What the program does with its arguments. Reserved flags come first; without one that ends the run,
the tree of commands is taken from the cache or discovered, the rest of the arguments is matched
against it, and the command that they name is run. Main statement: a reserved flag without its value
ends the run before anything is looked at.
-/

namespace CommandFiles

/-- Why the program fails. -/
inductive ProgramError where
  | missingValue (cause : CommandLine.MissingValue)
  | config (cause : ConfigError)
  | scaffold (cause : Scaffold.Failure)
  | discovery (cause : DiscoveryError)
  | naming (cause : NamingError)
  | interface (cause : InterfaceError)
  | action (cause : ActionFailure)
  | noOptions (path : String)
  | cacheUnwritten (path : String) (cause : OsError)

/-- The words of an error and of its causes, the outermost first. -/
def ProgramError.causes : ProgramError → Causes
  | missingValue e => [e.message]
  | config e => match e with
    | .read _ cause => [e.message, cause.message]
    | .parse _ => [e.message]
  | scaffold e => match e with
    | .unwritten _ cause => [e.message, cause.message]
    | .present _ => [e.message]
  | discovery e => [e.message, e.cause]
  | naming e => [e.message]
  | interface e => match e with
    | .naming _ cause => [e.message, cause.message]
    | .duplicateShort _ _ => [e.message]
  | action e => match e with
    | .hook _ _ causes | .run _ causes => e.message :: causes
    | _ => [e.message]
  | noOptions path => [s!"{path} does not export OPTS"]
  | cacheUnwritten path e => [s!"failed to write {path}", e.message]

/-- The words of an error. -/
def ProgramError.message (e : ProgramError) : String := Report.describe e.causes

/-- What the program needs of its surroundings besides files. -/
structure Surroundings (m : Type → Type) extends Host m where
  /-- Gives a warning. -/
  warn : Warning → m Unit
  /-- Prints a text beside the output. -/
  complain : String → m Unit

namespace Program

/-- Where the program runs: its own name, the configuration file that the environment names, the
working directory and the home directory. -/
structure Setting where
  binaryName : String
  configFile : Option String
  cwd : String
  home : String
  deriving DecidableEq, Repr, Inhabited

variable {m : Type → Type} [Monad m]

/-- A run of the program. Its changes of files stay when it fails. -/
abbrev Run (m : Type → Type) := ExceptT ProgramError (StateT FileSystem m)

/-- Does something in the surroundings. -/
def effect {α : Type} (a : m α) : Run m α := ExceptT.lift (StateT.lift a)

/-- Goes on with a result or fails. -/
def ofExcept {ε α : Type} (wrap : ε → ProgramError) (r : Except ε α) : Run m α :=
  ExceptT.mk (pure (r.mapError wrap))

/-- Gives warnings, one after another. -/
def warnAll (w : Surroundings m) : List Warning → Run m Unit
  | [] => return
  | warning :: rest => do
    effect (w.warn warning)
    warnAll w rest

/-- Goes on with a result or fails, after the warnings beside it. -/
def ofLogged {ε α : Type} (w : Surroundings m) (wrap : ε → ProgramError)
    (r : ExceptT ε Logged α) : Run m α := do
  warnAll w r.run.warnings
  ofExcept wrap r.run.value

/-- Changes files. -/
def change {ε α : Type} (wrap : ε → ProgramError)
    (f : FileSystem → Except ε α × FileSystem) : Run m α := do
  let fs ← getThe FileSystem
  let (r, fs) := f fs
  set fs
  ofExcept wrap r

/-- Prints a line. -/
def printLine (w : Surroundings m) (line : String) : Run m Unit := effect (w.print (line ++ "\n"))

/-! ## What reserved flags ask for -/

/-- The lines that tell what a scaffold has touched. -/
def scaffoldLines (r : Scaffold.Report) : List String :=
  s!"wrote {r.configPath}" :: r.written.map (fun path => s!"created {path}") ++
    r.kept.map fun path => s!"kept {path}"

/-- Sets up a project. -/
def configure (w : Surroundings m) (s : Setting) (r : Scaffold.Request) : Run m Int := do
  let report ← change .scaffold (Scaffold.configure s.home s.cwd r)
  effect (w.print (Scaffold.ofLines (scaffoldLines report)))
  return 0

/-- Prints the option literal of a file. -/
def printOptions (w : Surroundings m) (c : Context) (file : String) : Run m Int := do
  let path := Path.under c.cwd file
  match ← ofLogged w .discovery (Discovery.printedOptions (← getThe FileSystem) path) with
  | none => throw (.noOptions path)
  | some source => do
    printLine w source
    return 0

/-- Prints the dependencies of all files. -/
def showDependencies (w : Surroundings m) (c : Context) : Run m Int := do
  let entries ← ofExcept .discovery (Discovery.allDependencies (← getThe FileSystem) c)
  effect (w.print (Report.dependencyListing c.commandsRoot entries))
  return 0

/-- Discovers the tree and keeps it. -/
def writeCache (w : Surroundings m) (c : Context) : Run m Int := do
  let tree ← ofLogged w .discovery (Discovery.discover (← getThe FileSystem) c)
  change (.cacheUnwritten c.cachePath) (Cache.save tree c.cachePath)
  printLine w s!"wrote {c.cachePath}"
  return 0

/-! ## Commands -/

/-- The tree of commands: the cached one, unless a fresh one is asked for. -/
def loadTree (w : Surroundings m) (c : Context) (fresh : Bool) : Run m Command := do
  let fs ← getThe FileSystem
  let cached := if fresh then ⟨none, []⟩ else Cache.loadIfPresent fs c c.cachePath
  warnAll w cached.warnings
  match cached.value with
  | some tree => return tree
  | none => ofLogged w .discovery (Discovery.discover fs c)

/-- Prints the help for the command at a path. -/
def showHelp (w : Surroundings m) (i : Interface) (path : List String) : Run m Unit :=
  match i.findPath? path with
  | none => return
  | some target =>
    printLine w (Report.helpPage target (i.usage.parameters.filter (·.isGlobal)))

/-- Tells why arguments are refused, or shows the help that they ask for. -/
def refuse (w : Surroundings m) (i : Interface) (r : CommandLine.Refusal) : Run m Int := do
  if r = .displayHelp then showHelp w i [] else effect (w.complain (Report.refusalText r))
  return r.exitCode

/-- Runs the command that arguments name. -/
def dispatch (w : Surroundings m) (c : Context) (tree : Command) (arguments : List String) :
    Run m Int := do
  let name := c.config.executable
  let i ← ofLogged w .interface (Interface.ofTree tree name)
  match CommandLine.match i arguments with
  | .error r => refuse w i r
  | .ok levels =>
    let invocation := Invocation.ofLevels tree name levels
    warnAll w invocation.warnings
    let runner := (Interpreter.ofContext c).runner w.toHost
    match ← ofExcept .action (← effect (runner.perform invocation)) with
    | .exited status => return status
    | .help => do
      showHelp w i invocation.path.tail
      return 0

/-- Runs the program in a context. -/
def runIn (w : Surroundings m) (c : Context) (flags : CommandLine.Reserved)
    (arguments : List String) : Run m Int :=
  match flags.printOpts with
  | some file => printOptions w c file
  | none =>
    if flags.showDeps then showDependencies w c
    else if flags.writeCache then writeCache w c
    else do
      let tree ← loadTree w c flags.fresh
      if flags.showArgNameMap then do
        effect (w.print (← ofExcept .naming (Report.nameMap tree c.config.executable)))
        return 0
      else dispatch w c tree arguments

/-- A configuration in which the program has a name. -/
def named (binaryName : String) (c : Config) : Config :=
  if c.executable = "" then { c with executable := binaryName } else c

/-- Runs the program; the result is its status. -/
def run (w : Surroundings m) (s : Setting) (arguments : List String) : Run m Int := do
  let (flags, rest) ← ofExcept .missingValue (CommandLine.Reserved.split arguments)
  match flags.configure with
  | some request => configure w s request
  | none =>
    let config ← ofExcept .config (Config.load (← getThe FileSystem) s.configFile s.cwd)
    runIn w ⟨named s.binaryName config, s.cwd, s.home⟩ flags rest

theorem run_of_missing_value [LawfulMonad m] (w : Surroundings m) (s : Setting)
    {arguments : List String} {e : CommandLine.MissingValue}
    (h : CommandLine.Reserved.split arguments = .error e) :
    run w s arguments = throw (.missingValue e) := by
  funext fs
  have hfails : (ofExcept .missingValue (CommandLine.Reserved.split arguments) :
      Run m (CommandLine.Reserved × List String)) = throw (.missingValue e) := by rw [h]; rfl
  rw [run, hfails, ExceptT.bind_throw]

end Program

end CommandFiles
