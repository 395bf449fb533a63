import CommandFiles.Action
import CommandFiles.Context
import CommandFiles.FileSystem.OsError
import CommandFiles.Json.Reader
import CommandFiles.Value.Plain

/-!
# The interpreter

Runs hooks and command files in an interpreter of their own. Both are loaded by a small driver,
which first sets up the names that option literals were evaluated with. A hook prints whatever it
likes and behind it, after a marker, its result. Main statement: what a hook printed and its result
are told apart at the last marker.
-/

namespace CommandFiles

/-! ## Programs -/

/-- A program to start. Without a directory it starts where the caller is. -/
structure Launch where
  program : String
  arguments : List String
  environment : List (String × String)
  directory : Option String := none
  deriving DecidableEq, Repr, Inhabited

/-- How a program ended. -/
inductive ExitStatus where
  | code (n : Int)
  | signal (n : Nat)
  deriving DecidableEq, Repr, Inhabited

namespace ExitStatus

/-- Whether all went well. -/
def isSuccess (s : ExitStatus) : Bool := s = code 0

/-- The words of a status. -/
def message : ExitStatus → String
  | code n => s!"exit status: {n}"
  | signal n => s!"signal: {n}"

/-- The status as a number; one for programs that were stopped. -/
def number : ExitStatus → Int
  | code n => n
  | signal _ => 1

end ExitStatus

/-- A program that ended, with what it printed. -/
structure Finished where
  status : ExitStatus
  output : String
  deriving DecidableEq, Repr, Inhabited

/-- What is needed of the surroundings to run programs. -/
structure Host (m : Type → Type) where
  /-- Makes a path absolute. -/
  absolute : String → m (Except OsError String)
  /-- Runs a program and keeps what it prints. -/
  capture : Launch → m (Except OsError Finished)
  /-- Runs a program that prints for itself. -/
  start : Launch → m (Except OsError ExitStatus)
  /-- Prints a text. -/
  print : String → m Unit

/-! ## Results of hooks -/

namespace Hook

/-- What stands between the text that a hook prints and its result. -/
def marker : String := "__zli_result__:"

/-- Splits a text at the last place where a mark stands. -/
def splitAtLast (mark : List Char) : List Char → Option (List Char × List Char)
  | [] => none
  | c :: rest => match splitAtLast mark rest with
    | some (before, after) => some (c :: before, after)
    | none =>
      if mark.isPrefixOf (c :: rest) then some ([], (c :: rest).drop mark.length) else none

/-- The printed text and the text of the result. -/
def splitOutput (output : String) : Option (String × String) :=
  (splitAtLast marker.toList output.toList).map fun (before, after) =>
    (String.ofList before, Text.trim (String.ofList after))

/-- The messages that the result of a check stands for. -/
def messagesOf : Json → List String
  | .null => []
  | .array items => items.filterMap fun
    | .null => none
    | .string s => some s
    | j => some j.compact
  | .string s => if s = "" then [] else [s]
  | j => [j.compact]

/-- The arguments that the result of the hook before a run stands for. -/
def argumentsOf : Json → Except Causes Arguments
  | .object members => .ok members
  | .null => .ok []
  | j => .error [s!"beforeRun must return an object, got {j.compact}"]

theorem append_of_splitAtLast {mark : List Char} :
    ∀ {text before after : List Char}, splitAtLast mark text = some (before, after) →
      text = before ++ mark ++ after
  | [], _, _, h => by simp [splitAtLast] at h
  | c :: rest, before, after, h => by
    simp only [splitAtLast] at h
    split at h
    · next b a hr =>
      cases h
      simp [append_of_splitAtLast hr]
    · split at h
      · next hp =>
        cases h
        obtain ⟨tail, ht⟩ := List.isPrefixOf_iff_prefix.1 hp
        simp [← ht]
      · cases h

end Hook

/-! ## Drivers -/

/-- What is set up before a hook or a command file is loaded. -/
def Driver.prelude : List String :=
  ["import * as __path from \"node:path\";",
   "import \x7b pathToFileURL as __toFileUrl \x7d from \"node:url\";",
   "Object.assign(globalThis, JSON.parse(process.env.ZLI_GLOBALS ?? \"\x7b\x7d\"));",
   "globalThis._z = \x7b",
   "  join: __path.join,",
   "  resolve: __path.resolve,",
   "  dirname: __path.dirname,",
   "  basename: __path.basename,",
   "  extname: __path.extname,",
   "  RUNTIME_FLAGS: (process.env.ZLI_RUNTIME_FLAGS ?? \"\").split(\",\").filter(Boolean),",
   "\x7d;",
   "globalThis.ARGS = JSON.parse(process.env.ZLI_ARGS ?? \"\x7b\x7d\");",
   "const __when = (...runtimes) => (callback, onDefault) => \x7b",
   "  const hits = runtimes.filter((r) => _z.RUNTIME_FLAGS.includes(r));",
   "  if (hits.length) return typeof callback === \"function\" ? callback(hits) : null;",
   "  return typeof onDefault === \"function\" ? onDefault() : null;",
   "\x7d;",
   "Object.assign(globalThis, \x7b",
   "  whenRuntime: __when,",
   "  whenLocal: __when(RUNTIMES.LOCAL),",
   "  whenDevelop: __when(RUNTIMES.DEVELOP),",
   "  whenStaging: __when(RUNTIMES.STAGING),",
   "  whenProduction: __when(RUNTIMES.PRODUCTION),",
   "  whenNonLocal: __when(RUNTIMES.DEVELOP, RUNTIMES.STAGING, RUNTIMES.PRODUCTION),",
   "\x7d);"]

/-- Lines as a text. -/
def Driver.ofLines (lines : List String) : String := String.join (lines.map (· ++ "\n"))

/-- The driver for a hook. -/
def Driver.ofHook (hook : Hook) : String :=
  Driver.ofLines <| Driver.prelude ++
    [s!"const __hook = ({hook.source});",
     "const __result = await __hook(ARGS);",
     s!"process.stdout.write(\"{Hook.marker}\" + JSON.stringify(__result ?? null));"]

/-- The driver for a command file. -/
def Driver.ofFile (path : String) : String :=
  Driver.ofLines <| Driver.prelude ++
    [s!"globalThis.__filename = {Json.quote path};",
     "globalThis.__dirname = __path.dirname(__filename);",
     "await import(__toFileUrl(__filename).href);"]

/-! ## The interpreter -/

/-- An interpreter, the root directory of the commands, and the names it sets up. -/
structure Interpreter where
  program : String
  root : String
  globals : Json

namespace Interpreter

/-- Whether a global is handed over: helpers are set up by the driver. -/
def isHandedOver (name : String) (v : Value) : Bool :=
  match v with
  | .helper _ => false
  | _ => name ≠ "_z"

/-- The interpreter of a context. -/
def ofContext (c : Context) : Interpreter where
  program := c.config.interpreter
  root := c.rootDir
  globals := Json.ofMembers <| (c.globals.entries.filter fun (name, v) => isHandedOver name v).map
    fun (name, v) => (name, v.toJson)

/-- What a program finds in its environment about an invocation. -/
def environment (n : Interpreter) (i : Invocation) : List (String × String) :=
  [("ZLI_ARGS", i.arguments.toJson.compact),
   ("ZLI_RUNTIME_FLAGS", i.runtimes.joined),
   ("ZLI_COMMAND", i.commandLine),
   ("ZLI_ROOT", n.root),
   ("ZLI_VERBOSE", if i.verbose then "1" else "0"),
   ("ZLI_DEPS", ",".intercalate (i.command.declared.dependencies.getD [])),
   ("ZLI_GLOBALS", n.globals.compact)]

/-- The launch of a driver, in the directory of the command file. -/
def launch (n : Interpreter) (i : Invocation) (driver : String) : Launch where
  program := n.program
  arguments := ["--input-type=module", "-e", driver]
  environment := n.environment i
  directory := i.command.filePath.bind Path.parent?

variable {m : Type → Type} [Monad m]

/-- Why a program could not be started. -/
def notStarted (n : Interpreter) (e : OsError) : Causes :=
  [s!"failed to start {n.program}", e.message]

/-- Runs a hook, prints what it printed, and reads its result. -/
def runHook (n : Interpreter) (host : Host m) (hook : Hook) (i : Invocation) :
    m (Except Causes Json) := do
  match ← host.capture (n.launch i (Driver.ofHook hook)) with
  | .error e => return .error (n.notStarted e)
  | .ok finished =>
    if !finished.status.isSuccess then
      return .error [s!"hook exited with {finished.status.message}"]
    else match Hook.splitOutput finished.output with
      | none => return .error ["hook produced no result"]
      | some (printed, result) => do
        if printed ≠ "" then host.print printed
        return (Json.ofText result).mapError fun reason =>
          ["hook result is not valid JSON", reason]

/-- Runs the file of a command. -/
def runFile (n : Interpreter) (host : Host m) (i : Invocation) : m (Except Causes Int) := do
  match i.command.filePath with
  | none => return .error [s!"`{i.commandLine}` has no command file"]
  | some path => match ← host.absolute path with
    | .error e => return .error [s!"cannot resolve {path}", e.message]
    | .ok path => match ← host.start (n.launch i (Driver.ofFile path)) with
      | .error e => return .error (n.notStarted e)
      | .ok status => return .ok status.number

/-- The interpreter as a runner of hooks and files. -/
def runner (n : Interpreter) (host : Host m) : Runner m where
  validate hook i := do return (← n.runHook host hook i).map Hook.messagesOf
  beforeRun hook i := do return (← n.runHook host hook i).bind Hook.argumentsOf
  run i := n.runFile host i

end Interpreter

end CommandFiles
