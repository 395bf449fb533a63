import CommandFiles.CommandLine.Invocation
import CommandFiles.Logged

/-!
# Actions

What happens when a command is asked for. Its file is run only behind a gate: a missing runtime, a
failed check or a missing argument stops it. The runner that calls hooks and files is a parameter, so
that everything said here holds of every runner. Main statement: preparing an invocation calls
nothing, and an invocation without a file is never run.
-/

namespace CommandFiles

/-- A failure and its causes, the outermost first. -/
abbrev Causes := List String

/-- Causes as one message. -/
def Causes.text (causes : Causes) : String := ": ".intercalate causes

/-- Calls what command files hold. -/
structure Runner (m : Type → Type) where
  /-- The messages of the hook that checks arguments. -/
  validate : Hook → Invocation → m (Except Causes (List String))
  /-- The arguments that the hook before the run adds. -/
  beforeRun : Hook → Invocation → m (Except Causes Arguments)
  /-- Runs the file; the result is its status. -/
  run : Invocation → m (Except Causes Int)

/-- How an action ends when nothing is wrong. -/
inductive Outcome where
  | help
  | exited (status : Int)
  deriving DecidableEq, Repr

/-- Why an action is stopped. -/
inductive ActionFailure where
  | missingRuntime
  | validation (messages : List String)
  | hook (name path : String) (causes : Causes)
  | run (path : String) (causes : Causes)
  deriving DecidableEq, Repr

/-- The words of a failed action. -/
def ActionFailure.message : ActionFailure → String
  | missingRuntime => "Missing required run time flag."
  | validation messages => "ERROR:\n" ++ "\n".intercalate (messages.map fun m => "\t" ++ m)
  | hook name path causes => s!"could not perform {name} on {path}: {causes.text}"
  | run path causes => s!"could not run {path}: {causes.text}"

namespace Invocation

/-- What is done with an invocation before anything is called. -/
inductive Plan where
  | help
  | missingRuntime
  | proceed (path : String) (invocation : Invocation)

/-- The invocation with the runtime that its command takes by default; `none` if it demands one and
has no default. -/
def withRuntime? (i : Invocation) : Option Invocation :=
  match i.command.declared.runtimeDemand with
  | none => some i
  | some demand =>
    if i.runtimes.isEmpty then demand.default.map fun r => { i with runtimes := .ofList [r] }
    else some i

/-- Decides what is done with an invocation. Commands without a file show help. -/
def plan (i : Invocation) : Plan :=
  match i.command.filePath with
  | none => .help
  | some path =>
    if i.command.showsHelpWhenEmpty && i.arguments.isEmpty then .help
    else match i.withRuntime? with
      | none => .missingRuntime
      | some i => .proceed path i

/-- The warnings about an invocation. -/
def warnings (i : Invocation) : List Warning :=
  match i.plan with
  | .proceed _ i => if i.runtimes.contains .production then [.productionRun] else []
  | _ => []

/-- The long names of the required options without an argument. -/
def missing (i : Invocation) : List String :=
  ((i.command.options.filter (·.required)).map OptionSpec.long).filter fun long =>
    !i.arguments.has (Naming.argumentKey long)

/-- The message about missing arguments, if some are missing. -/
def missingMessages (i : Invocation) : List String :=
  if i.missing.isEmpty then []
  else ["Missing required argument(s): " ++ ", ".intercalate i.missing]

end Invocation

namespace Runner

variable {m : Type → Type} [Monad m]

/-- The messages of the check, if the command has one. -/
def check (r : Runner m) (i : Invocation) : m (Except Causes (List String)) :=
  match i.command.declared.validate with
  | none => return .ok []
  | some hook => r.validate hook i

/-- The arguments added before the run, if the command adds any. -/
def extend (r : Runner m) (i : Invocation) : m (Except Causes Arguments) :=
  match i.command.declared.beforeRun with
  | none => return .ok []
  | some hook => r.beforeRun hook i

/-- Runs a command that passed all checks. -/
def finish (r : Runner m) (path : String) (i : Invocation) :
    m (Except ActionFailure Outcome) := do
  match ← r.extend i with
  | .error causes => return .error (.hook "beforeRun" path causes)
  | .ok extra =>
    match ← r.run { i with arguments := i.arguments.insertAll extra } with
    | .error causes => return .error (.run path causes)
    | .ok status => return .ok (.exited status)

/-- Checks a command and runs it if nothing speaks against it. -/
def checkAndRun (r : Runner m) (path : String) (i : Invocation) :
    m (Except ActionFailure Outcome) := do
  match ← r.check i with
  | .error causes => return .error (.hook "validation" path causes)
  | .ok messages =>
    match messages ++ i.missingMessages with
    | [] => r.finish path i
    | all => return .error (.validation all)

/-- Does what an invocation asks for. -/
def perform (r : Runner m) (i : Invocation) : m (Except ActionFailure Outcome) :=
  match i.plan with
  | .help => return .ok .help
  | .missingRuntime => return .error .missingRuntime
  | .proceed path i => r.checkAndRun path i

theorem perform_of_no_file (r : Runner m) {i : Invocation} (h : i.command.filePath = none) :
    r.perform i = pure (.ok .help) := by
  simp [perform, Invocation.plan, h]

/-! ## Recording -/

/-- A call of a runner. -/
inductive Call where
  | validate (hook : Hook) (invocation : Invocation)
  | beforeRun (hook : Hook) (invocation : Invocation)
  | run (invocation : Invocation)

/-- A runner that keeps a list of its calls, the latest first. -/
def recorded (r : Runner m) : Runner (StateT (List Call) m) where
  validate hook i := do
    modify (.validate hook i :: ·)
    r.validate hook i
  beforeRun hook i := do
    modify (.beforeRun hook i :: ·)
    r.beforeRun hook i
  run i := do
    modify (.run i :: ·)
    r.run i

end Runner

end CommandFiles
