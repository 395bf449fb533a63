import CommandFiles.Scaffold

/-!
# Reserved flags

Some flags speak to the program itself and never reach the commands. They are taken out of the
arguments first, wherever they stand before a bare pair of hyphens. Main statement: behind such a
pair nothing is taken out.
-/

namespace CommandFiles.CommandLine

/-- What the reserved flags ask for. -/
structure Reserved where
  showArgNameMap : Bool := false
  writeCache : Bool := false
  fresh : Bool := false
  showDeps : Bool := false
  printOpts : Option String := none
  configure : Option Scaffold.Request := none
  deriving DecidableEq, Repr, Inhabited

/-- A reserved flag without its value. -/
structure MissingValue where
  flag : String
  deriving DecidableEq, Repr

/-- The words of the error. -/
def MissingValue.message (e : MissingValue) : String := s!"{e.flag} expects a value"

namespace Reserved

/-- The pair of hyphens behind which nothing is reserved. -/
def shield : String := "--"

/-- The flag that asks for a scaffold. Some other flags are reserved only beside it. -/
def configureFlag : String := "--configure"

/-- What the flags seen so far ask for, and the arguments that were left over, the last one
first. -/
structure Split where
  flags : Reserved := {}
  request : Scaffold.Request := {}
  left : List String := []

/-- A reserved flag that takes a value. -/
inductive Valued where
  | printOpts | root | executable
  deriving DecidableEq, Repr

/-- How the flag is written. -/
def Valued.name : Valued → String
  | printOpts => "--print-opts"
  | root => "--root"
  | executable => "--executable"

/-- The flags that take a value. -/
def Valued.all (configuring : Bool) : List Valued :=
  if configuring then [printOpts, root, executable] else [printOpts]

/-- The value that is attached to a flag by an equals sign. -/
def attached? (flag argument : String) : Option String :=
  let start := flag.toList ++ ['=']
  if start.isPrefixOf argument.toList then
    some (String.ofList (argument.toList.drop start.length))
  else none

/-- Notes the value of a flag. -/
def Split.setValue (s : Split) (value : String) : Valued → Split
  | .printOpts => { s with flags := { s.flags with printOpts := some value } }
  | .root => { s with request := { s.request with root := some value } }
  | .executable => { s with request := { s.request with executable := some value } }

/-- Notes a flag without a value; none if the argument is no such flag. -/
def Split.setFlag? (s : Split) (configuring : Bool) (argument : String) : Option Split :=
  if argument = "--show-arg-name-map" then
    some { s with flags := { s.flags with showArgNameMap := true } }
  else if argument = "--write-cache" then
    some { s with flags := { s.flags with writeCache := true } }
  else if argument = "--fresh" then some { s with flags := { s.flags with fresh := true } }
  else if argument = "--show-deps" then some { s with flags := { s.flags with showDeps := true } }
  else if argument = configureFlag then some s
  else if argument = "--overwrite" && configuring then
    some { s with request := { s.request with overwrite := true } }
  else none

/-- Takes up arguments one after another. -/
def splitFrom (configuring : Bool) (s : Split) : List String → Except MissingValue Split
  | [] => .ok s
  | argument :: rest =>
    if argument = shield then .ok { s with left := rest.reverse ++ argument :: s.left }
    else match s.setFlag? configuring argument with
      | some s => splitFrom configuring s rest
      | none =>
        match (Valued.all configuring).find? fun v => v.name = argument with
        | some v => match rest with
          | [] => .error ⟨v.name⟩
          | value :: rest => splitFrom configuring (s.setValue value v) rest
        | none =>
          match (Valued.all configuring).findSome? fun v =>
              (attached? v.name argument).map fun value => (v, value) with
          | some (v, value) => splitFrom configuring (s.setValue value v) rest
          | none => splitFrom configuring { s with left := argument :: s.left } rest

/-- Whether a scaffold is asked for. -/
def isConfiguring (arguments : List String) : Bool :=
  (arguments.takeWhile (· ≠ shield)).contains configureFlag

/-- Takes the reserved flags out of arguments. -/
def split (arguments : List String) : Except MissingValue (Reserved × List String) := do
  let configuring := isConfiguring arguments
  let s ← splitFrom configuring {} arguments
  let configure := if configuring then some s.request else none
  return ({ s.flags with configure := configure }, s.left.reverse)

theorem splitFrom_shield (configuring : Bool) (s : Split) (rest : List String) :
    splitFrom configuring s (shield :: rest) =
      .ok { s with left := rest.reverse ++ shield :: s.left } := by
  simp [splitFrom]

end Reserved

end CommandFiles.CommandLine
