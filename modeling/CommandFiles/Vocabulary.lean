/-!
# Vocabulary of commands

The kinds of options a command can declare and the runtimes it can be run against.
-/

namespace CommandFiles

/-! ## Kinds of options -/

/-- The kind of an option. -/
inductive OptionKind where
  | boolean | input | password | oneOf | anyOf | variadic | documentation
  deriving DecidableEq, Repr, Inhabited

namespace OptionKind

/-- All kinds, in the order they are listed in. -/
def all : List OptionKind :=
  [boolean, input, password, oneOf, anyOf, variadic, documentation]

/-- The name of the constant that stands for a kind in command files. -/
def constant : OptionKind → String
  | boolean => "BOOLEAN"
  | input => "INPUT"
  | password => "PASSWORD"
  | oneOf => "ONE_OF"
  | anyOf => "ANY_OF"
  | variadic => "VARIADIC"
  | documentation => "DOCUMENTATION"

/-- The value of that constant. -/
def tag : OptionKind → String
  | boolean => "boolean"
  | input => "input"
  | password => "password"
  | oneOf => "one_of"
  | anyOf => "any_of"
  | variadic => "variadic"
  | documentation => "documentation"

/-- What follows the flags of an option where they are listed. -/
def flagSuffix (kind : OptionKind) (long : String) : String :=
  match kind with
  | boolean | documentation => ""
  | input | oneOf => "<" ++ long ++ ">"
  | password => "[password]"
  | anyOf | variadic => "<" ++ long ++ "...>"

/-- Whether an option of this kind is given a value. -/
def takesValue : OptionKind → Bool
  | boolean | documentation => false
  | _ => true

/-- Whether an option of this kind can be given several values. -/
def isMultiple : OptionKind → Bool
  | anyOf | variadic => true
  | _ => false

end OptionKind

/-! ## Runtimes -/

/-- A runtime that a command is run against. -/
inductive Runtime where
  | local | develop | staging | production
  deriving DecidableEq, Repr, Inhabited

namespace Runtime

/-- All runtimes, in the order they are listed in. -/
def all : List Runtime := [Runtime.local, develop, staging, production]

/-- The name of a runtime. -/
def name : Runtime → String
  | «local» => "local"
  | develop => "develop"
  | staging => "staging"
  | production => "production"

/-- The flag that selects a runtime. -/
def flag : Runtime → String
  | production => "prod"
  | r => r.name

/-- The name of the constant that stands for a runtime in command files. -/
def constant : Runtime → String
  | «local» => "LOCAL"
  | develop => "DEVELOP"
  | staging => "STAGING"
  | production => "PRODUCTION"

end Runtime

/-- A set of runtimes. -/
structure RuntimeSet where
  «local» : Bool := false
  develop : Bool := false
  staging : Bool := false
  production : Bool := false
  deriving DecidableEq, Repr, Inhabited

namespace RuntimeSet

/-- Whether a runtime is in the set. -/
def contains (s : RuntimeSet) : Runtime → Bool
  | .local => s.local
  | .develop => s.develop
  | .staging => s.staging
  | .production => s.production

/-- Puts a runtime into the set. -/
def insert (s : RuntimeSet) : Runtime → RuntimeSet
  | .local => { s with «local» := true }
  | .develop => { s with develop := true }
  | .staging => { s with staging := true }
  | .production => { s with production := true }

/-- The runtimes of the set, in the order they are listed in. -/
def toList (s : RuntimeSet) : List Runtime := Runtime.all.filter s.contains

/-- The set of the given runtimes. -/
def ofList (rs : List Runtime) : RuntimeSet := rs.foldl insert {}

/-- Whether no runtime is in the set. -/
def isEmpty (s : RuntimeSet) : Bool := s.toList.isEmpty

/-- The names of the runtimes with commas between them. -/
def joined (s : RuntimeSet) : String := ",".intercalate (s.toList.map Runtime.name)

theorem contains_insert (s : RuntimeSet) (r q : Runtime) :
    (s.insert r).contains q = (r == q || s.contains q) := by
  cases r <;> cases q <;> rfl

theorem mem_toList (s : RuntimeSet) (r : Runtime) : r ∈ s.toList ↔ s.contains r = true := by
  cases r <;> simp [toList, Runtime.all]

end RuntimeSet

end CommandFiles
