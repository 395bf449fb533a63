import CommandFiles.Command
import CommandFiles.Text.Words

/-!
# Names of options and commands

Options get a short flag each, the first of a few candidates that is still free. Command files are
named after their commands. Main statements: an assigned flag is free unless it was declared, and it
is taken afterwards.
-/

namespace CommandFiles

/-- Why an option gets no short flag. -/
inductive NamingError where
  | exhausted (name : String)
  | empty
  deriving DecidableEq, Repr

/-- The words of a naming error. -/
def NamingError.message : NamingError → String
  | exhausted name => s!"All easily calculable short flags for {name} already used!"
  | empty => "option name must not be empty"

namespace Naming

/-- The short flag that is kept for help. -/
def helpFlag : String := "h"

/-- The name of the flag and of the command that show help. -/
def helpName : String := "help"

/-- The name of the flag that asks for more output. -/
def verboseName : String := "verbose"

/-- The name that stands for the arguments without a flag. -/
def positionalName : String := "_"

/-- The long names that commands cannot declare: options of these names are passed over. -/
def reserved : List String :=
  Runtime.all.map Runtime.flag ++ [helpName, verboseName, positionalName]

/-- The short flags that fit a name, the best first: its first letter in lower case, then in upper
case, then the whole name. The letter of help gives way to its upper-case form. -/
def candidates (first : Char) (name : String) : List String :=
  let lower := if first = 'h' then "H" else String.ofList (Text.lowerChar first)
  [lower, String.ofList (Text.upperChar first), name]

/-- The short flag for a name where some flags are used. -/
def shortFlag (name : String) (used : List String) : Except NamingError String :=
  match name.toList with
  | [] => .error .empty
  | first :: _ =>
    match (candidates first name).find? fun flag => !used.contains flag with
    | some flag => .ok flag
    | none => .error (.exhausted name)

/-- The short flag of an option: the declared one as it is, else one that fits its long name. -/
def shortFor (o : OptionSpec) (used : List String) : Except NamingError String :=
  match o.name.shortName? with
  | some short => .ok short
  | none => shortFlag o.long used

/-- The used flags with one more. -/
def take (used : List String) (short : String) : List String :=
  if used.contains short then used else short :: used

/-- The short flag of an option, and the flags that are used then. -/
def assign (o : OptionSpec) (used : List String) : Except NamingError (String × List String) :=
  (shortFor o used).map fun short => (short, take used short)

/-- The flags of an option as they are listed, and the flags that are used then. -/
def flagsText (o : OptionSpec) (used : List String) :
    Except NamingError (String × List String) := do
  let (short, used) ← assign o used
  return (Text.trim s!"-{short}, --{o.long} {o.kind.flagSuffix o.long}", used)

/-- The stem of a file in lower case, with underscores for hyphens and points. -/
def stemWords (file : String) : String :=
  let stem := ((Path.stem? file).getD "").toList
  Text.toLowerCase (String.ofList (stem.map fun c => if c = '-' || c = '.' then '_' else c))

/-- The name of a variable for a file. -/
def variableName (file : String) : String := Text.camelCase (stemWords file)

/-- The name of the command that a file holds. -/
def commandName (file : String) : String := Text.kebabCase (stemWords file)

/-- The key that the value of an option is passed under. -/
def argumentKey (long : String) : String := Text.camelCase long

theorem not_mem_of_shortFlag {name : String} {used : List String} {flag : String}
    (h : shortFlag name used = .ok flag) : flag ∉ used := by
  unfold shortFlag at h
  split at h
  · cases h
  · split at h
    · next hf =>
      cases h
      simpa using List.find?_some hf
    · cases h

theorem mem_take (used : List String) (short flag : String) :
    flag ∈ take used short ↔ flag = short ∨ flag ∈ used := by
  unfold take
  split
  · next h =>
    have h' : short ∈ used := by simpa using h
    exact ⟨Or.inr, fun h => h.elim (fun e => e ▸ h') id⟩
  · simp

theorem mem_of_assign {o : OptionSpec} {used taken : List String} {short : String}
    (h : assign o used = .ok (short, taken)) : short ∈ taken := by
  unfold assign at h
  cases hs : shortFor o used with
  | error e => rw [hs] at h; cases h
  | ok s =>
    rw [hs] at h
    cases h
    simp [mem_take]

end Naming

end CommandFiles
