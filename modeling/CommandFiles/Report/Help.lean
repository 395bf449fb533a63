import CommandFiles.CommandLine.Match

/-!
# Help

The page that tells what a command is for and what it can be given, and the words for arguments that
are refused.
-/

namespace CommandFiles.Report

/-- How a parameter is given. -/
def givenAs (p : Parameter) : String :=
  let name := p.valueName.getD p.id
  let value := if p.isGreedy then s!" <{name}>..." else s!" <{name}>"
  let long := (p.long.map fun l => "--" ++ l).toList
  let short := (p.short.map fun c => String.ofList ['-', c]).toList
  let flags := ", ".intercalate (short ++ long)
  if p.action = .positional then s!"[{name}]..."
  else if p.takesValue then flags ++ value
  else flags

/-- The line of a parameter. -/
def parameterLine (p : Parameter) : String :=
  "  " ++ givenAs p ++ "  " ++ p.help.getD "" ++ "\n"

/-- The line of a subcommand. -/
def subcommandLine (i : Interface) : String :=
  "  " ++ i.name ++ "  " ++ i.usage.about.getD "" ++ "\n"

/-- A heading with lines below it; nothing where there are no lines. -/
def underHeading (heading : String) (lines : List String) : String :=
  if lines.isEmpty then "" else s!"\n{heading}:\n" ++ String.join lines

/-- The help for a command. -/
def helpPage (i : Interface) (inherited : List Parameter) : String :=
  (i.usage.about.map (· ++ "\n\n")).getD "" ++ s!"Usage: {i.name} [OPTIONS]\n" ++
    underHeading "Commands" (i.subcommands.map subcommandLine) ++
    underHeading "Options" ((CommandLine.parametersAt i inherited).map parameterLine) ++
    (i.usage.note.map fun n => s!"\n{n}\n").getD ""

/-- The words for refused arguments. -/
def refusalText : CommandLine.Refusal → String
  | .displayHelp => ""
  | .unknownArgument a => s!"error: unexpected argument '{a}' found\n"
  | .unknownSubcommand name => s!"error: unrecognized subcommand '{name}'\n"
  | .invalidValue p v => s!"error: invalid value '{v}' for '--{p}'\n"
  | .missingValue p => s!"error: a value is required for '--{p}' but none was supplied\n"
  | .repeated p => s!"error: the argument '--{p}' cannot be used multiple times\n"
  | .valueForFlag p => s!"error: unexpected value for '--{p}'; no more were expected\n"

end CommandFiles.Report
