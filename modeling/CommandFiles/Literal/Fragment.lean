import CommandFiles.Script.Expr

/-!
# Option fragments

The option literal of a command file, as syntax: the properties of its exported object literals, one
after another.
-/

namespace CommandFiles.Literal

/-- The option literal of a file. The path of the file is not among the properties; it is added as
the last field when the literal is evaluated or written. -/
structure Fragment where
  path : String
  properties : List Script.Property

/-- The field that holds the path of the file. -/
def filePathKey : String := "filePath"

end CommandFiles.Literal
