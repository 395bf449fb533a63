import CommandFiles.Json
import CommandFiles.Value

/-!
# Writing literals

Literals are written with one entry a line, four blanks deeper than the line of their bracket.
Functions keep their text, and names that are plain identifiers stand without quotes.
-/

namespace CommandFiles.Value

/-- The blanks before a line at a depth. -/
def indent (depth : Nat) : String := String.ofList (List.replicate (4 * depth) ' ')

/-- Entries between brackets, one a line, with commas between them. -/
def block (opening closing : String) (entries : List String) (depth : Nat) : String :=
  if entries.isEmpty then opening ++ closing
  else
    let inner := indent (depth + 1)
    opening ++ "\n" ++ ",\n".intercalate (entries.map (inner ++ ·)) ++ "\n" ++ indent depth ++
      closing

/-- Entries between braces. -/
def braces (entries : List String) (depth : Nat) : String := block "\x7b" "\x7d" entries depth

/-- Entries between square brackets. -/
def brackets (entries : List String) (depth : Nat) : String := block "[" "]" entries depth

/-- Whether a name is an identifier of ASCII letters, digits, `_` and `$`. -/
def isPlainName (name : String) : Bool :=
  match name.toList with
  | [] => false
  | c :: rest =>
    (c.isAlpha || c == '_' || c == '$') &&
      rest.all fun c => c.isAlphanum || c == '_' || c == '$'

/-- Writes the name of a field, in quotes unless it is a plain name. -/
def keySource (name : String) : String := if isPlainName name then name else Json.quote name

mutual

/-- Writes a value as a literal. -/
def sourceAt (depth : Nat) : Value → String
  | .undefined => "undefined"
  | .null => "null"
  | .boolean b => if b then "true" else "false"
  | .number x => numberText x
  | .string s => Json.quote s
  | .array items => brackets (itemSources (depth + 1) items) depth
  | .object ⟨fields⟩ => braces (fieldSources (depth + 1) fields) depth
  | .function source => source
  | .helper h => h.name

/-- Writes the items of an array. -/
def itemSources (depth : Nat) : List Value → List String
  | [] => []
  | v :: rest => sourceAt depth v :: itemSources depth rest

/-- Writes the fields of an object. -/
def fieldSources (depth : Nat) : List (String × Value) → List String
  | [] => []
  | (k, v) :: rest => (keySource k ++ ": " ++ sourceAt depth v) :: fieldSources depth rest

end

/-- Writes a value as a literal. -/
def source (v : Value) : String := sourceAt 0 v

end CommandFiles.Value
