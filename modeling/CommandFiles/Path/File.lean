import CommandFiles.Path.Lexical

/-!
# File paths

Paths of files, taken apart by their components. Empty components and single points inside a path
do not count, except for a point that begins a relative path. Unlike the helpers of option literals
these never resolve two points, because the directory before them may be a link.
-/

namespace CommandFiles.Path

/-- A component of a file path. -/
inductive Component where
  | root
  | current
  | parent
  | normal (name : String)
  deriving DecidableEq, Repr, Inhabited

/-- A component as text. -/
def Component.text : Component → String
  | root => "/"
  | current => "."
  | parent => ".."
  | normal name => name

/-- The component a segment stands for, if any. -/
def componentOf? (segment : List Char) : Option Component :=
  if segment = [] || segment = ['.'] then none
  else if segment = ['.', '.'] then some .parent
  else some (.normal (String.ofList segment))

/-- The components of a path. -/
def components (p : String) : List Component :=
  let cs := p.toList
  let segments := splitSlash cs
  if isAbsolute cs then .root :: segments.filterMap componentOf?
  else if segments.head? = some ['.'] then .current :: segments.filterMap componentOf?
  else segments.filterMap componentOf?

/-- The path that components make. -/
def ofComponents : List Component → String
  | .root :: rest => "/" ++ "/".intercalate (rest.map Component.text)
  | cs => "/".intercalate (cs.map Component.text)

/-- A path seen from a directory: an absolute path stays what it is. -/
def under (directory p : String) : String :=
  if isAbsolute p.toList || directory.isEmpty then p
  else if directory.toList.getLast? = some '/' then directory ++ p
  else directory ++ "/" ++ p

/-- Drops slashes and single points from the end of a reversed path. -/
def dropTail : List Char → List Char
  | [] => []
  | '/' :: rest => if rest.isEmpty then ['/'] else dropTail rest
  | '.' :: '/' :: rest => if rest.isEmpty then ['/'] else dropTail rest
  | cs => cs

/-- The path without its last component. -/
def parent? (p : String) : Option String :=
  match (components p).getLast? with
  | none | some .root => none
  | some _ =>
    let reversed := dropTail p.toList.reverse
    some (String.ofList (dropTail (reversed.dropWhile (· != '/'))).reverse)

/-- The last component, if it is a name. -/
def fileName? (p : String) : Option String :=
  match (components p).getLast? with
  | some (.normal name) => some name
  | _ => none

/-- A file name before and behind its last point; a point at its beginning does not count. -/
def splitName (name : String) : String × Option String :=
  let reversed := name.toList.reverse
  match reversed.dropWhile (· != '.') with
  | _ :: before@(_ :: _) =>
    (String.ofList before.reverse, some (String.ofList (reversed.takeWhile (· != '.')).reverse))
  | _ => (name, none)

/-- The file name of a path before its last point. -/
def stem? (p : String) : Option String := (fileName? p).map fun name => (splitName name).1

/-- The file name of a path behind its last point. -/
def extension? (p : String) : Option String := (fileName? p).bind fun name => (splitName name).2

/-- The components of a path behind those of another one that it begins with. -/
def dropBase? : List Component → List Component → Option (List Component)
  | [], cs => some cs
  | b :: bs, c :: cs => if b = c then dropBase? bs cs else none
  | _ :: _, [] => none

/-- The components of a file below a directory; all its components if it does not lie there. -/
def segmentsBelow (directory file : String) : List String :=
  let cs := components file
  ((dropBase? (components directory) cs).getD cs).map Component.text

/-- Drops the slashes and single points that a rest of a path begins with. -/
def dropHead : List Char → List Char
  | '/' :: rest => dropHead rest
  | ['.'] => []
  | '.' :: '/' :: rest => dropHead rest
  | cs => cs

/-- What is left of a path behind its first names. -/
def behind : Nat → List Char → List Char
  | 0, cs => dropHead cs
  | n + 1, cs => behind n ((dropHead cs).dropWhile (· != '/'))

/-- What is left of a path behind a directory that it begins with, as it is written. -/
def below? (directory file : String) : Option String := do
  let base := components directory
  let _ ← dropBase? base (components file)
  let rest := match base with
    | [] => file.toList
    | .root :: names => behind names.length file.toList
    | .current :: names => behind names.length (file.toList.drop 1)
    | names => behind names.length file.toList
  return String.ofList (dropTail rest.reverse).reverse

/-- A path and the paths it lies in, the innermost first. The first argument bounds their number. -/
def ancestorsUpTo : Nat → String → List String
  | 0, _ => []
  | n + 1, p => p :: (match parent? p with
    | some q => ancestorsUpTo n q
    | none => [])

/-- A path and the paths it lies in, the innermost first. -/
def ancestors (p : String) : List String := ancestorsUpTo (p.length + 2) p

end CommandFiles.Path
