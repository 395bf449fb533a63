import CommandFiles.FileSystem.Entry
import CommandFiles.FileSystem.OsError
import CommandFiles.Path.File

/-!
# File systems

A tree of entries and the directory that relative paths start from. A path is followed segment by
segment, so that every segment but the last has to be a directory that is there. Reading and the
single changes fail as a whole; only the making of several directories may fail halfway.
-/

namespace CommandFiles

/-- Files and directories, and the names that lead to the working directory. -/
structure FileSystem where
  root : Entry := .directory []
  cwd : List String := []
  deriving Inhabited

namespace FileSystem

/-- The most bytes a name may have. -/
def maxName : Nat := 255

/-- Follows a segment from the directory at a trail, whose last name comes first. -/
def follow (fs : FileSystem) (trail : List String) (segment : List Char) :
    Except OsError (List String) :=
  match fs.root.at? trail.reverse with
  | none => .error .notFound
  | some (.file _) => .error .notDirectory
  | some (.directory entries) =>
    if segment = [] || segment = ['.'] then .ok trail
    else if segment = ['.', '.'] then .ok trail.tail
    else
      let name := String.ofList segment
      if name.utf8ByteSize > maxName then .error .nameTooLong
      else if (entries.lookup name).isSome then .ok (name :: trail)
      else .error .notFound

/-- The trail that a path starts from. -/
def start (fs : FileSystem) (path : List Char) : List String :=
  if Path.isAbsolute path then [] else fs.cwd.reverse

/-- Checks that a path can name something at all. -/
def checkPath (path : List Char) : Except OsError Unit :=
  if path.contains '\x00' then .error .zeroInName
  else if path = [] then .error .notFound
  else .ok ()

/-- The names that a path leads to. -/
def resolve (fs : FileSystem) (path : String) : Except OsError (List String) := do
  checkPath path.toList
  let trail ← (Path.splitSlash path.toList).foldlM fs.follow (fs.start path.toList)
  return trail.reverse

/-- The entry at a path. -/
def entry (fs : FileSystem) (path : String) : Except OsError Entry := do
  let names ← fs.resolve path
  match fs.root.at? names with
  | some e => return e
  | none => throw .notFound

/-- Whether there is something at a path. -/
def hasPath (fs : FileSystem) (path : String) : Bool := (fs.entry path).toBool

/-- Whether there is a file at a path. -/
def isFile (fs : FileSystem) (path : String) : Bool :=
  match fs.entry path with
  | .ok (.file _) => true
  | _ => false

/-- Whether there is a directory at a path. -/
def isDirectory (fs : FileSystem) (path : String) : Bool :=
  match fs.entry path with
  | .ok (.directory _) => true
  | _ => false

/-- The text of the file at a path. -/
def read (fs : FileSystem) (path : String) : Except OsError String := do
  match ← fs.entry path with
  | .file (.text s) => return s
  | .file (.binary _) => throw .notText
  | .directory _ => throw .isDirectory

/-- The names in the directory at a path, in the order of the directory. -/
def list (fs : FileSystem) (path : String) : Except OsError (List String) := do
  match ← fs.entry path with
  | .directory entries => return entries.map Prod.fst
  | .file _ => throw .notDirectory

/-! ## Changes -/

/-- Where a new entry would go: the trail to its directory, and its name. There is no name if the
path ends in a slash or in points. -/
structure Place where
  trail : List String
  name : Option String
  endsInSlash : Bool

/-- The segments of a path without the empty ones at its end. -/
def properSegments (path : List Char) : List (List Char) :=
  Path.splitSlash (Path.trimSlashes path)

/-- Finds the place that a path names. All segments but the last have to be directories. -/
def place (fs : FileSystem) (path : String) : Except OsError Place := do
  let cs := path.toList
  checkPath cs
  let segments := properSegments cs
  let trail ← segments.dropLast.foldlM fs.follow (fs.start cs)
  let last := segments.getLast?.getD []
  let trail ← fs.follow trail []
  let isName := last != [] && last != ['.'] && last != ['.', '.']
  if isName && (String.ofList last).utf8ByteSize > maxName then throw .nameTooLong
  return ⟨trail, if isName then some (String.ofList last) else none, cs.getLast? = some '/'⟩

/-- Puts an entry at names. -/
def put (fs : FileSystem) (names : List String) (e : Entry) : FileSystem :=
  { fs with root := .put e names fs.root }

/-- Makes a directory. -/
def makeDirectory (fs : FileSystem) (path : String) : Except OsError FileSystem := do
  let p ← fs.place path
  match p.name with
  | none => throw .alreadyExists
  | some name =>
    let names := (name :: p.trail).reverse
    match fs.root.at? names with
    | some _ => throw .alreadyExists
    | none => return fs.put names (.directory [])

/-- Writes a file. -/
def write (fs : FileSystem) (path text : String) : Except OsError FileSystem := do
  let p ← fs.place path
  match p.name with
  | none => throw .isDirectory
  | some name =>
    if p.endsInSlash then throw .isDirectory
    let names := (name :: p.trail).reverse
    match fs.root.at? names with
    | some (.directory _) => throw .isDirectory
    | _ => return fs.put names (.file (.text text))

/-- Makes the directory at the first of some paths, each of which lies in the next one. Those that
are missing are made too, the outermost first, and they stay if a later one cannot be made. -/
def makeDirectories : List String → FileSystem → Except OsError Unit × FileSystem
  | [], fs => (.ok (), fs)
  | path :: outer, fs =>
    if path = "" then (.ok (), fs)
    else match fs.makeDirectory path with
      | .ok fs => (.ok (), fs)
      | .error .notFound =>
        match makeDirectories outer fs with
        | (.error e, fs) => (.error e, fs)
        | (.ok (), fs) => match fs.makeDirectory path with
          | .ok fs => (.ok (), fs)
          | .error e => (if fs.isDirectory path then .ok () else .error e, fs)
      | .error e => (if fs.isDirectory path then .ok () else .error e, fs)

/-- Writes a file; missing directories are made before. -/
def writeDeep (path text : String) (fs : FileSystem) : Except OsError Unit × FileSystem :=
  let above := ((Path.parent? path).map Path.ancestors).getD []
  match makeDirectories above fs with
  | (.error e, fs) => (.error e, fs)
  | (.ok (), fs) => match fs.write path text with
    | .ok fs => (.ok (), fs)
    | .error e => (.error e, fs)

/-- Takes away what is at a path. -/
def remove (fs : FileSystem) (path : String) : Except OsError FileSystem := do
  let names ← fs.resolve path
  return { fs with root := .erase names fs.root }

/-! ## Absolute paths -/

/-- A path from the root to the same place, without empty segments and single points. -/
def absolute (fs : FileSystem) (path : String) : Except OsError String :=
  let names := (Path.components path).filter fun c => c ≠ .root && c ≠ .current
  let text := "/".intercalate (names.map Path.Component.text)
  let tail := if path.toList.getLast? = some '/' then "/" else ""
  if path = "" then .error .emptyPath
  else if Path.isAbsolute path.toList then
    let hasTwo := path.toList.take 2 = ['/', '/'] && path.toList[2]? ≠ some '/'
    .ok ((if hasTwo then "//" else "/") ++ text ++ if names.isEmpty then "" else tail)
  else .ok ("/" ++ "/".intercalate (fs.cwd ++ names.map Path.Component.text) ++ tail)

end FileSystem

end CommandFiles
