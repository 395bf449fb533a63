import CommandFiles.Config
import CommandFiles.FileSystem.Entry
import CommandFiles.Glob
import CommandFiles.Text.LetterCase
import CommandFiles.Text.Sorted

/-!
# Searching command files

Which files below a directory are command files, and in which order they are taken: depth first, in
the order of their names without regard to case. Names that begin with a point and everything that
an exclusion matches are passed over, directories with all they hold.
-/

namespace CommandFiles

/-- What counts as a command file: the endings of names in lower case, and the exclusions. -/
structure FileFilter where
  endings : List String
  exclusions : List Glob
  deriving Inhabited

/-- An exclusion that is no pattern. -/
structure ExclusionError where
  pattern : String
  fault : Glob.Fault

/-- The words of the error. -/
def ExclusionError.message (e : ExclusionError) : String :=
  s!"invalid exclude pattern: error parsing glob '{e.pattern}': {e.fault.message}"

namespace FileFilter

/-- The patterns that are always excluded. -/
def always : List String := ["**/node_modules/**", "**/node_modules"]

/-- Reads an exclusion. -/
def exclusion (pattern : String) : Except ExclusionError Glob :=
  (Glob.ofText pattern).mapError (⟨pattern, ·⟩)

/-- The ending that a setting names; points before it do not count. -/
def ending (setting : String) : String :=
  Text.toLowerCase (String.ofList (setting.toList.dropWhile (· = '.')))

/-- The filter for some endings and exclusions. -/
def ofSettings (extensions patterns : List String) : Except ExclusionError FileFilter := do
  let globs ← (always ++ patterns).mapM exclusion
  return ⟨extensions.map ending, globs⟩

/-- The filter of a configuration. -/
def ofConfig (c : Config) : Except ExclusionError FileFilter := ofSettings c.extensions c.exclude

/-- Whether a name has one of the endings. -/
def hasEnding (f : FileFilter) (name : String) : Bool :=
  match Path.extension? name with
  | some e => f.endings.contains (Text.toLowerCase e)
  | none => false

/-- Whether a path is excluded. -/
def excludes (f : FileFilter) (path : String) : Bool :=
  f.exclusions.any fun g => g.matches path

end FileFilter

namespace Entry

/-- The place of a name in the order of a search. -/
def searchName (name : String) : String := Text.toLowerCase name

/-- Whether a name is passed over. -/
def isHidden (name : String) : Bool := name.toList.head? = some '.'

/-- The path that names make. -/
def pathOf (names : List String) : String := "/".intercalate names

/-- Whether an entry is passed over, given the names on the way to it and its own name. -/
def isSkipped (f : FileFilter) (trail : List String) (name : String) : Bool :=
  isHidden name || f.excludes (pathOf (trail ++ [name]))

mutual

/-- The command files of an entry below the searched directory, each as the names on the way to
it. -/
def commandFiles (f : FileFilter) (trail : List String) : Entry → List (List String)
  | file _ => if (trail.getLast?.map f.hasEnding).getD false then [trail] else []
  | directory entries =>
    (Text.sortOn Prod.fst (commandFilesIn f trail entries)).flatMap Prod.snd

/-- The command files of every entry of a directory, behind the place of its name. -/
def commandFilesIn (f : FileFilter) (trail : List String) :
    List (String × Entry) → List (String × List (List String))
  | [] => []
  | (name, e) :: rest =>
    let found := if isSkipped f trail name then [] else commandFiles f (trail ++ [name]) e
    (searchName name, found) :: commandFilesIn f trail rest

end

end Entry

end CommandFiles
