/-!
# Paths as text

The helpers for paths that command files use. They work on the text alone: nothing is looked up. A
path is a list of segments with slashes between them, and it is absolute if it begins with a slash.
-/

namespace CommandFiles.Path

/-- The segments between the slashes of a text; never none. -/
def splitSlash : List Char → List (List Char)
  | [] => [[]]
  | c :: rest =>
    if c = '/' then [] :: splitSlash rest
    else match splitSlash rest with
      | [] => [[c]]
      | s :: more => (c :: s) :: more

/-- Segments with slashes between them. -/
def joinSlash (segments : List (List Char)) : List Char :=
  List.intercalate ['/'] segments

/-- Whether a path begins with a slash. -/
def isAbsolute : List Char → Bool
  | '/' :: _ => true
  | _ => false

/-- Puts a segment on a stack of segments, last first. Empty segments and single points stand for
nothing; two points take a segment away, and at the root they stand for nothing too. -/
def push (absolute : Bool) (stack : List (List Char)) (segment : List Char) :
    List (List Char) :=
  if segment = [] || segment = ['.'] then stack
  else if segment = ['.', '.'] then
    match stack with
    | top :: rest =>
      if top ≠ ['.', '.'] then rest else if absolute then stack else segment :: stack
    | [] => if absolute then [] else [segment]
  else segment :: stack

/-- The segments of a path once its points are resolved. -/
def resolved (absolute : Bool) (segments : List (List Char)) : List (List Char) :=
  (segments.foldl (push absolute) []).reverse

/-- The simplest path with the same meaning. -/
def normalizeChars (p : List Char) : List Char :=
  let body := joinSlash (resolved (isAbsolute p) (splitSlash p))
  if isAbsolute p then '/' :: body
  else if body = [] then ['.'] else body

/-- A path without the slashes at its end. -/
def trimSlashes (p : List Char) : List Char :=
  (p.reverse.dropWhile (· == '/')).reverse

/-- What stands behind the last slash. -/
def afterSlash (p : List Char) : List Char :=
  (p.reverse.takeWhile (· != '/')).reverse

/-- What stands before the last slash, if there is one. -/
def beforeSlash? (p : List Char) : Option (List Char) :=
  match p.reverse.dropWhile (· != '/') with
  | [] => none
  | _ :: before => some before.reverse

/-- The directory a path lies in. -/
def dirnameChars (p : List Char) : List Char :=
  if trimSlashes p = [] then if isAbsolute p then ['/'] else ['.']
  else match beforeSlash? (trimSlashes p) with
    | some [] => ['/']
    | some before => before
    | none => ['.']

/-- The last segment of a path. -/
def basenameChars (p : List Char) : List Char := afterSlash (trimSlashes p)

/-- The last point of a name with what follows it, unless the name begins with that point. -/
def extnameChars (p : List Char) : List Char :=
  let reversed := (basenameChars p).reverse
  match reversed.dropWhile (· != '.') with
  | _ :: _ :: _ => (reversed.takeWhile (· != '.')).reverse |> ('.' :: ·)
  | _ => []

/-- Paths one behind the other; empty ones count for nothing. -/
def joinChars (paths : List (List Char)) : List Char :=
  match paths.filter (· ≠ []) with
  | [] => ['.']
  | parts => normalizeChars (joinSlash parts)

/-- Goes from one path to another: to an absolute path at once, to a relative one from where it
stands. -/
def step (current next : List Char) : List Char :=
  if isAbsolute next then next
  else if next = [] then current
  else current ++ '/' :: next

/-- The path reached by going from a directory along several paths. -/
def resolveChars (directory : List Char) (paths : List (List Char)) : List Char :=
  normalizeChars (paths.foldl step directory)

/-- A name without an ending, unless the ending is the whole name. -/
def withoutEnding (name ending : List Char) : List Char :=
  if ending ≠ [] && name ≠ ending && ending.isSuffixOf name then
    name.take (name.length - ending.length)
  else name

end CommandFiles.Path
