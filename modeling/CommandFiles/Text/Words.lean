import CommandFiles.Text.LetterCase

/-!
# Words of names

Takes names apart into words, at every character that is neither letter nor number and where the
case changes, and puts them together again in the usual spellings.
-/

namespace CommandFiles.Text

/-- The case that a word has had last while it is read. -/
inductive WordCase where
  | none | lower | upper
  deriving DecidableEq, Repr

/-- The runs of letters and numbers of a text; between two other characters stands an empty run. -/
def runsOf : List Char → List (List Char)
  | [] => [[]]
  | c :: rest =>
    if isLetterOrNumber c then
      match runsOf rest with
      | [] => [[c]]
      | run :: more => (c :: run) :: more
    else [] :: runsOf rest

/-- Cuts a run into words. A word ends behind a lower-case letter that an upper-case one follows,
and before the last of several upper-case letters if a lower-case one follows it. `word` holds the
word so far, last character first. -/
def cutRun (case : WordCase) (word : List Char) : List Char → List (List Char)
  | [] => []
  | [c] => [(c :: word).reverse]
  | c :: next :: rest =>
    let after := if isLowerCase c then .lower else if isUpperCase c then .upper else case
    if after = .lower && isUpperCase next then
      (c :: word).reverse :: cutRun .none [] (next :: rest)
    else if case = .upper && isUpperCase c && isLowerCase next then
      word.reverse :: cutRun .none [c] (next :: rest)
    else cutRun after (c :: word) (next :: rest)

/-- The words of a name. -/
def words (name : List Char) : List (List Char) := (runsOf name).flatMap (cutRun .none [])

/-- A word in lower case; a sigma at its end takes its final form. -/
def lowerWord : List Char → List Char
  | [] => []
  | ['Σ'] => ['ς']
  | c :: rest => lowerChar c ++ lowerWord rest

/-- A word with its first letter in upper case and the others in lower case. -/
def capitalized : List Char → List Char
  | [] => []
  | c :: rest => upperChar c ++ lowerWord rest

/-- The spelling with hyphens between words in lower case. -/
def kebabCase (name : String) : String :=
  String.ofList (List.intercalate ['-'] ((words name.toList).map lowerWord))

/-- The spelling without anything between words, where all words but the first are capitalized. -/
def camelCase (name : String) : String :=
  String.ofList <| match words name.toList with
    | [] => []
    | first :: rest => lowerWord first ++ rest.flatMap capitalized

end CommandFiles.Text
