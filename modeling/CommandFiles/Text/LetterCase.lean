import CommandFiles.Text.CharacterRanges
import CommandFiles.Text.MarkRanges

/-!
# Letter case and character classes

Case maps and classes of single characters over the whole of Unicode. Core's own `Char.toUpper`,
`Char.isAlpha` and their kin know ASCII only; below 128 the definitions here agree with them, and
above it they read the tables.
-/

namespace CommandFiles.Text

/-- Whether a character is a letter or a number. -/
def isLetterOrNumber (c : Char) : Bool :=
  c.isAlphanum || (128 ≤ c.toNat && inRuns lettersAndNumbers c.toNat)

/-- Whether a character is an upper-case letter. -/
def isUpperCase (c : Char) : Bool :=
  c.isUpper || (128 ≤ c.toNat && inRuns upperCaseLetters c.toNat)

/-- Whether a character is a lower-case letter. -/
def isLowerCase (c : Char) : Bool :=
  c.isLower || (128 ≤ c.toNat && inRuns lowerCaseLetters c.toNat)

/-- Whether a character may begin an identifier. -/
def isIdentifierStart (c : Char) : Bool :=
  c.isAlpha || c == '_' || c == '$' || (128 ≤ c.toNat && inRuns identifierStarts c.toNat)

/-- Whether a character may continue an identifier. -/
def isIdentifierPart (c : Char) : Bool :=
  isIdentifierStart c || c.isDigit || (128 ≤ c.toNat && inRuns identifierParts c.toNat)

/-- Whether a character separates words: the white space of Unicode. -/
def isBlank (c : Char) : Bool :=
  let code := c.toNat
  (9 ≤ code && code ≤ 13) || code == 0x20 || code == 0x85 || code == 0xA0 || code == 0x1680 ||
    (0x2000 ≤ code && code ≤ 0x200A) || code == 0x2028 || code == 0x2029 || code == 0x202F ||
    code == 0x205F || code == 0x3000

/-- The lower-case form of a character; it may have several characters. -/
def lowerChar (c : Char) : List Char :=
  if c.toNat < 128 then [c.toLower]
  else match toLowerSpecial.lookup c.toNat with
    | some codes => codes.map Char.ofNat
    | none => [((shiftIn? toLowerRuns c.toNat).map Char.ofNat).getD c]

/-- The upper-case form of a character; it may have several characters. -/
def upperChar (c : Char) : List Char :=
  if c.toNat < 128 then [c.toUpper]
  else match toUpperSpecial.lookup c.toNat with
    | some codes => codes.map Char.ofNat
    | none => [((shiftIn? toUpperRuns c.toNat).map Char.ofNat).getD c]

/-- Whether a character has a case: upper, lower or title case. -/
def hasCase (c : Char) : Bool :=
  isUpperCase c || isLowerCase c || (128 ≤ c.toNat && inRuns titleCaseLetters c.toNat)

/-- Whether a character is passed over where the letters around a character are looked for. -/
def isIgnorable (c : Char) : Bool :=
  c == '\'' || c == '.' || c == ':' || c == '^' || c == '\x60' ||
    (128 ≤ c.toNat && (inRuns combiningMarks c.toNat || inRuns otherIgnorables c.toNat))

/-- Whether a cased letter comes next once the characters that are passed over are left out. -/
def startsCased (cs : List Char) : Bool := ((cs.dropWhile isIgnorable).head?.map hasCase).getD false

/-- Lower-cases a word. A sigma takes its final form where it ends a word that has a letter before
it. -/
def lowerList (cs : List Char) : List Char := go false cs
where
  /-- `after` says whether a cased letter stands before. -/
  go (after : Bool) : List Char → List Char
    | [] => []
    | c :: rest =>
      if c == 'Σ' && after && !startsCased rest then 'ς' :: go true rest
      else lowerChar c ++ go (if isIgnorable c then after else hasCase c) rest

/-- Lower-cases a text. -/
def toLowerCase (s : String) : String := String.ofList (lowerList s.toList)

/-- Drops white space at both ends. -/
def trimList (cs : List Char) : List Char :=
  ((cs.dropWhile isBlank).reverse.dropWhile isBlank).reverse

/-- Drops white space at both ends of a text. -/
def trim (s : String) : String := String.ofList (trimList s.toList)

end CommandFiles.Text
