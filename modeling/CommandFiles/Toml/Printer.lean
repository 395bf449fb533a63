import CommandFiles.Toml

/-!
# Writing TOML

Texts are written in the plainest quotes that hold them without escapes, and with escapes only where
no quotes do. Main statement: a text without quotes, backslashes, breaks and control characters
stands between plain double quotes.
-/

namespace CommandFiles.Toml

/-! ## Texts -/

/-- Whether a character needs an escape in quotes of every kind. -/
def needsEscape (c : Char) : Bool :=
  (c.toNat < 32 && c ≠ '\t' && c ≠ '\n') || c.toNat = 127

/-- The longest run of a character; `run` counts the run that is open and `longest` the longest one
so far. -/
def longestRunFrom (mark : Char) (run longest : Nat) : List Char → Nat
  | [] => longest
  | c :: rest =>
    if c = mark then longestRunFrom mark (run + 1) (max longest (run + 1)) rest
    else longestRunFrom mark 0 longest rest

/-- The longest run of a character in a text. -/
def longestRun (mark : Char) (text : List Char) : Nat := longestRunFrom mark 0 0 text

/-- How a text is quoted. -/
inductive Quotes where
  | double | single | tripleDouble | tripleSingle
  deriving DecidableEq, Repr

/-- The marks around a text. -/
def Quotes.mark : Quotes → List Char
  | double => ['"']
  | single => ['\'']
  | tripleDouble => ['"', '"', '"']
  | tripleSingle => ['\'', '\'', '\'']

/-- Whether a text may go on over several lines. -/
def Quotes.isLong : Quotes → Bool
  | tripleDouble | tripleSingle => true
  | _ => false

/-- The quotes for a text. -/
def quotesFor (text : List Char) : Quotes :=
  let escaped := text.any needsEscape
  let doubled := escaped || text.contains '\\'
  let broken := text.contains '\n'
  if !doubled && longestRun '"' text = 0 && !broken then .double
  else if !escaped && longestRun '\'' text = 0 && !broken then .single
  else if !doubled && longestRun '"' text ≤ 2 then .tripleDouble
  else if !escaped && longestRun '\'' text ≤ 2 then .tripleSingle
  else if broken then .tripleDouble
  else .double

/-- A number in four hexadecimal digits. -/
def fourDigits (n : Nat) : List Char :=
  ([n / 4096 % 16, n / 256 % 16, n / 16 % 16, n % 16].map Nat.digitChar).map Char.toUpper

/-- The escape of a character, if it needs one between double quotes. -/
def escapeOf? (isLong : Bool) (c : Char) : Option (List Char) :=
  if c = '\x08' then some ['\\', 'b']
  else if c = '\t' then some ['\\', 't']
  else if c = '\n' then if isLong then none else some ['\\', 'n']
  else if c = '\x0c' then some ['\\', 'f']
  else if c = '\r' then some ['\\', 'r']
  else if c = '\\' then some ['\\', '\\']
  else if needsEscape c then some ('\\' :: 'u' :: fourDigits c.toNat)
  else none

/-- Writes a text between double quotes. `run` counts the quotes that were just written; only two in
a row may stand in a long text, and none in a short one. -/
def escapeFrom (isLong : Bool) (run : Nat) : List Char → List Char
  | [] => []
  | c :: rest =>
    if c = '"' then
      if run + 1 > (if isLong then 2 else 0) then '\\' :: '"' :: escapeFrom isLong 0 rest
      else '"' :: escapeFrom isLong (run + 1) rest
    else match escapeOf? isLong c with
      | some escape => escape ++ escapeFrom isLong 0 rest
      | none => c :: escapeFrom isLong 0 rest

/-- Writes a text in given quotes. A long text with breaks begins on a line of its own. -/
def writeIn (q : Quotes) (text : List Char) : List Char :=
  let body := match q with
    | .double | .tripleDouble => escapeFrom q.isLong 0 text
    | .single | .tripleSingle => text
  let opening := if q.isLong && text.contains '\n' then ['\n'] else []
  q.mark ++ opening ++ body ++ q.mark

/-- Writes a text. -/
def writeText (s : String) : String := String.ofList (writeIn (quotesFor s.toList) s.toList)

/-! ## Keys and lists -/

/-- Whether a key needs no quotes. -/
def isBareKey (key : List Char) : Bool :=
  !key.isEmpty && key.all fun c => c.isAlphanum || c = '_' || c = '-'

/-- Writes a key. -/
def writeKey (key : String) : String :=
  let text := key.toList
  let escaped := text.any needsEscape || text.contains '\n'
  if isBareKey text then key
  else if !escaped && !text.contains '\\' && !text.contains '"' then
    String.ofList (writeIn .double text)
  else if !escaped && !text.contains '\'' then String.ofList (writeIn .single text)
  else String.ofList (writeIn .double text)

/-- Writes a list of texts; more than one stand on lines of their own. -/
def writeTexts : List String → String
  | [] => "[]"
  | [s] => "[" ++ writeText s ++ "]"
  | all => "[\n" ++ String.join (all.map fun s => "    " ++ writeText s ++ ",\n") ++ "]"

/-- Writes a pair of a key and a value. -/
def writePair (key value : String) : String := writeKey key ++ " = " ++ value ++ "\n"

theorem longestRunFrom_eq_of_not_mem {mark : Char} {text : List Char} (h : mark ∉ text) :
    ∀ run longest, longestRunFrom mark run longest text = longest := by
  induction text with
  | nil => intros; rfl
  | cons c rest ih =>
    intro run longest
    have hc : c ≠ mark := fun e => h (by simp [e])
    simp [longestRunFrom, hc, ih (fun m => h (by simp [m]))]

theorem quotesFor_of_plain {text : List Char} (h : text.any needsEscape = false)
    (hb : '\\' ∉ text) (hq : '"' ∉ text) (hn : '\n' ∉ text) : quotesFor text = .double := by
  simp [quotesFor, h, hb, hn, longestRun, longestRunFrom_eq_of_not_mem hq]

end CommandFiles.Toml
