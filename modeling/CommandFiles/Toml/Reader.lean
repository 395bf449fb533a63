import CommandFiles.Toml

/-!
# Reading TOML

Statements are read line by line from the front of a text. Values in brackets and braces may go on
over several lines; they nest to a bounded depth. A text that is no document gives nothing.
-/

namespace CommandFiles.Toml

/-- What reading gives: a value and the text behind it. -/
abbrev Reading (α : Type) := List Char → Option (α × List Char)

/-! ## Blanks and comments -/

/-- Whether a character is a blank inside a line. -/
def isBlank (c : Char) : Bool := c = ' ' || c = '\t'

/-- Whether a character may stand in texts and comments as it is. -/
def isPlain (c : Char) : Bool := c = '\t' || (32 ≤ c.toNat && c.toNat ≠ 127)

/-- Skips blanks inside a line. -/
def skipBlanks (text : List Char) : List Char := text.dropWhile isBlank

/-- Skips a comment, if there is one. -/
def skipComment : List Char → List Char
  | '#' :: rest => rest.dropWhile isPlain
  | text => text

/-- Reads the end of a line: blanks, a comment, and the break or the end of the text. -/
def endOfLine (text : List Char) : Option (List Char) :=
  match skipComment (skipBlanks text) with
  | [] => some []
  | '\n' :: rest => some rest
  | '\r' :: '\n' :: rest => some rest
  | _ => none

/-- Skips blanks, comments and breaks. The number bounds how many lines are skipped. -/
def skipLines : Nat → List Char → List Char
  | 0, text => text
  | n + 1, text => match skipComment (skipBlanks text) with
    | '\n' :: rest => skipLines n rest
    | '\r' :: '\n' :: rest => skipLines n rest
    | rest => rest

/-! ## Texts -/

/-- Reads a number of hexadecimal digits. -/
def hexNumber (count : Nat) (text : List Char) : Option Nat :=
  let digits := text.take count
  if digits.length = count && digits.all fun c => c.isDigit || ('a' ≤ c.toLower && c.toLower ≤ 'f')
  then some <| digits.foldl (fun n c =>
    16 * n + if c.isDigit then c.toNat - '0'.toNat else c.toLower.toNat - 'a'.toNat + 10) 0
  else none

/-- Reads a character given by its number. -/
def numbered (count : Nat) (text : List Char) : Option (Char × List Char) := do
  let n ← hexNumber count text
  if n.isValidChar then return (Char.ofNat n, text.drop count) else none

/-- Reads what stands behind a backslash. -/
def readEscape : Reading Char
  | '"' :: rest => some ('"', rest)
  | '\\' :: rest => some ('\\', rest)
  | 'b' :: rest => some ('\x08', rest)
  | 't' :: rest => some ('\t', rest)
  | 'n' :: rest => some ('\n', rest)
  | 'f' :: rest => some ('\x0c', rest)
  | 'r' :: rest => some ('\r', rest)
  | 'e' :: rest => some ('\x1b', rest)
  | 'x' :: rest => numbered 2 rest
  | 'u' :: rest => numbered 4 rest
  | 'U' :: rest => numbered 8 rest
  | _ => none

/-- Puts a character before what was read. -/
def cons (c : Char) (r : Option (List Char × List Char)) : Option (List Char × List Char) :=
  r.map fun (cs, rest) => (c :: cs, rest)

/-- Reads a text up to a quote on the same line. Escapes count only in double quotes. -/
def readLine (quote : Char) : Nat → Reading (List Char)
  | 0, _ => none
  | n + 1, text => match text with
    | [] => none
    | c :: rest =>
      if c = quote then some ([], rest)
      else if c = '\\' && quote = '"' then do
        let (c, rest) ← readEscape rest
        cons c (readLine quote n rest)
      else if isPlain c then cons c (readLine quote n rest)
      else none

/-- Whether a backslash ends a line: only blanks stand behind it. -/
def endsLine (text : List Char) : Bool :=
  match skipBlanks text with
  | '\n' :: _ => true
  | '\r' :: '\n' :: _ => true
  | _ => false

/-- Skips blanks and breaks. -/
def skipSpace (text : List Char) : List Char :=
  text.dropWhile fun c => isBlank c || c = '\n' || c = '\r'

/-- Reads a text up to three quotes. Up to two more quotes right before them belong to the text.
Escapes count only in double quotes, and a backslash at the end of a line joins the next one to
it. -/
def readLines (quote : Char) : Nat → Reading (List Char)
  | 0, _ => none
  | n + 1, text =>
    let quotes := (text.takeWhile (· = quote)).length
    if 3 ≤ quotes then
      let more := min (quotes - 3) 2
      some (List.replicate more quote, text.drop (more + 3))
    else match text with
      | [] => none
      | '\r' :: '\n' :: rest => cons '\r' (cons '\n' (readLines quote n rest))
      | c :: rest =>
        if c = '\\' && quote = '"' then
          if endsLine rest then readLines quote n (skipSpace rest)
          else do
            let (c, rest) ← readEscape rest
            cons c (readLines quote n rest)
        else if isPlain c || c = '\n' then cons c (readLines quote n rest)
        else none

/-- Drops a break right behind the opening quotes. -/
def dropBreak : List Char → List Char
  | '\n' :: rest => rest
  | '\r' :: '\n' :: rest => rest
  | text => text

/-- Reads a text in quotes of one kind. -/
def readQuoted (quote : Char) (text : List Char) : Option (String × List Char) :=
  let chars := match text with
    | a :: b :: c :: rest =>
      if a = quote && b = quote && c = quote then readLines quote text.length (dropBreak rest)
      else readLine quote text.length (text.drop 1)
    | _ => readLine quote text.length (text.drop 1)
  chars.map fun (cs, rest) => (String.ofList cs, rest)

/-! ## Keys -/

/-- Whether a character may stand in a key without quotes. -/
def isBare (c : Char) : Bool := c.isAlphanum || c = '_' || c = '-'

/-- Reads a key without points. -/
def readName : Reading String
  | '"' :: rest => (readLine '"' (rest.length + 1) rest).map fun (cs, r) => (String.ofList cs, r)
  | '\'' :: rest => (readLine '\'' (rest.length + 1) rest).map fun (cs, r) => (String.ofList cs, r)
  | text =>
    let name := text.takeWhile isBare
    if name = [] then none else some (String.ofList name, text.dropWhile isBare)

/-- Reads a key: the names before its last point, and the last name. -/
def readKey : Nat → Reading (List String × String)
  | 0, _ => none
  | n + 1, text => do
    let (name, rest) ← readName (skipBlanks text)
    match skipBlanks rest with
    | '.' :: rest =>
      let ((path, key), rest) ← readKey n rest
      return ((name :: path, key), rest)
    | rest => return (([], name), rest)

/-! ## Numbers, truth values and dates -/

/-- Whether digits are a number: single underscores may stand between them. -/
def isDigits (isDigit : Char → Bool) : List Char → Bool
  | [] => false
  | [c] => isDigit c
  | c :: '_' :: rest => isDigit c && isDigits isDigit rest
  | c :: rest => isDigit c && isDigits isDigit rest

/-- Whether a text is a whole number in decimal digits without sign and without needless zeros. -/
def isWhole (text : List Char) : Bool :=
  isDigits Char.isDigit text && (text.length = 1 || text.head? ≠ some '0')

/-- Whether a text is a whole number in digits of another base. -/
def isBased : List Char → Bool
  | '0' :: 'x' :: digits =>
    isDigits (fun c => c.isDigit || ('a' ≤ c.toLower && c.toLower ≤ 'f')) digits
  | '0' :: 'o' :: digits => isDigits (fun c => '0' ≤ c && c ≤ '7') digits
  | '0' :: 'b' :: digits => isDigits (fun c => c = '0' || c = '1') digits
  | _ => false

/-- A text without its sign. -/
def unsigned : List Char → List Char
  | '+' :: rest => rest
  | '-' :: rest => rest
  | text => text

/-- Whether a text is an exponent, or empty. -/
def isExponent : List Char → Bool
  | [] => true
  | e :: digits => (e = 'e' || e = 'E') && isDigits Char.isDigit (unsigned digits)

/-- Whether a text is what follows the whole part of a number. -/
def isFraction : List Char → Bool
  | '.' :: rest =>
    let isPart : Char → Bool := fun c => c ≠ 'e' && c ≠ 'E'
    isDigits Char.isDigit (rest.takeWhile isPart) && isExponent (rest.dropWhile isPart)
  | text => isExponent text

/-- Whether a text is a number in decimal digits. -/
def isDecimal (text : List Char) : Bool :=
  let body := unsigned text
  let isPart : Char → Bool := fun c => c.isDigit || c = '_'
  (isWhole (body.takeWhile isPart) && isFraction (body.dropWhile isPart)) ||
    body = ['i', 'n', 'f'] || body = ['n', 'a', 'n']

/-- Reads a number of digits that is in a range. -/
def readField (count low high : Nat) (text : List Char) : Option (Nat × List Char) :=
  let digits := text.take count
  if digits.length = count && digits.all Char.isDigit then
    let n := digits.foldl (fun n c => 10 * n + (c.toNat - '0'.toNat)) 0
    if low ≤ n && n ≤ high then some (n, text.drop count) else none
  else none

/-- The days of a month. -/
def daysIn (year month : Nat) : Nat :=
  if month = 2 then
    if year % 4 = 0 && (year % 100 ≠ 0 || year % 400 = 0) then 29 else 28
  else if month = 4 || month = 6 || month = 9 || month = 11 then 30 else 31

/-- Reads a character. -/
def expect (c : Char) : List Char → Option (List Char)
  | d :: rest => if c = d then some rest else none
  | [] => none

/-- Reads a date. -/
def readDate (text : List Char) : Option (List Char) := do
  let (year, rest) ← readField 4 0 9999 text
  let (month, rest) ← readField 2 1 12 (← expect '-' rest)
  let (_, rest) ← readField 2 1 (daysIn year month) (← expect '-' rest)
  return rest

/-- Reads the seconds of a time and their parts, if they are given. -/
def readSeconds : List Char → Option (List Char)
  | ':' :: rest => do
    let (_, rest) ← readField 2 0 60 rest
    match rest with
    | '.' :: digits =>
      if (digits.takeWhile Char.isDigit).isEmpty then none
      else return digits.dropWhile Char.isDigit
    | rest => return rest
  | rest => some rest

/-- Reads a time of day. -/
def readTime (text : List Char) : Option (List Char) := do
  let (_, rest) ← readField 2 0 23 text
  let (_, rest) ← readField 2 0 59 (← expect ':' rest)
  readSeconds rest

/-- Reads the distance from world time, if it is given. -/
def readOffset : List Char → Option (List Char)
  | 'Z' :: rest => some rest
  | 'z' :: rest => some rest
  | c :: rest =>
    if c = '+' || c = '-' then do
      let (_, rest) ← readField 2 0 23 rest
      let (_, rest) ← readField 2 0 59 (← expect ':' rest)
      return rest
    else some (c :: rest)
  | [] => some []

/-- Reads what may follow a date: a time with its distance from world time. -/
def readMoment : List Char → Option (List Char)
  | [] => some []
  | c :: rest =>
    if c = 'T' || c = 't' || c = ' ' then do readOffset (← readTime rest) else some (c :: rest)

/-- Whether a text is a date, a time, or both. -/
def isMoment (text : List Char) : Bool :=
  (readDate text).bind readMoment = some [] || readTime text = some []

/-- Whether a text is a value that is neither text nor list nor table. -/
def isScalar (text : List Char) : Bool :=
  text = "true".toList || text = "false".toList || isBased text || isDecimal text || isMoment text

/-- Whether a character may stand in such a value. -/
def inScalar (c : Char) : Bool := isBare c || c = '+' || c = '.' || c = ':'

/-- Reads such a value. Between a date and a time there may be a single blank. -/
def readScalar (text : List Char) : Option (Toml × List Char) :=
  let first := text.takeWhile inScalar
  let rest := text.dropWhile inScalar
  let (whole, rest) : List Char × List Char := match rest with
    | ' ' :: d :: more =>
      if d.isDigit && readDate first = some [] then
        (first ++ ' ' :: (d :: more).takeWhile inScalar, (d :: more).dropWhile inScalar)
      else (first, rest)
    | _ => (first, rest)
  if isScalar whole then some (scalar (String.ofList whole), rest) else none

/-! ## Values -/

/-- Reads items up to a closing mark. Commas stand between them and may stand behind the last. -/
def readItems {α : Type} (close : Char) (item : Reading α) : Nat → Reading (List α)
  | 0, _ => none
  | n + 1, text => match skipLines text.length text with
    | [] => none
    | c :: rest =>
      if c = close then some ([], rest)
      else do
        let (a, rest) ← item (c :: rest)
        match skipLines rest.length rest with
        | ',' :: rest =>
          let (more, rest) ← readItems close item n rest
          return (a :: more, rest)
        | d :: rest => if d = close then return ([a], rest) else none
        | [] => none

/-- Reads a key, an equals sign and a value. -/
def readPair (value : Reading Toml) (text : List Char) :
    Option ((List String × String × Toml) × List Char) := do
  let ((path, key), rest) ← readKey text.length text
  let (v, rest) ← value (skipBlanks (← expect '=' rest))
  return ((path, key, v), rest)

/-- How deep lists and tables may lie in each other. -/
def maxDepth : Nat := 80

/-- Reads a value; the number bounds how deep lists and tables lie in each other. -/
def readValue : Nat → Reading Toml
  | _, '"' :: rest => (readQuoted '"' ('"' :: rest)).map fun (s, r) => (string s, r)
  | _, '\'' :: rest => (readQuoted '\'' ('\'' :: rest)).map fun (s, r) => (string s, r)
  | 0, '[' :: _ => none
  | 0, '\x7b' :: _ => none
  | depth + 1, '[' :: rest => do
    let (items, rest) ← readItems ']' (readValue depth) (rest.length + 1) rest
    return (array items, rest)
  | depth + 1, '\x7b' :: rest => do
    let (pairs, rest) ← readItems '\x7d' (readPair (readValue depth)) (rest.length + 1) rest
    return (table .inline (← buildInline pairs), rest)
  | _, text => readScalar text

/-! ## Statements -/

/-- Reads the key of a header. -/
def readHeaderKey (text : List Char) : Option ((List String × String) × List Char) :=
  readKey (text.length + 1) text

/-- Reads a statement. -/
def readStatement : Reading Statement
  | '[' :: '[' :: rest => do
    let ((path, key), rest) ← readHeaderKey rest
    return (.element path key, ← expect ']' (← expect ']' rest))
  | '[' :: rest => do
    let ((path, key), rest) ← readHeaderKey rest
    return (.header path key, ← expect ']' rest)
  | text => do
    let ((path, key, v), rest) ← readPair (readValue maxDepth) text
    return (.pair path key v, rest)

/-- Reads statements up to the end of a text. -/
def readStatements : Nat → List Char → Option (List Statement)
  | 0, _ => none
  | n + 1, text => match skipBlanks (skipLines text.length text) with
    | [] => some []
    | text => do
      let (s, rest) ← readStatement text
      let more ← readStatements n (← endOfLine rest)
      return s :: more

/-- Reads a document. A mark of the byte order at its beginning does not count. -/
def ofText (text : String) : Option Table :=
  let chars := match text.toList with
    | '\uFEFF' :: rest => rest
    | chars => chars
  (readStatements (chars.length + 1) chars).bind build

end CommandFiles.Toml
