import CommandFiles.Number.Decimal
import CommandFiles.Script.Token
import CommandFiles.Text.LetterCase

/-!
# Scanning tokens

Each scanner takes the text from some character on and gives a value with the text behind it.
Every recursion is on the text itself. A scanner that fails names the text it could not read, which
is the position of the fault.
-/

namespace CommandFiles.Script

open CommandFiles.Text CommandFiles.Number

/-- Text that does not fit the grammar, from the first character that does not fit. -/
structure Misfit where
  rest : List Char

/-- What a scanner gives: a value and the text behind it. -/
abbrev Scan (α : Type) := Except Misfit (α × List Char)

/-- Characters that end a line. -/
def isLineEnd (c : Char) : Bool :=
  c == '\n' || c == '\r' || c == '\u2028' || c == '\u2029'

/-- White space between tokens, line ends apart. -/
def isSpace (c : Char) : Bool :=
  !isLineEnd c && c.toNat != 0x85 && (isBlank c || c.toNat == 0xFEFF)

/-- Where the skipping of blanks and comments stands. -/
inductive Trivia where
  | between
  | lineComment
  | blockComment (opened : List Char)

/-- Skips blanks and comments; says whether a line ended on the way. -/
def skipTrivia : Trivia → Bool → List Char → Scan Bool
  | .between, ended, '/' :: '/' :: rest => skipTrivia .lineComment ended rest
  | .between, ended, '/' :: '*' :: rest =>
    skipTrivia (.blockComment ('/' :: '*' :: rest)) ended rest
  | .between, ended, c :: rest =>
    if isLineEnd c then skipTrivia .between true rest
    else if isSpace c then skipTrivia .between ended rest
    else .ok (ended, c :: rest)
  | .between, ended, [] => .ok (ended, [])
  | .lineComment, ended, c :: rest =>
    if isLineEnd c then skipTrivia .between true rest else skipTrivia .lineComment ended rest
  | .lineComment, ended, [] => .ok (ended, [])
  | .blockComment _, ended, '*' :: '/' :: rest => skipTrivia .between ended rest
  | .blockComment opened, ended, c :: rest =>
    skipTrivia (.blockComment opened) (ended || isLineEnd c) rest
  | .blockComment opened, _, [] => .error ⟨opened⟩

/-! ## Escapes -/

/-- A character of a literal, or half of a surrogate pair that stands alone. -/
inductive Decoded where
  | char (c : Char)
  | lone (code : Nat)

/-- Four hexadecimal digits of a code below `0x10000`. -/
def hex4 (n : Nat) : List Char :=
  [n / 4096 % 16, n / 256 % 16, n / 16 % 16, n % 16].map Nat.digitChar

/-- The text of decoded characters. Unicode text cannot hold half of a surrogate pair: in a literal
that has one, each is written as U+FFFD and its four hexadecimal digits, and so is U+FFFD itself. -/
def Decoded.text (ds : List Decoded) : String :=
  let hasLone := ds.any fun | .lone _ => true | .char _ => false
  String.ofList <| ds.flatMap fun
    | .lone code => '\uFFFD' :: hex4 code
    | .char c => if hasLone && c == '\uFFFD' then '\uFFFD' :: hex4 0xFFFD else [c]

/-- The decoded form of a code point. -/
def Decoded.ofCode (code : Nat) : Decoded :=
  if 0xD800 ≤ code && code ≤ 0xDFFF then .lone code else .char (Char.ofNat code)

/-- The value of four hexadecimal digits. -/
def hexCode? (a b c d : Char) : Option Nat :=
  if [a, b, c, d].all isHexDigit then some (ofDigits 16 [a, b, c, d]) else none

/-- The character that a pair of surrogates stands for. -/
def pairCode? (high low : Nat) : Option Nat :=
  if 0xD800 ≤ high && high ≤ 0xDBFF && 0xDC00 ≤ low && low ≤ 0xDFFF then
    some (0x10000 + (high - 0xD800) * 0x400 + (low - 0xDC00))
  else none

/-- The character named by a single letter after a backslash; other characters name themselves. -/
def letterEscape (c : Char) : Char :=
  match c with
  | 'n' => '\n'
  | 't' => '\t'
  | 'r' => '\r'
  | 'b' => '\x08'
  | 'f' => '\x0c'
  | 'v' => '\x0b'
  | c => c

/-- Whether a character is an octal digit. -/
def isOctalDigit (c : Char) : Bool := 48 ≤ c.toNat && c.toNat ≤ 55

/-- The value of the hexadecimal digits up to a closing brace, none of them missing and the whole
at most `0x10FFFF`. -/
def bracedCode? (text : List Char) : Option (Nat × List Char) :=
  let digits := text.takeWhile isHexDigit
  match text.dropWhile isHexDigit with
  | '}' :: rest =>
    let code := ofDigits 16 digits
    if !digits.isEmpty && code ≤ 0x10FFFF then some (code, rest) else none
  | _ => none

/-- Reads an escape behind `\\u`. Two escapes that form a surrogate pair are one character. -/
def unicodeEscape? : List Char → Option (Decoded × List Char)
  | '{' :: rest => (bracedCode? rest).map fun (code, rest) => (.ofCode code, rest)
  | a :: b :: c :: d :: rest => do
    let high ← hexCode? a b c d
    let pair : Option (Nat × List Char) := match rest with
      | '\\' :: 'u' :: e :: f :: g :: h :: rest' =>
        ((hexCode? e f g h).bind (pairCode? high)).map (·, rest')
      | _ => none
    match pair with
    | some (code, rest') => some (.char (Char.ofNat code), rest')
    | none => some (.ofCode high, rest)
  | _ => none

/-- Reads up to three octal digits with a value below 256; the first is given. -/
def octalEscape (a : Char) : List Char → Decoded × List Char
  | b :: c :: rest =>
    if isOctalDigit b then
      if isOctalDigit c && a.toNat ≤ 51 then (.char (Char.ofNat (ofDigits 8 [a, b, c])), rest)
      else (.char (Char.ofNat (ofDigits 8 [a, b])), c :: rest)
    else (.char (Char.ofNat (ofDigits 8 [a])), b :: c :: rest)
  | rest => (.char (Char.ofNat (ofDigits 8 [a])), rest)

/-- Reads an escape behind its backslash; a line end there stands for nothing. Octal escapes are
read in string literals only: in templates a zero not followed by a digit is the one digit allowed.
-/
def escape? (octal : Bool) : List Char → Option (List Decoded × List Char)
  | 'u' :: rest => (unicodeEscape? rest).map fun (d, rest) => ([d], rest)
  | 'x' :: a :: b :: rest =>
    if isHexDigit a && isHexDigit b then
      some ([.char (Char.ofNat (ofDigits 16 [a, b]))], rest)
    else none
  | '\r' :: '\n' :: rest => some ([], rest)
  | c :: rest =>
    if c == 'x' then none
    else if isLineEnd c then some ([], rest)
    else if !octal && c.isDigit then
      match rest with
      | d :: _ => if c == '0' && !d.isDigit then some ([.char '\x00'], rest) else none
      | [] => none
    else if isOctalDigit c then
      let (d, rest) := octalEscape c rest
      some ([d], rest)
    else some ([.char (letterEscape c)], rest)
  | [] => none

/-! ## Literals -/

/-- Scans a string literal behind its opening quote, up to and with the closing one. A literal that
is not closed does not fit from where it was opened. The bound is on the number of characters. -/
def scanString (opened : List Char) (quote : Char) : Nat → List Char → Scan (List Decoded)
  | 0, text => .error ⟨text⟩
  | _ + 1, [] => .error ⟨opened⟩
  | n + 1, c :: rest =>
    if c == quote then .ok ([], rest)
    else if c == '\\' then
      match escape? true rest with
      | none => .error ⟨if rest.isEmpty then opened else c :: rest⟩
      | some (ds, rest) =>
        (scanString opened quote n rest).map fun (more, rest) => (ds ++ more, rest)
    else if c == '\n' || c == '\r' then .error ⟨opened⟩
    else (scanString opened quote n rest).map fun (more, rest) => (.char c :: more, rest)

/-- Line ends of a template are line feeds, however the file writes them. -/
def unifyLineEnds : List Char → List Char
  | '\r' :: '\n' :: rest => '\n' :: unifyLineEnds rest
  | c :: rest => (if c == '\r' then '\n' else c) :: unifyLineEnds rest
  | [] => []

/-- What the scanning of a piece of a template has found: its characters, whether every escape was
well formed, and whether the template ends behind it. -/
structure PieceScan where
  decoded : List Decoded
  raw : List Char
  wellFormed : Bool
  last : Bool

/-- Scans a piece of a template up to and with the mark that ends it. A piece that does not end does
not fit from where it was opened. -/
def scanPieceFrom (opened : List Char) : Nat → List Char → Scan PieceScan
  | 0, text => .error ⟨text⟩
  | _ + 1, [] => .error ⟨opened⟩
  | _ + 1, '`' :: rest => .ok (⟨[], [], true, true⟩, rest)
  | _ + 1, '$' :: '{' :: rest => .ok (⟨[], [], true, false⟩, rest)
  | n + 1, '\\' :: rest =>
    match escape? false rest with
    | some (ds, rest') => (scanPieceFrom opened n rest').map fun (p, r) =>
      (⟨ds ++ p.decoded, '\\' :: rest.take (rest.length - rest'.length) ++ p.raw,
        p.wellFormed, p.last⟩, r)
    | none => match rest with
      | [] => .error ⟨opened⟩
      | c :: rest' => (scanPieceFrom opened n rest').map fun (p, r) =>
        (⟨p.decoded, '\\' :: c :: p.raw, false, p.last⟩, r)
  | n + 1, '\r' :: '\n' :: rest => (scanPieceFrom opened n rest).map fun (p, r) =>
    (⟨.char '\n' :: p.decoded, '\n' :: p.raw, p.wellFormed, p.last⟩, r)
  | n + 1, c :: rest => (scanPieceFrom opened n rest).map fun (p, r) =>
    (⟨.char (if c == '\r' then '\n' else c) :: p.decoded, c :: p.raw, p.wellFormed, p.last⟩, r)

/-- Scans a piece of a template from the backtick or from the closing brace of an expression on. -/
def scanPiece (opened : List Char) : Scan Token :=
  (scanPieceFrom opened opened.length (opened.drop 1)).map fun (p, rest) =>
    (.piece
      ⟨if p.wellFormed then some (Decoded.text p.decoded) else none,
        String.ofList (unifyLineEnds p.raw)⟩
      p.last, rest)

/-- Scans the body of a regular expression behind its opening slash; a slash between brackets does
not end it. One that does not end on its line does not fit from where it was opened. -/
def scanPattern (opened : List Char) : Bool → List Char → Scan Unit
  | _, [] => .error ⟨opened⟩
  | inClass, '\\' :: c :: rest =>
    if isLineEnd c then .error ⟨opened⟩ else scanPattern opened inClass rest
  | inClass, c :: rest =>
    if isLineEnd c then .error ⟨opened⟩
    else if c == '[' then scanPattern opened true rest
    else if c == ']' then scanPattern opened false rest
    else if c == '/' && !inClass then .ok ((), rest)
    else scanPattern opened inClass rest

/-- Scans the flags of a regular expression: known letters, none twice. -/
def scanFlags (seen : List Char) : List Char → Scan Unit
  | [] => .ok ((), [])
  | c :: rest =>
    if isIdentifierPart c then
      if ['d', 'g', 'i', 'm', 's', 'u', 'v', 'y'].contains c && !seen.contains c then
        scanFlags (c :: seen) rest
      else .error ⟨c :: rest⟩
    else .ok ((), c :: rest)

/-! ## Words and numbers -/

/-- Scans the rest of a word; escapes stand for the characters they name. The Boolean says whether
there was one. -/
def scanWordFrom : Nat → List Char → Scan (List Char × Bool)
  | 0, text => .ok (([], false), text)
  | n + 1, '\\' :: 'u' :: rest =>
    match unicodeEscape? rest with
    | some (.char c, rest') =>
      if isIdentifierPart c then
        (scanWordFrom n rest').map fun ((cs, _), r) => ((c :: cs, true), r)
      else .error ⟨'\\' :: 'u' :: rest⟩
    | _ => .error ⟨'\\' :: 'u' :: rest⟩
  | n + 1, c :: rest =>
    if isIdentifierPart c || c == '\u200C' || c == '\u200D' then
      (scanWordFrom n rest).map fun ((cs, escaped), r) => ((c :: cs, escaped), r)
    else if c == '\\' then .error ⟨c :: rest⟩
    else .ok (([], false), c :: rest)
  | _ + 1, [] => .ok (([], false), [])

/-- Scans a word; its first character must be able to begin an identifier. -/
def scanWord (text : List Char) : Scan (String × Bool) :=
  (scanWordFrom (text.length + 1) text).bind fun ((cs, escaped), rest) =>
    match cs with
    | c :: _ => if isIdentifierStart c then .ok ((String.ofList cs, escaped), rest) else .error ⟨text⟩
    | [] => .error ⟨text⟩

/-- Scans digits; an underscore may stand between two of them. The Boolean says whether a digit
stands directly before. -/
def scanDigits (isDigit : Char → Bool) : Bool → List Char → Scan (List Char)
  | _, [] => .ok ([], [])
  | between, '_' :: rest =>
    match rest with
    | c :: _ =>
      if between && isDigit c then scanDigits isDigit false rest else .error ⟨'_' :: rest⟩
    | [] => .error ⟨['_']⟩
  | _, c :: rest =>
    if isDigit c then (scanDigits isDigit true rest).map fun (ds, r) => (c :: ds, r)
    else .ok ([], c :: rest)

/-- A number may not run into a word or another digit. -/
def closeNumber (token : Token) (rest : List Char) : Scan Token :=
  match rest with
  | c :: _ => if isIdentifierStart c || c.isDigit || c == '\\' then .error ⟨rest⟩ else .ok (token, rest)
  | [] => .ok (token, rest)

/-- Scans digits of another base behind its letter. -/
def scanRadix (base : Nat) (isDigit : Char → Bool) (text : List Char) : Scan Token :=
  (scanDigits isDigit false text).bind fun (ds, rest) =>
    if ds.isEmpty then .error ⟨text⟩
    else match rest with
      | 'n' :: rest => closeNumber (.bigNumber (toString (ofDigits base ds))) rest
      | _ => closeNumber (.number (ofNat (ofDigits base ds))) rest

/-- Scans an exponent and gives the number that `whole` and `fraction` make with it. -/
def scanExponent (whole fraction text : List Char) : Scan Token :=
  match text with
  | e :: rest =>
    if e == 'e' || e == 'E' then
      let (negative, digits) : Bool × List Char := match rest with
        | '-' :: r => (true, r)
        | '+' :: r => (false, r)
        | r => (false, r)
      (scanDigits Char.isDigit false digits).bind fun (ds, rest) =>
        if ds.isEmpty then .error ⟨digits⟩
        else
          let n : Int := ofDigits 10 ds
          closeNumber (.number (ofParts whole fraction (if negative then -n else n))) rest
    else closeNumber (.number (ofParts whole fraction 0)) text
  | [] => .ok (.number (ofParts whole fraction 0), [])

/-- Scans a number. Digits after a leading zero are octal as long as none of them is eight or
nine. -/
def scanNumber (text : List Char) : Scan Token :=
  match text with
  | '0' :: x :: rest =>
    if x == 'x' || x == 'X' then scanRadix 16 isHexDigit rest
    else if x == 'o' || x == 'O' then scanRadix 8 isOctalDigit rest
    else if x == 'b' || x == 'B' then scanRadix 2 (fun c => c == '0' || c == '1') rest
    else if x == '_' then .error ⟨x :: rest⟩
    else if x.isDigit then
      let digits := (x :: rest).takeWhile Char.isDigit
      let behind := (x :: rest).dropWhile Char.isDigit
      if digits.all isOctalDigit then closeNumber (.number (ofNat (ofDigits 8 digits))) behind
      else decimal digits behind
    else scanDecimal
  | _ => scanDecimal
where
  /-- The part behind the whole digits. -/
  decimal (whole behind : List Char) : Scan Token :=
    match behind with
    | '.' :: rest =>
      (scanDigits Char.isDigit false rest).bind fun (fraction, rest) =>
        scanExponent whole fraction rest
    | _ => scanExponent whole [] behind
  /-- A number that does not begin with a zero and a digit. -/
  scanDecimal : Scan Token :=
    (scanDigits Char.isDigit false text).bind fun (whole, behind) =>
      match behind with
      | 'n' :: rest => closeNumber (.bigNumber (toString (ofDigits 10 whole))) rest
      | _ => decimal whole behind

/-! ## Tokens -/

/-- Drops a given beginning from a text. -/
def dropStart? : List Char → List Char → Option (List Char)
  | [], text => some text
  | p :: ps, c :: cs => if p == c then dropStart? ps cs else none
  | _ :: _, [] => none

/-- Scans a mark: the first spelling that fits. A question mark and a point before a digit are not
an optional access. -/
def scanMark (text : List Char) : Scan Token :=
  let found : Option (Mark × List Char) := Mark.spellings.findSome? fun (spelling, mark) =>
    (dropStart? spelling text).map fun rest => (mark, rest)
  match found with
  | some (.questionDot, c :: rest) =>
    if c.isDigit then .ok (.mark .question, '.' :: c :: rest)
    else .ok (.mark .questionDot, c :: rest)
  | some (mark, rest) => .ok (.mark mark, rest)
  | none => .error ⟨text⟩

/-- Scans the token that a text begins with; blanks and comments have been skipped. -/
def scanToken (text : List Char) : Scan Token :=
  match text with
  | [] => .ok (.endOfText, [])
  | '`' :: _ => scanPiece text
  | '#' :: rest =>
    match rest with
    | c :: _ =>
      if isIdentifierStart c || c == '\\' then
        (scanWord rest).map fun ((w, _), r) => (.privateWord w, r)
      else scanMark text
    | [] => scanMark text
  | '.' :: c :: rest =>
    if c.isDigit then scanNumber ('.' :: c :: rest) else scanMark text
  | c :: rest =>
    if c == '"' || c == '\'' then
      (scanString text c (rest.length + 1) rest).map fun (ds, r) => (.string (Decoded.text ds), r)
    else if c.isDigit then scanNumber text
    else if isIdentifierStart c || c == '\\' then
      (scanWord text).map fun ((w, escaped), r) => (.word w escaped, r)
    else scanMark text

/-- A first line that names an interpreter is skipped. -/
def skipInterpreterLine (text : List Char) : List Char :=
  match text with
  | '#' :: '!' :: rest => rest.dropWhile fun c => !isLineEnd c
  | _ => text

end CommandFiles.Script
