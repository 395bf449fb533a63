import CommandFiles.Json

/-!
# Reading JSON

Documents are read from the front of a text. Numbers keep at most the digits that fit 64 bits and
are scaled by a power of ten afterwards; integers beyond 64 bits become floating-point numbers. A
document that does not fit gives a reason and a position.
-/

namespace CommandFiles.Json

/-- Why a text is no document: the reason, the text behind what was read, and whether the next
character is at fault. -/
structure ReadFault where
  reason : String
  rest : List Char
  isNext : Bool

/-- What reading gives: a value and the text behind it. -/
abbrev Reading (α : Type) := Except ReadFault (α × List Char)

/-- A fault at the next character. -/
def faultNext {α : Type} (reason : String) (rest : List Char) : Except ReadFault α :=
  .error ⟨reason, rest, true⟩

/-- A fault behind what was read. -/
def faultBehind {α : Type} (reason : String) (rest : List Char) : Except ReadFault α :=
  .error ⟨reason, rest, false⟩

/-- Skips the blanks that may stand between tokens. -/
def skipBlanks (text : List Char) : List Char :=
  text.dropWhile fun c => c == ' ' || c == '\n' || c == '\t' || c == '\r'

/-! ## Numbers -/

/-- Reads digits as long as the number they make fits 64 bits: the number, how many digits were
read, and the text behind them. -/
def takeDigits (limit : Nat) : Nat → Nat → List Char → Nat × Nat × List Char
  | significand, count, c :: rest =>
    let next := significand * 10 + Number.digitValue c
    if c.isDigit && next ≤ limit then takeDigits limit next (count + 1) rest
    else (significand, count, c :: rest)
  | significand, count, [] => (significand, count, [])

/-- The largest number of 64 bits. -/
def maxSignificand : Nat := Nat.pow 2 64 - 1

/-- The double nearest to a power of ten. -/
def powerOfTen (n : Nat) : Float := Number.scaled 1 n

/-- Divides or multiplies by powers of ten; the first argument bounds the number of divisions. -/
def scaleBy : Nat → Float → Int → Option Float
  | 0, x, _ => some x
  | n + 1, x, e =>
    if e.natAbs ≤ 308 then
      if 0 ≤ e then
        let y := x * powerOfTen e.natAbs
        if y.isInf then none else some y
      else some (x / powerOfTen e.natAbs)
    else if x == 0.0 then some x
    else if 0 ≤ e then none
    else scaleBy n (x / powerOfTen 308) (e + 308)

/-- The number of a significand and a decimal exponent. -/
def fromParts (positive : Bool) (significand : Nat) (exponent : Int) (rest : List Char) :
    Reading Json :=
  match scaleBy 8 (Number.ofNat significand) exponent with
  | some x => .ok (.float (if positive then x else -x), rest)
  | none => faultBehind "number out of range" rest

/-- Reads an exponent behind its letter. -/
def readExponent (positive : Bool) (significand : Nat) (exponent : Int) (text : List Char) :
    Reading Json :=
  let (up, digits) : Bool × List Char := match text with
    | '-' :: r => (false, r)
    | '+' :: r => (true, r)
    | r => (true, r)
  match digits with
  | [] => faultBehind "EOF while parsing a value" []
  | c :: rest =>
    if !c.isDigit then faultBehind "invalid number" rest
    else
      let (e, _, rest) := takeDigits (Nat.pow 2 31 - 1) 0 0 digits
      match rest with
      | d :: behind =>
        if d.isDigit then
          if significand ≠ 0 && up then faultBehind "number out of range" behind
          else .ok (.float (if positive then 0.0 else -0.0), behind.dropWhile Char.isDigit)
        else fromParts positive significand (if up then exponent + e else exponent - e) rest
      | [] => fromParts positive significand (if up then exponent + e else exponent - e) rest

/-- Goes on with an exponent, if there is one. -/
def readScale (positive : Bool) (significand : Nat) (exponent : Int) (text : List Char) :
    Reading Json :=
  match text with
  | 'e' :: rest | 'E' :: rest => readExponent positive significand exponent rest
  | _ => fromParts positive significand exponent text

/-- Reads the digits behind a decimal point. -/
def readFraction (positive : Bool) (significand : Nat) (exponent : Int) (text : List Char) :
    Reading Json :=
  let (s, count, rest) := takeDigits maxSignificand significand 0 text
  match count, rest with
  | 0, [] => faultNext "EOF while parsing a value" []
  | 0, c :: _ =>
    if c.isDigit then readScale positive s exponent (rest.dropWhile Char.isDigit)
    else faultNext "invalid number" rest
  | _, _ => readScale positive s (exponent - count) (rest.dropWhile Char.isDigit)

/-- Reads a number behind its sign. -/
def readNumber (positive : Bool) (text : List Char) : Reading Json :=
  match text with
  | [] => faultBehind "EOF while parsing a value" []
  | c :: rest =>
    if !c.isDigit then faultBehind "invalid number" rest
    else
      let (s, _, rest) := if c == '0' then (0, 1, rest) else takeDigits maxSignificand 0 0 text
      match rest with
      | d :: _ =>
        if d.isDigit then
          if c == '0' then faultNext "invalid number" rest
          else
            let more := rest.takeWhile Char.isDigit
            let behind := rest.dropWhile Char.isDigit
            match behind with
            | '.' :: r => readFraction positive s more.length r
            | _ => readScale positive s more.length behind
        else if d == '.' then readFraction positive s 0 (rest.drop 1)
        else if d == 'e' || d == 'E' then readScale positive s 0 rest
        else .ok (whole s, rest)
      | [] => .ok (whole s, [])
where
  /-- A whole number; below zero it must fit 63 bits, and minus zero is a floating-point number. -/
  whole (s : Nat) : Json :=
    if positive then .int s
    else if s = 0 || Nat.pow 2 63 < s then .float (-(Number.ofNat s))
    else .int (-(s : Int))

/-! ## Strings -/

/-- The value of four hexadecimal digits at the beginning of a text. -/
def readHex (text : List Char) : Except ReadFault (Nat × List Char) :=
  match text with
  | a :: b :: c :: d :: rest =>
    if [a, b, c, d].all Number.isHexDigit then .ok (Number.ofDigits 16 [a, b, c, d], rest)
    else faultBehind "invalid escape" rest
  | _ => faultBehind "EOF while parsing a string" []

/-- Reads an escape behind `\u`. -/
def readUnicode (text : List Char) : Except ReadFault (Char × List Char) := do
  let (high, rest) ← readHex text
  if 0xDC00 ≤ high && high ≤ 0xDFFF then
    faultBehind "lone leading surrogate in hex escape" rest
  else if 0xD800 ≤ high && high ≤ 0xDBFF then
    match rest with
    | [] => faultBehind "EOF while parsing a string" []
    | '\\' :: [] => faultBehind "EOF while parsing a string" []
    | '\\' :: 'u' :: rest =>
      let (low, rest) ← readHex rest
      if 0xDC00 ≤ low && low ≤ 0xDFFF then
        return (Char.ofNat (0x10000 + (high - 0xD800) * 0x400 + (low - 0xDC00)), rest)
      else faultBehind "lone leading surrogate in hex escape" rest
    | '\\' :: _ :: rest => faultBehind "unexpected end of hex escape" rest
    | _ :: rest => faultBehind "unexpected end of hex escape" rest
  else return (Char.ofNat high, rest)

/-- Reads an escape behind its backslash. -/
def readEscape (text : List Char) : Except ReadFault (Char × List Char) :=
  match text with
  | [] => faultBehind "EOF while parsing a string" []
  | '"' :: rest => .ok ('"', rest)
  | '\\' :: rest => .ok ('\\', rest)
  | '/' :: rest => .ok ('/', rest)
  | 'b' :: rest => .ok ('\x08', rest)
  | 'f' :: rest => .ok ('\x0c', rest)
  | 'n' :: rest => .ok ('\n', rest)
  | 'r' :: rest => .ok ('\r', rest)
  | 't' :: rest => .ok ('\t', rest)
  | 'u' :: rest => readUnicode rest
  | _ :: rest => faultBehind "invalid escape" rest

/-- Reads a string behind its opening quote. The first argument bounds the number of characters. -/
def readChars : Nat → List Char → Except ReadFault (List Char × List Char)
  | 0, text => faultBehind "EOF while parsing a string" text
  | _ + 1, [] => faultBehind "EOF while parsing a string" []
  | n + 1, c :: rest =>
    if c == '"' then .ok ([], rest)
    else if c == '\\' then do
      let (d, rest) ← readEscape rest
      let (more, rest) ← readChars n rest
      return (d :: more, rest)
    else if c.toNat < 32 then
      faultBehind "control character (\\u0000-\\u001F) found while parsing a string" rest
    else do
      let (more, rest) ← readChars n rest
      return (c :: more, rest)

/-- Reads a string behind its opening quote. -/
def readString (text : List Char) : Reading String :=
  (readChars (text.length + 1) text).map fun (cs, rest) => (String.ofList cs, rest)

/-! ## Documents -/

/-- Reads the rest of a word that stands for a value. -/
def readWord (value : Json) : List Char → List Char → Reading Json
  | [], text => .ok (value, text)
  | _ :: _, [] => faultBehind "EOF while parsing a value" []
  | w :: ws, c :: rest => if c == w then readWord value ws rest else faultBehind "expected ident" rest

/-- Reads the items of an array behind its bracket or behind an item. -/
def readItems (item : List Char → Reading Json) : Nat → Bool → List Char → Except ReadFault (List Json × List Char)
  | 0, _, text => faultNext "EOF while parsing a list" text
  | n + 1, first, text =>
    match skipBlanks text with
    | [] => faultNext "EOF while parsing a list" []
    | ']' :: rest => .ok ([], rest)
    | c :: rest =>
      let next : Except ReadFault (List Char) :=
        if first then .ok (c :: rest)
        else if c == ',' then
          match skipBlanks rest with
          | ']' :: r => faultNext "trailing comma" (']' :: r)
          | [] => faultNext "EOF while parsing a value" []
          | r => .ok r
        else faultNext "expected `,` or `]`" (c :: rest)
      do
        let text ← next
        let (j, rest) ← item text
        let (more, rest) ← readItems item n false rest
        return (j :: more, rest)

/-- Reads the members of an object behind its brace or behind a member. -/
def readMembers (item : List Char → Reading Json) :
    Nat → Bool → List Char → Except ReadFault (List (String × Json) × List Char)
  | 0, _, text => faultNext "EOF while parsing an object" text
  | n + 1, first, text =>
    match skipBlanks text with
    | [] => faultNext "EOF while parsing an object" []
    | '\x7d' :: rest => .ok ([], rest)
    | c :: rest =>
      let next : Except ReadFault (List Char) :=
        if first then
          if c == '"' then .ok rest else faultNext "key must be a string" (c :: rest)
        else if c == ',' then
          match skipBlanks rest with
          | '"' :: r => .ok r
          | '\x7d' :: r => faultNext "trailing comma" ('\x7d' :: r)
          | [] => faultNext "EOF while parsing a value" []
          | r => faultNext "key must be a string" r
        else faultNext "expected `,` or `\x7d`" (c :: rest)
      do
        let text ← next
        let (key, rest) ← readString text
        let text ← match skipBlanks rest with
          | ':' :: r => pure r
          | [] => faultNext "EOF while parsing an object" []
          | r => faultNext "expected `:`" r
        let (j, rest) ← item text
        let (more, rest) ← readMembers item n false rest
        return ((key, j) :: more, rest)

/-- Reads a document. The first argument is one more than the depth that arrays and objects may
have. -/
def readValue : Nat → List Char → Reading Json
  | depth, text =>
    match skipBlanks text with
    | [] => faultNext "EOF while parsing a value" []
    | c :: rest =>
      if c == 'n' then readWord .null ['u', 'l', 'l'] rest
      else if c == 't' then readWord (.bool true) ['r', 'u', 'e'] rest
      else if c == 'f' then readWord (.bool false) ['a', 'l', 's', 'e'] rest
      else if c == '-' then readNumber false rest
      else if c.isDigit then readNumber true (c :: rest)
      else if c == '"' then (readString rest).map fun (s, r) => (.string s, r)
      else if c == '[' then
        match depth with
        | 0 | 1 => faultNext "recursion limit exceeded" (c :: rest)
        | d + 1 => (readItems (readValue d) (rest.length + 1) true rest).map
            fun (items, r) => (.array items, r)
      else if c == '\x7b' then
        match depth with
        | 0 | 1 => faultNext "recursion limit exceeded" (c :: rest)
        | d + 1 => (readMembers (readValue d) (rest.length + 1) true rest).map
            fun (members, r) => (ofMembers members, r)
      else faultNext "expected value" (c :: rest)

/-- Where a fault lies: its line, from one on, and the bytes of that line up to it. -/
def ReadFault.position (f : ReadFault) (source : List Char) : Nat × Nat :=
  let read := source.take (source.length - f.rest.length)
  let line := read.count '\n' + 1
  let column := (String.ofList (read.reverse.takeWhile (· != '\n'))).utf8ByteSize
  match f.isNext, f.rest with
  | true, '\n' :: _ => (line + 1, 0)
  | true, _ :: _ => (line, column + 1)
  | _, _ => (line, column)

/-- The words of a fault. -/
def ReadFault.message (f : ReadFault) (source : List Char) : String :=
  let (line, column) := f.position source
  s!"{f.reason} at line {line} column {column}"

/-- Reads a whole text as a document. -/
def ofText (text : String) : Except String Json :=
  let source := text.toList
  let result : Except ReadFault Json := do
    let (j, rest) ← readValue 128 source
    match skipBlanks rest with
    | [] => return j
    | rest => faultNext "trailing characters" rest
  result.mapError (·.message source)

end CommandFiles.Json
