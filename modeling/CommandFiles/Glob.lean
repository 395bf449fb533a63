/-!
# Glob patterns

Patterns for paths, with wildcards, classes of characters and alternatives. Wildcards match slashes
like anything else; only `**` between slashes stands for whole directories. Patterns are matched
byte by byte, so that `?` takes one byte and not one character.
-/

namespace CommandFiles

namespace Glob

/-- A part of a pattern. -/
inductive Token where
  | literal (char : Char)
  | any
  | many
  | leading
  | trailing
  | between
  | class (negated : Bool) (ranges : List (Char × Char))
  | alternatives (branches : List (List Token))
  deriving Repr, Inhabited

/-- Why a text is no pattern. -/
inductive Fault where
  | unclosedClass
  | badRange (first last : Char)
  | unopenedAlternatives
  | unclosedAlternatives
  | danglingEscape
  deriving DecidableEq, Repr

/-- The words of a fault. -/
def Fault.message : Fault → String
  | unclosedClass => "unclosed character class; missing ']'"
  | badRange first last => s!"invalid range; '{first}' > '{last}'"
  | unopenedAlternatives =>
    "unopened alternate group; missing '\x7b' (maybe escape '\x7d' with '[\x7d]'?)"
  | unclosedAlternatives =>
    "unclosed alternate group; missing '\x7d' (maybe escape '\x7b' with '[\x7b]'?)"
  | danglingEscape => "dangling '\\'"

/-! ## Reading -/

/-- The state of reading a class: the ranges so far, last first, and whether a hyphen has begun to
make the last of them longer. -/
structure ClassState where
  ranges : List (Char × Char) := []
  isFirst : Bool := true
  inRange : Bool := false

/-- Makes the last range longer. -/
def widen (c : Char) (s : ClassState) : Except Fault ClassState :=
  match s.ranges with
  | (first, _) :: rest =>
    if c < first then .error (.badRange first c)
    else .ok { ranges := (first, c) :: rest, isFirst := false, inRange := false }
  | [] => .ok { s with isFirst := false, inRange := false }

/-- Adds a single character. -/
def single (c : Char) (s : ClassState) : ClassState :=
  { ranges := (c, c) :: s.ranges, isFirst := false, inRange := false }

/-- Reads the characters of a class up to its end, and gives what follows it. A bracket that comes
first does not end the class, and a hyphen that comes first or last stands for itself. -/
def readRanges (s : ClassState) : List Char → Except Fault (List (Char × Char) × List Char)
  | [] => .error .unclosedClass
  | c :: rest =>
    if c = ']' && !s.isFirst then
      .ok ((if s.inRange then single '-' s else s).ranges.reverse, rest)
    else if c = '-' && !s.isFirst && !s.inRange then
      readRanges { s with inRange := true } rest
    else if s.inRange && !s.isFirst then do
      let s ← widen c s
      readRanges s rest
    else readRanges (single c s) rest

/-- Reads a class behind its bracket. -/
def readClass (cs : List Char) : Except Fault (Token × List Char) := do
  let (negated, cs) := match cs with
    | '!' :: rest | '^' :: rest => (true, rest)
    | _ => (false, cs)
  let (ranges, rest) ← readRanges {} cs
  return (.class negated ranges, rest)

/-- A group of alternatives that is being read: the branches before the current one and the tokens
of the current one, both last first. -/
structure Group where
  branches : List (List Token) := []
  current : List Token := []

/-- The state of reading a pattern: the open groups, the innermost first, and the whole pattern as
the outermost. -/
structure Reading where
  inner : List Group := []
  outer : Group := {}

namespace Reading

/-- The innermost group. -/
def top (s : Reading) : Group := s.inner.head?.getD s.outer

/-- Changes the innermost group. -/
def onTop (s : Reading) (f : Group → Group) : Reading :=
  match s.inner with
  | g :: rest => { s with inner := f g :: rest }
  | [] => { s with outer := f s.outer }

/-- Adds a token. -/
def push (s : Reading) (t : Token) : Reading :=
  s.onTop fun g => { g with current := t :: g.current }

/-- Opens a group of alternatives. -/
def opened (s : Reading) : Reading := { s with inner := {} :: s.inner }

/-- Begins the next alternative. -/
def nextBranch (s : Reading) : Reading :=
  s.onTop fun g => { branches := g.current.reverse :: g.branches, current := [] }

/-- Closes a group of alternatives. -/
def closed? (s : Reading) : Option Reading :=
  match s.inner with
  | [] => none
  | g :: rest =>
    some <| push { s with inner := rest }
      (.alternatives ((g.current.reverse :: g.branches).reverse))

/-- Whether a group is open. -/
def isNested (s : Reading) : Bool := !s.inner.isEmpty

/-- Puts a token that stands for whole directories in place of one at the end, or behind it. -/
def pushDirectories (s : Reading) (t : Token) : Reading :=
  s.onTop fun g => match g.current with
    | .leading :: _ => g
    | .trailing :: _ => g
    | _ :: rest => { g with current := t :: rest }
    | [] => { g with current := [t] }

end Reading

/-- What two stars in a row stand for, and whether the slash behind them belongs to them. -/
inductive Stars where
  | leading
  | trailing
  | between
  | plain
  deriving DecidableEq, Repr

/-- What two stars in a row stand for between the character before them and those behind them: whole
directories if slashes or the ends of the pattern surround them. -/
def starsBetween (s : Reading) (before : Option Char) (rest : List Char) : Stars :=
  let next := rest.head?
  if s.top.current.isEmpty then
    if next = none || next = some '/' then .leading else .plain
  else if before ≠ some '/' && (!s.isNested || (before ≠ some ',' && before ≠ some '\x7b')) then
    .plain
  else if next = none then .trailing
  else if s.isNested && (next = some ',' || next = some '\x7d') then .trailing
  else if next = some '/' then .between
  else .plain

/-- Reads a pattern. The first argument bounds its length. -/
def readTokens : Nat → Reading → (before : Option Char) → List Char → Except Fault Reading
  | 0, s, _, _ => .ok s
  | _, s, _, [] => .ok s
  | n + 1, s, before, c :: rest =>
    match c, rest with
    | '?', _ => readTokens n (s.push .any) (some c) rest
    | '*', '*' :: rest =>
      match starsBetween s before rest with
      | .plain => readTokens n ((s.push .many).push .many) (some c) rest
      | .leading => readTokens n (s.push .leading) (rest.head? <|> some c) (rest.drop 1)
      | .trailing => readTokens n (s.pushDirectories .trailing) (some c) rest
      | .between => readTokens n (s.pushDirectories .between) (some '/') (rest.drop 1)
    | '*', _ => readTokens n (s.push .many) (some c) rest
    | '[', _ => do
      let (t, rest) ← readClass rest
      readTokens n (s.push t) (some ']') rest
    | '\x7b', _ => readTokens n s.opened (some c) rest
    | '\x7d', _ =>
      match s.closed? with
      | some s => readTokens n s (some c) rest
      | none => .error .unopenedAlternatives
    | ',', _ =>
      readTokens n (if s.isNested then s.nextBranch else s.push (.literal ',')) (some c) rest
    | '\\', d :: rest => readTokens n (s.push (.literal d)) (some d) rest
    | '\\', [] => .error .danglingEscape
    | c, _ => readTokens n (s.push (.literal c)) (some c) rest

/-- The tokens of a pattern. -/
def tokensOf (pattern : String) : Except Fault (List Token) := do
  let cs := pattern.toList
  let s ← readTokens cs.length {} none cs
  if s.isNested then throw .unclosedAlternatives
  return s.outer.current.reverse

/-! ## Matching -/

/-- A part of a pattern without alternatives. -/
inductive Atom where
  | byte (value : UInt8)
  | any
  | many
  | leading
  | trailing
  | between
  | class (negated : Bool) (ranges : List (UInt8 × UInt8))
  deriving DecidableEq, Repr

/-- The bytes of a character. -/
def bytesOf (c : Char) : List UInt8 := (String.singleton c).toUTF8.toList

/-- The ranges of bytes that a range of characters stands for: the bytes of both, and those between
the last of the first and the first of the last. -/
def byteRanges : Char × Char → List (UInt8 × UInt8)
  | (first, last) =>
    let single := (bytesOf first).map fun b => (b, b)
    if first = last then single
    else match (bytesOf first).getLast?, bytesOf last with
      | some a, b :: more => single.dropLast ++ (a, b) :: more.map fun b => (b, b)
      | _, _ => single

mutual

/-- The sequences that a pattern stands for, one for every choice of alternatives. -/
def choices : List Token → List (List Atom)
  | [] => [[]]
  | t :: rest =>
    let more := choices rest
    match t with
    | .literal c => more.map ((bytesOf c).map .byte ++ ·)
    | .any => more.map (.any :: ·)
    | .many => more.map (.many :: ·)
    | .leading => more.map (.leading :: ·)
    | .trailing => more.map (.trailing :: ·)
    | .between => more.map (.between :: ·)
    | .class negated ranges => more.map (.class negated (ranges.flatMap byteRanges) :: ·)
    | .alternatives branches =>
      match branchChoices branches with
      | [] => more
      | options => options.flatMap fun o => more.map (o ++ ·)

/-- The sequences that alternatives stand for; empty alternatives count for nothing. -/
def branchChoices : List (List Token) → List (List Atom)
  | [] => []
  | b :: rest =>
    let own := choices b
    (if own = [[]] then [] else own) ++ branchChoices rest

end

/-- Whether a byte is in a class. -/
def inClass (negated : Bool) (ranges : List (UInt8 × UInt8)) (b : UInt8) : Bool :=
  (ranges.any fun r => r.1 ≤ b && b ≤ r.2) != negated

/-- All ends of a list, itself first. -/
def ends : List UInt8 → List (List UInt8)
  | [] => [[]]
  | b :: rest => (b :: rest) :: ends rest

/-- The byte of the slash. -/
def slash : UInt8 := 0x2F

/-- What follows each slash. -/
def behindSlashes : List UInt8 → List (List UInt8)
  | [] => []
  | b :: rest => if b = slash then rest :: behindSlashes rest else behindSlashes rest

/-- Whether a sequence matches all of some bytes. -/
def matchesAtoms : List Atom → List UInt8 → Bool
  | [], bs => bs.isEmpty
  | .byte v :: rest, bs => match bs with
    | b :: bs => b == v && matchesAtoms rest bs
    | [] => false
  | .any :: rest, bs => match bs with
    | _ :: bs => matchesAtoms rest bs
    | [] => false
  | .class negated ranges :: rest, bs => match bs with
    | b :: bs => inClass negated ranges b && matchesAtoms rest bs
    | [] => false
  | .many :: rest, bs => (ends bs).any (matchesAtoms rest)
  | .leading :: rest, bs => matchesAtoms rest bs || (behindSlashes bs).any (matchesAtoms rest)
  | .trailing :: rest, bs => match bs with
    | b :: bs => b == slash && (ends bs).any (matchesAtoms rest)
    | [] => false
  | .between :: rest, bs => match bs with
    | b :: bs =>
      b == slash && (matchesAtoms rest bs || (behindSlashes bs).any (matchesAtoms rest))
    | [] => false

end Glob

/-- A pattern that was read. Two stars alone match everything. -/
structure Glob where
  tokens : List Glob.Token
  deriving Repr, Inhabited

namespace Glob

/-- Reads a pattern. -/
def ofText (pattern : String) : Except Fault Glob := (tokensOf pattern).map mk

/-- Whether a pattern matches a path. -/
def «matches» (g : Glob) (path : String) : Bool :=
  match g.tokens with
  | [.leading] => true
  | ts => (choices ts).any fun atoms => matchesAtoms atoms path.toUTF8.toList

end Glob

end CommandFiles
