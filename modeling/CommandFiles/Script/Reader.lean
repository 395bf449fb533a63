import CommandFiles.Script.Outline
import CommandFiles.Script.Token.Scan

/-!
# Readers

A reader consumes tokens from the front of a text. It holds the current token with the text from it
on and the text behind it, so that a position is the text that begins there, and the text of a node
is what lies between two such positions. Scopes, imports and exports met on the way are collected
in the state. Readers are total: loops are bounded by the length of the text, and nested rules go
through `Grammar`, whose depth is bounded in the same way.
-/

namespace CommandFiles.Script

/-- What is fixed for a text or for a part of it: the dialect, the number of line feeds in the whole
text, a bound for loops, and which operators and statements have a meaning. -/
structure Setting where
  typed : Bool
  markup : Bool
  lineFeeds : Nat
  fuel : Nat
  inOperator : Bool := true
  awaits : Bool := true
  yields : Bool := false
  returns : Bool := false
  ambient : Bool := false
  conditionalTypes : Bool := true
  returnTypes : Bool := true

/-- Where a reader stands. `items` holds the items of the innermost scope, last first; `blockNames`
and `functionNames` the names bound so far in the innermost block and function; `defaults` the
places where an object literal has a default value, which only a pattern may have; `restCommas` the
places where a literal has a comma behind its last, spread part, which a pattern may not have. -/
structure State where
  token : Token
  lineEnded : Bool
  start : List Char
  after : List Char
  last : List Char
  items : List Item := []
  blockNames : List String := []
  functionNames : List String := []
  defaults : List (List Char) := []
  restCommas : List (List Char) := []
  exports : List (String × List Char) := []

/-- A reader of an `α`. -/
abbrev Reader := ReaderT Setting (StateT State (Except Misfit))

instance {α : Type} : Inhabited (Reader α) := ⟨fun _ s => .error ⟨s.start⟩⟩

namespace Reader

/-- The current token does not fit. -/
def fail {α : Type} : Reader α := fun _ s => .error ⟨s.start⟩

/-- The text from a given position on does not fit. -/
def failAt {α : Type} (text : List Char) : Reader α := fun _ _ => .error ⟨text⟩

/-- Goes on with the token that a text begins with. -/
def resume (rest : List Char) : Reader Unit := fun _ s =>
  (skipTrivia .between false rest).bind fun (lineEnded, start) =>
    (scanToken start).map fun (token, after) =>
      ((), { s with token, lineEnded, start, after, last := rest })

/-- Goes on with the next token. -/
def advance : Reader Unit := fun c s => resume s.after c s

/-- Whether the current token is a mark. -/
def atMark (m : Mark) : Reader Bool := fun _ s =>
  .ok (match s.token with | .mark m' => m == m' | _ => false, s)

/-- Whether the current token is a word written without escapes. -/
def atWord (w : String) : Reader Bool := fun _ s =>
  .ok (match s.token with | .word w' escaped => w == w' && !escaped | _ => false, s)

/-- Whether the current token is one of several words. -/
def atOneOf (ws : List String) : Reader Bool := fun _ s =>
  .ok (match s.token with | .word w escaped => ws.contains w && !escaped | _ => false, s)

/-- Goes past a mark if it comes next. -/
def skipMark (m : Mark) : Reader Bool := do
  if ← atMark m then advance; return true else return false

/-- Goes past a word if it comes next. -/
def skipWord (w : String) : Reader Bool := do
  if ← atWord w then advance; return true else return false

/-- Goes past a mark that must come next. -/
def expectMark (m : Mark) : Reader Unit := do
  unless ← skipMark m do fail

/-- Goes past a word that must come next. -/
def expectWord (w : String) : Reader Unit := do
  unless ← skipWord w do fail

/-- A token that has not been reached yet: whether a line ends before it, and the text behind it. -/
structure Peek where
  token : Token
  lineEnded : Bool
  after : List Char

/-- The token that a text begins with; text that cannot be scanned counts as its end. -/
def Peek.ofText (rest : List Char) : Peek :=
  let found : Scan Token × Bool := match skipTrivia .between false rest with
    | .ok (lineEnded, start) => (scanToken start, lineEnded)
    | .error e => (.error e, false)
  match found with
  | (.ok (token, after), lineEnded) => ⟨token, lineEnded, after⟩
  | (.error _, lineEnded) => ⟨.endOfText, lineEnded, []⟩

/-- The token behind the current one. -/
def peek : Reader Peek := fun _ s => .ok (Peek.ofText s.after, s)

/-- Whether a peeked token is a mark. -/
def Peek.isMark (p : Peek) (m : Mark) : Bool :=
  match p.token with
  | .mark m' => m == m'
  | _ => false

/-- Whether a peeked token is a word. -/
def Peek.isWord (p : Peek) (w : String) : Bool :=
  match p.token with
  | .word w' _ => w == w'
  | _ => false

/-- Whether a peeked token is any word. -/
def Peek.isAnyWord (p : Peek) : Bool :=
  match p.token with
  | .word _ _ => true
  | _ => false

/-- Whether a peeked token can begin the name of a property. -/
def Peek.isPropertyName (p : Peek) : Bool :=
  match p.token with
  | .word _ _ | .string _ | .number _ | .bigNumber _ | .privateWord _ => true
  | .mark .bracketOpen => true
  | _ => false

/-- Runs a reader; if it fails, nothing has been consumed. -/
def attempt {α : Type} (r : Reader α) : Reader (Option α) := fun c s =>
  match r c s with
  | .ok (a, s') => .ok (some a, s')
  | .error _ => .ok (none, s)

/-- Runs a reader under changed settings. -/
def under {α : Type} (f : Setting → Setting) (r : Reader α) : Reader α := fun c s => r (f c) s

/-- Repeats a step until it gives a result, at most as often as the bound says. -/
def repeatUpTo {α β : Type} (step : α → Reader (α ⊕ β)) : Nat → α → Reader β
  | 0, _ => fail
  | n + 1, a => do
    match ← step a with
    | .inl a => repeatUpTo step n a
    | .inr b => return b

/-- Repeats a step until it gives a result. -/
def loop {α β : Type} (a : α) (step : α → Reader (α ⊕ β)) : Reader β := fun c s =>
  repeatUpTo step c.fuel a c s

/-- Reads items until a closing mark, which is consumed. Commas stand between the items and may
stand behind the last one. -/
def commaSeparated {α : Type} (close : Mark) (item : Reader α) : Reader (List α) := do
  let items ← loop [] fun (acc : List α) => do
    if ← skipMark close then return .inr acc
    let a ← item
    if ← skipMark .comma then return .inl (a :: acc)
    expectMark close
    return .inr (a :: acc)
  return items.reverse

/-- The line of the current token. -/
def line : Reader Nat := fun c s =>
  .ok (c.lineFeeds - s.start.count '\n' + 1, s)

/-- The text from a position up to the end of the previous token. -/
def textSince (start : List Char) : Reader String := fun _ s =>
  .ok (String.ofList (start.take (start.length - s.last.length)), s)

/-- Ends a statement: with a semicolon, or without one before a closing brace, at the end of the
text, and where a line ends. -/
def semicolon : Reader Unit := do
  if ← skipMark .semicolon then return
  let s ← get
  let free := s.lineEnded || (match s.token with
    | .mark .braceClose | .endOfText => true
    | _ => false)
  unless free do failAt s.last

/-! ## Names -/

/-- Words that are never identifiers. -/
def reserved : List String :=
  ["break", "case", "catch", "class", "const", "continue", "debugger", "default", "delete", "do",
   "else", "enum", "export", "extends", "false", "finally", "for", "function", "if", "import",
   "in", "instanceof", "new", "null", "return", "super", "switch", "this", "throw", "true", "try",
   "typeof", "var", "void", "while", "with"]

/-- Reads an identifier. The words `await` and `yield` are none where they are operators. -/
def identifier : Reader String := do
  match (← get).token with
  | .word w _ =>
    let c ← read
    if reserved.contains w || (w == "await" && c.awaits) || (w == "yield" && c.yields) then fail
    advance
    return w
  | _ => fail

/-- Whether the current token is an identifier. -/
def atIdentifier : Reader Bool := fun c s =>
  .ok (match s.token with
    | .word w _ =>
      !(reserved.contains w || (w == "await" && c.awaits) || (w == "yield" && c.yields))
    | _ => false, s)

/-- Reads any word. -/
def anyWord : Reader String := do
  match (← get).token with
  | .word w _ => advance; return w
  | _ => fail

/-- Reads a string literal. -/
def stringLiteral : Reader String := do
  match (← get).token with
  | .string v => advance; return v
  | _ => fail

/-! ## Scopes -/

/-- Binds names in the innermost block. -/
def bindInBlock (names : List String) : Reader Unit :=
  modify fun s => { s with blockNames := names ++ s.blockNames }

/-- Binds names in the innermost function. -/
def bindInFunction (names : List String) : Reader Unit :=
  modify fun s => { s with functionNames := names ++ s.functionNames }

/-- Runs a reader in a scope of its own; the names that it gives belong to that scope too. A scope
of a function also holds the names that its statements bind for the whole function. -/
def inScope (isFunction : Bool) (r : Reader (List String)) : Reader Unit := do
  let outer ← get
  set { outer with
    items := [], blockNames := [],
    functionNames := if isFunction then [] else outer.functionNames }
  let names ← r
  let inner ← get
  let bound := names ++ inner.blockNames ++ (if isFunction then inner.functionNames else [])
  let items :=
    if inner.items.isEmpty then outer.items else .scope bound inner.items.reverse :: outer.items
  set { inner with
    items, blockNames := outer.blockNames,
    functionNames := if isFunction then outer.functionNames else inner.functionNames }

/-- Runs a reader and puts the item made from its result before the items met inside it. -/
def recording {α : Type} (item : α → Item) (r : Reader α) : Reader α := do
  let before := (← get).items
  modify fun s => { s with items := [] }
  let a ← r
  modify fun s => { s with items := s.items ++ item a :: before }
  return a

end Reader

/-- Where a statement stands: at the top of the module, in a list, or as the only statement of
another one. -/
inductive StatementPlace where
  | top | listed | single
  deriving DecidableEq

/-- The rules of the grammar that nest in one another, each to be run one level deeper. -/
structure Grammar where
  expression : Reader Expr
  assignment : Reader Expr
  unary : Reader Expr
  binary : Nat → Reader Expr
  leftHand : Reader Expr
  constructed : Reader Expr
  pattern : Reader (List String)
  type : Reader Unit
  markup : Reader Unit
  statement : StatementPlace → Reader Unit

end CommandFiles.Script
