import CommandFiles.Script.Reader.Markup

/-!
# Reading expressions

Expressions are read by rising precedence. The expressions that option literals may contain are
kept; the others are read for their extent and for the scopes inside them.
-/

namespace CommandFiles.Script.Reader

/-! ## Targets of assignments -/

/-- Whether a value can be assigned to an expression as to a variable. -/
def isTarget : Expr → Bool
  | .name _ _ | .member _ _ _ _ | .index _ _ _ _ | .foreign _ .privateField => true
  | .wrapped _ e => isTarget e
  | _ => false

mutual

/-- Whether an expression is an array or object literal that reads as an assignment pattern. -/
def isPattern : Expr → Bool
  | .array _ elements => arePatternElements elements
  | .object _ properties => arePatternProperties properties
  | _ => false

/-- Whether an expression can stand in an assignment pattern, with or without a default. -/
def isPatternPart : Expr → Bool
  | .array _ elements => arePatternElements elements
  | .object _ properties => arePatternProperties properties
  | .foreign _ (.assignment plain) => plain
  | e => isTarget e

/-- Whether the elements of an array literal make a pattern; a spread one must be the last. -/
def arePatternElements : List Element → Bool
  | [] => true
  | .hole :: rest => arePatternElements rest
  | .item e :: rest => isPatternPart e && arePatternElements rest
  | .spread _ e :: rest => (isPattern e || isTarget e) && rest.isEmpty

/-- Whether the properties of an object literal make a pattern. -/
def arePatternProperties : List Property → Bool
  | [] => true
  | .value _ _ e :: rest => isPatternPart e && arePatternProperties rest
  | .spread _ e :: rest => isTarget e && rest.isEmpty
  | _ :: _ => false

end

/-! ## Primary expressions -/

/-- Reads the pieces and expressions of a template; the first piece is the current token. A piece
with a malformed escape is allowed only behind a tag. -/
def template (g : Grammar) (tagged : Bool) : Reader (Quasi × List TemplateSpan) := do
  let (head, last) ← quasi
  if last then
    advance
    return (head, [])
  advance
  let spans ← loop [] fun (acc : List TemplateSpan) => do
    let e ← under (fun c => { c with inOperator := true }) g.expression
    unless ← atMark .braceClose do fail
    let (token, rest) ← scan (scanPiece (← get).start)
    modify fun s => { s with token, after := rest }
    let (q, last) ← quasi
    advance
    return if last then .inr (.mk e q :: acc) else .inl (.mk e q :: acc)
  return (head, spans.reverse)
where
  /-- The current token as text of a template, and whether the template ends with it. -/
  quasi : Reader (Quasi × Bool) := do
    match (← get).token with
    | .piece ⟨some cooked, raw⟩ last => return (⟨cooked, raw⟩, last)
    | .piece ⟨none, raw⟩ last => if tagged then return (⟨raw, raw⟩, last) else fail
    | _ => fail
  /-- A scanner as a reader. -/
  scan (r : Scan Token) : Reader (Token × List Char) := fun _ s => r.map (·, s)

/-- Reads a regular expression from the slash it begins with. -/
def regularExpression : Reader Unit := do
  let opened := (← get).start
  let scanned := (scanPattern opened false (opened.drop 1)).bind fun (_, rest) =>
    (scanFlags [] rest).map fun (_, rest) => rest
  match scanned with
  | .ok rest => resume rest
  | .error e => failAt e.rest

/-- Notes a comma between a spread part of a literal and the mark that closes the literal. -/
def noteRestComma (close : Mark) : Reader Unit := do
  if (← atMark .comma) && (← peek).isMark close then
    let place := (← get).start
    modify fun s => { s with restCommas := place :: s.restCommas }

/-- Reads elements of an array or arguments of a call up to a closing mark. -/
def elements (g : Grammar) (close : Mark) (holes : Bool) : Reader (List Element) :=
  commaSeparated close do
    if holes && (← atMark .comma) then return .hole
    let l ← line
    if ← skipMark .ellipsis then
      let e ← g.assignment
      if holes then noteRestComma close
      return .spread l e
    return .item (← g.assignment)

/-- Words that make a property a method or an accessor if a name follows them. -/
def propertyModifier? : Reader (Option String) := do
  let p ← peek
  match (← get).token with
  | .word "async" false =>
    return if (p.isPropertyName || p.isMark .times) && !p.lineEnded then some "async" else none
  | .word "get" false => return if p.isPropertyName then some "get" else none
  | .word "set" false => return if p.isPropertyName then some "set" else none
  | _ => return none

/-- Reads a property of an object literal. -/
def property (g : Grammar) : Reader Property := do
  let start := (← get).start
  let l ← line
  if ← skipMark .ellipsis then
    let e ← g.assignment
    noteRestComma .braceClose
    return .spread l e
  let modifier ← propertyModifier?
  if modifier.isSome then advance
  let isGenerator ← skipMark .times
  let named ← atIdentifier
  let key ← propertyKey g
  if (← atMark .parenOpen) || (← atMark .less) then
    functionRest g (modifier == some "async") isGenerator true [] (accessorFits modifier.toList)
    let text ← textSince start
    return if modifier == some "get" || modifier == some "set" then .accessor l key
      else .method l key text
  if modifier.isSome || isGenerator then fail
  if ← skipMark .colon then return .value l key (← g.assignment)
  match key, named with
  | .fixed name, true =>
    if ← skipMark .assign then
      discard g.assignment
      modify fun s => { s with defaults := start :: s.defaults }
      return .value l key (.foreign l (.assignment true))
    return .value l key (.name l name)
  | _, _ => fail

/-- Reads an array literal from its bracket on. -/
def arrayLiteral (g : Grammar) : Reader Expr := do
  let l ← line
  advance
  return .array l (← under (fun c => { c with inOperator := true })
    (elements g .bracketClose true))

/-- Reads an object literal from its brace on. -/
def objectLiteral (g : Grammar) : Reader Expr := do
  let l ← line
  advance
  return .object l (← under (fun c => { c with inOperator := true })
    (commaSeparated .braceClose (property g)))

/-- Reads a class, with the decorators before it, as an expression. -/
def decoratedClass (g : Grammar) : Reader Expr := do
  let l ← line
  decorators g
  classExpression g
  return .foreign l .classExpr

/-- Whether a function expression begins here. -/
def atFunction : Reader Bool := do
  if ← atWord "function" then return true
  let p ← peek
  return (← atWord "async") && p.isWord "function" && !p.lineEnded

/-- Reads an expression without operators. -/
def primary (g : Grammar) : Reader Expr := do
  let l ← line
  match (← get).token with
  | .string v => advance; return .string l v
  | .number v => advance; return .number l v
  | .bigNumber _ => advance; return .foreign l .bigNumber
  | .piece _ _ =>
    let (head, spans) ← template g false
    return .template l head spans
  | .mark .bracketOpen => arrayLiteral g
  | .mark .braceOpen => objectLiteral g
  | .mark .parenOpen =>
    advance
    let e ← under (fun c => { c with inOperator := true, returnTypes := true }) g.expression
    expectMark .parenClose
    return .wrapped l e
  | .mark .slash | .mark .slashAssign =>
    regularExpression
    return .foreign l .regularExpression
  | .mark .decorator => decoratedClass g
  | .word w escaped =>
    if ← atFunction then
      let start := (← get).start
      functionExpression g
      return .function l (← textSince start)
    if escaped then return .name l (← identifier)
    match w with
    | "null" => advance; return .null l
    | "true" => advance; return .boolean l true
    | "false" => advance; return .boolean l false
    | "this" => advance; return .foreign l .this
    | "class" => decoratedClass g
    | _ => return .name l (← identifier)
  | _ => fail

/-! ## Members and calls -/

/-- Whether an expression can begin with the current token. -/
def atExpression : Reader Bool := do
  match (← get).token with
  | .string _ | .number _ | .bigNumber _ | .piece _ _ | .privateWord _ => return true
  | .mark m => return [.bracketOpen, .braceOpen, .parenOpen, .slash, .slashAssign, .decorator,
      .plus, .minus, .bang, .tilde, .increment, .decrement, .less].contains m
  | .word w _ => return !reserved.contains w || ["null", "true", "false", "this", "class",
      "function", "new", "super", "import", "typeof", "void", "delete"].contains w
  | .endOfText => return false

/-- Reads type arguments of an expression, if they can be meant: a call or a template follows, or
nothing that could be an operand. -/
def valueTypeArguments? (g : Grammar) : Reader Bool := do
  unless (← read).typed do return false
  let found ← attempt do
    typeArguments g
    let s ← get
    match s.token with
    | .mark .parenOpen | .piece _ _ => return
    | .mark .less | .mark .greater | .mark .plus | .mark .minus => fail
    | _ => if !s.lineEnded && (← atExpression) then fail
  return found.isSome

/-- What a chain of members and calls has come to: the expression so far, whether an optional link
has been met, and the text of the expression so far. -/
structure Chain where
  expr : Expr
  isOptional : Bool
  text : String

/-- Reads one link of a chain, if there is one. Everything in a chain begins where the chain
begins. -/
def link? (g : Grammar) (calls : Bool) (start : List Char) (l : Nat) (c : Chain) :
    Reader (Option Chain) := do
  let extend := fun (e : Expr) (isOptional : Bool) => do
    return some ⟨e, c.isOptional || isOptional, ← textSince start⟩
  let s ← get
  match s.token with
  | .mark .dot =>
    advance
    member extend false
  | .mark .questionDot =>
    unless calls do fail
    advance
    let typeArguments ← valueTypeArguments? g
    match (← get).token with
    | .mark .bracketOpen => index extend true
    | .mark .parenOpen => call extend true
    | .piece _ _ => fail
    | _ => if typeArguments then fail else member extend true
  | .mark .bracketOpen => index extend false
  | .mark .parenOpen => if calls then call extend false else return none
  | .piece _ _ =>
    if c.isOptional then fail
    discard <| template g true
    extend (.foreign l .taggedTemplate) false
  | .mark .bang =>
    if (← read).typed && !s.lineEnded then
      advance
      extend (.wrapped l c.expr) false
    else return none
  | .mark .less | .mark .shiftLeft =>
    if ← valueTypeArguments? g then
      match (← get).token with
      | .mark .parenOpen => if calls then call extend false else extend (.wrapped l c.expr) false
      | .piece _ _ =>
        if c.isOptional then fail
        discard <| template g true
        extend (.foreign l .taggedTemplate) false
      | _ => extend (.wrapped l c.expr) false
    else return none
  | _ => return none
where
  /-- A member behind a point. -/
  member (extend : Expr → Bool → Reader (Option Chain)) (isOptional : Bool) :
      Reader (Option Chain) := do
    match (← get).token with
    | .privateWord _ =>
      advance
      extend (.foreign l .privateField) isOptional
    | _ =>
      let key ← anyWord
      extend (.member l isOptional c.expr key) isOptional
  /-- A member in brackets. -/
  index (extend : Expr → Bool → Reader (Option Chain)) (isOptional : Bool) :
      Reader (Option Chain) := do
    advance
    let key ← under (fun c => { c with inOperator := true }) g.expression
    expectMark .bracketClose
    extend (.index l isOptional c.expr key) isOptional
  /-- A call. -/
  call (extend : Expr → Bool → Reader (Option Chain)) (isOptional : Bool) :
      Reader (Option Chain) := do
    advance
    let args ← under (fun c => { c with inOperator := true, returnTypes := true })
      (elements g .parenClose false)
    extend (.call l isOptional c.text c.expr args) isOptional

/-- Reads the links of a chain behind its first expression. -/
def links (g : Grammar) (calls : Bool) (start : List Char) (l : Nat) (base : Expr) :
    Reader Expr := do
  let text ← textSince start
  let c ← loop (⟨base, false, text⟩ : Chain) fun c => do
    match ← link? g calls start l c with
    | some c => return .inl c
    | none => return .inr c
  return if c.isOptional then .chain l c.expr else c.expr

/-- Reads `new` with what is constructed and its arguments. -/
def newExpression (g : Grammar) : Reader Expr := do
  let l ← line
  expectWord "new"
  if ← skipMark .dot then
    expectWord "target"
    return .foreign l .metaProperty
  discard g.constructed
  if ← skipMark .parenOpen then
    discard <| under (fun c => { c with inOperator := true }) (elements g .parenClose false)
  return .foreign l .new

/-- Reads a dynamic import, of a module and perhaps its attributes, or a property of the importing
module. -/
def importExpression (g : Grammar) : Reader Expr := do
  let l ← line
  let start := (← get).start
  expectWord "import"
  if ← skipMark .dot then
    let w ← anyWord
    unless (w == "source" || w == "defer") && (← atMark .parenOpen) do
      unless w == "meta" do failAt start
      return .foreign l .metaProperty
  expectMark .parenOpen
  if ← atMark .parenClose then fail
  let args ← under (fun c => { c with inOperator := true })
    (commaSeparated .parenClose g.assignment)
  if args.length > 2 then failAt start
  return .foreign l .importCall

/-- Reads the first expression of a chain. -/
def chainBase (g : Grammar) : Reader Expr := do
  let l ← line
  if ← atWord "new" then newExpression g
  else if ← atWord "import" then importExpression g
  else if ← skipWord "super" then
    unless (← atMark .dot) || (← atMark .bracketOpen) || (← atMark .parenOpen) do fail
    return .foreign l .super
  else primary g

/-- Reads members and calls. -/
def leftHand (g : Grammar) : Reader Expr := do
  let start := (← get).start
  let l ← line
  links g true start l (← chainBase g)

/-- Reads what stands behind `new`: members without calls. -/
def constructed (g : Grammar) : Reader Expr := do
  let start := (← get).start
  let l ← line
  if ← atWord "import" then fail
  links g false start l (← chainBase g)

/-! ## Operators -/

/-- The operator with one operand that a token is. -/
def unaryOp? : Token → Option UnaryOp
  | .mark .minus => some .negate
  | .mark .plus => some .plus
  | .mark .bang => some .not
  | .mark .tilde => some .bitNot
  | .word "typeof" false => some .typeOf
  | .word "void" false => some .void
  | .word "delete" false => some .delete
  | _ => none

/-- Whether the current token changes a variable by one. -/
def atStep : Reader Bool := do
  return (← atMark .increment) || (← atMark .decrement)

/-- Reads an expression with operators that take one operand. -/
def unary (g : Grammar) : Reader Expr := do
  let l ← line
  let s ← get
  if ← atStep then
    advance
    let place := (← get).start
    let e ← g.unary
    unless isTarget e do failAt place
    return .foreign l .update
  if let some op := unaryOp? s.token then
    advance
    return .unary l op (← g.unary)
  if (← read).awaits && (← atWord "await") then
    advance
    discard g.unary
    return .foreign l .await
  if let .privateWord _ := s.token then
    advance
    unless (← atWord "in") && (← read).inOperator do fail
    advance
    discard <| g.binary 8
    return .foreign l .privateIn
  if (← atMark .less) && (← read).markup then
    markup g
    advance
    return .foreign l .markup
  if (← atMark .less) && (← read).typed then
    advance
    g.type
    expectMark .greater
    return .wrapped l (← g.unary)
  let e ← leftHand g
  if (← atStep) && !(← get).lineEnded then
    unless isTarget e do failAt s.start
    advance
    return .foreign l .update
  return e

/-- An operator with two operands. -/
inductive Infix where
  | binary (op : BinaryOp)
  | logical (op : LogicalOp)

/-- The operators that begin with a closing angle bracket, longest first. -/
def angleOps : List (List Char × BinaryOp × Nat) :=
  [(['>', '>', '>'], .shiftRightUnsigned, 9), (['>', '>'], .shiftRight, 9),
   (['>', '='], .greaterEqual, 8), (['>'], .greater, 8)]

/-- The operator at the current token with its precedence and the text behind it. An operator that
is part of an assignment is none. -/
def infixOp? (c : Setting) (s : State) : Option (Infix × Nat × List Char) :=
  match s.token with
  | .mark .greater =>
    if [['>', '>', '>', '='], ['>', '>', '=']].any fun m => (dropStart? m s.start).isSome then none
    else angleOps.findSome? fun (spelling, op, level) =>
      (dropStart? spelling s.start).map fun rest => (.binary op, level, rest)
  | .mark m =>
    let found : Option (Infix × Nat) := match m with
      | .coalesce => some (.logical .coalesce, 1)
      | .or => some (.logical .or, 2)
      | .and => some (.logical .and, 3)
      | .bitOr => some (.binary .bitOr, 4)
      | .bitXor => some (.binary .bitXor, 5)
      | .bitAnd => some (.binary .bitAnd, 6)
      | .equal => some (.binary .equal, 7)
      | .notEqual => some (.binary .notEqual, 7)
      | .identical => some (.binary .identical, 7)
      | .notIdentical => some (.binary .notIdentical, 7)
      | .less => some (.binary .less, 8)
      | .lessEqual => some (.binary .lessEqual, 8)
      | .shiftLeft => some (.binary .shiftLeft, 9)
      | .plus => some (.binary .add, 10)
      | .minus => some (.binary .subtract, 10)
      | .times => some (.binary .multiply, 11)
      | .slash => some (.binary .divide, 11)
      | .percent => some (.binary .remainder, 11)
      | .power => some (.binary .power, 12)
      | _ => none
    found.map fun (op, level) => (op, level, s.after)
  | .word "in" false => if c.inOperator then some (.binary .inside, 8, s.after) else none
  | .word "instanceof" false => some (.binary .instanceOf, 8, s.after)
  | _ => none

/-- Whether an expression joins its operands by `||` or `&&`, without parentheses around it. -/
def isOrAnd : Expr → Bool
  | .logical _ .or _ _ | .logical _ .and _ _ => true
  | _ => false

/-- Whether an expression joins its operands by `??`, without parentheses around it. -/
def isCoalesce : Expr → Bool
  | .logical _ .coalesce _ _ => true
  | _ => false

/-- Whether an expression is made by an operator before its operand, which `**` may not follow. -/
def isUnary : Expr → Bool
  | .unary _ _ _ | .foreign _ .await => true
  | _ => false

/-- Reads operators above a level of precedence; only `**` groups to the right. -/
def binary (g : Grammar) (level : Nat) : Reader Expr := do
  let l ← line
  let left ← unary g
  loop left fun left => do
    let s ← get
    if (← read).typed && level < 8 && !s.lineEnded &&
        ((← atWord "as") || (← atWord "satisfies")) then
      advance
      unless ← skipWord "const" do g.type
      return .inl (.wrapped l left)
    match infixOp? (← read) s with
    | none => return .inr left
    | some (op, own, rest) =>
      unless level < own do return .inr left
      resume rest
      match op with
      | .binary .power =>
        if isUnary left then failAt s.start
        let right ← g.binary 11
        return .inl (.binary l .power left right)
      | .binary op =>
        let right ← g.binary own
        return .inl (.binary l op left right)
      | .logical op =>
        let right ← g.binary own
        let mixed := match op with
          | .coalesce => isOrAnd left || isOrAnd right
          | _ => isCoalesce left || isCoalesce right
        if mixed then failAt s.start
        return .inl (.logical l op left right)

/-- Reads an expression that may choose between two others. -/
def conditional (g : Grammar) : Reader Expr := do
  let l ← line
  let test ← binary g 0
  unless ← skipMark .question do return test
  let yes ← under (fun c => { c with inOperator := true, returnTypes := false }) g.assignment
  expectMark .colon
  let no ← g.assignment
  return .conditional l test yes no

/-! ## Functions and assignments -/

/-- Reads the arrow of a function, which must stand on the line its parameters end on. -/
def arrow : Reader Unit := do
  if (← get).lineEnded then fail
  expectMark .arrow

/-- Reads the parameters of an arrow function up to the arrow; says whether a type is given for
what it returns. -/
def arrowHead (g : Grammar) (isAsync : Bool) : Reader (List String × Bool) :=
  under (fun c => { c with
    awaits := c.awaits || isAsync, yields := c.yields && !isAsync, inOperator := true }) do
    typeParameters? g
    let ps ← parameters g
    let annotated := (← read).typed && (← atMark .colon)
    if annotated then
      advance
      returned g
    arrow
    return (ps.flatMap (·.names), annotated)

/-- Reads the body of an arrow function: statements in braces or an expression. -/
def arrowBody (g : Grammar) (isAsync : Bool) (names : List String) : Reader Unit :=
  inScope true do
    if ← atMark .braceOpen then
      under (functionSetting isAsync false) (functionBody g)
    else
      discard <| under (fun c => { c with awaits := isAsync, yields := false })
        g.assignment
    return names

/-- Whether the angle bracket here can begin the type parameters of an arrow function. Where markup
is read too, a comma or a bound must tell them from an element. -/
def atArrowTypes : Reader Bool := do
  let c ← read
  unless c.typed && (← atMark .less) do return false
  unless c.markup do return true
  let p ← peek
  let p := if p.isWord "const" then Peek.ofText p.after else p
  let behind := Peek.ofText p.after
  return p.isAnyWord && (behind.isMark .comma || behind.isWord "extends")

/-- Reads an arrow function, if one begins here. -/
def arrowFunction? (g : Grammar) : Reader (Option Expr) := do
  let l ← line
  let s ← get
  let finish := fun (isAsync : Bool) (names : List String) => do
    arrowBody g isAsync names
    return some (Expr.function l (← textSince s.start))
  let withHead := fun (isAsync : Bool) => do
    match ← attempt (arrowHead g isAsync) with
    | none => return none
    | some (names, annotated) =>
      if annotated && !(← read).returnTypes then
        let found ← finish isAsync names
        unless ← atMark .colon do fail
        return found
      finish isAsync names
  let guarded := fun (isAsync : Bool) => do
    if (← read).returnTypes then withHead isAsync
    else match ← attempt (withHead isAsync) with
      | some found => return found
      | none => return none
  if (← atMark .parenOpen) || (← atArrowTypes) then return ← guarded false
  unless ← atIdentifier do return none
  let p ← peek
  if p.isMark .arrow && !p.lineEnded then
    let name ← identifier
    arrow
    return ← finish false [name]
  if (← atWord "async") && !p.lineEnded then
    if p.isAnyWord && (Peek.ofText p.after).isMark .arrow then
      let found ← attempt do
        advance
        let name ← identifier
        arrow
        return name
      match found with
      | some name => return ← finish true [name]
      | none => return none
    if p.isMark .parenOpen || ((← read).typed && p.isMark .less) then
      let found ← attempt do
        advance
        arrowHead g true
      match found with
      | some (names, _) => return ← finish true names
      | none => return none
  return none

/-- The operators of assignments; the Boolean says whether the operator is a bare equals sign. -/
def assignmentOp? (s : State) : Option (Bool × List Char) :=
  match s.token with
  | .mark .assign => some (true, s.after)
  | .mark .greater =>
    match [['>', '>', '>', '='], ['>', '>', '=']].findSome? (dropStart? · s.start) with
    | some rest => some (false, rest)
    | none => none
  | .mark m =>
    if [.plusAssign, .minusAssign, .timesAssign, .slashAssign, .percentAssign, .powerAssign,
        .shiftLeftAssign, .bitAndAssign, .bitOrAssign, .bitXorAssign, .andAssign, .orAssign,
        .coalesceAssign].contains m then some (false, s.after)
    else none
  | _ => none

/-- Lets the literal read since a former state be a pattern: it may have default values, but no
comma behind a rest. -/
def becomePattern (before : State) : Reader Unit := do
  let s ← get
  if s.restCommas.length > before.restCommas.length then
    match s.restCommas with
    | place :: _ => failAt place
    | [] => fail
  set { s with defaults := before.defaults }

/-- Reads `yield` and its operand, if it has one. -/
def yieldExpression (g : Grammar) : Reader Expr := do
  let l ← line
  advance
  unless (← get).lineEnded do
    if ← skipMark .times then discard g.assignment
    else if (← atExpression) || (← atWord "await") then discard g.assignment
  return .foreign l .yield

/-- Reads an expression without commas. -/
def assignment (g : Grammar) : Reader Expr := do
  let l ← line
  if (← read).yields && (← atWord "yield") then return ← yieldExpression g
  if let some f ← arrowFunction? g then return f
  let before := ← get
  let left ← conditional g
  match assignmentOp? (← get) with
  | none => return left
  | some (plain, rest) =>
    if plain && isPattern left then becomePattern before
    else unless isTarget left do failAt before.start
    resume rest
    discard g.assignment
    return .foreign l (.assignment plain)

/-- Reads an expression, which may have several parts with commas between them. -/
def expression (g : Grammar) : Reader Expr := do
  let l ← line
  let first ← g.assignment
  unless ← atMark .comma do return first
  loop () fun _ => do
    if ← skipMark .comma then
      discard g.assignment
      return .inl ()
    return .inr ()
  return .foreign l .sequence

end CommandFiles.Script.Reader
