import CommandFiles.Script.Reader.Expression

/-!
# Reading statements

Statements are read for the names they bind and for the scopes, imports and exports inside them.
Only exported variables keep their initial values.
-/

namespace CommandFiles.Script.Reader

/-! ## Variables -/

/-- How the names of a declaration are bound: in the function, in the block, or in the block for
good. -/
inductive VariableKind where
  | var | letting | const
  deriving DecidableEq

/-- What a variable declaration declares: the names it binds and its declarators. -/
structure Variables where
  names : List String
  declarators : List Declarator

/-- Binds the names of a declaration. -/
def bindVariables (kind : VariableKind) (names : List String) : Reader Unit :=
  if kind = .var then bindInFunction names else bindInBlock names

/-- Reads the declarators of a declaration. In the head of a loop over a collection the collection
gives the values, so nothing needs an initial value there. -/
def declaration (g : Grammar) (kind : VariableKind) (inLoop : Bool) : Reader Variables := do
  let declarator : Reader (List String × Declarator) := do
    let place := (← get).start
    let plain ← atIdentifier
    let names ← g.pattern
    bindVariables kind names
    if (← read).typed then
      unless (← get).lineEnded do discard <| skipMark .bang
      annotation? g
    let initial ← if ← skipMark .assign then pure (some (← g.assignment)) else pure none
    if initial.isNone && !(← read).ambient && !inLoop && (kind == .const || !plain) then
      let s ← get
      failAt (if plain then s.last else place)
    return (names, ⟨if plain then names.head? else none, initial⟩)
  let found ← loop [] fun (acc : List (List String × Declarator)) => do
    let d ← declarator
    if ← skipMark .comma then return .inl (d :: acc)
    return .inr (d :: acc)
  let found := found.reverse
  return ⟨found.flatMap (·.1), found.map (·.2)⟩

/-- Whether a variable declaration begins with the current word. -/
def variableKind? : Reader (Option VariableKind) := do
  let p ← peek
  match (← get).token with
  | .word "var" false => return some .var
  | .word "const" false => return some .const
  | .word "let" false =>
    let binds := match p.token with
      | .word w _ => !(w == "in" || w == "instanceof")
      | .mark .bracketOpen | .mark .braceOpen => true
      | _ => false
    return if binds then some .letting else none
  | .word "using" false =>
    let binds := match p.token with
      | .word w _ => !p.lineEnded && !reserved.contains w && w != "of" && w != "as"
      | _ => false
    return if binds then some .const else none
  | .word "await" false =>
    let q := Peek.ofText p.after
    return if p.isWord "using" && !p.lineEnded && q.isAnyWord && !q.lineEnded then some .const
      else none
  | _ => return none

/-- Whether the word `let` is an identifier in a statement: an operator, a point, an opening
parenthesis or a semicolon follows it. -/
def letIsName : Reader Bool := do
  let p ← peek
  return match p.token with
    | .word w _ => w == "in" || w == "instanceof"
    | .mark m => !([.braceOpen, .braceClose, .parenClose, .bracketOpen, .bracketClose, .ellipsis,
        .comma, .question, .questionDot, .colon, .arrow, .decorator, .hash, .increment, .decrement,
        .bang, .tilde].contains m)
    | _ => false

/-- Goes past the words that a variable declaration begins with. -/
def variableWords : Reader Unit := do
  if ← skipWord "await" then advance else advance

/-! ## Declarations of typed dialects -/

/-- Reads an enumeration behind the word `enum`. -/
def enumeration (g : Grammar) : Reader (List String) := do
  let name ← identifier
  bindInBlock [name]
  expectMark .braceOpen
  discard <| commaSeparated .braceClose do
    enumName
    if ← skipMark .assign then discard g.assignment
  return [name]
where
  /-- The name of a member is a word or a string, or a constant text in brackets. -/
  enumName : Reader Unit := do
    if ← skipMark .bracketOpen then
      match (← get).token with
      | .string _ | .piece _ true => advance
      | _ => fail
      expectMark .bracketClose
    else match (← get).token with
      | .word _ _ | .string _ => advance
      | _ => fail

/-- Reads the body of a namespace, braces included; it is a scope as that of a function is. -/
def namespaceBody (g : Grammar) : Reader Unit :=
  inScope true do
    expectMark .braceOpen
    under (fun c => { c with returns := false }) (statements g)
    return []

/-- Reads a namespace behind its word. A dotted name stands for namespaces inside one another. -/
def namespaceRest (g : Grammar) : Reader (List String) := do
  let name ← identifier
  bindInBlock [name]
  let inner ← loop [] fun (acc : List String) => do
    if ← skipMark .dot then return .inl (acc ++ [← anyWord])
    return .inr acc
  nested inner
  return [name]
where
  /-- Each further name is bound in the namespace before it. -/
  nested : List String → Reader Unit
    | [] => namespaceBody g
    | name :: rest => inScope true do
      nested rest
      return [name]

/-- Reads a module declaration with a quoted name, behind the word `module`. -/
def quotedModule (g : Grammar) : Reader Unit := do
  discard stringLiteral
  if ← atMark .braceOpen then namespaceBody g else semicolon

/-- Reads an interface behind its word. -/
def interfaceRest (g : Grammar) : Reader (List String) := do
  let name ← identifier
  bindInBlock [name]
  typeParameters? g
  if ← skipWord "extends" then
    loop () fun _ => do
      typeName g
      if ← skipMark .comma then return .inl ()
      return .inr ()
  typeMembers g
  return [name]

/-- Reads a type alias behind its word. -/
def typeAlias (g : Grammar) : Reader (List String) := do
  let name ← identifier
  bindInBlock [name]
  typeParameters? g
  expectMark .assign
  g.type
  semicolon
  return [name]

/-- Reads what an import gives a name to, behind the equals sign. -/
def importedEntity : Reader Unit := do
  if (← atWord "require") && (← peek).isMark .parenOpen then
    advance
    expectMark .parenOpen
    discard stringLiteral
    expectMark .parenClose
  else
    discard anyWord
    loop () fun _ => do
      if ← skipMark .dot then discard anyWord; return .inl ()
      return .inr ()
  semicolon

/-- Whether a declaration of a typed dialect begins with the current word. -/
def atTypedDeclaration : Reader Bool := do
  unless (← read).typed do return false
  let p ← peek
  match (← get).token with
  | .word "enum" false => return true
  | .word "interface" false | .word "type" false | .word "namespace" false =>
    return p.isAnyWord && !p.lineEnded
  | .word "module" false =>
    let named := match p.token with
      | .word _ _ | .string _ => true
      | _ => false
    return named && !p.lineEnded
  | .word "abstract" false => return p.isWord "class" && !p.lineEnded
  | .word "declare" false => return p.isAnyWord && !p.lineEnded
  | .word "global" false => return p.isMark .braceOpen && !p.lineEnded
  | _ => return false

/-- Whether a class declaration begins here. -/
def atClass : Reader Bool := do
  return (← atWord "class") || (← atMark .decorator)

/-- Reads a declaration that an export can stand before, if one begins here. The second argument
bounds how many words can stand before it. -/
def declaration? (g : Grammar) (place : StatementPlace) : Nat → Reader (Option Variables)
  | 0 => return none
  | n + 1 => do
    let named := fun names => (some ⟨names, []⟩ : Option Variables)
    if (← atTypedDeclaration) then
      match (← get).token with
      | .word "enum" _ => advance; return named (← enumeration g)
      | .word "interface" _ => advance; return named (← interfaceRest g)
      | .word "type" _ => advance; return named (← typeAlias g)
      | .word "namespace" _ => advance; return named (← namespaceRest g)
      | .word "global" _ => advance; namespaceBody g; return named []
      | .word "module" _ =>
        advance
        match (← get).token with
        | .string _ => quotedModule g; return named []
        | _ => return named (← namespaceRest g)
      | .word "abstract" _ => advance; return named (← classDeclaration g true)
      | _ =>
        advance
        under (fun c => { c with ambient := true }) (declaration? g place n)
    else if (← read).typed && (← atWord "const") && (← peek).isWord "enum" then
      advance
      advance
      return named (← enumeration g)
    else if ← atFunction then return named (← functionDeclaration g place true)
    else if ← atClass then
      if place == .single then fail
      decorators g
      if (← read).typed then discard <| skipWord "abstract"
      return named (← classDeclaration g true)
    else
      if (← atWord "let") && (← variableKind?).isNone && !(← letIsName) then advance; fail
      match ← variableKind? with
      | some kind =>
        if place == .single && kind != .var then fail
        variableWords
        let vs ← declaration g kind false
        semicolon
        return some vs
      | none => return none

/-! ## Statements -/

/-- Reads a block, braces included. -/
def block (g : Grammar) : Reader Unit :=
  inScope false do
    expectMark .braceOpen
    statements g
    return []

/-- Reads an expression in parentheses. -/
def parenthesized (g : Grammar) : Reader Unit := do
  expectMark .parenOpen
  discard <| under (fun c => { c with inOperator := true }) g.expression
  expectMark .parenClose

/-- Reads the rest of the head of a counting loop, behind its first semicolon. -/
def countingHead (g : Grammar) : Reader Unit := do
  unless ← atMark .semicolon do discard g.expression
  expectMark .semicolon
  unless ← atMark .parenClose do discard g.expression
  expectMark .parenClose

/-- Reads the rest of the head of a loop over a collection, if one follows. -/
def collectionHead? (g : Grammar) : Reader Bool := do
  if ← skipWord "of" then
    discard g.assignment
    expectMark .parenClose
    return true
  if ← skipWord "in" then
    discard g.expression
    expectMark .parenClose
    return true
  return false

/-- Reads the head of a `for` loop behind its opening parenthesis. -/
def forHead (g : Grammar) : Reader Unit := do
  if ← skipMark .semicolon then
    countingHead g
    return
  match ← variableKind? with
  | some kind =>
    let place := (← get).start
    variableWords
    let vs ← under (fun c => { c with inOperator := false }) (declaration g kind true)
    if ← collectionHead? g then return
    let bare := vs.declarators.any fun d =>
      d.initial.isNone && (kind == .const || d.name.isNone)
    if bare then failAt place
    expectMark .semicolon
    countingHead g
  | none =>
    let before := ← get
    if (← atWord "async") && (← peek).isWord "of" then
      unless (Peek.ofText (← peek).after).isMark .arrow do fail
    let e ← under (fun c => { c with inOperator := false }) g.expression
    if (← atWord "of") || (← atWord "in") then
      unless isPattern e || isTarget e do failAt before.start
      becomePattern before
      discard <| collectionHead? g
    else
      expectMark .semicolon
      countingHead g

/-- Reads a `for` loop. -/
def forLoop (g : Grammar) : Reader Unit := do
  expectWord "for"
  if (← read).awaits then discard <| skipWord "await"
  expectMark .parenOpen
  inScope false do
    under (fun c => { c with inOperator := true }) (forHead g)
    g.statement .single
    return []

/-- Reads the cases of a `switch`; they share one scope. -/
def cases (g : Grammar) : Reader Unit :=
  inScope false do
    expectMark .braceOpen
    loop () fun _ => do
      if ← skipMark .braceClose then return .inr ()
      if ← skipWord "default" then expectMark .colon
      else
        expectWord "case"
        discard g.expression
        expectMark .colon
      loop () fun _ => do
        if (← atWord "case") || (← atWord "default") || (← atMark .braceClose) then
          return .inr ()
        g.statement .listed
        return .inl ()
      return .inl ()
    return []

/-- Reads a `try` with what catches and what finishes it. -/
def tryStatement (g : Grammar) : Reader Unit := do
  expectWord "try"
  block g
  let caught ← skipWord "catch"
  if caught then
    inScope false do
      let names ← if ← skipMark .parenOpen then
          let names ← g.pattern
          annotation? g
          expectMark .parenClose
          pure names
        else pure []
      block g
      return names
  if ← skipWord "finally" then block g
  else unless caught do fail

/-- Reads the label that a jump may name. -/
def jumpLabel : Reader Unit := do
  unless (← get).lineEnded do
    if ← atIdentifier then discard identifier
  semicolon

/-- Reads an expression as a statement, or a label with its statement. -/
def expressionOrLabel (g : Grammar) : Reader Unit := do
  let p ← peek
  if (← atIdentifier) && p.isMark .colon then
    advance
    advance
    g.statement .single
  else
    discard g.expression
    semicolon

/-- Reads a statement that begins with a word or a mark of its own; says whether one did. -/
def keywordStatement? (g : Grammar) : Reader Bool := do
  match (← get).token with
  | .mark .braceOpen => block g; return true
  | .mark .semicolon => advance; return true
  | .word "if" false =>
    advance
    parenthesized g
    g.statement .single
    if ← skipWord "else" then g.statement .single
    return true
  | .word "for" false => forLoop g; return true
  | .word "while" false =>
    advance
    parenthesized g
    g.statement .single
    return true
  | .word "do" false =>
    advance
    g.statement .single
    expectWord "while"
    parenthesized g
    discard <| skipMark .semicolon
    return true
  | .word "return" false =>
    unless (← read).returns do fail
    advance
    let s ← get
    let bare := s.lineEnded || (match s.token with
      | .mark .semicolon | .mark .braceClose | .endOfText => true
      | _ => false)
    unless bare do discard g.expression
    semicolon
    return true
  | .word "break" false | .word "continue" false => advance; jumpLabel; return true
  | .word "throw" false =>
    advance
    if (← get).lineEnded then fail
    discard g.expression
    semicolon
    return true
  | .word "try" false => tryStatement g; return true
  | .word "switch" false =>
    advance
    parenthesized g
    cases g
    return true
  | .word "with" false =>
    advance
    parenthesized g
    g.statement .single
    return true
  | .word "debugger" false => advance; semicolon; return true
  | _ => return false

/-- Reads a statement that is neither an import nor an export. -/
def plainStatement (g : Grammar) (place : StatementPlace) : Reader Unit :=
  under (fun c => { c with inOperator := true, returnTypes := true }) do
    if ← keywordStatement? g then return
    if (← declaration? g place (← read).fuel).isSome then return
    expressionOrLabel g

end CommandFiles.Script.Reader
