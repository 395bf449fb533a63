import CommandFiles.Script.Reader

/-!
# Reading type annotations

Types are read and dropped: a literal means the same with and without them.
-/

namespace CommandFiles.Script.Reader

/-- Goes past an opening angle bracket, which may be the first character of a longer mark. -/
def skipAngleOpen : Reader Bool := do
  let s ← get
  match s.token with
  | .mark .less | .mark .shiftLeft => resume (s.start.drop 1); return true
  | _ => return false

/-- Reads the arguments of a generic type, brackets included. -/
def typeArguments (g : Grammar) : Reader Unit := do
  unless ← skipAngleOpen do fail
  if ← atMark .greater then fail
  discard <| commaSeparated .greater g.type

/-- Reads the parameters of a generic declaration, if there are any. -/
def typeParameters? (g : Grammar) : Reader Unit := do
  unless (← read).typed do return
  unless ← atMark .less do return
  advance
  if ← atMark .greater then fail
  discard <| commaSeparated .greater do
    loop () fun _ => do
      if ← atOneOf ["const", "in", "out"] then
        if (← peek).isAnyWord || (← atWord "const") || (← atWord "in") then
          advance; return .inl ()
      return .inr ()
    discard anyWord
    if ← skipWord "extends" then g.type
    if ← skipMark .assign then g.type

/-- Reads a type annotation, if there is one. -/
def annotation? (g : Grammar) : Reader Unit := do
  if (← read).typed then
    if ← skipMark .colon then g.type

/-- Reads what a function returns: a type, or a statement about one of its arguments. -/
def returned (g : Grammar) : Reader Unit := do
  if ← atWord "asserts" then
    let p ← peek
    if p.isAnyWord && !p.lineEnded && !p.isWord "is" then
      advance
      advance
      if ← skipWord "is" then g.type
      return
  match (← get).token with
  | .word _ _ =>
    let p ← peek
    if p.isWord "is" && !p.lineEnded then
      advance
      advance
      g.type
    else g.type
  | _ => g.type

/-- Reads the parameters of a function type. -/
def typedParameters (g : Grammar) : Reader Unit := do
  expectMark .parenOpen
  discard <| commaSeparated .parenClose do
    discard <| skipMark .ellipsis
    unless ← skipWord "this" do discard g.pattern
    discard <| skipMark .question
    annotation? g

/-- Reads a name with dots and, behind it, type arguments. -/
def typeName (g : Grammar) : Reader Unit := do
  discard anyWord
  loop () fun _ => do
    if ← skipMark .dot then
      match (← get).token with
      | .privateWord _ => advance
      | _ => discard anyWord
      return .inl ()
    return .inr ()
  let s ← get
  unless s.lineEnded do
    match s.token with
    | .mark .less | .mark .shiftLeft => typeArguments g
    | _ => return

/-- Reads the name of a member of an object type or an interface. -/
def memberName (g : Grammar) : Reader Unit := do
  match (← get).token with
  | .word _ _ | .string _ | .number _ | .bigNumber _ | .privateWord _ => advance
  | .mark .bracketOpen =>
    advance
    discard g.assignment
    expectMark .bracketClose
  | _ => fail

/-- Reads an index signature behind its opening bracket. -/
def indexSignature (g : Grammar) : Reader Unit := do
  discard anyWord
  expectMark .colon
  g.type
  expectMark .bracketClose
  annotation? g

/-- Whether the current word is a modifier: another member name follows it. -/
def atModifier (words : List String) : Reader Bool := do
  if ← atOneOf words then
    let p ← peek
    return p.isPropertyName && !p.lineEnded
  return false

/-- Reads a member of an object type or an interface. -/
def typeMember (g : Grammar) : Reader Unit := do
  loop () fun _ => do
    if ← atModifier ["readonly", "get", "set"] then advance; return .inl ()
    return .inr ()
  if (← atMark .parenOpen) || (← atMark .less) then
    typeParameters? g
    typedParameters g
    if ← skipMark .colon then returned g
    return
  if (← atWord "new") && ((← peek).isMark .parenOpen || (← peek).isMark .less) then
    advance
    typeParameters? g
    typedParameters g
    if ← skipMark .colon then returned g
    return
  if ← atMark .bracketOpen then
    if let some () ← attempt (do advance; indexSignature g) then return
  memberName g
  discard <| skipMark .question
  if (← atMark .parenOpen) || (← atMark .less) then
    typeParameters? g
    typedParameters g
    if ← skipMark .colon then returned g
  else annotation? g

/-- Reads the members of an object type or an interface, braces included. -/
def typeMembers (g : Grammar) : Reader Unit := do
  expectMark .braceOpen
  loop () fun _ => do
    if ← skipMark .braceClose then return .inr ()
    typeMember g
    if ← skipMark .semicolon then return .inl ()
    if ← skipMark .comma then return .inl ()
    if (← atMark .braceClose) || (← get).lineEnded then return .inl ()
    fail

/-- Reads a mapped type behind its opening brace. -/
def mappedType (g : Grammar) : Reader Unit := do
  expectMark .braceOpen
  if (← skipMark .plus) || (← skipMark .minus) then expectWord "readonly"
  else if (← atWord "readonly") && (← peek).isMark .bracketOpen then advance
  expectMark .bracketOpen
  discard anyWord
  expectWord "in"
  g.type
  if ← skipWord "as" then g.type
  expectMark .bracketClose
  if (← skipMark .plus) || (← skipMark .minus) then expectMark .question
  else discard <| skipMark .question
  annotation? g
  discard <| skipMark .semicolon
  discard <| skipMark .comma
  expectMark .braceClose

/-- Reads an element of a tuple type. -/
def tupleElement (g : Grammar) : Reader Unit := do
  discard <| skipMark .ellipsis
  match (← get).token with
  | .word _ _ =>
    let p ← peek
    let labelled := p.isMark .colon ||
      (p.isMark .question && (Peek.ofText p.after).isMark .colon)
    if labelled then
      advance
      discard <| skipMark .question
      expectMark .colon
  | _ => pure ()
  g.type
  discard <| skipMark .question

/-- Goes past the types in a template literal type, whose first piece is the current token. -/
def templateType (g : Grammar) : Reader Unit := do
  let last ← match (← get).token with
    | .piece _ last => pure last
    | _ => fail
  advance
  if last then return
  loop () fun _ => do
    g.type
    unless ← atMark .braceClose do fail
    let (token, rest) ← liftScan (scanPiece (← get).start)
    resume rest
    match token with
    | .piece _ true => return .inr ()
    | _ => return .inl ()
where
  /-- A scanner as a reader. -/
  liftScan (r : Scan Token) : Reader (Token × List Char) := fun _ s => r.map (·, s)

/-- Reads a type that no operator stands before or behind. -/
def primaryType (g : Grammar) : Reader Unit := do
  match (← get).token with
  | .string _ | .number _ | .bigNumber _ => advance
  | .piece _ _ => templateType g
  | .mark .minus =>
    advance
    match (← get).token with
    | .number _ | .bigNumber _ => advance
    | _ => fail
  | .mark .braceOpen =>
    match ← attempt (mappedType g) with
    | some () => return
    | none => typeMembers g
  | .mark .bracketOpen =>
    advance
    discard <| commaSeparated .bracketClose (tupleElement g)
  | .mark .parenOpen =>
    advance
    under (fun c => { c with conditionalTypes := true }) g.type
    expectMark .parenClose
  | .word "typeof" false =>
    advance
    if (← atWord "import") then importType g else typeName g
  | .word "import" false => importType g
  | .word w _ =>
    if ["this", "void", "null", "true", "false"].contains w then advance
    else if reserved.contains w then fail
    else typeName g
  | _ => fail
where
  /-- Reads a type taken from another module. -/
  importType (g : Grammar) : Reader Unit := do
    advance
    expectMark .parenOpen
    g.type
    if ← skipMark .comma then discard g.assignment
    expectMark .parenClose
    loop () fun _ => do
      if ← skipMark .dot then discard anyWord; return .inl ()
      return .inr ()
    if ← atMark .less then typeArguments g

/-- Reads a type with the array and index brackets behind it. -/
def postfixType (g : Grammar) : Reader Unit := do
  primaryType g
  loop () fun _ => do
    if (← get).lineEnded then return .inr ()
    if ← skipMark .bracketOpen then
      if ← skipMark .bracketClose then return .inl ()
      under (fun c => { c with conditionalTypes := true }) g.type
      expectMark .bracketClose
      return .inl ()
    if ← skipMark .bang then return .inl ()
    return .inr ()

/-- Reads a type with the operators before it. -/
def operatorType (g : Grammar) : Reader Unit := do
  loop () fun _ => do
    if ← atOneOf ["keyof", "unique", "readonly"] then
      let p ← peek
      let operand := p.isAnyWord || p.isMark .braceOpen || p.isMark .bracketOpen ||
        p.isMark .parenOpen || (match p.token with | .string _ | .piece _ _ => true | _ => false)
      if operand then advance; return .inl ()
    return .inr ()
  if (← atWord "infer") && (← peek).isAnyWord then
    advance
    discard anyWord
    discard <| attempt do
      expectWord "extends"
      under (fun c => { c with conditionalTypes := false }) g.type
      if (← read).conditionalTypes && (← atMark .question) then fail
  else postfixType g

/-- Reads types with a mark between them; the mark may also stand before the first. -/
def markedTypes (mark : Mark) (item : Reader Unit) : Reader Unit := do
  discard <| skipMark mark
  item
  loop () fun _ => do
    if ← skipMark mark then item; return .inl ()
    return .inr ()

/-- Reads the type of a function. -/
def functionType (g : Grammar) : Reader Unit := do
  typeParameters? g
  typedParameters g
  expectMark .arrow
  returned g

/-- Reads a type. -/
def type (g : Grammar) : Reader Unit := do
  if (← atWord "abstract") && (← peek).isWord "new" then advance
  if ← atWord "new" then
    advance
    functionType g
  else if ← atMark .less then functionType g
  else
    if ← atMark .parenOpen then
      if let some () ← attempt (functionType g) then return
    markedTypes .bitOr (markedTypes .bitAnd (operatorType g))
    let s ← get
    if (← read).conditionalTypes && !s.lineEnded && (← atWord "extends") then
      advance
      under (fun c => { c with conditionalTypes := false }) g.type
      expectMark .question
      g.type
      expectMark .colon
      g.type

end CommandFiles.Script.Reader
