import CommandFiles.Script.Reader.Statement

/-!
# Reading modules

Imports, exports and the module as a whole. A module is rejected if two of its exports have one name
(typed dialects may declare a name several times), or if an object literal has a default value and
is not used as a pattern.
-/

namespace CommandFiles.Script.Reader

/-- Notes that the module exports names; only exports at its top count. -/
def noteExports (place : StatementPlace) (names : List String) (start : List Char) : Reader Unit :=
  when (place == .top) <|
    modify fun s => { s with exports := s.exports ++ names.map (·, start) }
where
  /-- Runs a reader under a condition. -/
  when (b : Bool) (r : Reader Unit) : Reader Unit := if b then r else return

/-- Reads the attributes of an import or export, if it has any. -/
def attributes? (g : Grammar) : Reader Unit := do
  if (← atWord "with") || ((← atWord "assert") && !(← get).lineEnded) then
    advance
    expectMark .braceOpen
    discard <| commaSeparated .braceClose do
      match ← propertyKey g with
      | .computed _ => fail
      | .fixed _ => pure ()
      expectMark .colon
      discard stringLiteral

/-! ## Imports -/

/-- Whether the word `type` here marks the name behind it and is not a name itself. -/
def atTypeModifier : Reader Bool := do
  unless (← read).typed && (← atWord "type") do return false
  let p ← peek
  let q := Peek.ofText p.after
  return match p.token with
    | .word "as" _ => !q.isAnyWord || (q.isWord "as" && (Peek.ofText q.after).isAnyWord)
    | .word _ _ | .string _ => true
    | _ => false

/-- Reads one name in the braces of an import and gives the name it is bound to. -/
def importSpecifier : Reader String := do
  if ← atTypeModifier then advance
  match (← get).token with
  | .string _ =>
    advance
    expectWord "as"
    identifier
  | .word _ _ =>
    if (← peek).isWord "as" then
      advance
      advance
      identifier
    else identifier
  | _ => fail

/-- Reads the names an import binds, up to the word `from`. -/
def importNames : Reader (List String) := do
  let first ← if ← atIdentifier then
      let name ← identifier
      pure [name]
    else pure []
  if first.isEmpty || (← skipMark .comma) then
    if ← skipMark .times then
      expectWord "as"
      let name ← identifier
      return first ++ [name]
    expectMark .braceOpen
    let names ← commaSeparated .braceClose importSpecifier
    return first ++ names
  return first

/-- Whether a word behind `import` or `export` is a modifier and not a name. -/
def atPhase (w : String) : Reader Bool := do
  unless ← atWord w do return false
  let p ← peek
  match p.token with
  | .word "from" _ => return (Peek.ofText p.after).isWord "from"
  | .word _ _ => return true
  | .mark .braceOpen | .mark .times => return true
  | _ => return false

/-- Reads an import declaration; `none` for an import that gives a name to another name. -/
def importDeclaration (g : Grammar) : Reader (Option Import) := do
  let l ← line
  expectWord "import"
  if let .string source := (← get).token then
    advance
    attributes? g
    semicolon
    return some ⟨l, source, []⟩
  let typed := (← read).typed
  if typed && (← atPhase "type") then advance
  else if (← atWord "defer") && (← peek).isMark .times then advance
  else if (← atWord "source") && (← peek).isAnyWord && !(← peek).isWord "from" then advance
  if typed && (← atIdentifier) && (← peek).isMark .assign then
    let name ← identifier
    bindInBlock [name]
    advance
    importedEntity
    return none
  let locals ← importNames
  bindInBlock locals
  expectWord "from"
  let source ← stringLiteral
  attributes? g
  semicolon
  return some ⟨l, source, locals⟩

/-- Reads an import declaration and records it. -/
def importStatement (g : Grammar) : Reader Unit := do
  if let some node ← importDeclaration g then
    modify fun s => { s with items := .imported node :: s.items }

/-! ## Exports -/

/-- A name in the braces of an export: whether it can be a local name, and the name it is exported
under. -/
structure ExportSpecifier where
  isLocal : Bool
  place : List Char
  exported : String

/-- Reads a name as a module may export it: a word or a string. -/
def exportableName : Reader (Bool × String) := do
  match (← get).token with
  | .word w _ => advance; return (!reserved.contains w, w)
  | .string v => advance; return (false, v)
  | _ => fail

/-- Reads one name in the braces of an export. -/
def exportSpecifier : Reader ExportSpecifier := do
  let place := (← get).start
  if ← atTypeModifier then advance
  let (isLocal, name) ← exportableName
  if ← skipWord "as" then
    let (_, exported) ← exportableName
    return ⟨isLocal, place, exported⟩
  return ⟨isLocal, place, name⟩

/-- Reads an export of names in braces. -/
def exportNames (g : Grammar) (place : StatementPlace) : Reader Unit := do
  expectMark .braceOpen
  let names ← commaSeparated .braceClose exportSpecifier
  if ← skipWord "from" then
    discard stringLiteral
    attributes? g
  else if let some wrong := names.find? (!·.isLocal) then failAt wrong.place
  semicolon
  for s in names do noteExports place [s.exported] s.place

/-- Reads an export of everything another module exports, behind the asterisk. -/
def exportAll (g : Grammar) (place : StatementPlace) : Reader Unit := do
  let start := (← get).start
  if ← skipWord "as" then
    let (_, name) ← exportableName
    noteExports place [name] start
  expectWord "from"
  discard stringLiteral
  attributes? g
  semicolon

/-- Reads a default export behind its words; an expression is kept, a declaration is not. -/
def exportDefault (g : Grammar) : Reader (Option Expr) := do
  if ← atFunction then
    discard <| functionDeclaration g .listed false
    return none
  if ← atClass then
    decorators g
    discard <| skipWord "abstract"
    discard <| classDeclaration g false
    return none
  let p ← peek
  if (← read).typed && !p.lineEnded then
    if (← atWord "abstract") && p.isWord "class" then
      advance
      discard <| classDeclaration g false
      return none
    if (← atWord "interface") && p.isAnyWord then
      advance
      discard <| interfaceRest g
      return none
  let e ← under (fun c => { c with inOperator := true, returnTypes := true }) g.assignment
  semicolon
  return some e

/-- Reads an export. -/
def exportStatement (g : Grammar) (place : StatementPlace) : Reader Unit := do
  let l ← line
  let start := (← get).start
  expectWord "export"
  let typed := (← read).typed
  let named := fun (declared : List Declarator) => Item.exported ⟨l, declared⟩
  if ← skipWord "default" then
    noteExports place ["default"] start
    discard <| recording (fun e => .exportedDefault ⟨l, e⟩) (exportDefault g)
  else if ← skipMark .times then exportAll g place
  else if ← atMark .braceOpen then
    recording (fun _ => named []) (exportNames g place)
  else if typed && (← atWord "type") && (← peek).isMark .braceOpen then
    advance
    recording (fun _ => named []) (exportNames g place)
  else if typed && (← atWord "type") && (← peek).isMark .times then
    advance
    advance
    exportAll g place
  else if typed && (← skipMark .assign) then
    discard g.expression
    semicolon
  else if typed && (← atWord "as") && (← peek).isWord "namespace" then
    advance
    advance
    discard identifier
    semicolon
  else if typed && (← atWord "import") then
    recording (fun _ => named []) (discard <| importDeclaration g)
  else
    let declared ← recording (fun vs => named (vs.elim [] Variables.declarators)) <|
      under (fun c => { c with inOperator := true, returnTypes := true })
        (declaration? g .listed (← read).fuel)
    match declared with
    | none => fail
    | some vs => noteExports place vs.names start

/-- Reads a statement. -/
def statement (g : Grammar) (place : StatementPlace) : Reader Unit := do
  if ← atWord "import" then
    let p ← peek
    unless p.isMark .parenOpen || p.isMark .dot do
      importStatement g
      return
  if ← atWord "export" then
    exportStatement g place
    return
  if ← atMark .decorator then
    let exported ← attempt do
      decorators g
      unless ← atWord "export" do fail
    if exported.isSome then
      exportStatement g place
      return
  plainStatement g place

end Reader

/-! ## The grammar -/

/-- The rules of the grammar with those they refer to one level deeper. At depth zero nothing can be
read. -/
def Grammar.upTo : Nat → Grammar
  | 0 =>
    ⟨Reader.fail, Reader.fail, Reader.fail, fun _ => Reader.fail, Reader.fail, Reader.fail,
      Reader.fail, Reader.fail, Reader.fail, fun _ => Reader.fail⟩
  | n + 1 =>
    { expression := fun c s => Reader.expression (upTo n) c s
      assignment := fun c s => Reader.assignment (upTo n) c s
      unary := fun c s => Reader.unary (upTo n) c s
      binary := fun level c s => Reader.binary (upTo n) level c s
      leftHand := fun c s => Reader.leftHand (upTo n) c s
      constructed := fun c s => Reader.constructed (upTo n) c s
      pattern := fun c s => Reader.pattern (upTo n) c s
      type := fun c s => Reader.type (upTo n) c s
      markup := fun c s => Reader.markup (upTo n) c s
      statement := fun place c s => Reader.statement (upTo n) place c s }

namespace Reader

/-- Whether a directive begins here: a string literal that is a statement of its own. -/
def atDirective : Reader Bool := do
  match (← get).token with
  | .string _ =>
    let p ← peek
    match p.token with
    | .mark .semicolon | .endOfText => return true
    | .mark m => return p.lineEnded && [.braceOpen, .bang, .tilde, .increment, .decrement,
        .decorator].contains m
    | .word w _ => return p.lineEnded && w != "in" && w != "instanceof"
    | .piece _ _ => return false
    | _ => return p.lineEnded
  | _ => return false

/-- Reads the statements of a module up to its end; directives at its beginning are not counted. -/
def moduleStatements (g : Grammar) : Reader Nat :=
  loop (0, true) fun ((count, inPrologue) : Nat × Bool) => do
    if let .endOfText := (← get).token then return .inr count
    let directive ← if inPrologue then atDirective else pure false
    g.statement .top
    return .inl (if directive then (count, true) else (count + 1, false))

/-- The first exported name that was exported before, by the place where it was. -/
def repeatedExport? : List (String × List Char) → Option (List Char)
  | [] => none
  | (name, place) :: rest =>
    if rest.any (·.1 == name) then some place else repeatedExport? rest

/-- Reads a module. -/
def moduleOutline (g : Grammar) : Reader Outline := do
  let statements ← moduleStatements g
  let s ← get
  if let some place := s.defaults.getLast? then failAt place
  unless (← read).typed do
    if let some place := repeatedExport? s.exports then failAt place
  return ⟨statements, s.blockNames ++ s.functionNames, s.items.reverse⟩

end Reader

/-! ## Reading a text -/

/-- The language a file is written in. -/
structure Dialect where
  typed : Bool
  markup : Bool
  deriving DecidableEq, Repr

/-- The dialect that the extension of a file stands for. -/
def Dialect.ofExtension : Option String → Dialect
  | some "jsx" => ⟨false, true⟩
  | some "ts" | some "mts" | some "cts" => ⟨true, false⟩
  | some "tsx" => ⟨true, true⟩
  | _ => ⟨false, false⟩

/-- A position in a text: its line, counted by line feeds, and the byte in that line, both from
one on. -/
structure Position where
  line : Nat
  column : Nat
  deriving DecidableEq, Repr

/-- The position that lies behind a beginning of a text. -/
def Position.behind (text : List Char) : Position :=
  let lastLine := text.reverse.takeWhile (· != '\n')
  ⟨text.count '\n' + 1, (String.ofList lastLine).utf8ByteSize + 1⟩

/-- Reads the outline of a module. A text that does not fit the grammar gives the position of the
first token that does not fit. -/
def Outline.read (dialect : Dialect) (text : String) : Except Position Outline :=
  let source := text.toList
  let setting : Setting :=
    { typed := dialect.typed, markup := dialect.markup, lineFeeds := source.count '\n',
      fuel := source.length + 2 }
  let state : State :=
    { token := .endOfText, lineEnded := false, start := source, after := source, last := source }
  let reader : Reader Outline := do
    Reader.resume (skipInterpreterLine source)
    Reader.moduleOutline (Grammar.upTo (8 * source.length + 16))
  match reader setting state with
  | .ok (outline, _) => .ok outline
  | .error e => .error (Position.behind (source.take (source.length - e.rest.length)))

end CommandFiles.Script
