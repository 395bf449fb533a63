import CommandFiles.Number.Shortest
import CommandFiles.Script.Reader.Type

/-!
# Reading patterns, functions and property names

A pattern gives the names it binds. Functions are read for their extent only: their text is kept by
whoever reads the expression or property they belong to.
-/

namespace CommandFiles.Script.Reader

/-! ## Property names -/

/-- Reads the name of a property: a word, a literal, or an expression in brackets. -/
def propertyKey (g : Grammar) : Reader Key := do
  match (← get).token with
  | .word w _ => advance; return .fixed w
  | .string v => advance; return .fixed v
  | .number v => advance; return .fixed (Number.Layout.plain.writeFloat v)
  | .bigNumber ds => advance; return .fixed ds
  | .mark .bracketOpen =>
    advance
    let e ← under (fun c => { c with inOperator := true }) g.assignment
    expectMark .bracketClose
    return .computed e
  | _ => fail

/-! ## Patterns -/

/-- Reads a pattern with the default value that may follow it. -/
def patternElement (g : Grammar) : Reader (List String) := do
  let names ← g.pattern
  if ← skipMark .assign then
    discard <| under (fun c => { c with inOperator := true }) g.assignment
  return names

/-- Reads the elements of an array pattern behind the opening bracket. -/
def arrayPattern (g : Grammar) : Reader (List String) := do
  let names ← commaSeparated .bracketClose do
    if ← atMark .comma then return []
    if ← skipMark .ellipsis then
      let names ← g.pattern
      unless ← atMark .bracketClose do fail
      return names
    patternElement g
  return names.flatten

/-- Reads a property of an object pattern. -/
def patternProperty (g : Grammar) : Reader (List String) := do
  if ← skipMark .ellipsis then
    let name ← identifier
    unless ← atMark .braceClose do fail
    return [name]
  let p ← peek
  if (← atIdentifier) && !p.isMark .colon then
    let name ← identifier
    if ← skipMark .assign then
      discard <| under (fun c => { c with inOperator := true }) g.assignment
    return [name]
  discard <| propertyKey g
  expectMark .colon
  patternElement g

/-- Reads a binding pattern. -/
def pattern (g : Grammar) : Reader (List String) := do
  if ← skipMark .bracketOpen then arrayPattern g
  else if ← skipMark .braceOpen then
    let names ← commaSeparated .braceClose (patternProperty g)
    return names.flatten
  else
    let name ← identifier
    return [name]

/-! ## Functions -/

/-- Goes past decorators. -/
def decorators (g : Grammar) : Reader Unit :=
  loop () fun _ => do
    if ← skipMark .decorator then
      discard g.leftHand
      return .inl ()
    return .inr ()

/-- Words that make a parameter of a constructor a field of its class. -/
def parameterModifiers : List String :=
  ["public", "private", "protected", "readonly", "override"]

/-- A parameter of a function: the names it binds, and whether it takes all further arguments. -/
structure Parameter where
  names : List String
  isRest : Bool := false

/-- Reads one parameter of a function; the type given to `this` is none. -/
def parameter (g : Grammar) : Reader (Option Parameter) := do
  decorators g
  let c ← read
  if c.typed then
    loop () fun _ => do
      if ← atOneOf parameterModifiers then
        let p ← peek
        if p.isAnyWord || p.isMark .braceOpen || p.isMark .bracketOpen then
          advance; return .inl ()
      return .inr ()
    if ← skipWord "this" then
      annotation? g
      return none
  if ← skipMark .ellipsis then
    let names ← g.pattern
    annotation? g
    unless ← atMark .parenClose do fail
    return some ⟨names, true⟩
  let names ← g.pattern
  if c.typed then discard <| skipMark .question
  annotation? g
  if ← skipMark .assign then
    discard <| under (fun c => { c with inOperator := true }) g.assignment
  return some ⟨names, false⟩

/-- Reads the parameters of a function, parentheses included. -/
def parameters (g : Grammar) : Reader (List Parameter) := do
  expectMark .parenOpen
  let found ← commaSeparated .parenClose (parameter g)
  return found.filterMap id

/-- Whether a function can be the accessor that its modifiers make it: one that gets a value has no
parameters, and one that sets a value has one, the value. -/
def accessorFits (modifiers : List String) (ps : List Parameter) : Bool :=
  if modifiers.contains "get" then ps.isEmpty
  else if modifiers.contains "set" then ps.length == 1 && ps.all (!·.isRest)
  else true

/-- Reads statements up to a closing brace, which is consumed. -/
def statements (g : Grammar) : Reader Unit :=
  loop () fun _ => do
    if ← skipMark .braceClose then return .inr ()
    g.statement .listed
    return .inl ()

/-- What the body of a function allows: `await` and `yield` by its kind, and returning. -/
def functionSetting (isAsync isGenerator : Bool) (c : Setting) : Setting :=
  { c with
    awaits := isAsync, yields := isGenerator, returns := true, inOperator := true,
    ambient := c.ambient, conditionalTypes := true, returnTypes := true }

/-- Reads the body of a function, braces included. -/
def functionBody (g : Grammar) : Reader Unit := do
  expectMark .braceOpen
  statements g

/-- Reads a function from its type parameters on; its parameters must fit. Names given belong to
its own scope. A function without a body is a signature, which only typed dialects have. -/
def functionRest (g : Grammar) (isAsync isGenerator bodyNeeded : Bool) (names : List String)
    (fits : List Parameter → Bool := fun _ => true) : Reader Unit :=
  inScope true <| under (functionSetting isAsync isGenerator) do
    typeParameters? g
    let place := (← get).start
    let ps ← parameters g
    unless fits ps do failAt place
    if (← read).typed then
      if ← skipMark .colon then returned g
    if ← atMark .braceOpen then functionBody g
    else if bodyNeeded || !(← read).typed then fail
    else semicolon
    return names ++ ps.flatMap (·.names)

/-- Reads a function expression, the words before it included. -/
def functionExpression (g : Grammar) : Reader Unit := do
  let isAsync ← skipWord "async"
  expectWord "function"
  let isGenerator ← skipMark .times
  let own := fun c : Setting => { c with awaits := isAsync, yields := isGenerator }
  let names ← under own do
    if ← atIdentifier then
      let name ← identifier
      return [name]
    else return []
  functionRest g isAsync isGenerator true names

/-- Reads a function declaration and gives its name. -/
def functionDeclaration (g : Grammar) (place : StatementPlace) (nameNeeded : Bool) :
    Reader (List String) := do
  let isAsync ← skipWord "async"
  expectWord "function"
  let isGenerator ← skipMark .times
  if place == .single && (isAsync || isGenerator) then fail
  let names ← do
    if nameNeeded || (← atIdentifier) then
      let name ← identifier
      pure [name]
    else pure []
  bindInBlock names
  functionRest g isAsync isGenerator false []
  return names

/-! ## Classes -/

/-- Words that may stand before a member of a class. -/
def memberModifiers : List String :=
  ["static", "async", "get", "set", "accessor"]

/-- Words that may stand before a member of a class in typed dialects. -/
def typedModifiers : List String :=
  ["public", "private", "protected", "readonly", "abstract", "override", "declare"]

/-- Reads the modifiers of a member and gives them in their order; an asterisk is one of them. -/
def modifiers : Reader (List String) := do
  let known := memberModifiers ++ (if (← read).typed then typedModifiers else [])
  let found ← loop [] fun (acc : List String) => do
    if ← skipMark .times then return .inl ("*" :: acc)
    match (← get).token with
    | .word w false =>
      let p ← peek
      let follows := p.isPropertyName || p.isMark .times || (w == "static" && p.isMark .braceOpen)
      let sameLine := w == "static" || w == "get" || w == "set" || !p.lineEnded
      if known.contains w && follows && sameLine then
        advance
        return .inl (w :: acc)
      return .inr acc
    | _ => return .inr acc
  return found.reverse

/-- Reads the name of a class member; `none` for a private or computed one. -/
def classKey (g : Grammar) : Reader (Option String) := do
  match (← get).token with
  | .privateWord w =>
    if w == "constructor" then fail
    advance
    return none
  | _ =>
    match ← propertyKey g with
    | .fixed name => return some name
    | .computed _ => return none

/-- Reads a member of a class. -/
def classMember (g : Grammar) : Reader Unit := do
  if ← skipMark .semicolon then return
  decorators g
  let start := (← get).start
  let mods ← modifiers
  if mods.getLast? == some "static" && (← skipMark .braceOpen) then
    inScope true do
      under (fun c => { c with awaits := true, yields := false, returns := false }) (statements g)
      return []
    return
  if (← read).typed && (← atMark .bracketOpen) then
    let signature ← attempt do
      advance
      indexSignature g
      semicolon
    if signature.isSome then return
  let key ← classKey g
  if (← read).typed then
    unless ← skipMark .question do discard <| skipMark .bang
  let isStatic := mods.contains "static"
  let isAsync := mods.contains "async"
  let isGenerator := mods.contains "*"
  let special := isAsync || isGenerator || mods.contains "get" || mods.contains "set"
  if (← atMark .parenOpen) || (← atMark .less) then
    if key == some "constructor" && !isStatic && special then failAt start
    if key == some "prototype" && isStatic then failAt start
    functionRest g isAsync isGenerator false [] (accessorFits mods)
  else
    if special then fail
    if key == some "constructor" then failAt start
    if key == some "prototype" && isStatic then failAt start
    annotation? g
    if ← skipMark .assign then
      inScope true do
        discard <| under (fun c => { c with
          awaits := false, yields := false, inOperator := true }) g.assignment
        return []
    semicolon

/-- Reads a class behind the word `class` and its name. -/
def classRest (g : Grammar) (names : List String) : Reader Unit :=
  inScope false do
    typeParameters? g
    if ← skipWord "extends" then
      discard g.leftHand
      if (← read).typed && (← atMark .less) then typeArguments g
    if (← read).typed && (← skipWord "implements") then
      loop () fun _ => do
        typeName g
        if ← skipMark .comma then return .inl ()
        return .inr ()
    expectMark .braceOpen
    loop () fun _ => do
      if ← skipMark .braceClose then return .inr ()
      classMember g
      return .inl ()
    return names

/-- Reads the name of a class, if it has one, behind the word `class`. -/
def className? : Reader (List String) := do
  if (← atIdentifier) && !((← read).typed && (← atWord "implements")) then
    let name ← identifier
    return [name]
  return []

/-- Reads a class expression. -/
def classExpression (g : Grammar) : Reader Unit := do
  expectWord "class"
  let names ← className?
  classRest g names

/-- Reads a class declaration and gives its name. -/
def classDeclaration (g : Grammar) (nameNeeded : Bool) : Reader (List String) := do
  expectWord "class"
  let names ← className?
  if nameNeeded && names.isEmpty then fail
  bindInBlock names
  classRest g []
  return names

end CommandFiles.Script.Reader
