import CommandFiles.Literal.Source
import CommandFiles.Logged
import CommandFiles.Number.Binary
import CommandFiles.Path.Lexical

/-!
# Evaluating option literals

Nothing is run: the value of a literal follows from its text, the names given to it and the working
directory. A soft fault turns the property value, array element or spread argument around it into
`undefined`, with a warning; every other fault is a fault of the whole literal.
-/

namespace CommandFiles.Literal

open CommandFiles.Script

/-- What a literal is evaluated in: the path of its file, the values of names, and the directory
that relative paths start from. -/
structure Scene where
  path : String
  globals : Record Value
  directory : String

/-- An evaluation: a value or a fault, with warnings. -/
abbrev Eval := ExceptT Fault Logged

/-- Gives a warning on the way to a value. -/
def warn (w : Warning) : Eval Unit := ExceptT.lift (Logged.warn w)

/-- The member of a value under a name; nothing can be read from nullish values. -/
def readMember (target : Value) (key : String) : Except Fault Value :=
  match target with
  | .undefined | .null =>
    .error (.soft s!"Cannot read properties of {target.typeName} (reading '{key}')")
  | .object fields => .ok ((fields.get? key).getD .undefined)
  | .array items =>
    if key = "length" then .ok (.number (Number.ofNat items.length))
    else .ok (((position? key).bind (items[·]?)).getD .undefined)
  | .string s =>
    if key = "length" then .ok (.number (Number.ofNat s.length))
    else .ok (((position? key).bind (s.toList[·]?)).elim .undefined fun c =>
      .string (String.singleton c))
  | _ => .ok .undefined
where
  /-- The position that a key names: digits, perhaps behind a plus sign. -/
  position? (key : String) : Option Nat :=
    let digits := match key.toList with
      | '+' :: rest => rest
      | cs => cs
    if digits ≠ [] && digits.all Char.isDigit then some (Number.ofDigits 10 digits) else none

/-- Adds what a spread argument holds to an object: the fields of an object, or the items of an
array or string under their positions. Other values add nothing. -/
def spreadInto (object : Record Value) : Value → Record Value
  | .object fields => object.extend fields
  | .array items =>
    object.insertAll (items.zipIdx.map fun (v, i) => (toString i, v))
  | .string s =>
    object.insertAll (s.toList.zipIdx.map fun (c, i) => (toString i, .string (String.singleton c)))
  | _ => object

/-- The items that a spread argument adds to an array, if it can be spread there. -/
def spreadItems? : Value → Option (List Value)
  | .array items => some items
  | .string s => some (s.toList.map fun c => .string (String.singleton c))
  | _ => none

/-- The arguments of a helper as paths. -/
def pathArguments (h : Helper) : List Value → Except Fault (List (List Char))
  | [] => .ok []
  | .string s :: rest => (pathArguments h rest).map (s.toList :: ·)
  | v :: _ => .error
      (.soft s!"{h.name}: path arguments must be strings, got {v.typeName}")

/-- The first argument of a helper as a path, and the others. -/
def firstPath (h : Helper) (args : List Value) : Except Fault (List Char × List (List Char)) :=
  (pathArguments h args).bind fun paths =>
    match paths with
    | [] => .error (.soft s!"{h.name}: missing path argument")
    | first :: rest => .ok (first, rest)

/-- Calls a helper. -/
def applyHelper (directory : String) (h : Helper) (args : List Value) : Except Fault Value :=
  let result : Except Fault (List Char) := match h with
    | .string => .ok ((args.head?.map Value.text).getD "").toList
    | .join => (pathArguments h args).map Path.joinChars
    | .resolve => (pathArguments h args).map (Path.resolveChars directory.toList)
    | .dirname => (firstPath h args).map fun (p, _) => Path.dirnameChars p
    | .basename => (firstPath h args).map fun (p, rest) =>
        Path.withoutEnding (Path.basenameChars p) (rest.head?.getD [])
    | .extname => (firstPath h args).map fun (p, _) => Path.extnameChars p
  result.map fun cs => .string (String.ofList cs)

/-- The value of an operator with one operand, if the operator is supported. -/
def unaryValue? (op : UnaryOp) (v : Value) : Option Value :=
  match op with
  | .negate => some (.number (-v.toNumber))
  | .plus => some (.number v.toNumber)
  | .not => some (.boolean !v.isTruthy)
  | .typeOf => some (.string v.typeOf)
  | .void => some .undefined
  | .bitNot | .delete => none

/-- The value of an operator with two operands, if the operator is supported. -/
def binaryValue? (op : BinaryOp) (a b : Value) : Option Value :=
  match op with
  | .add => some (a.add b)
  | .subtract => some (.number (a.toNumber - b.toNumber))
  | .multiply => some (.number (a.toNumber * b.toNumber))
  | .divide => some (.number (a.toNumber / b.toNumber))
  | .remainder => some (.number (Number.remainder a.toNumber b.toNumber))
  | .identical => some (.boolean (a.identical b))
  | .notIdentical => some (.boolean !(a.identical b))
  | _ => none

/-- Whether the first operand of a logical operator is already its value. -/
def takesLeft (op : LogicalOp) (v : Value) : Bool :=
  match op with
  | .or => v.isTruthy
  | .and => !v.isTruthy
  | .coalesce => !v.isNullish

/-- The value of a name: a few names mean the same everywhere, the others are given. -/
def nameValue (s : Scene) (name : String) (line : Nat) : Except Fault Value :=
  match name with
  | "undefined" => .ok .undefined
  | "NaN" => .ok (.number Number.notANumber)
  | "Infinity" => .ok (.number Number.infinity)
  | _ => match s.globals.get? name with
    | some v => .ok v
    | none => .error (.unresolved name line)

/-- Turns a soft fault or a broken chain into `undefined`; soft faults give a warning. -/
def guarded (s : Scene) (line : Nat) (e : Eval Value) : Eval Value :=
  e.tryCatch fun
    | .soft reason => do
      warn (.valueFailed s.path line reason)
      return .undefined
    | .shortCircuit => return .undefined
    | fault => throw fault

/-- Ends an optional chain: a broken chain is `undefined`. -/
def endChain (e : Eval Value) : Eval Value :=
  e.tryCatch fun
    | .shortCircuit => return .undefined
    | fault => throw fault

/-- Breaks an optional chain at a nullish value. -/
def checkLink (optional : Bool) (target : Value) : Eval Unit :=
  if optional && target.isNullish then throw .shortCircuit else return

/-- What a method evaluates to: a function that is reached through an object around its text. -/
def methodValue (key text : String) : Value :=
  .function ("(\x7b " ++ text ++ " \x7d)[" ++ Json.quote key ++ "]")

/-- What was called, as messages give it. -/
def describeCallee (text : String) (v : Value) : String :=
  if text.isEmpty then v.typeName else s!"{text} ({v.typeName})"

mutual

/-- The value of an expression. -/
def eval (s : Scene) : Expr → Eval Value
  | .null _ => return .null
  | .boolean _ b => return .boolean b
  | .number _ x => return .number x
  | .string _ t => return .string t
  | .template _ head spans => do
    let rest ← evalSpans s spans
    return .string (head.cooked ++ rest)
  | .name line name => liftExcept (nameValue s name line)
  | .array _ elements => do
    let items ← evalElements s elements
    return .array items
  | .object _ properties => do
    let fields ← evalProperties s properties {}
    return .object fields
  | .member _ optional target key => do
    let t ← eval s target
    checkLink optional t
    liftExcept (readMember t key)
  | .index _ optional target key => do
    let t ← eval s target
    checkLink optional t
    let k ← eval s key
    liftExcept (readMember t k.text)
  | .call _ optional calleeText callee arguments => do
    let target ← eval s callee
    checkLink optional target
    let args ← evalArguments s arguments
    match target with
    | .helper h => liftExcept (applyHelper s.directory h args)
    | other => throw (.soft s!"{describeCallee calleeText other} is not a callable helper")
  | .chain line inner =>
    if isLink inner then endChain (eval s inner)
    else throw (.unsupported ⟨"optional chain element", line⟩)
  | .function _ text => return .function text
  | .unary line op operand => do
    let v ← eval s operand
    match unaryValue? op v with
    | some r => return r
    | none => throw (.unsupported ⟨"unary operator", line⟩)
  | .binary line op left right => do
    let a ← eval s left
    let b ← eval s right
    match binaryValue? op a b with
    | some r => return r
    | none => throw (.unsupported ⟨"binary operator", line⟩)
  | .logical _ op left right => do
    let a ← eval s left
    if takesLeft op a then return a else eval s right
  | .conditional _ test consequent alternate => do
    let t ← eval s test
    if t.isTruthy then eval s consequent else eval s alternate
  | .wrapped _ inner => eval s inner
  | .foreign line kind => throw (.unsupported ⟨kind.name, line⟩)

/-- The text of the expressions of a template with the text behind each. -/
def evalSpans (s : Scene) : List TemplateSpan → Eval String
  | [] => return ""
  | .mk e quasi :: rest => do
    let v ← eval s e
    let more ← evalSpans s rest
    return v.text ++ quasi.cooked ++ more

/-- The items of an array. -/
def evalElements (s : Scene) : List Element → Eval (List Value)
  | [] => return []
  | .item e :: rest => do
    let v ← guarded s e.line (eval s e)
    let more ← evalElements s rest
    return v :: more
  | .spread line e :: rest => do
    let v ← guarded s e.line (eval s e)
    let items ← match spreadItems? v with
      | some items => pure items
      | none => do
        warn (.valueFailed s.path line s!"{v.typeName} is not iterable")
        pure [.undefined]
    let more ← evalElements s rest
    return items ++ more
  | .hole :: rest => do
    let more ← evalElements s rest
    return .undefined :: more

/-- The arguments of a call; a fault in one is a fault of the call. -/
def evalArguments (s : Scene) : List Element → Eval (List Value)
  | [] => return []
  | .item e :: rest => do
    let v ← eval s e
    let more ← evalArguments s rest
    return v :: more
  | .spread _ e :: rest => do
    let v ← eval s e
    match v with
    | .array items => do
      let more ← evalArguments s rest
      return items ++ more
    | other => throw (.soft s!"{other.typeName} is not iterable")
  | .hole :: rest => evalArguments s rest

/-- The object that properties add to. -/
def evalProperties (s : Scene) : List Property → Record Value → Eval (Record Value)
  | [], object => return object
  | .value line key value :: rest, object => do
    let k ← evalKey s line key
    match k with
    | none => evalProperties s rest object
    | some name => do
      let v ← guarded s value.line (eval s value)
      evalProperties s rest (object.insert name v)
  | .method line key text :: rest, object => do
    let k ← evalKey s line key
    match k with
    | none => evalProperties s rest object
    | some name => evalProperties s rest (object.insert name (methodValue name text))
  | .accessor line key :: rest, object => do
    let k ← evalKey s line key
    match k with
    | none => evalProperties s rest object
    | some _ => throw (.unsupported ⟨"accessor property", line⟩)
  | .spread _ e :: rest, object => do
    let v ← guarded s e.line (eval s e)
    evalProperties s rest (spreadInto object v)

/-- The name of a property; `none` if a soft fault leaves it without one. -/
def evalKey (s : Scene) (line : Nat) : Key → Eval (Option String)
  | .fixed name => return some name
  | .computed e =>
    ExceptT.tryCatch (do
      let v ← eval s e
      return some v.text) fun
    | .soft reason => do
      warn (.keyFailed s.path line reason)
      return none
    | fault => throw fault

end

/-- Evaluates an option literal to an object with the path of its file as the last field. -/
def Fragment.evaluate (f : Fragment) (globals : Record Value) (directory : String) :
    Logged (Except Rejection Value) :=
  let s : Scene := ⟨f.path, globals, directory⟩
  let result := evalProperties s f.properties {}
  ⟨match result.run.value with
    | .ok object => .ok (.object (object.insert filePathKey (.string f.path)))
    | .error fault => .error (fault.rejection f.path f.source.toOption),
    result.run.warnings⟩

/-- Evaluates an expression of a file on its own. -/
def evaluateExpr (e : Expr) (path : String) (globals : Record Value) (directory : String) :
    Logged (Except Rejection Value) :=
  let s : Scene := ⟨path, globals, directory⟩
  let result := guarded s e.line (eval s e)
  ⟨result.run.value.mapError (·.rejection path none), result.run.warnings⟩

end CommandFiles.Literal
