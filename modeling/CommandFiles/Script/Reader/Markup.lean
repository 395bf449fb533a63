import CommandFiles.Script.Reader.Function

/-!
# Reading markup

Elements and fragments are read for their extent only. Their text and their attributes have a
spelling of their own, so both are scanned from positions and not from tokens. A rule for an element
leaves the closing angle bracket as the current token: what follows it is markup or script, as the
place of the element decides.
-/

namespace CommandFiles.Script.Reader

/-- Scans a name in markup, where a minus sign is a letter like others. -/
def markupWord : Reader String := do
  let s ← get
  match s.start with
  | c :: _ =>
    unless Text.isIdentifierStart c do fail
    let belongs := fun c => Text.isIdentifierPart c || c == '-'
    resume (s.start.dropWhile belongs)
    return String.ofList (s.start.takeWhile belongs)
  | [] => fail

/-- Reads the name of an element with its colons or dots. -/
def markupName : Reader (List String) := do
  let first ← markupWord
  let rest ← loop [] fun (acc : List String) => do
    if (← skipMark .dot) || (← skipMark .colon) then return .inl ((← markupWord) :: acc)
    return .inr acc
  return first :: rest.reverse

/-- Reads the value of an attribute behind its equals sign, which is the current token. -/
def markupValue (g : Grammar) : Reader Unit := do
  let text := (← get).after
  match skipTrivia .between false text with
  | .error e => failAt e.rest
  | .ok (_, rest) => match rest with
    | c :: inner =>
      if c == '"' || c == '\'' then
        match inner.dropWhile (· != c) with
        | _ :: behind => resume behind
        | [] => failAt rest
      else
        advance
        if ← skipMark .braceOpen then
          discard <| under (fun c => { c with inOperator := true }) g.expression
          expectMark .braceClose
        else
          g.markup
          expectMark .greater
    | [] => failAt rest

/-- Reads attributes up to the end of a tag. -/
def markupAttributes (g : Grammar) : Reader Unit :=
  loop () fun _ => do
    if (← atMark .greater) || (← atMark .slash) then return .inr ()
    if ← skipMark .braceOpen then
      expectMark .ellipsis
      discard g.assignment
      expectMark .braceClose
    else
      discard markupName
      if ← atMark .assign then markupValue g
    return .inl ()

/-- Reads the children of an element from a position on, and the tag that closes it. -/
def markupChildren (g : Grammar) (name : List String) (text : List Char) : Reader Unit :=
  loop text fun text => do
    let own := text.takeWhile fun c => c != '{' && c != '<'
    if own.any fun c => c == '>' || c == '}' then
      failAt (text.dropWhile fun c => c != '>' && c != '}')
    resume (text.drop own.length)
    if ← skipMark .braceOpen then
      unless ← atMark .braceClose do
        if ← skipMark .ellipsis then discard g.assignment
        else discard <| under (fun c => { c with inOperator := true }) g.expression
      unless ← atMark .braceClose do fail
      return .inl (← get).after
    let isAngle := match (← get).start with
      | '<' :: _ => true
      | _ => false
    unless isAngle do fail
    let rest := (← get).start.drop 1
    let closing := match (Peek.ofText rest).token with
      | .mark .slash => true
      | _ => false
    if closing then
      resume rest
      advance
      let closed ← if ← atMark .greater then pure [] else markupName
      unless closed == name do fail
      unless ← atMark .greater do fail
      return .inr ()
    g.markup
    return .inl (← get).after

/-- Reads an element or a fragment up to its last angle bracket, which stays the current token. -/
def markup (g : Grammar) : Reader Unit := do
  resume ((← get).start.drop 1)
  if ← atMark .greater then markupChildren g [] (← get).after
  else
    let name ← markupName
    if (← read).typed && (← atMark .less) then typeArguments g
    markupAttributes g
    if ← skipMark .slash then
      unless ← atMark .greater do fail
    else markupChildren g name (← get).after

end CommandFiles.Script.Reader
