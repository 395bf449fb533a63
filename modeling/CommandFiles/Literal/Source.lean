import CommandFiles.Literal.Fault
import CommandFiles.Literal.Fragment
import CommandFiles.Value.Source

/-!
# Writing option literals

Option literals are written anew from their syntax, one property a line. Functions, methods and the
text of templates stand as they were written; operands that could be read otherwise are put in
parentheses.
-/

namespace CommandFiles.Literal

open CommandFiles.Script

/-- The source of a piece of syntax, or what in it has none. -/
abbrev Written := Except Unsupported String

/-- Whether an expression needs parentheses as an operand. -/
def isCompound : Expr → Bool
  | .binary _ _ _ _ | .logical _ _ _ _ | .conditional _ _ _ _ | .unary _ _ _ | .function _ _
  | .object _ _ => true
  | _ => false

/-- Puts an operand in parentheses if it needs them. -/
def parenthesize (e : Expr) (text : String) : String :=
  if isCompound e.unwrapped then "(" ++ text ++ ")" else text

/-- Whether an expression is a link that an optional chain can end with. -/
def isLink : Expr → Bool
  | .call _ _ _ _ _ | .member _ _ _ _ | .index _ _ _ _ => true
  | _ => false

/-- A hole at the end of an array needs a comma of its own. -/
def closeHole (entries : List String) : List String :=
  if entries.getLast? = some "" then entries ++ [""] else entries

mutual

/-- Writes an expression whose line is indented to a depth. -/
def exprSource (depth : Nat) : Expr → Written
  | .null _ => .ok "null"
  | .boolean _ b => .ok (if b then "true" else "false")
  | .number _ x => .ok (numberText x)
  | .string _ s => .ok (Json.quote s)
  | .template _ head spans => do
    let rest ← spanSources depth spans
    return "`" ++ head.raw ++ rest ++ "`"
  | .name _ name => .ok name
  | .array _ elements => do
    let entries ← elementSources (depth + 1) elements
    return Value.brackets (closeHole entries) depth
  | .object _ properties => do
    let entries ← propertySources (depth + 1) properties
    return Value.braces entries depth
  | .member _ optional target key => do
    let t ← exprSource depth target
    return parenthesize target t ++ (if optional then "?." else ".") ++ key
  | .index _ optional target key => do
    let t ← exprSource depth target
    let k ← exprSource depth key
    return parenthesize target t ++ (if optional then "?." else "") ++ "[" ++ k ++ "]"
  | .call _ optional _ callee arguments => do
    let args ← elementSources depth arguments
    let c ← exprSource depth callee
    return parenthesize callee c ++ (if optional then "?." else "") ++
      "(" ++ ", ".intercalate args ++ ")"
  | .chain line inner =>
    if isLink inner then exprSource depth inner
    else .error ⟨"optional chain element", line⟩
  | .function _ text => .ok text
  | .unary _ op operand => do
    let o ← exprSource depth operand
    return op.text ++ (if op.isWord then " " else "") ++ parenthesize operand o
  | .binary _ op left right => do
    let l ← exprSource depth left
    let r ← exprSource depth right
    return parenthesize left l ++ " " ++ op.text ++ " " ++ parenthesize right r
  | .logical _ op left right => do
    let l ← exprSource depth left
    let r ← exprSource depth right
    return parenthesize left l ++ " " ++ op.text ++ " " ++ parenthesize right r
  | .conditional _ test consequent alternate => do
    let t ← exprSource depth test
    let c ← exprSource depth consequent
    let a ← exprSource depth alternate
    return parenthesize test t ++ " ? " ++ parenthesize consequent c ++ " : " ++
      parenthesize alternate a
  | .wrapped _ inner => exprSource depth inner
  | .foreign line kind => .error ⟨kind.name, line⟩

/-- Writes the expressions of a template with the text behind each. -/
def spanSources (depth : Nat) : List TemplateSpan → Written
  | [] => .ok ""
  | .mk e quasi :: rest => do
    let t ← exprSource depth e
    let more ← spanSources depth rest
    return "$\x7b" ++ t ++ "\x7d" ++ quasi.raw ++ more

/-- Writes the elements of an array or the arguments of a call. -/
def elementSources (depth : Nat) : List Element → Except Unsupported (List String)
  | [] => .ok []
  | .item e :: rest => do
    let t ← exprSource depth e
    let more ← elementSources depth rest
    return t :: more
  | .spread _ e :: rest => do
    let t ← exprSource depth e
    let more ← elementSources depth rest
    return ("..." ++ t) :: more
  | .hole :: rest => do
    let more ← elementSources depth rest
    return "" :: more

/-- Writes the properties of an object literal. -/
def propertySources (depth : Nat) : List Property → Except Unsupported (List String)
  | [] => .ok []
  | .value _ key value :: rest => do
    let k ← keySource depth key
    let v ← exprSource depth value
    let more ← propertySources depth rest
    return (k ++ ": " ++ v) :: more
  | .method _ _ text :: rest => do
    let more ← propertySources depth rest
    return text :: more
  | .accessor line _ :: _ => .error ⟨"accessor property", line⟩
  | .spread _ e :: rest => do
    let t ← exprSource depth e
    let more ← propertySources depth rest
    return ("..." ++ t) :: more

/-- Writes the key of a property. -/
def keySource (depth : Nat) : Key → Written
  | .fixed name => .ok (Value.keySource name)
  | .computed e => do
    let t ← exprSource depth e
    return "[" ++ t ++ "]"

end

/-- Writes an option literal with the path of its file as the last field. -/
def Fragment.source (f : Fragment) : Written := do
  let entries ← propertySources 1 f.properties
  return Value.braces (entries ++ [filePathKey ++ ": " ++ Json.quote f.path]) 0

end CommandFiles.Literal
