import CommandFiles.Script.Token

/-!
# Expressions

The expressions that an option literal may be made of, with the line each begins on. Expressions
outside that subset keep nothing but their kind. Functions keep their text, since they are never run
while a literal is read.
-/

namespace CommandFiles.Script

/-- Operators with one operand. -/
inductive UnaryOp where
  | negate | plus | not | bitNot | typeOf | void | delete
  deriving DecidableEq, Repr, Inhabited

/-- Operators with two operands that are both evaluated. -/
inductive BinaryOp where
  | add | subtract | multiply | divide | remainder | power
  | equal | notEqual | identical | notIdentical
  | less | lessEqual | greater | greaterEqual
  | shiftLeft | shiftRight | shiftRightUnsigned
  | bitAnd | bitOr | bitXor | inside | instanceOf
  deriving DecidableEq, Repr, Inhabited

/-- Operators whose second operand is evaluated only if it is needed. -/
inductive LogicalOp where
  | or | and | coalesce
  deriving DecidableEq, Repr, Inhabited

/-- How an operator is written. -/
def UnaryOp.text : UnaryOp → String
  | negate => "-" | plus => "+" | not => "!" | bitNot => "~"
  | typeOf => "typeof" | void => "void" | delete => "delete"

/-- Whether an operator is written as a word. -/
def UnaryOp.isWord : UnaryOp → Bool
  | typeOf | void | delete => true
  | _ => false

/-- How an operator is written. -/
def BinaryOp.text : BinaryOp → String
  | add => "+" | subtract => "-" | multiply => "*" | divide => "/" | remainder => "%"
  | power => "**" | equal => "==" | notEqual => "!=" | identical => "===" | notIdentical => "!=="
  | less => "<" | lessEqual => "<=" | greater => ">" | greaterEqual => ">="
  | shiftLeft => "<<" | shiftRight => ">>" | shiftRightUnsigned => ">>>"
  | bitAnd => "&" | bitOr => "|" | bitXor => "^" | inside => "in" | instanceOf => "instanceof"

/-- How an operator is written. -/
def LogicalOp.text : LogicalOp → String
  | or => "||" | and => "&&" | coalesce => "??"

/-- Kinds of expressions that no option literal may contain. An assignment is plain if its operator
is a bare equals sign: inside an assignment pattern it then gives a default. -/
inductive ForeignKind where
  | assignment (plain : Bool)
  | await | bigNumber | classExpr | importCall | metaProperty | new | privateField | privateIn
  | regularExpression | sequence | super | taggedTemplate | this | update | yield | markup
  deriving DecidableEq, Repr, Inhabited

/-- The name of a kind, as messages give it. -/
def ForeignKind.name : ForeignKind → String
  | assignment _ => "AssignmentExpression"
  | await => "AwaitExpression"
  | bigNumber => "BigIntLiteral"
  | classExpr => "ClassExpression"
  | importCall => "ImportExpression"
  | metaProperty => "MetaProperty"
  | new => "NewExpression"
  | privateField => "PrivateFieldExpression"
  | privateIn => "PrivateInExpression"
  | regularExpression => "RegExpLiteral"
  | sequence => "SequenceExpression"
  | super => "Super"
  | taggedTemplate => "TaggedTemplateExpression"
  | this => "ThisExpression"
  | update => "UpdateExpression"
  | yield => "YieldExpression"
  | markup => "JSXElement"

/-- The text of a template between two expressions, as it reads and as it is written. -/
structure Quasi where
  cooked : String
  raw : String
  deriving DecidableEq, Repr, Inhabited

mutual

/-- An expression. Parentheses and type annotations are kept as `wrapped`, because they end an
optional chain and because the line of a wrapped expression is the line of its wrapping. -/
inductive Expr where
  | null (line : Nat)
  | boolean (line : Nat) (value : Bool)
  | number (line : Nat) (value : Float)
  | string (line : Nat) (value : String)
  | template (line : Nat) (head : Quasi) (spans : List TemplateSpan)
  | name (line : Nat) (name : String)
  | array (line : Nat) (elements : List Element)
  | object (line : Nat) (properties : List Property)
  | member (line : Nat) (optional : Bool) (target : Expr) (key : String)
  | index (line : Nat) (optional : Bool) (target : Expr) (key : Expr)
  | call (line : Nat) (optional : Bool) (calleeText : String) (callee : Expr)
      (arguments : List Element)
  | chain (line : Nat) (inner : Expr)
  | function (line : Nat) (text : String)
  | unary (line : Nat) (op : UnaryOp) (operand : Expr)
  | binary (line : Nat) (op : BinaryOp) (left right : Expr)
  | logical (line : Nat) (op : LogicalOp) (left right : Expr)
  | conditional (line : Nat) (test consequent alternate : Expr)
  | wrapped (line : Nat) (inner : Expr)
  | foreign (line : Nat) (kind : ForeignKind)

/-- An expression of a template with the text behind it. -/
inductive TemplateSpan where
  | mk (expr : Expr) (quasi : Quasi)

/-- An element of an array or an argument of a call; only arrays have holes. -/
inductive Element where
  | item (expr : Expr)
  | spread (line : Nat) (expr : Expr)
  | hole

/-- A property of an object literal. A method keeps the text of the whole property. -/
inductive Property where
  | value (line : Nat) (key : Key) (value : Expr)
  | method (line : Nat) (key : Key) (text : String)
  | accessor (line : Nat) (key : Key)
  | spread (line : Nat) (expr : Expr)

/-- The key of a property: a fixed name, or an expression in brackets. -/
inductive Key where
  | fixed (name : String)
  | computed (expr : Expr)

end

instance : Inhabited Expr := ⟨.null 0⟩

/-- The line an expression begins on. -/
def Expr.line : Expr → Nat
  | null l | boolean l _ | number l _ | string l _ | template l _ _ | name l _ | array l _
  | object l _ | member l _ _ _ | index l _ _ _ | call l _ _ _ _ | chain l _ | function l _
  | unary l _ _ | binary l _ _ _ | logical l _ _ _ | conditional l _ _ _ | wrapped l _
  | foreign l _ => l

/-- The expression without the parentheses and type annotations around it. -/
def Expr.unwrapped : Expr → Expr
  | wrapped _ e => e.unwrapped
  | e => e

end CommandFiles.Script
