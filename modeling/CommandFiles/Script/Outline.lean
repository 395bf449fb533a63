import CommandFiles.Script.Expr

/-!
# Outline of a module

What a command file shows to the outside: its imports and exports, each at its place among the
scopes of the file, with the names that every scope binds. Scopes without imports and exports in
them leave no trace.
-/

namespace CommandFiles.Script

/-- A declared variable of an exported declaration; destructuring patterns have no name. -/
structure Declarator where
  name : Option String
  initial : Option Expr
  deriving Inhabited

/-- An import: what it imports from and the names it binds. -/
structure Import where
  line : Nat
  source : String
  locals : List String
  deriving Inhabited

/-- A named export with the variables it declares, if it declares any. -/
structure NamedExport where
  line : Nat
  declarators : List Declarator
  deriving Inhabited

/-- The default export; declarations of functions and classes have no expression. -/
structure DefaultExport where
  line : Nat
  expr : Option Expr
  deriving Inhabited

/-- An item of an outline, in the order of the text. A scope lists the names it binds. -/
inductive Item where
  | imported (node : Import)
  | exported (node : NamedExport)
  | exportedDefault (node : DefaultExport)
  | scope (names : List String) (items : List Item)
  deriving Inhabited

/-- The outline of a module: how many statements stand at its top, the names bound there, and its
items. -/
structure Outline where
  statements : Nat
  names : List String
  items : List Item
  deriving Inhabited

end CommandFiles.Script
