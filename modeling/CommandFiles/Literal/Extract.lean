import CommandFiles.Literal.Fragment
import CommandFiles.Logged
import CommandFiles.Script.Walk
import CommandFiles.Value

/-!
# Finding option literals

A command file exports its options as an object literal under the name `OPTS` and the programs it
depends on as an array of literals under the name `DEPS`. Both are found without evaluating
anything.
-/

namespace CommandFiles.Literal

open CommandFiles.Script

/-- Why an export cannot be used, with the line of the export. -/
structure Refusal where
  reason : String
  line : Nat
  deriving DecidableEq, Repr

/-- The words of a refusal. -/
def Refusal.message (r : Refusal) : String := s!"{r.reason} (line {r.line})"

/-- The name under which options are exported. -/
def optionsName : String := "OPTS"

/-- The name under which dependencies are exported. -/
def dependenciesName : String := "DEPS"

/-- What the search for options has found: the properties of the literals so far, and where options
were imported from. -/
structure Found where
  properties : Option (List Property) := none
  importedFrom : Option String := none

/-- Takes the properties of an exported option literal, and notes an import of that name. -/
def findOptions (v : Visit) (found : Found) : Except Refusal Found :=
  match v.node with
  | .imported node =>
    .ok (if node.locals.contains optionsName then { found with importedFrom := some node.source }
      else found)
  | .exported node =>
    if !v.binds optionsName then .ok found
    else match node.variableNamed? optionsName with
      | none => .ok found
      | some d => match d.initial.map Expr.unwrapped with
        | none => .error ⟨"OPTS is exported without an initializer", node.line⟩
        | some (.object _ properties) =>
          .ok { found with properties := some (found.properties.getD [] ++ properties) }
        | some _ => .error ⟨"OPTS must be initialized with an object literal", node.line⟩
  | .exportedDefault _ => .ok found

/-- The option literal of a module, if it exports one. An import of options without an export gives
a warning. -/
def optionFragment (path : String) (o : Outline) : Logged (Except Refusal (Option Fragment)) :=
  match o.walk findOptions {} with
  | .error e => ⟨.error e, []⟩
  | .ok found =>
    let warnings := match found.properties, found.importedFrom with
      | none, some source => [Warning.optionsImported path source]
      | _, _ => []
    ⟨.ok (found.properties.map fun ps => ⟨path, ps⟩), warnings⟩

/-- The text of a literal that names a dependency. -/
def literalText? : Element → Option String
  | .item e => match e.unwrapped with
    | .string _ s => some s
    | .number _ x => some (numberText x)
    | .boolean _ b => some (if b then "true" else "false")
    | .template _ head [] => some head.cooked
    | _ => none
  | _ => none

/-- Takes the exported dependencies; the last export counts. -/
def findDependencies (v : Visit) (found : Option (List String)) :
    Except Refusal (Option (List String)) :=
  match v.node with
  | .exported node =>
    if !v.binds dependenciesName then .ok found
    else match ((node.variableNamed? dependenciesName).bind (·.initial)).map Expr.unwrapped with
      | some (.array _ elements) =>
        match elements.mapM literalText? with
        | some texts => .ok (some texts)
        | none => .error ⟨"DEPS entries must be string, number or boolean literals", node.line⟩
      | _ => .ok found
  | _ => .ok found

/-- The dependencies that a module exports, if it does. -/
def dependencies (o : Outline) : Except Refusal (Option (List String)) :=
  o.walk findDependencies none

end CommandFiles.Literal
