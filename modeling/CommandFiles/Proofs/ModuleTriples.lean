import CommandFiles.Proofs.ExpressionTriples
import CommandFiles.Script.Reader.Module

/-! # Chains end in modules

The variables of an exported declaration are the only expressions that a module records. At depth
zero the rules of the grammar read nothing, and at each further depth they keep the invariant because
those one level deeper do; so chains end in whatever the outline of a text exports. -/
namespace CommandFiles.Script

open Std.Do

set_option mvcgen.warning false

namespace Reader

variable {g : Grammar} [g.ChainsEnd]

/-! ## Variables -/

/-- Whether chains end in the initial values of variables. -/
def Variables.ChainsEnd (vs : Variables) : Prop := ∀ d ∈ vs.declarators, d.ChainsEnd

@[spec] theorem bindVariables_spec (kind : VariableKind) (names : List String) :
    ⦃kept⦄ bindVariables kind names ⦃⇓? _ => kept⦄ := by
  mvcgen [bindVariables]

@[spec] theorem declaration_spec (kind : VariableKind) (inLoop : Bool) :
    ⦃kept⦄ declaration g kind inLoop ⦃⇓? vs => keptAnd vs.ChainsEnd⦄ := by
  have hloop := @loop_keeps (List (List String × Declarator)) (List (List String × Declarator))
    (∀ d ∈ ·, d.2.ChainsEnd) (∀ d ∈ ·, d.2.ChainsEnd)
  mvcgen [declaration, hloop] with grind [Declarator.ChainsEnd, Variables.ChainsEnd]

@[spec] theorem variableKind?_spec : ⦃kept⦄ variableKind? ⦃⇓? _ => kept⦄ := by
  mvcgen [variableKind?]

@[spec] theorem letIsName_spec : ⦃kept⦄ letIsName ⦃⇓? _ => kept⦄ := by
  mvcgen [letIsName]

@[spec] theorem variableWords_spec : ⦃kept⦄ variableWords ⦃⇓? _ => kept⦄ := by
  mvcgen [variableWords]

/-! ## Declarations of typed dialects -/

@[spec] theorem enumeration_enumName_spec : ⦃kept⦄ enumeration.enumName ⦃⇓? _ => kept⦄ := by
  mvcgen [enumeration.enumName] with grind

@[spec] theorem enumeration_spec : ⦃kept⦄ enumeration g ⦃⇓? _ => kept⦄ := by
  mvcgen [enumeration] with grind

@[spec] theorem namespaceBody_spec : ⦃kept⦄ namespaceBody g ⦃⇓? _ => kept⦄ := by
  mvcgen [namespaceBody]

@[spec] theorem namespaceRest_nested_spec (names : List String) :
    ⦃kept⦄ namespaceRest.nested g names ⦃⇓? _ => kept⦄ := by
  induction names with
  | nil => mvcgen [namespaceRest.nested]
  | cons name rest ih => mvcgen [namespaceRest.nested, ih]

@[spec] theorem namespaceRest_spec : ⦃kept⦄ namespaceRest g ⦃⇓? _ => kept⦄ := by
  mvcgen [namespaceRest]

@[spec] theorem quotedModule_spec : ⦃kept⦄ quotedModule g ⦃⇓? _ => kept⦄ := by
  mvcgen [quotedModule]

@[spec] theorem interfaceRest_spec : ⦃kept⦄ interfaceRest g ⦃⇓? _ => kept⦄ := by
  mvcgen [interfaceRest]

@[spec] theorem typeAlias_spec : ⦃kept⦄ typeAlias g ⦃⇓? _ => kept⦄ := by
  mvcgen [typeAlias]

@[spec] theorem importedEntity_spec : ⦃kept⦄ importedEntity ⦃⇓? _ => kept⦄ := by
  mvcgen [importedEntity]

@[spec] theorem atTypedDeclaration_spec : ⦃kept⦄ atTypedDeclaration ⦃⇓? _ => kept⦄ := by
  mvcgen [atTypedDeclaration]

@[spec] theorem atClass_spec : ⦃kept⦄ atClass ⦃⇓? _ => kept⦄ := by
  mvcgen [atClass]

/-- Declarations other than those of variables declare nothing with an initial value. The induction
is on the number of words that may stand before a declaration. -/
@[spec] theorem declaration?_spec (place : StatementPlace) (n : Nat) :
    ⦃kept⦄ declaration? g place n ⦃⇓? o => keptAnd (∀ vs ∈ o, vs.ChainsEnd)⦄ := by
  induction n with
  | zero =>
    mvcgen [declaration?]
    grind
  | succ n ih => mvcgen [declaration?, ih] with grind [Variables.ChainsEnd]

/-! ## Statements -/

@[spec] theorem block_spec : ⦃kept⦄ block g ⦃⇓? _ => kept⦄ := by
  mvcgen [block]

@[spec] theorem parenthesized_spec : ⦃kept⦄ parenthesized g ⦃⇓? _ => kept⦄ := by
  mvcgen [parenthesized] with grind

@[spec] theorem countingHead_spec : ⦃kept⦄ countingHead g ⦃⇓? _ => kept⦄ := by
  mvcgen [countingHead] with grind

@[spec] theorem collectionHead?_spec : ⦃kept⦄ collectionHead? g ⦃⇓? _ => kept⦄ := by
  mvcgen [collectionHead?] with grind

@[spec] theorem forHead_spec : ⦃kept⦄ forHead g ⦃⇓? _ => kept⦄ := by
  mvcgen [forHead] with grind

@[spec] theorem forLoop_spec : ⦃kept⦄ forLoop g ⦃⇓? _ => kept⦄ := by
  mvcgen [forLoop]

@[spec] theorem cases_spec : ⦃kept⦄ cases g ⦃⇓? _ => kept⦄ := by
  mvcgen [cases] with grind

@[spec] theorem tryStatement_spec : ⦃kept⦄ tryStatement g ⦃⇓? _ => kept⦄ := by
  mvcgen [tryStatement] with grind

@[spec] theorem jumpLabel_spec : ⦃kept⦄ jumpLabel ⦃⇓? _ => kept⦄ := by
  mvcgen [jumpLabel]

@[spec] theorem expressionOrLabel_spec : ⦃kept⦄ expressionOrLabel g ⦃⇓? _ => kept⦄ := by
  mvcgen [expressionOrLabel] with grind

@[spec] theorem keywordStatement?_spec : ⦃kept⦄ keywordStatement? g ⦃⇓? _ => kept⦄ := by
  mvcgen [keywordStatement?] with grind

@[spec] theorem plainStatement_spec (place : StatementPlace) :
    ⦃kept⦄ plainStatement g place ⦃⇓? _ => kept⦄ := by
  mvcgen [plainStatement] with grind

/-! ## Imports and exports -/

@[spec] theorem noteExports_spec (place : StatementPlace) (names : List String)
    (start : List Char) : ⦃kept⦄ noteExports place names start ⦃⇓? _ => kept⦄ := by
  mvcgen [noteExports, noteExports.when]

@[spec] theorem attributes?_spec : ⦃kept⦄ attributes? g ⦃⇓? _ => kept⦄ := by
  mvcgen [attributes?] with grind

@[spec] theorem atTypeModifier_spec : ⦃kept⦄ atTypeModifier ⦃⇓? _ => kept⦄ := by
  mvcgen [atTypeModifier]

@[spec] theorem importSpecifier_spec : ⦃kept⦄ importSpecifier ⦃⇓? _ => kept⦄ := by
  mvcgen [importSpecifier] with grind

@[spec] theorem importNames_spec : ⦃kept⦄ importNames ⦃⇓? _ => kept⦄ := by
  mvcgen [importNames]

@[spec] theorem atPhase_spec (w : String) : ⦃kept⦄ atPhase w ⦃⇓? _ => kept⦄ := by
  mvcgen [atPhase]

@[spec] theorem importDeclaration_spec : ⦃kept⦄ importDeclaration g ⦃⇓? _ => kept⦄ := by
  mvcgen [importDeclaration]

@[spec] theorem exportableName_spec : ⦃kept⦄ exportableName ⦃⇓? _ => kept⦄ := by
  mvcgen [exportableName] with grind

@[spec] theorem exportSpecifier_spec : ⦃kept⦄ exportSpecifier ⦃⇓? _ => kept⦄ := by
  mvcgen [exportSpecifier]

/-- The names are noted in a loop behind either form of the export. -/
@[spec] theorem exportNames_spec (place : StatementPlace) :
    ⦃kept⦄ exportNames g place ⦃⇓? _ => kept⦄ := by
  mvcgen [exportNames]
  invariants
  · ⇓? _ => kept
  · ⇓? _ => kept

@[spec] theorem exportAll_spec (place : StatementPlace) :
    ⦃kept⦄ exportAll g place ⦃⇓? _ => kept⦄ := by
  mvcgen [exportAll]

@[spec] theorem exportDefault_spec : ⦃kept⦄ exportDefault g ⦃⇓? _ => kept⦄ := by
  mvcgen [exportDefault] with grind

theorem chainsEnd_imported (node : Import) : (Item.imported node).ChainsEnd := by
  intro scopes v hv
  rw [visitsOfItem, List.mem_singleton] at hv
  rw [hv]
  trivial

theorem chainsEnd_exportedDefault (node : DefaultExport) :
    (Item.exportedDefault node).ChainsEnd := by
  intro scopes v hv
  rw [visitsOfItem, List.mem_singleton] at hv
  rw [hv]
  trivial

theorem chainsEnd_exported {l : Nat} {declarators : List Declarator}
    (h : ∀ d ∈ declarators, d.ChainsEnd) : (Item.exported ⟨l, declarators⟩).ChainsEnd := by
  intro scopes v hv
  rw [visitsOfItem, List.mem_singleton] at hv
  rw [hv]
  exact h

theorem chainsEnd_declared (l : Nat) (o : Option Variables) (h : ∀ vs ∈ o, vs.ChainsEnd) :
    (Item.exported ⟨l, o.elim [] Variables.declarators⟩).ChainsEnd := by
  refine chainsEnd_exported ?_
  cases o with
  | none => nofun
  | some vs => exact h vs rfl

@[spec] theorem importStatement_spec : ⦃kept⦄ importStatement g ⦃⇓? _ => kept⦄ := by
  mvcgen [importStatement] with grind [State.ChainsEnd, chainsEnd_imported]

@[spec] theorem exportStatement_spec (place : StatementPlace) :
    ⦃kept⦄ exportStatement g place ⦃⇓? _ => kept⦄ := by
  have hdeclared := @recording_keeps (Option Variables) (∀ vs ∈ ·, vs.ChainsEnd)
  mvcgen [exportStatement, hdeclared] with
    grind [chainsEnd_exported, chainsEnd_exportedDefault, chainsEnd_declared]

@[spec] theorem statement_spec (place : StatementPlace) :
    ⦃kept⦄ statement g place ⦃⇓? _ => kept⦄ := by
  mvcgen [statement] with grind

/-! ## Modules -/

@[spec] theorem atDirective_spec : ⦃kept⦄ atDirective ⦃⇓? _ => kept⦄ := by
  mvcgen [atDirective]

@[spec] theorem moduleStatements_spec : ⦃kept⦄ moduleStatements g ⦃⇓? _ => kept⦄ := by
  mvcgen [moduleStatements]

@[spec] theorem moduleOutline_spec :
    ⦃kept⦄ moduleOutline g ⦃⇓? o => keptAnd (∀ i ∈ o.items, i.ChainsEnd)⦄ := by
  mvcgen [moduleOutline] with grind [State.ChainsEnd]

end Reader

open Reader in
theorem chainsEnd_upTo (n : Nat) : (Grammar.upTo n).ChainsEnd := by
  induction n with
  | zero =>
    have fails := fun {α : Type} => @triple_of_fail α
    exact {
      expression := fails
      assignment := fails
      unary := fails
      binary := fun _ => fails
      leftHand := fails
      constructed := fails
      pattern := fails
      type := fails
      markup := fails
      statement := fun _ => fails }
  | succ n ih =>
    exact {
      expression := expression_spec
      assignment := assignment_spec
      unary := unary_spec
      binary := binary_spec
      leftHand := leftHand_spec
      constructed := constructed_spec
      pattern := pattern_spec
      type := type_spec
      markup := markup_spec
      statement := statement_spec }

open Reader in
/-- Chains end in all that a text exports. -/
theorem chainsEnd_of_read {dialect : Dialect} {text : String} {o : Outline}
    (h : Outline.read dialect text = .ok o) : ∀ i ∈ o.items, i.ChainsEnd := by
  have hg := chainsEnd_upTo (8 * text.toList.length + 16)
  have hread : ⦃fun _ s => ⌜s.items = []⌝⦄
      (do
        resume (skipInterpreterLine text.toList)
        moduleOutline (Grammar.upTo (8 * text.toList.length + 16)) : Reader Outline)
      ⦃⇓? o => keptAnd (∀ i ∈ o.items, i.ChainsEnd)⦄ := by
    mvcgen with grind [State.ChainsEnd]
  rw [Outline.read] at h
  split at h
  · rename_i hr
    cases h
    exact (run_of_triple (P := fun s => s.items = [])
      (Q := fun o s => (∀ i ∈ o.items, i.ChainsEnd) ∧ s.ChainsEnd) hread rfl hr).1
  · cases h

end CommandFiles.Script
