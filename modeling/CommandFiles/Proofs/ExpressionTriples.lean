import CommandFiles.Proofs.ReaderTriples
import CommandFiles.Script.Reader.Expression

/-! # Chains end in expressions

The rule for chains is the only one that makes optional links, and it puts the whole chain into one
expression as soon as it has made one. While the chain is read, what it has come to may have open
links only if that has happened. All other rules put together expressions in which chains end. -/
namespace CommandFiles.Script.Reader

open Std.Do

set_option mvcgen.warning false

variable {g : Grammar} [g.ChainsEnd]

/-! ## Literals -/

@[spec] theorem template_scan_spec (r : Scan Token) :
    Triple (m := Reader) (template.scan r) kept (⇓? _ => kept) :=
  kept_of_scan fun _ _ => rfl

@[spec] theorem template_quasi_spec (tagged : Bool) :
    ⦃kept⦄ template.quasi tagged ⦃⇓? _ => kept⦄ := by
  mvcgen [template.quasi] with grind

@[spec] theorem template_spec (tagged : Bool) :
    ⦃kept⦄ template g tagged ⦃⇓? t => keptAnd (spansEnd t.2)⦄ := by
  have hloop := @loop_keeps (List TemplateSpan) (List TemplateSpan)
    (∀ span ∈ ·, span.ChainsEnd) (∀ span ∈ ·, span.ChainsEnd)
  mvcgen [template, hloop] with grind [spansEnd_iff, TemplateSpan.ChainsEnd, State.ChainsEnd]

@[spec] theorem regularExpression_spec : ⦃kept⦄ regularExpression ⦃⇓? _ => kept⦄ := by
  mvcgen [regularExpression] with grind

@[spec] theorem noteRestComma_spec (close : Mark) :
    ⦃kept⦄ noteRestComma close ⦃⇓? _ => kept⦄ := by
  mvcgen [noteRestComma]

@[spec] theorem elements_spec (close : Mark) (holes : Bool) :
    ⦃kept⦄ elements g close holes ⦃⇓? es => keptAnd (argumentsEnd es)⦄ := by
  have hitems := @commaSeparated_keeps Element Element.ChainsEnd
  mvcgen [elements, hitems] with grind [argumentsEnd_iff, Element.ChainsEnd]

@[spec] theorem propertyModifier?_spec : ⦃kept⦄ propertyModifier? ⦃⇓? _ => kept⦄ := by
  mvcgen [propertyModifier?]

/-- Nothing is needed of the value of a property: objects contain what it comes to. -/
@[spec] theorem property_spec : ⦃kept⦄ property g ⦃⇓? p => keptAnd p.KeyEnds⦄ := by
  mvcgen [property] with grind [Property.KeyEnds, Key.ChainsEnd, State.ChainsEnd]

@[spec] theorem arrayLiteral_spec : ⦃kept⦄ arrayLiteral g ⦃⇓? e => keptAnd e.ChainsEnd⦄ := by
  mvcgen [arrayLiteral] with grind [Expr.ChainsEnd]

@[spec] theorem objectLiteral_spec : ⦃kept⦄ objectLiteral g ⦃⇓? e => keptAnd e.ChainsEnd⦄ := by
  have hitems := @commaSeparated_keeps Property Property.KeyEnds
  mvcgen [objectLiteral, hitems] with grind [keysEnd_iff, Expr.ChainsEnd]

@[spec] theorem decoratedClass_spec : ⦃kept⦄ decoratedClass g ⦃⇓? e => keptAnd e.ChainsEnd⦄ := by
  mvcgen [decoratedClass]

@[spec] theorem atFunction_spec : ⦃kept⦄ atFunction ⦃⇓? _ => kept⦄ := by
  mvcgen [atFunction]

@[spec] theorem primary_spec : ⦃kept⦄ primary g ⦃⇓? e => keptAnd e.ChainsEnd⦄ := by
  mvcgen [primary] with grind [Expr.ChainsEnd]

/-! ## Chains -/

@[spec] theorem atExpression_spec : ⦃kept⦄ atExpression ⦃⇓? _ => kept⦄ := by
  mvcgen [atExpression]

@[spec] theorem valueTypeArguments?_spec : ⦃kept⦄ valueTypeArguments? g ⦃⇓? _ => kept⦄ := by
  mvcgen [valueTypeArguments?] with grind

/-- What a chain without optional links has come to has no open links. -/
def Chain.Closed (c : Chain) : Prop := c.isOptional = false → c.expr.ChainsEnd

section Link

variable {l : Nat} {c : Chain} {extend : Expr → Bool → Reader (Option Chain)} (isOptional : Bool)
  (hc : c.Closed)
  (h : ∀ e isOptional, (c.isOptional = false → isOptional = false → e.ChainsEnd) →
    ⦃kept⦄ extend e isOptional ⦃⇓? o => keptAnd (∀ c' ∈ o, c'.Closed)⦄)
include hc h

theorem link?_member_spec :
    ⦃kept⦄ link?.member l c extend isOptional ⦃⇓? o => keptAnd (∀ c' ∈ o, c'.Closed)⦄ := by
  mvcgen [link?.member, h] with grind [Expr.ChainsEnd, Chain.Closed]

theorem link?_index_spec :
    ⦃kept⦄ link?.index g l c extend isOptional ⦃⇓? o => keptAnd (∀ c' ∈ o, c'.Closed)⦄ := by
  mvcgen [link?.index, h] with grind [Expr.ChainsEnd, Chain.Closed]

theorem link?_call_spec :
    ⦃kept⦄ link?.call g l c extend isOptional ⦃⇓? o => keptAnd (∀ c' ∈ o, c'.Closed)⦄ := by
  mvcgen [link?.call, h] with grind [Expr.ChainsEnd, Chain.Closed]

end Link

@[spec] theorem link?_spec {c : Chain} (hc : c.Closed) (calls : Bool) (start : List Char)
    (l : Nat) :
    ⦃kept⦄ link? g calls start l c ⦃⇓? o => keptAnd (∀ c' ∈ o, c'.Closed)⦄ := by
  have hmember := @link?_member_spec l c
  have hindex := @link?_index_spec g _ l c
  have hcall := @link?_call_spec g _ l c
  mvcgen [link?, hmember, hindex, hcall] with grind [Expr.ChainsEnd, Chain.Closed]

@[spec] theorem links_spec {base : Expr} (hb : base.ChainsEnd) (calls : Bool) (start : List Char)
    (l : Nat) : ⦃kept⦄ links g calls start l base ⦃⇓? e => keptAnd e.ChainsEnd⦄ := by
  have hloop := @loop_keeps Chain Chain Chain.Closed Chain.Closed
  mvcgen [links, hloop] with grind [Expr.ChainsEnd, Chain.Closed]

@[spec] theorem newExpression_spec : ⦃kept⦄ newExpression g ⦃⇓? e => keptAnd e.ChainsEnd⦄ := by
  mvcgen [newExpression] with grind [Expr.ChainsEnd]

@[spec] theorem importExpression_spec :
    ⦃kept⦄ importExpression g ⦃⇓? e => keptAnd e.ChainsEnd⦄ := by
  mvcgen [importExpression] with grind [Expr.ChainsEnd]

@[spec] theorem chainBase_spec : ⦃kept⦄ chainBase g ⦃⇓? e => keptAnd e.ChainsEnd⦄ := by
  mvcgen [chainBase]

@[spec] theorem leftHand_spec : ⦃kept⦄ leftHand g ⦃⇓? e => keptAnd e.ChainsEnd⦄ := by
  mvcgen [leftHand] with grind

@[spec] theorem constructed_spec : ⦃kept⦄ constructed g ⦃⇓? e => keptAnd e.ChainsEnd⦄ := by
  mvcgen [constructed] with grind

/-! ## Operators -/

@[spec] theorem atStep_spec : ⦃kept⦄ atStep ⦃⇓? _ => kept⦄ := by
  mvcgen [atStep]

@[spec] theorem unary_spec : ⦃kept⦄ unary g ⦃⇓? e => keptAnd e.ChainsEnd⦄ := by
  mvcgen [unary] with grind [Expr.ChainsEnd]

@[spec] theorem binary_spec (level : Nat) :
    ⦃kept⦄ binary g level ⦃⇓? e => keptAnd e.ChainsEnd⦄ := by
  have hloop := @loop_keeps Expr Expr Expr.ChainsEnd Expr.ChainsEnd
  mvcgen [binary, hloop] with grind [Expr.ChainsEnd]

@[spec] theorem conditional_spec : ⦃kept⦄ conditional g ⦃⇓? e => keptAnd e.ChainsEnd⦄ := by
  mvcgen [conditional] with grind [Expr.ChainsEnd]

/-! ## Functions and assignments -/

@[spec] theorem arrow_spec : ⦃kept⦄ arrow ⦃⇓? _ => kept⦄ := by
  mvcgen [arrow]

@[spec] theorem arrowHead_spec (isAsync : Bool) :
    ⦃kept⦄ arrowHead g isAsync ⦃⇓? _ => kept⦄ := by
  mvcgen [arrowHead]

@[spec] theorem arrowBody_spec (isAsync : Bool) (names : List String) :
    ⦃kept⦄ arrowBody g isAsync names ⦃⇓? _ => kept⦄ := by
  mvcgen [arrowBody] with grind

@[spec] theorem atArrowTypes_spec : ⦃kept⦄ atArrowTypes ⦃⇓? _ => kept⦄ := by
  mvcgen [atArrowTypes]

/-- A function is kept as its text. -/
@[spec] theorem arrowFunction?_spec :
    ⦃kept⦄ arrowFunction? g ⦃⇓? o => keptAnd (∀ e ∈ o, e.ChainsEnd)⦄ := by
  have hfound := fun r => @attempt_keeps (Option Expr) r (∀ e ∈ ·, e.ChainsEnd)
  mvcgen [arrowFunction?, hfound] with grind [Expr.ChainsEnd]

@[spec] theorem becomePattern_spec (before : State) :
    ⦃kept⦄ becomePattern before ⦃⇓? _ => kept⦄ := by
  mvcgen [becomePattern]

@[spec] theorem yieldExpression_spec :
    ⦃kept⦄ yieldExpression g ⦃⇓? e => keptAnd e.ChainsEnd⦄ := by
  mvcgen [yieldExpression] with grind [Expr.ChainsEnd]

@[spec] theorem assignment_spec : ⦃kept⦄ assignment g ⦃⇓? e => keptAnd e.ChainsEnd⦄ := by
  mvcgen [assignment] with grind [Expr.ChainsEnd]

@[spec] theorem expression_spec : ⦃kept⦄ expression g ⦃⇓? e => keptAnd e.ChainsEnd⦄ := by
  mvcgen [expression] with grind [Expr.ChainsEnd]

end CommandFiles.Script.Reader
