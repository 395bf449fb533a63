import CommandFiles.Proofs.ChainEnds
import CommandFiles.Script.Reader.Markup
import CommandFiles.Script.Walk
import Mathlib.Tactic.Common

/-! # Readers under an invariant

What a reader records of a module are its exported variables with their initial values; the
invariant of its state is that chains end in all of those. A rule of the grammar keeps the invariant
if the rules one level deeper do, so its triple is about any grammar whose rules do. Types, patterns,
functions and markup give no expressions to their callers; of them nothing more is shown. -/
namespace CommandFiles.Script

open Std.Do

set_option mvcgen.warning false

/-- Whether chains end in the initial value of a declared variable. -/
def Declarator.ChainsEnd (d : Declarator) : Prop := ∀ e ∈ d.initial, e.ChainsEnd

/-- The same of the variables that a node exports. -/
def Node.ChainsEnd : Node → Prop
  | .exported node => ∀ d ∈ node.declarators, d.ChainsEnd
  | _ => True

/-- The same of all that is visited in an item. -/
def Item.ChainsEnd (i : Item) : Prop := ∀ scopes, ∀ v ∈ visitsOfItem scopes i, v.node.ChainsEnd

/-- The same of the items met so far. -/
def State.ChainsEnd (s : State) : Prop := ∀ i ∈ s.items, i.ChainsEnd

theorem chainsEnd_scope {names : List String} {items : List Item} (h : ∀ i ∈ items, i.ChainsEnd) :
    (Item.scope names items).ChainsEnd := by
  intro scopes v hv
  rw [visitsOfItem, mem_visitsOfItems] at hv
  obtain ⟨i, hi, hv⟩ := hv
  exact h i hi _ v hv

namespace Reader

/-- What assertions about readers are about. -/
abbrev Shape : PostShape := .arg Setting (.arg State (.except Misfit .pure))

/-- The invariant. -/
abbrev kept : Assertion Shape := fun _ s => ⌜s.ChainsEnd⌝

/-- The invariant with a fact about the result. -/
abbrev keptAnd (fact : Prop) : Assertion Shape := fun _ s => ⌜fact ∧ s.ChainsEnd⌝

section Combinators

variable {α β : Type} {r : Reader α}

/-- A triple says what the runs that give a result come to. -/
theorem triple_of_run {P : State → Prop} {Q : α → State → Prop}
    (h : ∀ c s a s', P s → r c s = .ok (a, s') → Q a s') :
    ⦃fun _ s => ⌜P s⌝⦄ r ⦃⇓? a => fun _ s => ⌜Q a s⌝⦄ := by
  intro c s hs
  change (wp⟦r c s⟧ _).down
  cases hr : r c s with
  | ok p => exact h c s p.1 p.2 hs hr
  | error e => trivial

theorem run_of_triple {P : State → Prop} {Q : α → State → Prop}
    (h : ⦃fun _ s => ⌜P s⌝⦄ r ⦃⇓? a => fun _ s => ⌜Q a s⌝⦄) {c : Setting} {s s' : State} {a : α}
    (hs : P s) (hr : r c s = .ok (a, s')) : Q a s' := by
  have hw := h c s hs
  change (wp⟦r c s⟧ _).down at hw
  rwa [hr] at hw

theorem keptAnd_of_kept {P : α → Prop} (hp : ∀ a, P a) (h : ⦃kept⦄ r ⦃⇓? _ => kept⦄) :
    ⦃kept⦄ r ⦃⇓? a => keptAnd (P a)⦄ :=
  triple_of_run (Q := fun a s => P a ∧ s.ChainsEnd) fun _ _ a _ hs hr =>
    ⟨hp a, run_of_triple (Q := fun _ s => s.ChainsEnd) h hs hr⟩

theorem kept_of_keptAnd {P : α → Prop} (h : ⦃kept⦄ r ⦃⇓? a => keptAnd (P a)⦄) :
    ⦃kept⦄ r ⦃⇓? _ => kept⦄ :=
  triple_of_run (Q := fun _ s => s.ChainsEnd) fun _ _ _ _ hs hr =>
    (run_of_triple (Q := fun a s => P a ∧ s.ChainsEnd) h hs hr).2

/-- A reader that records nothing keeps the invariant. -/
theorem kept_of_items_eq (h : ∀ c s a s', r c s = .ok (a, s') → s'.items = s.items) :
    ⦃kept⦄ r ⦃⇓? _ => kept⦄ := by
  refine triple_of_run (Q := fun _ s => s.ChainsEnd) fun c s a s' hs hr => ?_
  rw [State.ChainsEnd, h c s a s' hr]
  exact hs

/-- Nothing is known behind a failure, and nothing need be. -/
theorem triple_of_fail {Q : α → State → Prop} :
    ⦃kept⦄ (fail : Reader α) ⦃⇓? a => fun _ s => ⌜Q a s⌝⦄ := by
  refine triple_of_run ?_
  rintro _ _ _ _ _ ⟨⟩

@[spec] theorem fail_spec : ⦃kept⦄ (fail : Reader α) ⦃⇓? _ => fun _ _ => ⌜False⌝⦄ :=
  triple_of_fail (Q := fun _ _ => False)

@[spec] theorem failAt_spec (text : List Char) :
    ⦃kept⦄ (failAt text : Reader α) ⦃⇓? _ => fun _ _ => ⌜False⌝⦄ := by
  refine triple_of_run (Q := fun _ _ => False) ?_
  rintro _ _ _ _ _ ⟨⟩

@[spec] theorem under_spec {f : Setting → Setting} {Q : PostCond α Shape} :
    ⦃fun c => wp⟦r⟧ (fun a _ => Q.1 a c, Q.2) (f c)⦄ under f r ⦃Q⦄ :=
  fun _ _ h => h

@[spec] theorem discard_spec {Q : PostCond Unit Shape} :
    ⦃wp⟦r⟧ (fun _ => Q.1 (), Q.2)⦄ discard r ⦃Q⦄ := by
  intro c s h
  have hwp : wp⟦discard r⟧ Q c s = wp⟦r⟧ (fun _ => Q.1 (), Q.2) c s := by
    change wp⟦(fun _ => ()) <$> r⟧ Q c s = _
    simp [WP.map]
  rw [hwp]
  exact h

/-- A rule for conditions that contain a case distinction themselves. -/
@[spec low] theorem ite_spec {c : Prop} [Decidable c] {other : Reader α} {Q : PostCond α Shape}
    (h : c → ⦃kept⦄ r ⦃Q⦄) (h' : ¬c → ⦃kept⦄ other ⦃Q⦄) :
    ⦃kept⦄ (if c then r else other) ⦃Q⦄ := by
  split
  · exact h ‹c›
  · exact h' ‹¬c›

theorem attempt_keeps (P : α → Prop) (h : ⦃kept⦄ r ⦃⇓? a => keptAnd (P a)⦄) :
    ⦃kept⦄ attempt r ⦃⇓? o => keptAnd (∀ a ∈ o, P a)⦄ := by
  refine triple_of_run (Q := fun o s => (∀ a ∈ o, P a) ∧ s.ChainsEnd) fun c s o s' hs hr => ?_
  rw [attempt] at hr
  cases hr' : r c s with
  | ok p =>
    rw [hr'] at hr
    cases hr
    simpa using run_of_triple (Q := fun a s => P a ∧ s.ChainsEnd) h hs hr'
  | error e =>
    rw [hr'] at hr
    cases hr
    simpa using hs

@[spec low] theorem attempt_spec (h : ⦃kept⦄ r ⦃⇓? _ => kept⦄) :
    ⦃kept⦄ attempt r ⦃⇓? _ => kept⦄ :=
  kept_of_keptAnd (attempt_keeps (fun _ => True) (keptAnd_of_kept (fun _ => trivial) h))

/-! A loop has an invariant of its own for what it passes from step to step. -/

section Loop

variable (I : α → Prop) (J : β → Prop) {step : α → Reader (α ⊕ β)}
  (h : ∀ a, I a → ⦃kept⦄ step a ⦃⇓? r => keptAnd (r.elim I J)⦄)
include h

theorem repeatUpTo_keeps : ∀ (n : Nat) (a : α), I a →
    ⦃kept⦄ repeatUpTo step n a ⦃⇓? b => keptAnd (J b)⦄
  | 0, _, _ => triple_of_fail (Q := fun b s => J b ∧ s.ChainsEnd)
  | n + 1, a, ha => by
    have hstep := h a ha
    have hrest := repeatUpTo_keeps n
    mvcgen [repeatUpTo, hstep, hrest] with grind

theorem loop_keeps {a : α} (ha : I a) : ⦃kept⦄ loop a step ⦃⇓? b => keptAnd (J b)⦄ :=
  triple_of_run (Q := fun b s => J b ∧ s.ChainsEnd) fun c _ _ _ hs hr =>
    run_of_triple (Q := fun b s => J b ∧ s.ChainsEnd) (repeatUpTo_keeps I J h c.fuel a ha) hs hr

end Loop

@[spec low] theorem loop_spec {a : α} {step : α → Reader (α ⊕ β)}
    (h : ∀ a, ⦃kept⦄ step a ⦃⇓? _ => kept⦄) : ⦃kept⦄ loop a step ⦃⇓? _ => kept⦄ :=
  kept_of_keptAnd <| loop_keeps (fun _ => True) (fun _ => True)
    (fun a _ => keptAnd_of_kept (fun r => by cases r <;> trivial) (h a)) trivial

end Combinators

/-! ## Tokens, names and scopes -/

section Tokens

variable {α : Type}

@[spec] theorem resume_spec (rest : List Char) : ⦃kept⦄ resume rest ⦃⇓? _ => kept⦄ := by
  refine kept_of_items_eq fun c s a s' hr => ?_
  rw [resume] at hr
  cases ht : skipTrivia .between false rest with
  | error e => rw [ht] at hr; cases hr
  | ok p =>
    cases hs : scanToken p.2 with
    | error e => simp [ht, hs, Except.bind, Except.map] at hr
    | ok q =>
      simp only [ht, hs, Except.bind, Except.map, Except.ok.injEq, Prod.mk.injEq, true_and] at hr
      rw [← hr]

@[spec] theorem advance_spec : ⦃kept⦄ advance ⦃⇓? _ => kept⦄ :=
  triple_of_run (Q := fun _ s => s.ChainsEnd) fun _ s _ _ hs hr =>
    run_of_triple (Q := fun _ s => s.ChainsEnd) (resume_spec s.after) hs hr

/-- A reader that only looks at what there is. -/
theorem kept_of_look {r : Reader α} {f : Setting → State → α} (h : ∀ c s, r c s = .ok (f c s, s)) :
    ⦃kept⦄ r ⦃⇓? _ => kept⦄ := by
  refine kept_of_items_eq fun c s a s' hr => ?_
  rw [h] at hr
  cases hr
  rfl

@[spec] theorem atMark_spec (m : Mark) : ⦃kept⦄ atMark m ⦃⇓? _ => kept⦄ :=
  kept_of_look fun _ _ => rfl

@[spec] theorem atWord_spec (w : String) : ⦃kept⦄ atWord w ⦃⇓? _ => kept⦄ :=
  kept_of_look fun _ _ => rfl

@[spec] theorem atOneOf_spec (ws : List String) : ⦃kept⦄ atOneOf ws ⦃⇓? _ => kept⦄ :=
  kept_of_look fun _ _ => rfl

@[spec] theorem atIdentifier_spec : ⦃kept⦄ atIdentifier ⦃⇓? _ => kept⦄ :=
  kept_of_look fun _ _ => rfl

@[spec] theorem peek_spec : ⦃kept⦄ peek ⦃⇓? _ => kept⦄ :=
  kept_of_look fun _ _ => rfl

@[spec] theorem line_spec : ⦃kept⦄ line ⦃⇓? _ => kept⦄ :=
  kept_of_look fun _ _ => rfl

@[spec] theorem textSince_spec (start : List Char) : ⦃kept⦄ textSince start ⦃⇓? _ => kept⦄ :=
  kept_of_look fun _ _ => rfl

@[spec] theorem skipMark_spec (m : Mark) : ⦃kept⦄ skipMark m ⦃⇓? _ => kept⦄ := by
  mvcgen [skipMark]

@[spec] theorem skipWord_spec (w : String) : ⦃kept⦄ skipWord w ⦃⇓? _ => kept⦄ := by
  mvcgen [skipWord]

@[spec] theorem expectMark_spec (m : Mark) : ⦃kept⦄ expectMark m ⦃⇓? _ => kept⦄ := by
  mvcgen [expectMark] with grind

@[spec] theorem expectWord_spec (w : String) : ⦃kept⦄ expectWord w ⦃⇓? _ => kept⦄ := by
  mvcgen [expectWord] with grind

theorem commaSeparated_keeps (P : α → Prop) {close : Mark} {item : Reader α}
    (h : ⦃kept⦄ item ⦃⇓? a => keptAnd (P a)⦄) :
    ⦃kept⦄ commaSeparated close item ⦃⇓? as => keptAnd (∀ a ∈ as, P a)⦄ := by
  have hloop := @loop_keeps (List α) (List α) (∀ a ∈ ·, P a) (∀ a ∈ ·, P a)
  mvcgen [commaSeparated, hloop, h] with grind

@[spec low] theorem commaSeparated_spec {close : Mark} {item : Reader α}
    (h : ⦃kept⦄ item ⦃⇓? _ => kept⦄) : ⦃kept⦄ commaSeparated close item ⦃⇓? _ => kept⦄ :=
  kept_of_keptAnd (commaSeparated_keeps (fun _ => True) (keptAnd_of_kept (fun _ => trivial) h))

@[spec] theorem semicolon_spec : ⦃kept⦄ semicolon ⦃⇓? _ => kept⦄ := by
  mvcgen [semicolon] with grind

@[spec] theorem identifier_spec : ⦃kept⦄ identifier ⦃⇓? _ => kept⦄ := by
  mvcgen [identifier] with grind

@[spec] theorem anyWord_spec : ⦃kept⦄ anyWord ⦃⇓? _ => kept⦄ := by
  mvcgen [anyWord] with grind

@[spec] theorem stringLiteral_spec : ⦃kept⦄ stringLiteral ⦃⇓? _ => kept⦄ := by
  mvcgen [stringLiteral] with grind

@[spec] theorem bindInBlock_spec (names : List String) :
    ⦃kept⦄ bindInBlock names ⦃⇓? _ => kept⦄ := by
  mvcgen [bindInBlock]

@[spec] theorem bindInFunction_spec (names : List String) :
    ⦃kept⦄ bindInFunction names ⦃⇓? _ => kept⦄ := by
  mvcgen [bindInFunction]

/-- The items of a scope become one item. -/
@[spec] theorem inScope_spec {r : Reader (List String)} (isFunction : Bool)
    (h : ⦃kept⦄ r ⦃⇓? _ => kept⦄) : ⦃kept⦄ inScope isFunction r ⦃⇓? _ => kept⦄ := by
  mvcgen [inScope, h] with grind [State.ChainsEnd, chainsEnd_scope]

/-- The item of a result stands before the items met on the way to it. -/
theorem recording_keeps (P : α → Prop) {item : α → Item} {r : Reader α}
    (hi : ∀ a, P a → (item a).ChainsEnd) (h : ⦃kept⦄ r ⦃⇓? a => keptAnd (P a)⦄) :
    ⦃kept⦄ recording item r ⦃⇓? a => keptAnd (P a)⦄ := by
  mvcgen [recording, h] with grind [State.ChainsEnd]

@[spec low] theorem recording_spec {item : α → Item} {r : Reader α} (hi : ∀ a, (item a).ChainsEnd)
    (h : ⦃kept⦄ r ⦃⇓? _ => kept⦄) : ⦃kept⦄ recording item r ⦃⇓? _ => kept⦄ :=
  kept_of_keptAnd (recording_keeps (fun _ => True) (fun a _ => hi a)
    (keptAnd_of_kept (fun _ => trivial) h))

end Tokens

end Reader

open Reader in
/-- A grammar whose rules keep the invariant and give only expressions in which chains end. -/
class Grammar.ChainsEnd (g : Grammar) : Prop where
  expression : ⦃kept⦄ g.expression ⦃⇓? e => keptAnd e.ChainsEnd⦄
  assignment : ⦃kept⦄ g.assignment ⦃⇓? e => keptAnd e.ChainsEnd⦄
  unary : ⦃kept⦄ g.unary ⦃⇓? e => keptAnd e.ChainsEnd⦄
  binary (level : Nat) : ⦃kept⦄ g.binary level ⦃⇓? e => keptAnd e.ChainsEnd⦄
  leftHand : ⦃kept⦄ g.leftHand ⦃⇓? e => keptAnd e.ChainsEnd⦄
  constructed : ⦃kept⦄ g.constructed ⦃⇓? e => keptAnd e.ChainsEnd⦄
  pattern : ⦃kept⦄ g.pattern ⦃⇓? _ => kept⦄
  type : ⦃kept⦄ g.type ⦃⇓? _ => kept⦄
  markup : ⦃kept⦄ g.markup ⦃⇓? _ => kept⦄
  statement (place : StatementPlace) : ⦃kept⦄ g.statement place ⦃⇓? _ => kept⦄

attribute [spec] Grammar.ChainsEnd.expression Grammar.ChainsEnd.assignment Grammar.ChainsEnd.unary
  Grammar.ChainsEnd.binary Grammar.ChainsEnd.leftHand Grammar.ChainsEnd.constructed
  Grammar.ChainsEnd.pattern Grammar.ChainsEnd.type Grammar.ChainsEnd.markup
  Grammar.ChainsEnd.statement

namespace Reader

variable {g : Grammar} [g.ChainsEnd]

/-! ## Types -/

@[spec] theorem skipAngleOpen_spec : ⦃kept⦄ skipAngleOpen ⦃⇓? _ => kept⦄ := by
  mvcgen [skipAngleOpen]

@[spec] theorem typeArguments_spec : ⦃kept⦄ typeArguments g ⦃⇓? _ => kept⦄ := by
  mvcgen [typeArguments]

@[spec] theorem typeParameters?_spec : ⦃kept⦄ typeParameters? g ⦃⇓? _ => kept⦄ := by
  mvcgen [typeParameters?]

@[spec] theorem annotation?_spec : ⦃kept⦄ annotation? g ⦃⇓? _ => kept⦄ := by
  mvcgen [annotation?]

@[spec] theorem returned_spec : ⦃kept⦄ returned g ⦃⇓? _ => kept⦄ := by
  mvcgen [returned]

@[spec] theorem typedParameters_spec : ⦃kept⦄ typedParameters g ⦃⇓? _ => kept⦄ := by
  mvcgen [typedParameters]

@[spec] theorem typeName_spec : ⦃kept⦄ typeName g ⦃⇓? _ => kept⦄ := by
  mvcgen [typeName]

@[spec] theorem memberName_spec : ⦃kept⦄ memberName g ⦃⇓? _ => kept⦄ := by
  mvcgen [memberName] with grind

@[spec] theorem indexSignature_spec : ⦃kept⦄ indexSignature g ⦃⇓? _ => kept⦄ := by
  mvcgen [indexSignature]

@[spec] theorem atModifier_spec (words : List String) :
    ⦃kept⦄ atModifier words ⦃⇓? _ => kept⦄ := by
  mvcgen [atModifier]

@[spec] theorem typeMember_spec : ⦃kept⦄ typeMember g ⦃⇓? _ => kept⦄ := by
  mvcgen [typeMember]

@[spec] theorem typeMembers_spec : ⦃kept⦄ typeMembers g ⦃⇓? _ => kept⦄ := by
  mvcgen [typeMembers] with grind

@[spec] theorem mappedType_spec : ⦃kept⦄ mappedType g ⦃⇓? _ => kept⦄ := by
  mvcgen [mappedType]

@[spec] theorem tupleElement_spec : ⦃kept⦄ tupleElement g ⦃⇓? _ => kept⦄ := by
  mvcgen [tupleElement]

/-- A scanner as a reader records nothing. -/
theorem kept_of_scan {r : Scan Token} {lift : Scan Token → Reader (Token × List Char)}
    (h : ∀ c s, lift r c s = r.map (·, s)) : ⦃kept⦄ lift r ⦃⇓? _ => kept⦄ := by
  refine kept_of_items_eq fun c s a s' hr => ?_
  rw [h] at hr
  cases r with
  | error e => cases hr
  | ok p => cases hr; rfl

@[spec] theorem templateType_liftScan_spec (r : Scan Token) :
    Triple (m := Reader) (templateType.liftScan r) kept (⇓? _ => kept) :=
  kept_of_scan fun _ _ => rfl

@[spec] theorem templateType_spec : ⦃kept⦄ templateType g ⦃⇓? _ => kept⦄ := by
  mvcgen [templateType]

@[spec] theorem primaryType_importType_spec :
    ⦃kept⦄ primaryType.importType g ⦃⇓? _ => kept⦄ := by
  mvcgen [primaryType.importType] with grind

@[spec] theorem primaryType_spec : ⦃kept⦄ primaryType g ⦃⇓? _ => kept⦄ := by
  mvcgen [primaryType] with grind

@[spec] theorem postfixType_spec : ⦃kept⦄ postfixType g ⦃⇓? _ => kept⦄ := by
  mvcgen [postfixType]

@[spec] theorem operatorType_spec : ⦃kept⦄ operatorType g ⦃⇓? _ => kept⦄ := by
  mvcgen [operatorType] with grind

@[spec] theorem markedTypes_spec {item : Reader Unit} (m : Mark)
    (h : ⦃kept⦄ item ⦃⇓? _ => kept⦄) : ⦃kept⦄ markedTypes m item ⦃⇓? _ => kept⦄ := by
  mvcgen [markedTypes, h]

@[spec] theorem functionType_spec : ⦃kept⦄ functionType g ⦃⇓? _ => kept⦄ := by
  mvcgen [functionType]

@[spec] theorem type_spec : ⦃kept⦄ type g ⦃⇓? _ => kept⦄ := by
  mvcgen [type]

/-! ## Patterns, functions and classes -/

/-- Only the expression of a computed key reaches the outside. -/
@[spec] theorem propertyKey_spec : ⦃kept⦄ propertyKey g ⦃⇓? key => keptAnd key.ChainsEnd⦄ := by
  mvcgen [propertyKey] with grind [Key.ChainsEnd]

@[spec] theorem patternElement_spec : ⦃kept⦄ patternElement g ⦃⇓? _ => kept⦄ := by
  mvcgen [patternElement] with grind

@[spec] theorem arrayPattern_spec : ⦃kept⦄ arrayPattern g ⦃⇓? _ => kept⦄ := by
  mvcgen [arrayPattern]

@[spec] theorem patternProperty_spec : ⦃kept⦄ patternProperty g ⦃⇓? _ => kept⦄ := by
  mvcgen [patternProperty] with grind

@[spec] theorem pattern_spec : ⦃kept⦄ pattern g ⦃⇓? _ => kept⦄ := by
  mvcgen [pattern]

@[spec] theorem decorators_spec : ⦃kept⦄ decorators g ⦃⇓? _ => kept⦄ := by
  mvcgen [decorators] with grind

@[spec] theorem parameter_spec : ⦃kept⦄ parameter g ⦃⇓? _ => kept⦄ := by
  mvcgen [parameter] with grind

@[spec] theorem parameters_spec : ⦃kept⦄ parameters g ⦃⇓? _ => kept⦄ := by
  mvcgen [parameters]

@[spec] theorem statements_spec : ⦃kept⦄ statements g ⦃⇓? _ => kept⦄ := by
  mvcgen [statements]

@[spec] theorem functionBody_spec : ⦃kept⦄ functionBody g ⦃⇓? _ => kept⦄ := by
  mvcgen [functionBody]

@[spec] theorem functionRest_spec (isAsync isGenerator bodyNeeded : Bool) (names : List String)
    (fits : List Parameter → Bool) :
    ⦃kept⦄ functionRest g isAsync isGenerator bodyNeeded names fits ⦃⇓? _ => kept⦄ := by
  mvcgen [functionRest]

@[spec] theorem functionExpression_spec : ⦃kept⦄ functionExpression g ⦃⇓? _ => kept⦄ := by
  mvcgen [functionExpression]

@[spec] theorem functionDeclaration_spec (place : StatementPlace) (nameNeeded : Bool) :
    ⦃kept⦄ functionDeclaration g place nameNeeded ⦃⇓? _ => kept⦄ := by
  mvcgen [functionDeclaration]

@[spec] theorem modifiers_spec : ⦃kept⦄ modifiers ⦃⇓? _ => kept⦄ := by
  mvcgen [modifiers]

@[spec] theorem classKey_spec : ⦃kept⦄ classKey g ⦃⇓? _ => kept⦄ := by
  mvcgen [classKey] with grind

@[spec] theorem classMember_spec : ⦃kept⦄ classMember g ⦃⇓? _ => kept⦄ := by
  mvcgen [classMember] with grind

@[spec] theorem classRest_spec (names : List String) :
    ⦃kept⦄ classRest g names ⦃⇓? _ => kept⦄ := by
  mvcgen [classRest] with grind

@[spec] theorem className?_spec : ⦃kept⦄ className? ⦃⇓? _ => kept⦄ := by
  mvcgen [className?]

@[spec] theorem classExpression_spec : ⦃kept⦄ classExpression g ⦃⇓? _ => kept⦄ := by
  mvcgen [classExpression]

@[spec] theorem classDeclaration_spec (nameNeeded : Bool) :
    ⦃kept⦄ classDeclaration g nameNeeded ⦃⇓? _ => kept⦄ := by
  mvcgen [classDeclaration]

/-! ## Markup -/

@[spec] theorem markupWord_spec : ⦃kept⦄ markupWord ⦃⇓? _ => kept⦄ := by
  mvcgen [markupWord] with grind

@[spec] theorem markupName_spec : ⦃kept⦄ markupName ⦃⇓? _ => kept⦄ := by
  mvcgen [markupName]

@[spec] theorem markupValue_spec : ⦃kept⦄ markupValue g ⦃⇓? _ => kept⦄ := by
  mvcgen [markupValue] with grind

@[spec] theorem markupAttributes_spec : ⦃kept⦄ markupAttributes g ⦃⇓? _ => kept⦄ := by
  mvcgen [markupAttributes] with grind

@[spec] theorem markupChildren_spec (name : List String) (text : List Char) :
    ⦃kept⦄ markupChildren g name text ⦃⇓? _ => kept⦄ := by
  mvcgen [markupChildren] with grind

@[spec] theorem markup_spec : ⦃kept⦄ markup g ⦃⇓? _ => kept⦄ := by
  mvcgen [markup] with grind

end Reader

end CommandFiles.Script
