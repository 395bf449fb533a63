import CommandFiles.Proofs.SoftFaults

/-! # Bare syntax

What a literal comes to does not depend on the lines its parts begin on, on parentheses, or on how
what is called was written, and the names of numbers are as good as the numbers. Expressions that
are the same without all that have the same value, or none for the same kind of reason. -/
namespace CommandFiles.Literal

open CommandFiles.Script

/-! ## Without lines and parentheses -/

/-- A name at no line; the names of numbers are the numbers. -/
def bareName (name : String) : Expr :=
  if name = "NaN" then .number 0 Number.notANumber
  else if name = "Infinity" then .number 0 Number.infinity
  else .name 0 name

mutual

/-- An expression without lines, parentheses and the words for what is called. What is no link
cannot end an optional chain, and is left out there. -/
def bare : Expr → Expr
  | .null _ => .null 0
  | .boolean _ b => .boolean 0 b
  | .number _ x => .number 0 x
  | .string _ t => .string 0 t
  | .template _ head spans => .template 0 head (bareSpans spans)
  | .name _ name => bareName name
  | .array _ elements => .array 0 (bareElements elements)
  | .object _ properties => .object 0 (bareProperties properties)
  | .member _ optional target key => .member 0 optional (bare target) key
  | .index _ optional target key => .index 0 optional (bare target) (bare key)
  | .call _ optional _ callee arguments =>
    .call 0 optional "" (bare callee) (bareElements arguments)
  | .chain _ inner => .chain 0 (if isLink inner then bare inner else .null 0)
  | .function _ text => .function 0 text
  | .unary _ op operand => .unary 0 op (bare operand)
  | .binary _ op left right => .binary 0 op (bare left) (bare right)
  | .logical _ op left right => .logical 0 op (bare left) (bare right)
  | .conditional _ test consequent alternate =>
    .conditional 0 (bare test) (bare consequent) (bare alternate)
  | .wrapped _ inner => bare inner
  | .foreign _ kind => .foreign 0 kind

/-- The expressions of a template with the text behind each. -/
def bareSpans : List TemplateSpan → List TemplateSpan
  | [] => []
  | .mk e quasi :: rest => .mk (bare e) quasi :: bareSpans rest

/-- The elements of an array or the arguments of a call. -/
def bareElements : List Element → List Element
  | [] => []
  | .item e :: rest => .item (bare e) :: bareElements rest
  | .spread _ e :: rest => .spread 0 (bare e) :: bareElements rest
  | .hole :: rest => .hole :: bareElements rest

/-- The properties of an object. -/
def bareProperties : List Property → List Property
  | [] => []
  | .value _ key e :: rest => .value 0 (bareKey key) (bare e) :: bareProperties rest
  | .method _ key text :: rest => .method 0 (bareKey key) text :: bareProperties rest
  | .accessor _ key :: rest => .accessor 0 (bareKey key) :: bareProperties rest
  | .spread _ e :: rest => .spread 0 (bare e) :: bareProperties rest

/-- The key of a property. -/
def bareKey : Key → Key
  | .fixed name => .fixed name
  | .computed e => .computed (bare e)

end

/-- The parts that lists of syntax are made of, without lines and parentheses. -/
def bareSpan : TemplateSpan → TemplateSpan
  | .mk e quasi => .mk (bare e) quasi

@[inherit_doc bareSpan]
def bareElement : Element → Element
  | .item e => .item (bare e)
  | .spread _ e => .spread 0 (bare e)
  | .hole => .hole

@[inherit_doc bareSpan]
def bareProperty : Property → Property
  | .value _ key e => .value 0 (bareKey key) (bare e)
  | .method _ key text => .method 0 (bareKey key) text
  | .accessor _ key => .accessor 0 (bareKey key)
  | .spread _ e => .spread 0 (bare e)

theorem bareSpans_eq (spans : List TemplateSpan) : bareSpans spans = spans.map bareSpan := by
  induction spans with
  | nil => rfl
  | cons span rest ih =>
    cases span
    rw [bareSpans, ih]
    rfl

theorem bareElements_eq (elements : List Element) :
    bareElements elements = elements.map bareElement := by
  induction elements with
  | nil => rfl
  | cons a rest ih => cases a <;> (rw [bareElements, ih]; rfl)

theorem bareProperties_eq (properties : List Property) :
    bareProperties properties = properties.map bareProperty := by
  induction properties with
  | nil => rfl
  | cons a rest ih => cases a <;> (rw [bareProperties, ih]; rfl)

theorem isLink_bare {e : Expr} (h : isLink e) : isLink (bare e) := by
  cases e <;> first | rfl | cases h

/-! ## What an evaluation comes to, wherever it stands -/

/-- A fault without the line it arises on. -/
def Fault.unplaced : Fault → Fault
  | unresolved name _ => unresolved name 0
  | unsupported what => unsupported ⟨what.node, 0⟩
  | fault => fault

/-- What an evaluation comes to: a value or the kind of a fault, at no line. -/
def meaning {α : Type} (e : Eval α) : Except Fault α := (outcome e).mapError Fault.unplaced

section Meaning

variable {α β : Type} {s : Scene} {line : Nat}

theorem meaning_pure (a : α) : meaning (pure a : Eval α) = .ok a := rfl

theorem meaning_bind (e : Eval α) (f : α → Eval β) :
    meaning (e >>= f) = (meaning e).bind fun a => meaning (f a) := by
  rw [meaning, outcome_bind, meaning]
  cases outcome e <;> rfl

theorem meaning_guarded (e : Eval Value) :
    meaning (guarded s line e) = contained (meaning e) := by
  rw [meaning, outcome_guarded, meaning]
  rcases outcome e with fault | v
  · cases fault <;> rfl
  · rfl

theorem meaning_endChain (e : Eval Value) : meaning (endChain e) = chainEnded (meaning e) := by
  rw [meaning, outcome_endChain, meaning]
  rcases outcome e with fault | v
  · cases fault <;> rfl
  · rfl

theorem meaning_computed (e : Expr) :
    meaning (evalKey s line (.computed e)) = keyNamed (meaning (eval s e)) := by
  rw [meaning, outcome_computed, meaning]
  rcases outcome (eval s e) with fault | v
  · cases fault <;> rfl
  · rfl

theorem meaning_spread (e : Expr) (rest : List Element) :
    meaning (evalElements s (.spread line e :: rest)) =
      (contained (meaning (eval s e))).bind fun v =>
        (meaning (evalElements s rest)).map ((spreadItems? v).getD [.undefined] ++ ·) := by
  rw [meaning, outcome_spread, meaning, meaning]
  rcases outcome (eval s e) with fault | v
  · cases fault with
    | soft reason => cases outcome (evalElements s rest) <;> rfl
    | shortCircuit => cases outcome (evalElements s rest) <;> rfl
    | _ => rfl
  · cases outcome (evalElements s rest) <;> rfl

theorem meaning_eq_ok {e : Eval α} {a : α} : meaning e = .ok a ↔ e.run.value = .ok a := by
  rw [meaning, outcome]
  cases e.run.value with
  | error fault => constructor <;> intro h <;> cases h
  | ok v => exact Iff.rfl

/-- A name means the same at every line, and what a number is called means the number. -/
theorem meaning_bareName (name : String) (line : Nat) :
    meaning (eval s (bareName name)) =
      meaning (liftExcept (nameValue s name line) : Eval Value) := by
  unfold bareName
  split
  · rename_i h
    rw [h]
    rfl
  split
  · rename_i h
    rw [h]
    rfl
  rw [eval, meaning, meaning, outcome_liftExcept, outcome_liftExcept]
  unfold nameValue
  split
  · rfl
  · rfl
  · rfl
  · cases s.globals.get? name <;> rfl

end Meaning

/-! ## Evaluation of bare syntax -/

mutual

/-- **An expression comes to the same without lines and parentheses.** -/
theorem meaning_bare (s : Scene) : ∀ e : Expr, meaning (eval s (bare e)) = meaning (eval s e)
  | .null _ | .boolean _ _ | .number _ _ | .string _ _ | .function _ _ | .foreign _ _ => rfl
  | .template _ head spans => by
    simp only [bare, eval, meaning_bind, meaning_pure, meaning_bareSpans s spans]
  | .name line name => by
    rw [bare, meaning_bareName name line, eval]
  | .array _ elements => by
    simp only [bare, eval, meaning_bind, meaning_pure, meaning_bareElements s elements]
  | .object _ properties => by
    simp only [bare, eval, meaning_bind, meaning_pure, meaning_bareProperties s properties]
  | .member _ optional target key => by
    simp only [bare, eval, meaning_bind, meaning_bare s target]
  | .index _ optional target key => by
    simp only [bare, eval, meaning_bind, meaning_bare s target, meaning_bare s key]
  | .call _ optional text callee args => by
    simp only [bare, eval, meaning_bind, meaning_bare s callee, meaning_bareArguments s args]
    refine bind_congr fun target => bind_congr fun _ => bind_congr fun args => ?_
    cases target <;> rfl
  | .chain _ inner => by
    rw [bare]
    by_cases h : isLink inner
    · simp only [eval, h, isLink_bare h, if_true, meaning_endChain, meaning_bare s inner]
    · rw [eval, eval, if_neg h, if_neg h, if_neg (by decide)]
      rfl
  | .unary _ op operand => by
    simp only [bare, eval, meaning_bind, meaning_bare s operand]
    refine bind_congr fun v => ?_
    cases unaryValue? op v <;> rfl
  | .binary _ op left right => by
    simp only [bare, eval, meaning_bind, meaning_bare s left, meaning_bare s right]
    refine bind_congr fun a => bind_congr fun b => ?_
    cases binaryValue? op a b <;> rfl
  | .logical _ op left right => by
    simp only [bare, eval, meaning_bind, meaning_bare s left]
    refine bind_congr fun v => ?_
    split
    · rfl
    · exact meaning_bare s right
  | .conditional _ test consequent alternate => by
    simp only [bare, eval, meaning_bind, meaning_bare s test]
    refine bind_congr fun v => ?_
    split
    · exact meaning_bare s consequent
    · exact meaning_bare s alternate
  | .wrapped _ inner => by
    rw [bare, eval, meaning_bare s inner]

theorem meaning_bareSpans (s : Scene) : ∀ spans : List TemplateSpan,
    meaning (evalSpans s (bareSpans spans)) = meaning (evalSpans s spans)
  | [] => rfl
  | .mk e quasi :: rest => by
    simp only [bareSpans, evalSpans, meaning_bind, meaning_pure, meaning_bare s e,
      meaning_bareSpans s rest]

theorem meaning_bareElements (s : Scene) : ∀ elements : List Element,
    meaning (evalElements s (bareElements elements)) = meaning (evalElements s elements)
  | [] => rfl
  | .hole :: rest => by
    simp only [bareElements, evalElements, meaning_bind, meaning_pure, meaning_bareElements s rest]
  | .item e :: rest => by
    simp only [bareElements, evalElements, meaning_bind, meaning_pure, meaning_guarded,
      meaning_bare s e, meaning_bareElements s rest]
  | .spread _ e :: rest => by
    rw [bareElements, meaning_spread, meaning_spread, meaning_bare s e, meaning_bareElements s rest]

theorem meaning_bareArguments (s : Scene) : ∀ args : List Element,
    meaning (evalArguments s (bareElements args)) = meaning (evalArguments s args)
  | [] => rfl
  | .hole :: rest => by
    simp only [bareElements, evalArguments, meaning_bareArguments s rest]
  | .item e :: rest => by
    simp only [bareElements, evalArguments, meaning_bind, meaning_pure, meaning_bare s e,
      meaning_bareArguments s rest]
  | .spread _ e :: rest => by
    simp only [bareElements, evalArguments, meaning_bind, meaning_bare s e]
    refine bind_congr fun v => ?_
    cases v with
    | array items => simp only [meaning_bind, meaning_bareArguments s rest]
    | _ => rfl

theorem meaning_bareProperties (s : Scene) : ∀ (ps : List Property) (object : Record Value),
    meaning (evalProperties s (bareProperties ps) object) = meaning (evalProperties s ps object)
  | [], _ => rfl
  | .value l key e :: rest, object => by
    simp only [bareProperties, evalProperties, meaning_bind, meaning_bareKey s 0 l key]
    refine bind_congr fun k => ?_
    cases k with
    | none => exact meaning_bareProperties s rest object
    | some name =>
      simp only [meaning_bind, meaning_guarded, meaning_bare s e, meaning_bareProperties s rest]
  | .method l key text :: rest, object => by
    simp only [bareProperties, evalProperties, meaning_bind, meaning_bareKey s 0 l key]
    refine bind_congr fun k => ?_
    cases k with
    | none => exact meaning_bareProperties s rest object
    | some name => exact meaning_bareProperties s rest _
  | .accessor l key :: rest, object => by
    simp only [bareProperties, evalProperties, meaning_bind, meaning_bareKey s 0 l key]
    refine bind_congr fun k => ?_
    cases k with
    | none => exact meaning_bareProperties s rest object
    | some name => rfl
  | .spread _ e :: rest, object => by
    simp only [bareProperties, evalProperties, meaning_bind, meaning_guarded, meaning_bare s e,
      meaning_bareProperties s rest]

theorem meaning_bareKey (s : Scene) (line line' : Nat) : ∀ key : Key,
    meaning (evalKey s line (bareKey key)) = meaning (evalKey s line' key)
  | .fixed _ => rfl
  | .computed e => by
    rw [bareKey, meaning_computed, meaning_computed, meaning_bare s e]

end

/-- Properties are put into an object one after another. -/
theorem meaning_evalProperties_append (s : Scene) (ps qs : List Property) (object : Record Value) :
    meaning (evalProperties s (ps ++ qs) object) =
      (meaning (evalProperties s ps object)).bind fun object' =>
        meaning (evalProperties s qs object') := by
  induction ps generalizing object with
  | nil => rfl
  | cons a rest ih =>
    cases a with
    | value l key e =>
      simp only [List.cons_append, evalProperties, meaning_bind]
      rcases meaning (evalKey s l key) with fault | _ | name
      · rfl
      · exact ih object
      · simp only [Except.bind, meaning_bind]
        rcases meaning (guarded s e.line (eval s e)) with fault | v
        · rfl
        · exact ih _
    | method l key text =>
      simp only [List.cons_append, evalProperties, meaning_bind]
      rcases meaning (evalKey s l key) with fault | _ | name
      · rfl
      · exact ih object
      · exact ih _
    | accessor l key =>
      simp only [List.cons_append, evalProperties, meaning_bind]
      rcases meaning (evalKey s l key) with fault | _ | name
      · rfl
      · exact ih object
      · rfl
    | spread l e =>
      simp only [List.cons_append, evalProperties, meaning_bind]
      rcases meaning (guarded s e.line (eval s e)) with fault | v
      · rfl
      · exact ih _

/-- Properties that are the same without lines and parentheses come to the same. -/
theorem meaning_evalProperties_eq (s : Scene) {ps ps' : List Property}
    (h : bareProperties ps' = bareProperties ps) (object : Record Value) :
    meaning (evalProperties s ps' object) = meaning (evalProperties s ps object) := by
  rw [← meaning_bareProperties, h, meaning_bareProperties]

end CommandFiles.Literal
