import CommandFiles.Proofs.SoftFaults

/-! # Where optional chains end

A broken chain gets out of an expression only through an optional link that no chain in the
expression ends. Arrays contain what their items come to, and objects what their values come to; the
keys of an object stay to be looked at. -/
namespace CommandFiles

namespace Script

mutual

/-- Whether every optional link that could break the expression lies in a chain inside it. -/
def Expr.ChainsEnd : Expr → Prop
  | .template _ _ spans => spansEnd spans
  | .object _ properties => keysEnd properties
  | .member _ optional target _ => optional = false ∧ target.ChainsEnd
  | .index _ optional target key => optional = false ∧ target.ChainsEnd ∧ key.ChainsEnd
  | .call _ optional _ callee arguments =>
    optional = false ∧ callee.ChainsEnd ∧ argumentsEnd arguments
  | .unary _ _ e | .wrapped _ e => e.ChainsEnd
  | .binary _ _ a b | .logical _ _ a b => a.ChainsEnd ∧ b.ChainsEnd
  | .conditional _ test a b => test.ChainsEnd ∧ a.ChainsEnd ∧ b.ChainsEnd
  | _ => True

/-- The same of the expressions of a template. -/
def spansEnd : List TemplateSpan → Prop
  | [] => True
  | .mk e _ :: rest => e.ChainsEnd ∧ spansEnd rest

/-- The same of the arguments of a call. -/
def argumentsEnd : List Element → Prop
  | [] => True
  | .item e :: rest | .spread _ e :: rest => e.ChainsEnd ∧ argumentsEnd rest
  | .hole :: rest => argumentsEnd rest

/-- The same of the keys of properties. -/
def keysEnd : List Property → Prop
  | [] => True
  | .value _ key _ :: rest | .method _ key _ :: rest | .accessor _ key :: rest =>
    key.ChainsEnd ∧ keysEnd rest
  | .spread _ _ :: rest => keysEnd rest

/-- The same of a key. -/
def Key.ChainsEnd : Key → Prop
  | .fixed _ => True
  | .computed e => e.ChainsEnd

end

/-- The same of one expression of a template. -/
def TemplateSpan.ChainsEnd : TemplateSpan → Prop
  | .mk e _ => e.ChainsEnd

/-- The same of one argument. -/
def Element.ChainsEnd : Element → Prop
  | .item e | .spread _ e => e.ChainsEnd
  | .hole => True

/-- The same of the key of one property. -/
def Property.KeyEnds : Property → Prop
  | .value _ key _ | .method _ key _ | .accessor _ key => key.ChainsEnd
  | .spread _ _ => True

theorem spansEnd_iff (spans : List TemplateSpan) :
    spansEnd spans ↔ ∀ span ∈ spans, span.ChainsEnd := by
  induction spans with
  | nil => simp [spansEnd]
  | cons span rest ih =>
    cases span
    simp [spansEnd, TemplateSpan.ChainsEnd, ih]

theorem argumentsEnd_iff (args : List Element) :
    argumentsEnd args ↔ ∀ arg ∈ args, arg.ChainsEnd := by
  induction args with
  | nil => simp [argumentsEnd]
  | cons arg rest ih => cases arg <;> simp [argumentsEnd, Element.ChainsEnd, ih]

theorem keysEnd_iff (ps : List Property) : keysEnd ps ↔ ∀ p ∈ ps, p.KeyEnds := by
  induction ps with
  | nil => simp [keysEnd]
  | cons p rest ih => cases p <;> simp [keysEnd, Property.KeyEnds, ih]

end Script

namespace Literal

open CommandFiles.Script

/-! ## Rules that fail softly only -/

/-- Whether a result is a value or a soft fault. -/
def FailsOnlySoftly {α : Type} (r : Except Fault α) : Prop :=
  ∀ fault, r = .error fault → ∃ reason, fault = .soft reason

section FailsOnlySoftly

variable {α β : Type}

theorem failsOnlySoftly_ok (a : α) : FailsOnlySoftly (.ok a) := nofun

theorem failsOnlySoftly_soft (reason : String) :
    FailsOnlySoftly (.error (.soft reason) : Except Fault α) := by
  rintro _ ⟨⟩
  exact ⟨reason, rfl⟩

theorem FailsOnlySoftly.bind {r : Except Fault α} {f : α → Except Fault β}
    (hr : FailsOnlySoftly r) (hf : ∀ a, FailsOnlySoftly (f a)) : FailsOnlySoftly (r.bind f) := by
  cases r with
  | ok a => exact hf a
  | error fault =>
    rintro _ ⟨⟩
    exact hr fault rfl

theorem FailsOnlySoftly.map {r : Except Fault α} (hr : FailsOnlySoftly r) (f : α → β) :
    FailsOnlySoftly (r.map f) := by
  cases r with
  | ok a => exact failsOnlySoftly_ok _
  | error fault =>
    rintro _ ⟨⟩
    exact hr fault rfl

theorem failsOnlySoftly_readMember (target : Value) (key : String) :
    FailsOnlySoftly (readMember target key) := by
  unfold readMember
  split
  · exact failsOnlySoftly_soft _
  · exact failsOnlySoftly_soft _
  · exact failsOnlySoftly_ok _
  · split <;> exact failsOnlySoftly_ok _
  · split <;> exact failsOnlySoftly_ok _
  · exact failsOnlySoftly_ok _

theorem failsOnlySoftly_pathArguments (h : Helper) (args : List Value) :
    FailsOnlySoftly (pathArguments h args) := by
  induction args with
  | nil => exact failsOnlySoftly_ok _
  | cons v rest ih =>
    cases v with
    | string s => exact ih.map _
    | _ => exact failsOnlySoftly_soft _

theorem failsOnlySoftly_firstPath (h : Helper) (args : List Value) :
    FailsOnlySoftly (firstPath h args) := by
  refine (failsOnlySoftly_pathArguments h args).bind fun paths => ?_
  cases paths with
  | nil => exact failsOnlySoftly_soft _
  | cons first rest => exact failsOnlySoftly_ok _

theorem failsOnlySoftly_applyHelper (directory : String) (h : Helper) (args : List Value) :
    FailsOnlySoftly (applyHelper directory h args) := by
  refine FailsOnlySoftly.map ?_ _
  cases h with
  | string => exact failsOnlySoftly_ok _
  | join => exact (failsOnlySoftly_pathArguments _ args).map _
  | resolve => exact (failsOnlySoftly_pathArguments _ args).map _
  | dirname => exact (failsOnlySoftly_firstPath _ args).map _
  | basename => exact (failsOnlySoftly_firstPath _ args).map _
  | extname => exact (failsOnlySoftly_firstPath _ args).map _

end FailsOnlySoftly

/-! ## Broken chains that do not get out -/

/-- Whether no broken chain gets out of an evaluation. -/
abbrev Unbroken {α : Type} (e : Eval α) : Prop := Avoids .shortCircuit e

section Unbroken

variable {α β : Type} {s : Scene} {line : Nat}

theorem FailsOnlySoftly.unbroken {r : Except Fault α} (h : FailsOnlySoftly r) :
    Unbroken (liftExcept r : Eval α) := by
  cases r with
  | ok a => nofun
  | error fault =>
    obtain ⟨reason, rfl⟩ := h fault rfl
    nofun

theorem unbroken_nameValue (name : String) :
    Unbroken (liftExcept (nameValue s name line) : Eval Value) := by
  unfold nameValue
  split
  · exact avoids_pure _
  · exact avoids_pure _
  · exact avoids_pure _
  · split
    · exact avoids_pure _
    · rintro ⟨⟩

theorem unbroken_guarded (e : Eval Value) : Unbroken (guarded s line e) := by
  rw [Unbroken, Avoids, outcome_guarded]
  rcases outcome e with fault | v
  · cases fault <;> simp [contained]
  · simp [contained]

theorem unbroken_endChain (e : Eval Value) : Unbroken (endChain e) := by
  rw [Unbroken, Avoids, outcome_endChain]
  rcases outcome e with fault | v
  · cases fault <;> simp [chainEnded]
  · simp [chainEnded]

theorem unbroken_computed {e : Expr} (h : Unbroken (eval s e)) :
    Unbroken (evalKey s line (.computed e)) := by
  rw [Unbroken, Avoids, outcome_computed]
  rw [Unbroken, Avoids] at h
  rcases ho : outcome (eval s e) with fault | v
  · rw [ho] at h
    cases fault <;> simp_all [keyNamed]
  · simp [keyNamed]

/-- Only an optional link breaks a chain. -/
theorem unbroken_checkLink (v : Value) : Unbroken (checkLink false v) := avoids_pure _

end Unbroken

mutual

/-- An expression whose chains end inside it does not break one outside. -/
theorem unbroken_eval (s : Scene) : ∀ {e : Expr}, e.ChainsEnd → Unbroken (eval s e)
  | .null _, _ => avoids_pure _
  | .boolean _ _, _ => avoids_pure _
  | .number _ _, _ => avoids_pure _
  | .string _ _, _ => avoids_pure _
  | .template _ _ spans, h => by
    rw [Expr.ChainsEnd] at h
    rw [eval]
    exact (unbroken_evalSpans s h).bind fun _ => avoids_pure _
  | .name _ _, _ => by
    rw [eval]
    exact unbroken_nameValue _
  | .array _ elements, _ => by
    rw [eval]
    exact (unbroken_evalElements s elements).bind fun _ => avoids_pure _
  | .object _ ps, h => by
    rw [Expr.ChainsEnd] at h
    rw [eval]
    exact (unbroken_evalProperties s h {}).bind fun _ => avoids_pure _
  | .member _ _ target key, h => by
    rw [Expr.ChainsEnd] at h
    obtain ⟨rfl, h⟩ := h
    rw [eval]
    exact (unbroken_eval s h).bind fun v => (unbroken_checkLink v).bind fun _ =>
      (failsOnlySoftly_readMember v key).unbroken
  | .index _ _ target key, h => by
    rw [Expr.ChainsEnd] at h
    obtain ⟨rfl, h, hk⟩ := h
    rw [eval]
    exact (unbroken_eval s h).bind fun v => (unbroken_checkLink v).bind fun _ =>
      (unbroken_eval s hk).bind fun k => (failsOnlySoftly_readMember v k.text).unbroken
  | .call _ _ text callee args, h => by
    rw [Expr.ChainsEnd] at h
    obtain ⟨rfl, h, ha⟩ := h
    rw [eval]
    refine (unbroken_eval s h).bind fun v => (unbroken_checkLink v).bind fun _ =>
      (unbroken_evalArguments s ha).bind fun values => ?_
    cases v with
    | helper h => exact (failsOnlySoftly_applyHelper s.directory h values).unbroken
    | _ => exact avoids_throw nofun
  | .chain _ inner, _ => by
    rw [eval]
    split
    · exact unbroken_endChain _
    · exact avoids_throw nofun
  | .function _ _, _ => avoids_pure _
  | .unary _ op e, h => by
    rw [Expr.ChainsEnd] at h
    rw [eval]
    refine (unbroken_eval s h).bind fun v => ?_
    split
    · exact avoids_pure _
    · exact avoids_throw nofun
  | .binary _ op a b, h => by
    rw [Expr.ChainsEnd] at h
    rw [eval]
    refine (unbroken_eval s h.1).bind fun v => (unbroken_eval s h.2).bind fun w => ?_
    split
    · exact avoids_pure _
    · exact avoids_throw nofun
  | .logical _ op a b, h => by
    rw [Expr.ChainsEnd] at h
    rw [eval]
    refine (unbroken_eval s h.1).bind fun v => ?_
    split
    · exact avoids_pure _
    · exact unbroken_eval s h.2
  | .conditional _ test a b, h => by
    rw [Expr.ChainsEnd] at h
    rw [eval]
    refine (unbroken_eval s h.1).bind fun v => ?_
    split
    · exact unbroken_eval s h.2.1
    · exact unbroken_eval s h.2.2
  | .wrapped _ inner, h => by
    rw [Expr.ChainsEnd] at h
    rw [eval]
    exact unbroken_eval s h
  | .foreign _ _, _ => by
    rw [eval]
    exact avoids_throw nofun

theorem unbroken_evalSpans (s : Scene) : ∀ {spans : List TemplateSpan}, spansEnd spans →
    Unbroken (evalSpans s spans)
  | [], _ => avoids_pure _
  | .mk e quasi :: rest, h => by
    rw [spansEnd] at h
    rw [evalSpans]
    exact (unbroken_eval s h.1).bind fun _ => (unbroken_evalSpans s h.2).bind fun _ =>
      avoids_pure _

theorem unbroken_evalElements (s : Scene) : ∀ elements : List Element,
    Unbroken (evalElements s elements)
  | [] => avoids_pure _
  | .hole :: rest => by
    rw [evalElements]
    exact (unbroken_evalElements s rest).bind fun _ => avoids_pure _
  | .item e :: rest => by
    rw [evalElements]
    exact (unbroken_guarded _).bind fun _ => (unbroken_evalElements s rest).bind fun _ =>
      avoids_pure _
  | .spread line e :: rest => by
    have hmore : ∀ items : List Value,
        Unbroken (evalElements s rest >>= fun more => pure (items ++ more)) := fun _ =>
      (unbroken_evalElements s rest).bind fun _ => avoids_pure _
    rw [evalElements]
    refine (unbroken_guarded _).bind fun v => ?_
    cases spreadItems? v with
    | some items => exact hmore items
    | none => exact hmore [.undefined]

theorem unbroken_evalArguments (s : Scene) : ∀ {args : List Element}, argumentsEnd args →
    Unbroken (evalArguments s args)
  | [], _ => avoids_pure _
  | .hole :: rest, h => by
    rw [argumentsEnd] at h
    rw [evalArguments]
    exact unbroken_evalArguments s h
  | .item e :: rest, h => by
    rw [argumentsEnd] at h
    rw [evalArguments]
    exact (unbroken_eval s h.1).bind fun _ => (unbroken_evalArguments s h.2).bind fun _ =>
      avoids_pure _
  | .spread _ e :: rest, h => by
    rw [argumentsEnd] at h
    rw [evalArguments]
    refine (unbroken_eval s h.1).bind fun v => ?_
    cases v with
    | array items =>
      exact (unbroken_evalArguments s h.2).bind fun _ => avoids_pure _
    | _ => exact avoids_throw nofun

theorem unbroken_evalProperties (s : Scene) : ∀ {ps : List Property}, keysEnd ps →
    ∀ object : Record Value, Unbroken (evalProperties s ps object)
  | [], _, _ => avoids_pure _
  | .value line key e :: rest, h, object => by
    rw [keysEnd] at h
    rw [evalProperties]
    refine (unbroken_evalKey s h.1 line).bind fun k => ?_
    cases k with
    | none => exact unbroken_evalProperties s h.2 object
    | some name =>
      exact (unbroken_guarded _).bind fun v => unbroken_evalProperties s h.2 _
  | .method line key text :: rest, h, object => by
    rw [keysEnd] at h
    rw [evalProperties]
    refine (unbroken_evalKey s h.1 line).bind fun k => ?_
    cases k with
    | none => exact unbroken_evalProperties s h.2 object
    | some name => exact unbroken_evalProperties s h.2 _
  | .accessor line key :: rest, h, object => by
    rw [keysEnd] at h
    rw [evalProperties]
    refine (unbroken_evalKey s h.1 line).bind fun k => ?_
    cases k with
    | none => exact unbroken_evalProperties s h.2 object
    | some name => exact avoids_throw nofun
  | .spread line e :: rest, h, object => by
    rw [keysEnd] at h
    rw [evalProperties]
    exact (unbroken_guarded _).bind fun v => unbroken_evalProperties s h _

theorem unbroken_evalKey (s : Scene) : ∀ {key : Key}, key.ChainsEnd →
    ∀ line : Nat, Unbroken (evalKey s line key)
  | .fixed _, _, _ => avoids_pure _
  | .computed e, h, _ => by
    rw [Key.ChainsEnd] at h
    exact unbroken_computed (unbroken_eval s h)

end

end Literal

end CommandFiles
