import CommandFiles.Literal.Evaluate

/-! # Soft faults stay where they arise

A property value, an item of an array or a spread argument that fails softly counts as `undefined`,
and a property whose key fails softly counts as none. So a literal in which such a part is replaced
by `undefined`, or such a property is left out, comes to the same. What an evaluation comes to is
its value or the kind of its fault; every rule of the evaluator depends on its parts through that
alone. -/
namespace CommandFiles.Literal

open CommandFiles.Script

/-- A fault without its reason, if it is a soft one. -/
def Fault.kind : Fault → Fault
  | soft _ => soft ""
  | fault => fault

/-- What an evaluation comes to: a value or the kind of a fault. -/
def outcome {α : Type} (e : Eval α) : Except Fault α := e.run.value.mapError Fault.kind

section Outcome

variable {α β : Type} {s : Scene} {line : Nat}

theorem outcome_pure (a : α) : outcome (pure a : Eval α) = .ok a := rfl

theorem outcome_liftExcept (r : Except Fault α) :
    outcome (liftExcept r : Eval α) = r.mapError Fault.kind := by
  cases r <;> rfl

theorem value_bind (e : Eval α) (f : α → Eval β) :
    (e >>= f).run.value = e.run.value.bind fun a => (f a).run.value := by
  change (e.run >>= _).value = _
  rw [Logged.value_bind]
  cases e.run.value <;> rfl

theorem value_tryCatch (e : Eval α) (handle : Fault → Eval α) :
    (ExceptT.tryCatch e handle).run.value = match e.run.value with
      | .ok a => .ok a
      | .error fault => (handle fault).run.value := by
  change (e.run >>= _).value = _
  rw [Logged.value_bind]
  cases e.run.value <;> rfl

theorem outcome_bind (e : Eval α) (f : α → Eval β) :
    outcome (e >>= f) = (outcome e).bind fun a => outcome (f a) := by
  rw [outcome, value_bind, outcome]
  cases e.run.value <;> rfl

theorem bind_congr {r : Except Fault α} {f g : α → Except Fault β} (h : ∀ a, f a = g a) :
    r.bind f = r.bind g := by
  rw [funext h]

/-- What a part comes to where soft faults and broken chains are contained. -/
def contained : Except Fault Value → Except Fault Value
  | .error (.soft _) | .error .shortCircuit => .ok .undefined
  | r => r

/-- What a chain comes to. -/
def chainEnded : Except Fault Value → Except Fault Value
  | .error .shortCircuit => .ok .undefined
  | r => r

/-- What a key comes to: a name, or none after a soft fault. -/
def keyNamed : Except Fault Value → Except Fault (Option String)
  | .ok v => .ok (some v.text)
  | .error (.soft _) => .ok none
  | .error fault => .error fault

theorem outcome_guarded (e : Eval Value) :
    outcome (guarded s line e) = contained (outcome e) := by
  rw [outcome, guarded, outcome]
  rw [value_tryCatch]
  cases e.run.value with
  | ok v => rfl
  | error fault => cases fault <;> rfl

theorem outcome_endChain (e : Eval Value) : outcome (endChain e) = chainEnded (outcome e) := by
  rw [outcome, endChain, outcome]
  rw [value_tryCatch]
  cases e.run.value with
  | ok v => rfl
  | error fault => cases fault <;> rfl

theorem outcome_computed (e : Expr) :
    outcome (evalKey s line (.computed e)) = keyNamed (outcome (eval s e)) := by
  rw [outcome, evalKey, value_tryCatch, value_bind, outcome]
  cases (eval s e).run.value with
  | ok v => rfl
  | error fault => cases fault <;> rfl

/-- What an array comes to from a spread argument on. -/
theorem outcome_spread (e : Expr) (rest : List Element) :
    outcome (evalElements s (.spread line e :: rest)) =
      (contained (outcome (eval s e))).bind fun v =>
        (outcome (evalElements s rest)).map ((spreadItems? v).getD [.undefined] ++ ·) := by
  rw [evalElements, outcome_bind, outcome_guarded]
  refine bind_congr fun v => ?_
  have hrest : ∀ items : List Value,
      outcome (evalElements s rest >>= fun more => pure (items ++ more)) =
        (outcome (evalElements s rest)).map (items ++ ·) := by
    intro items
    rw [outcome_bind]
    cases outcome (evalElements s rest) <;> rfl
  cases spreadItems? v with
  | some items => exact hrest items
  | none => exact hrest [.undefined]

end Outcome

/-! ## Faults that do not get out -/

/-- Whether an evaluation does not end in a fault of a kind. -/
def Avoids {α : Type} (fault : Fault) (e : Eval α) : Prop := outcome e ≠ .error fault

section Avoids

variable {α β : Type} {fault : Fault} {s : Scene}

theorem avoids_pure (a : α) : Avoids fault (pure a : Eval α) := nofun

theorem avoids_throw {thrown : Fault} (h : thrown.kind ≠ fault) :
    Avoids fault (throw thrown : Eval α) := fun hb => h (Except.error.inj hb)

theorem Avoids.bind {e : Eval α} {f : α → Eval β} (he : Avoids fault e)
    (hf : ∀ a, Avoids fault (f a)) : Avoids fault (e >>= f) := by
  rw [Avoids, outcome_bind]
  rw [Avoids] at he
  cases h : outcome e with
  | ok a => exact hf a
  | error other =>
    intro hb
    exact he (h.trans (congrArg Except.error (Except.error.inj hb)))

/-- Whether no soft fault gets out of an evaluation. -/
abbrev Loud (e : Eval α) : Prop := Avoids (.soft "") e

theorem loud_guarded (line : Nat) (e : Eval Value) : Loud (guarded s line e) := by
  rw [Loud, Avoids, outcome_guarded]
  rcases outcome e with fault | v
  · cases fault <;> simp [contained]
  · simp [contained]

theorem loud_evalKey (line : Nat) (key : Key) : Loud (evalKey s line key) := by
  cases key with
  | fixed name => exact avoids_pure _
  | computed e =>
    rw [Loud, Avoids, outcome_computed]
    rcases outcome (eval s e) with fault | v
    · cases fault <;> simp [keyNamed]
    · simp [keyNamed]

/-- An object contains the soft faults of its keys, values and spread arguments. -/
theorem loud_evalProperties (ps : List Property) :
    ∀ object : Record Value, Loud (evalProperties s ps object) := by
  induction ps with
  | nil => exact fun _ => avoids_pure _
  | cons p rest ih =>
    intro object
    cases p with
    | value line key e =>
      rw [evalProperties]
      refine (loud_evalKey line key).bind fun k => ?_
      cases k with
      | none => exact ih object
      | some name => exact (loud_guarded _ _).bind fun v => ih _
    | method line key text =>
      rw [evalProperties]
      refine (loud_evalKey line key).bind fun k => ?_
      cases k with
      | none => exact ih object
      | some name => exact ih _
    | accessor line key =>
      rw [evalProperties]
      refine (loud_evalKey line key).bind fun k => ?_
      cases k with
      | none => exact ih object
      | some name => exact avoids_throw nofun
    | spread line e =>
      rw [evalProperties]
      exact (loud_guarded _ _).bind fun v => ih _

/-- Kinds tell apart all faults that are not soft. -/
theorem Loud.value_eq {e e' : Eval α} (he : Loud e) (h : outcome e = outcome e') :
    e.run.value = e'.run.value := by
  unfold Loud Avoids outcome at he
  unfold outcome at h
  cases hv : e.run.value with
  | ok a =>
    rw [hv] at h
    cases hw : e'.run.value with
    | ok b => rw [hw] at h; exact h
    | error fault => rw [hw] at h; cases h
  | error fault =>
    rw [hv] at h he
    cases hw : e'.run.value with
    | ok b => rw [hw] at h; cases h
    | error fault' =>
      rw [hw] at h
      cases fault with
      | soft reason => exact absurd rfl he
      | _ => cases fault' <;> cases h <;> rfl

end Avoids

/-! ## Replacing parts that fail softly -/

/-- Whether an expression fails softly. -/
def FailsSoftly (s : Scene) (e : Expr) : Prop :=
  ∃ reason, (eval s e).run.value = .error (.soft reason)

theorem FailsSoftly.outcome_eq {s : Scene} {e : Expr} (h : FailsSoftly s e) :
    outcome (eval s e) = .error (.soft "") := by
  obtain ⟨reason, h⟩ := h
  rw [outcome, h]
  rfl

/-- The name that stands for no value. -/
def undefinedAt (line : Nat) : Expr := .name line "undefined"

theorem outcome_undefinedAt (s : Scene) (line : Nat) :
    outcome (eval s (undefinedAt line)) = .ok .undefined := by
  rw [undefinedAt, eval, outcome_liftExcept]
  rfl

mutual

/-- An expression with parts of it replaced, at any depth. What is called may be written otherwise
then, so its text is left open. -/
inductive Softened (s : Scene) : Expr → Expr → Prop where
  | same (e : Expr) : Softened s e e
  | template {line head spans spans'} : SoftenedSpans s spans spans' →
      Softened s (.template line head spans) (.template line head spans')
  | array {line elements elements'} : SoftenedElements s elements elements' →
      Softened s (.array line elements) (.array line elements')
  | object {line properties properties'} : SoftenedProperties s properties properties' →
      Softened s (.object line properties) (.object line properties')
  | member {line optional target target' key} : Softened s target target' →
      Softened s (.member line optional target key) (.member line optional target' key)
  | index {line optional target target' key key'} : Softened s target target' →
      Softened s key key' →
      Softened s (.index line optional target key) (.index line optional target' key')
  | call {line optional text text' callee callee' args args'} : Softened s callee callee' →
      SoftenedArguments s args args' →
      Softened s (.call line optional text callee args) (.call line optional text' callee' args')
  | chain {line e e'} : Softened s e e' → Softened s (.chain line e) (.chain line e')
  | unary {line op e e'} : Softened s e e' → Softened s (.unary line op e) (.unary line op e')
  | binary {line op a a' b b'} : Softened s a a' → Softened s b b' →
      Softened s (.binary line op a b) (.binary line op a' b')
  | logical {line op a a' b b'} : Softened s a a' → Softened s b b' →
      Softened s (.logical line op a b) (.logical line op a' b')
  | conditional {line t t' a a' b b'} : Softened s t t' → Softened s a a' → Softened s b b' →
      Softened s (.conditional line t a b) (.conditional line t' a' b')
  | wrapped {line e e'} : Softened s e e' → Softened s (.wrapped line e) (.wrapped line e')

/-- The expressions of a template, with parts of them replaced. -/
inductive SoftenedSpans (s : Scene) : List TemplateSpan → List TemplateSpan → Prop where
  | nil : SoftenedSpans s [] []
  | cons {e e' quasi rest rest'} : Softened s e e' → SoftenedSpans s rest rest' →
      SoftenedSpans s (.mk e quasi :: rest) (.mk e' quasi :: rest')

/-- The elements of an array, with items and spread arguments that fail softly replaced. -/
inductive SoftenedElements (s : Scene) : List Element → List Element → Prop where
  | nil : SoftenedElements s [] []
  | hole {rest rest'} : SoftenedElements s rest rest' →
      SoftenedElements s (.hole :: rest) (.hole :: rest')
  | item {e e' rest rest'} : Softened s e e' → SoftenedElements s rest rest' →
      SoftenedElements s (.item e :: rest) (.item e' :: rest')
  | softItem {e at' rest rest'} : FailsSoftly s e → SoftenedElements s rest rest' →
      SoftenedElements s (.item e :: rest) (.item (undefinedAt at') :: rest')
  | spread {line e e' rest rest'} : Softened s e e' → SoftenedElements s rest rest' →
      SoftenedElements s (.spread line e :: rest) (.spread line e' :: rest')
  | softSpread {line e at' rest rest'} : FailsSoftly s e → SoftenedElements s rest rest' →
      SoftenedElements s (.spread line e :: rest) (.spread line (undefinedAt at') :: rest')

/-- The arguments of a call, with parts of them replaced. A soft fault of an argument is one of the
call, so no argument itself is replaced. -/
inductive SoftenedArguments (s : Scene) : List Element → List Element → Prop where
  | nil : SoftenedArguments s [] []
  | hole {rest rest'} : SoftenedArguments s rest rest' →
      SoftenedArguments s (.hole :: rest) (.hole :: rest')
  | item {e e' rest rest'} : Softened s e e' → SoftenedArguments s rest rest' →
      SoftenedArguments s (.item e :: rest) (.item e' :: rest')
  | spread {line e e' rest rest'} : Softened s e e' → SoftenedArguments s rest rest' →
      SoftenedArguments s (.spread line e :: rest) (.spread line e' :: rest')

/-- The properties of an object, with values and spread arguments that fail softly replaced and
properties left out whose key fails softly. -/
inductive SoftenedProperties (s : Scene) : List Property → List Property → Prop where
  | nil : SoftenedProperties s [] []
  | value {line key key' e e' rest rest'} : SoftenedKey s key key' → Softened s e e' →
      SoftenedProperties s rest rest' →
      SoftenedProperties s (.value line key e :: rest) (.value line key' e' :: rest')
  | softValue {line key key' e at' rest rest'} : SoftenedKey s key key' → FailsSoftly s e →
      SoftenedProperties s rest rest' →
      SoftenedProperties s (.value line key e :: rest) (.value line key' (undefinedAt at') :: rest')
  | method {line key key' text rest rest'} : SoftenedKey s key key' →
      SoftenedProperties s rest rest' →
      SoftenedProperties s (.method line key text :: rest) (.method line key' text :: rest')
  | accessor {line key key' rest rest'} : SoftenedKey s key key' →
      SoftenedProperties s rest rest' →
      SoftenedProperties s (.accessor line key :: rest) (.accessor line key' :: rest')
  | spread {line e e' rest rest'} : Softened s e e' → SoftenedProperties s rest rest' →
      SoftenedProperties s (.spread line e :: rest) (.spread line e' :: rest')
  | softSpread {line e at' rest rest'} : FailsSoftly s e → SoftenedProperties s rest rest' →
      SoftenedProperties s (.spread line e :: rest) (.spread line (undefinedAt at') :: rest')
  | dropValue {line e value rest rest'} : FailsSoftly s e → SoftenedProperties s rest rest' →
      SoftenedProperties s (.value line (.computed e) value :: rest) rest'
  | dropMethod {line e text rest rest'} : FailsSoftly s e → SoftenedProperties s rest rest' →
      SoftenedProperties s (.method line (.computed e) text :: rest) rest'
  | dropAccessor {line e rest rest'} : FailsSoftly s e → SoftenedProperties s rest rest' →
      SoftenedProperties s (.accessor line (.computed e) :: rest) rest'

/-- The key of a property, with parts of it replaced. -/
inductive SoftenedKey (s : Scene) : Key → Key → Prop where
  | fixed (name : String) : SoftenedKey s (.fixed name) (.fixed name)
  | computed {e e'} : Softened s e e' → SoftenedKey s (.computed e) (.computed e')

end

theorem Softened.isLink_eq {s : Scene} {e e' : Expr} (h : Softened s e e') :
    isLink e = isLink e' := by
  cases h <;> rfl

mutual

theorem Softened.outcome_eq {s : Scene} : ∀ {e e' : Expr}, Softened s e e' →
    outcome (eval s e) = outcome (eval s e')
  | _, _, .same e => rfl
  | _, _, .template h => by
    simp only [eval, outcome_bind, outcome_pure, h.outcome_eq]
  | _, _, .array h => by
    simp only [eval, outcome_bind, outcome_pure, h.outcome_eq]
  | _, _, .object h => by
    simp only [eval, outcome_bind, outcome_pure, h.outcome_eq]
  | _, _, .member h => by
    simp only [eval, outcome_bind, h.outcome_eq]
  | _, _, .index h hk => by
    simp only [eval, outcome_bind, h.outcome_eq, hk.outcome_eq]
  | _, _, .call h ha => by
    simp only [eval, outcome_bind, h.outcome_eq, ha.outcome_eq]
    refine bind_congr fun target => bind_congr fun _ => bind_congr fun args => ?_
    cases target <;> rfl
  | _, _, .chain h => by
    simp only [eval, h.isLink_eq]
    split
    · rw [outcome_endChain, outcome_endChain, h.outcome_eq]
    · rfl
  | _, _, .unary h => by
    simp only [eval, outcome_bind, h.outcome_eq]
  | _, _, .binary h h' => by
    simp only [eval, outcome_bind, h.outcome_eq, h'.outcome_eq]
  | _, _, .logical h h' => by
    simp only [eval, outcome_bind, h.outcome_eq]
    refine bind_congr fun v => ?_
    split
    · rfl
    · exact h'.outcome_eq
  | _, _, .conditional h h' h'' => by
    simp only [eval, outcome_bind, h.outcome_eq]
    refine bind_congr fun v => ?_
    split
    · exact h'.outcome_eq
    · exact h''.outcome_eq
  | _, _, .wrapped h => by
    simp only [eval, h.outcome_eq]

theorem SoftenedSpans.outcome_eq {s : Scene} : ∀ {spans spans' : List TemplateSpan},
    SoftenedSpans s spans spans' → outcome (evalSpans s spans) = outcome (evalSpans s spans')
  | _, _, .nil => rfl
  | _, _, .cons h hr => by
    simp only [evalSpans, outcome_bind, outcome_pure, h.outcome_eq, hr.outcome_eq]

theorem SoftenedElements.outcome_eq {s : Scene} : ∀ {elements elements' : List Element},
    SoftenedElements s elements elements' →
      outcome (evalElements s elements) = outcome (evalElements s elements')
  | _, _, .nil => rfl
  | _, _, .hole hr => by
    simp only [evalElements, outcome_bind, outcome_pure, hr.outcome_eq]
  | _, _, .item h hr => by
    simp only [evalElements, outcome_bind, outcome_pure, outcome_guarded, h.outcome_eq,
      hr.outcome_eq]
  | _, _, .softItem h hr => by
    simp only [evalElements, outcome_bind, outcome_pure, outcome_guarded, h.outcome_eq,
      outcome_undefinedAt, contained, hr.outcome_eq]
  | _, _, .spread h hr => by
    rw [outcome_spread, outcome_spread, h.outcome_eq, hr.outcome_eq]
  | _, _, .softSpread h hr => by
    rw [outcome_spread, outcome_spread, h.outcome_eq, outcome_undefinedAt, hr.outcome_eq]
    rfl

theorem SoftenedArguments.outcome_eq {s : Scene} : ∀ {args args' : List Element},
    SoftenedArguments s args args' →
      outcome (evalArguments s args) = outcome (evalArguments s args')
  | _, _, .nil => rfl
  | _, _, .hole hr => by
    simp only [evalArguments, hr.outcome_eq]
  | _, _, .item h hr => by
    simp only [evalArguments, outcome_bind, outcome_pure, h.outcome_eq, hr.outcome_eq]
  | _, _, .spread h hr => by
    simp only [evalArguments, outcome_bind, h.outcome_eq]
    refine bind_congr fun v => ?_
    cases v with
    | array items => simp only [outcome_bind, hr.outcome_eq]
    | _ => rfl

theorem SoftenedProperties.outcome_eq {s : Scene} : ∀ {ps ps' : List Property},
    SoftenedProperties s ps ps' → ∀ object : Record Value,
      outcome (evalProperties s ps object) = outcome (evalProperties s ps' object)
  | _, _, .nil, _ => rfl
  | _, _, .value hk h hr, object => by
    simp only [evalProperties, outcome_bind, hk.outcome_eq]
    refine bind_congr fun k => ?_
    cases k with
    | none => exact hr.outcome_eq object
    | some name => simp only [outcome_bind, outcome_guarded, h.outcome_eq, hr.outcome_eq]
  | _, _, .softValue hk h hr, object => by
    simp only [evalProperties, outcome_bind, hk.outcome_eq]
    refine bind_congr fun k => ?_
    cases k with
    | none => exact hr.outcome_eq object
    | some name =>
      simp only [outcome_bind, outcome_guarded, h.outcome_eq, outcome_undefinedAt, contained,
        hr.outcome_eq]
  | _, _, .method hk hr, object => by
    simp only [evalProperties, outcome_bind, hk.outcome_eq]
    refine bind_congr fun k => ?_
    cases k with
    | none => exact hr.outcome_eq object
    | some name => exact hr.outcome_eq _
  | _, _, .accessor hk hr, object => by
    simp only [evalProperties, outcome_bind, hk.outcome_eq]
    refine bind_congr fun k => ?_
    cases k with
    | none => exact hr.outcome_eq object
    | some name => rfl
  | _, _, .spread h hr, object => by
    simp only [evalProperties, outcome_bind, outcome_guarded, h.outcome_eq, hr.outcome_eq]
  | _, _, .softSpread h hr, object => by
    simp only [evalProperties, outcome_bind, outcome_guarded, h.outcome_eq, outcome_undefinedAt,
      contained, hr.outcome_eq]
  | _, _, .dropValue h hr, object => by
    rw [evalProperties, outcome_bind, outcome_computed, h.outcome_eq]
    exact hr.outcome_eq object
  | _, _, .dropMethod h hr, object => by
    rw [evalProperties, outcome_bind, outcome_computed, h.outcome_eq]
    exact hr.outcome_eq object
  | _, _, .dropAccessor h hr, object => by
    rw [evalProperties, outcome_bind, outcome_computed, h.outcome_eq]
    exact hr.outcome_eq object

theorem SoftenedKey.outcome_eq {s : Scene} : ∀ {key key' : Key}, SoftenedKey s key key' →
      ∀ line, outcome (evalKey s line key) = outcome (evalKey s line key')
  | _, _, .fixed _ => fun _ => rfl
  | _, _, .computed h => fun _ => by
    rw [outcome_computed, outcome_computed, h.outcome_eq]

end

end CommandFiles.Literal
