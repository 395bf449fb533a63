import CommandFiles.Proofs.AddedGlobals
import CommandFiles.Proofs.LiteralFaults
import CommandFiles.Proofs.ObjectUnion

/-! # Optional chains break as a whole

The links of a chain are its members, indices and calls, from the last one down to the base. A link
evaluates what stands left of it before anything else, so a nullish value there breaks the chain
whatever follows, and where no value left of an optional link is nullish the links might as well be
plain. -/
namespace CommandFiles

namespace Script

/-- What the last link of a chain is put on, and whether the link is optional. Annotations between
the links belong to the chain. -/
def Expr.link? : Expr → Option (Bool × Expr)
  | .member _ optional target _ | .index _ optional target _ => some (optional, target)
  | .call _ optional _ callee _ => some (optional, callee)
  | .wrapped _ inner => some (false, inner)
  | _ => none

/-- Whether an expression is what stands left of an optional link of a chain. -/
inductive Expr.LeftOfOptional (left : Expr) : Expr → Prop where
  | last {e : Expr} : e.link? = some (true, left) → LeftOfOptional left e
  | earlier {e target : Expr} {optional : Bool} : e.link? = some (optional, target) →
      LeftOfOptional left target → LeftOfOptional left e

/-- A chain with plain links for its optional ones. Messages quote the text of what is called, which
is written otherwise then. -/
def Expr.plain (quote : String → String) : Expr → Expr
  | .member line _ target key => .member line false (target.plain quote) key
  | .index line _ target key => .index line false (target.plain quote) key
  | .call line _ text callee args => .call line false (quote text) (callee.plain quote) args
  | .wrapped line inner => .wrapped line (inner.plain quote)
  | e => e

end Script

namespace Literal

open CommandFiles.Script

section Bind

variable {α β : Type} {e : Eval α}

theorem bind_congr_of_value {f g : α → Eval β} (h : ∀ a, e.run.value = .ok a → f a = g a) :
    e >>= f = e >>= g := by
  cases hv : e.run.value with
  | error fault => exact bind_eq_of_error hv f g
  | ok a => exact ExceptT.ext (by rw [bind_of_ok hv, bind_of_ok hv, h a hv])

theorem run_bind_of_error {fault : Fault} {warnings : List Warning}
    (h : e.run = ⟨.error fault, warnings⟩) (f : α → Eval β) :
    (e >>= f).run = ⟨.error fault, warnings⟩ := by
  change (e.run >>= _) = _
  rw [h]
  exact congrArg (Logged.mk _) (List.append_nil warnings)

end Bind

variable {s : Scene} {e left below : Expr} {v : Value}

/-! ## Breaking -/

/-- A link begins with what it is put on. -/
theorem eval_of_link {optional : Bool} (h : e.link? = some (optional, below)) :
    ∃ rest : Value → Eval Value,
      eval s e = eval s below >>= fun v => checkLink optional v >>= fun _ => rest v := by
  cases e with
  | member line o t key =>
    cases h
    exact ⟨_, by rw [eval]⟩
  | index line o t key =>
    cases h
    exact ⟨_, by rw [eval]⟩
  | call line o text callee args =>
    cases h
    exact ⟨_, by rw [eval]⟩
  | wrapped line inner =>
    cases h
    exact ⟨pure, by rw [eval]; exact (bind_pure _).symm⟩
  | _ => cases h

/-- A nullish value left of an optional link is the last thing that is evaluated. -/
theorem run_of_broken (hleft : left.LeftOfOptional e) (hv : (eval s left).run.value = .ok v)
    (hn : v.isNullish = true) :
    (eval s e).run = ⟨.error .shortCircuit, (eval s left).run.warnings⟩ := by
  induction hleft with
  | last hlink =>
    obtain ⟨rest, hrest⟩ := eval_of_link hlink
    have hbreak : checkLink true v = throw .shortCircuit := by simp [checkLink, hn]
    rw [hrest, bind_of_ok hv, hbreak]
    exact congrArg (Logged.mk _) (List.append_nil _)
  | earlier hlink _ ih =>
    obtain ⟨rest, hrest⟩ := eval_of_link hlink
    rw [hrest]
    exact run_bind_of_error ih _

/-! ## Plain links -/

theorem checkLink_of_not_nullish {optional : Bool} (h : optional = true → v.isNullish = false) :
    checkLink optional v = checkLink false v := by
  cases optional with
  | false => rfl
  | true => simp [checkLink, h rfl]

/-- Whether no value left of an optional link is nullish. -/
def Unbreaking (s : Scene) (e : Expr) : Prop :=
  ∀ left v, left.LeftOfOptional e → (eval s left).run.value = .ok v → v.isNullish = false

theorem Unbreaking.of_link {optional : Bool} (h : Unbreaking s e)
    (hlink : e.link? = some (optional, below)) : Unbreaking s below :=
  fun left v hleft => h left v (.earlier hlink hleft)

theorem Unbreaking.checkLink_eq {optional : Bool} (h : Unbreaking s e)
    (hlink : e.link? = some (optional, below)) (hv : (eval s below).run.value = .ok v) :
    checkLink optional v = checkLink false v :=
  checkLink_of_not_nullish fun ho => h below v (.last (ho ▸ hlink)) hv

/-- Where no value left of an optional link is nullish, optional links do what plain ones do. -/
theorem eval_plain : ∀ {e : Expr}, Unbreaking s e → eval s e = eval s (e.plain id)
  | .member line o t key, h => by
    rw [Expr.plain, eval, eval, ← eval_plain (h.of_link rfl)]
    exact bind_congr_of_value fun v hv => by rw [h.checkLink_eq rfl hv]
  | .index line o t key, h => by
    rw [Expr.plain, eval, eval, ← eval_plain (h.of_link rfl)]
    exact bind_congr_of_value fun v hv => by rw [h.checkLink_eq rfl hv]
  | .call line o text callee args, h => by
    rw [Expr.plain, eval, eval, ← eval_plain (h.of_link rfl)]
    exact bind_congr_of_value fun v hv => by rw [h.checkLink_eq rfl hv, id]
  | .wrapped line inner, h => by
    rw [Expr.plain, eval, eval, ← eval_plain (h.of_link rfl)]
  | .null _, _ | .boolean _ _, _ | .number _ _, _ | .string _ _, _ | .template _ _ _, _
  | .name _ _, _ | .array _ _, _ | .object _ _, _ | .chain _ _, _ | .function _ _, _
  | .unary _ _ _, _ | .binary _ _ _ _, _ | .logical _ _ _ _, _ | .conditional _ _ _ _, _
  | .foreign _ _, _ => rfl

theorem isLink_plain (quote : String → String) (e : Expr) : isLink (e.plain quote) = isLink e := by
  cases e <;> rfl

theorem SoftenedArguments.refl (args : List Element) : SoftenedArguments s args args := by
  induction args with
  | nil => exact .nil
  | cons argument rest ih =>
    cases argument with
    | hole => exact .hole ih
    | item e => exact .item (.same e) ih
    | spread _ e => exact .spread (.same e) ih

/-- The texts that messages quote do not count for what a chain comes to. -/
theorem softened_plain (quote : String → String) :
    ∀ e : Expr, Softened s (e.plain id) (e.plain quote)
  | .member _ _ target _ => .member (softened_plain quote target)
  | .index _ _ target key => .index (softened_plain quote target) (.same key)
  | .call _ _ _ callee args => .call (softened_plain quote callee) (.refl args)
  | .wrapped _ inner => .wrapped (softened_plain quote inner)
  | .null _ | .boolean _ _ | .number _ _ | .string _ _ | .template _ _ _ | .name _ _
  | .array _ _ | .object _ _ | .chain _ _ | .function _ _ | .unary _ _ _ | .binary _ _ _ _
  | .logical _ _ _ _ | .conditional _ _ _ _ | .foreign _ _ => .same _

/-! ## Whole chains -/

theorem endChain_of_unbroken {e : Eval Value} (h : Unbroken e) : endChain e = e := by
  obtain ⟨value, warnings⟩ := e
  cases value with
  | ok v => exact congrArg (Logged.mk _) (List.append_nil warnings)
  | error fault =>
    cases fault with
    | shortCircuit => exact absurd rfl h
    | _ => exact congrArg (Logged.mk _) (List.append_nil warnings)

theorem run_endChain_of_broken {e : Eval Value} {warnings : List Warning}
    (h : e.run = ⟨.error .shortCircuit, warnings⟩) :
    (endChain e).run = ⟨.ok .undefined, warnings⟩ := by
  change (e.run >>= _) = _
  rw [h]
  exact congrArg (Logged.mk _) (List.append_nil warnings)

/-- **An optional chain breaks as a whole or not at all.** If a value left of one of its optional
links is nullish, the chain is `undefined`, and nothing behind that link is evaluated: there are no
warnings but those of the expression left of it. If none of these values is nullish, the chain
comes to what it comes to with plain links, in value, fault and warnings. So do the plain links by
themselves, unless an optional link outside of all chains breaks in them, and expressions that are
read have none of these. Where the texts of what is called change along with the links, the messages
of soft faults do. Nothing that breaks in the chain gets out of it. -/
theorem eval_chain_breaks_as_whole (s : Scene) (line : Nat) {inner : Expr}
    (hlink : isLink inner = true) :
    (∀ left v, left.LeftOfOptional inner → (eval s left).run.value = .ok v → v.isNullish = true →
      (eval s (.chain line inner)).run = ⟨.ok .undefined, (eval s left).run.warnings⟩) ∧
    ((∀ left v, left.LeftOfOptional inner → (eval s left).run.value = .ok v →
        v.isNullish = false) →
      eval s (.chain line inner) = eval s (.chain line (inner.plain id)) ∧
      ((inner.plain id).ChainsEnd →
        eval s (.chain line inner) = eval s (inner.plain id) ∧
        ∀ quote, outcome (eval s (.chain line inner)) = outcome (eval s (inner.plain quote)))) ∧
    (eval s (.chain line inner)).run.value ≠ .error .shortCircuit := by
  have hchain : eval s (.chain line inner) = endChain (eval s inner) := by rw [eval, if_pos hlink]
  rw [hchain]
  refine ⟨fun left v hleft hv hn => run_endChain_of_broken (run_of_broken hleft hv hn),
    fun h => ?_, fun h => ?_⟩
  · rw [eval_plain h]
    refine ⟨by rw [eval, isLink_plain, if_pos hlink], fun hends => ?_⟩
    rw [endChain_of_unbroken (unbroken_eval s hends)]
    exact ⟨rfl, fun quote => (softened_plain quote inner).outcome_eq⟩
  · refine unbroken_endChain (eval s inner) ?_
    rw [outcome, h]
    rfl

/-! A chain that breaks before a name without a meaning and unsupported syntax, and one that does
not break. -/

/-- `RUNTIMES.NOPE`, which is `undefined`. -/
def noRuntime : Expr := .member 1 false (.name 1 "RUNTIMES") "NOPE"

/-- `RUNTIMES.NOPE?.x[missing](1n)`. -/
def breakingChain : Expr :=
  .call 1 false "RUNTIMES.NOPE?.x[missing]"
    (.index 1 false (.member 1 true noRuntime "x") (.name 1 "missing"))
    [.item (.foreign 1 .bigNumber)]

/-- `RUNTIMES?.LOCAL`, or `RUNTIMES.LOCAL`. -/
def runtimeChain (optional : Bool) : Expr := .member 1 optional (.name 1 "RUNTIMES") "LOCAL"

theorem unbreaking_runtimeChain : Unbreaking softScene (runtimeChain true) := by
  rintro left v (hlink | ⟨hlink, hleft⟩) hv
  · cases hlink
    obtain rfl := Except.ok.inj hv
    rfl
  · cases hlink
    rcases hleft with hlink | ⟨hlink, -⟩ <;> cases hlink

theorem eval_chain_breaks_as_whole_of_both :
    (isLink breakingChain = true ∧ noRuntime.LeftOfOptional breakingChain ∧
      (eval softScene noRuntime).run.value = .ok .undefined ∧
      (eval softScene (.chain 1 breakingChain)).run = ⟨.ok .undefined, []⟩) ∧
    isLink (runtimeChain true) = true ∧ Unbreaking softScene (runtimeChain true) ∧
      ((runtimeChain true).plain id).ChainsEnd ∧
      eval softScene (.chain 1 (runtimeChain true)) = eval softScene (runtimeChain false) ∧
      (eval softScene (runtimeChain false)).run.value = .ok (.string "local") := by
  have hleft : noRuntime.LeftOfOptional breakingChain :=
    .earlier rfl (.earlier rfl (.last rfl))
  have hlinks : isLink breakingChain = true := rfl
  have hbroken := (eval_chain_breaks_as_whole softScene 1 hlinks).1
    noRuntime .undefined hleft rfl rfl
  have hends : ((runtimeChain true).plain id).ChainsEnd := by
    simp [runtimeChain, Expr.plain, Expr.ChainsEnd]
  have hlink : isLink (runtimeChain true) = true := rfl
  obtain ⟨-, hplain⟩ :=
    (eval_chain_breaks_as_whole softScene 1 hlink).2.1 unbreaking_runtimeChain
  exact ⟨⟨rfl, hleft, rfl, hbroken⟩, rfl, unbreaking_runtimeChain, hends, (hplain hends).1, rfl⟩

end Literal

end CommandFiles
