/-!
# Warnings

What is worth telling the user although the work goes on, and computations that give warnings beside
their result. A warning never changes the result it stands beside. Main statement: what is known of
a computation that may fail once it has succeeded.
-/

namespace CommandFiles

/-- A warning. -/
inductive Warning where
  | valueFailed (path : String) (line : Nat) (reason : String)
  | keyFailed (path : String) (line : Nat) (reason : String)
  | optionsImported (path source : String)
  | cacheIgnored (path reason : String)
  | productionRun
  | optionRepeated (command option : String)
  | helpIsBuiltIn (command : String)
  | commandRepeated (command subcommand : String)
  | aliasTaken (command name subcommand : String)
  deriving DecidableEq, Repr

/-- The words of a warning. -/
def Warning.message : Warning → String
  | valueFailed path line reason => s!"{path} (line {line}): {reason}; using undefined"
  | keyFailed path line reason => s!"{path} (line {line}): {reason}; skipping property"
  | optionsImported path source =>
    s!"{path} imports OPTS from {source}; imported options are not followed"
  | cacheIgnored path reason => s!"ignoring unreadable cache {path}: {reason}; rediscovering"
  | productionRun => "running with production flag toggled"
  | optionRepeated command option =>
    s!"`{command}`: option --{option} declared twice, keeping the first"
  | helpIsBuiltIn command => s!"`{command}`: `help` is a built-in subcommand, skipping it"
  | commandRepeated command subcommand =>
    s!"`{command}`: subcommand `{subcommand}` registered twice, keeping the first"
  | aliasTaken command name subcommand =>
    s!"`{command}`: alias `{name}` of `{subcommand}` is already taken, dropping it"

/-- A result and the warnings given on the way to it, in order. -/
structure Logged (α : Type u) where
  value : α
  warnings : List Warning := []

namespace Logged

/-- Goes on with a result and keeps the warnings of both parts. -/
def bind {α : Type u} {β : Type v} (a : Logged α) (f : α → Logged β) : Logged β :=
  let b := f a.value
  ⟨b.value, a.warnings ++ b.warnings⟩

instance : Monad Logged where
  pure a := ⟨a, []⟩
  bind := bind

/-- Gives a warning. -/
def warn (w : Warning) : Logged Unit := ⟨(), [w]⟩

@[simp] theorem value_bind {α β : Type u} (a : Logged α) (f : α → Logged β) :
    (a >>= f).value = (f a.value).value := rfl

@[simp] theorem value_pure {α : Type u} (a : α) : (pure a : Logged α).value = a := rfl

section Failing

variable {ε α β : Type u} {b : ExceptT ε Logged α} {f : α → ExceptT ε Logged β}

/-- A computation that goes on with the result of another one succeeds just if both do. -/
theorem bind_eq_ok {y : β} :
    (b >>= f).run.value = .ok y ↔ ∃ a, b.run.value = .ok a ∧ (f a).run.value = .ok y := by
  have hrun : (b >>= f).run.value = match b.run.value with
      | .ok a => (f a).run.value
      | .error e => .error e := by
    change (Logged.bind b.run _).value = _
    unfold Logged.bind
    cases hb : b.run.value <;> rfl
  rw [hrun]
  cases b.run.value with
  | ok a => simp
  | error e => simp

theorem pure_eq_ok {a x : α} : (pure a : ExceptT ε Logged α).run.value = .ok x ↔ a = x := by
  change (Except.ok a : Except ε α) = .ok x ↔ a = x
  simp

end Failing

end Logged

end CommandFiles
