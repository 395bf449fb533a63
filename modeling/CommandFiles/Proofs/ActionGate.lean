import CommandFiles.Action
import CommandFiles.Record

/-! # The gate before a command

A runner is observed: every call it gets is noted with the answer it gives. Whatever the runner
answers, and in whatever monad, the noted calls are a beginning of the stages a command declares,
and the file is run exactly if nothing spoke against it. First the possible courses of an action
are listed and shown to be all; every property of the gate is then read off a course. -/
namespace CommandFiles

/-! ## Arguments put over others -/

theorem Json.lookup_insertMember (key other : String) (value : Json)
    (members : List (String × Json)) :
    (Json.insertMember key value members).lookup other =
      if other = key then some value else members.lookup other := by
  induction members with
  | nil => rw [Json.insertMember, Record.lookup_entry]
  | cons entry rest ih =>
    obtain ⟨k, v⟩ := entry
    unfold Json.insertMember
    split
    · rw [Record.lookup_entry]
    · split
      · rename_i hk
        subst hk
        simp only [Record.lookup_entry]
        by_cases h : other = key <;> simp [h]
      · rename_i hk
        simp only [Record.lookup_entry, ih]
        by_cases h : other = k
        · have hne : ¬ k = key := fun e => hk e.symm
          simp [h, hne]
        · simp [h]

/-- Of the values put in under a key the last one counts; other keys keep what they had. -/
theorem Arguments.lookup_insertAll (key : String) (args more : Arguments) :
    (args.insertAll more).lookup key = (more.reverse.lookup key).or (args.lookup key) := by
  induction more generalizing args with
  | nil => simp [insertAll]
  | cons entry rest ih =>
    obtain ⟨k, v⟩ := entry
    have hstep : args.insertAll ((k, v) :: rest) = (args.insert k v).insertAll rest := rfl
    rw [hstep, ih, insert, Json.lookup_insertMember, List.reverse_cons, List.lookup_append,
      Record.lookup_entry]
    by_cases h : key = k <;> cases rest.reverse.lookup key <;> simp [h]

/-! ## Observed runners -/

/-- The stages at which a runner is called. -/
inductive Stage where
  | validate | beforeRun | run
  deriving DecidableEq, Repr

/-- A call of a runner with the answer to it. -/
inductive Event where
  | validated (hook : Hook) (seen : Invocation) (answer : Except Causes (List String))
  | prepared (hook : Hook) (seen : Invocation) (answer : Except Causes Arguments)
  | ran (seen : Invocation) (answer : Except Causes Int)

namespace Event

/-- The stage of a call. -/
def stage : Event → Stage
  | validated _ _ _ => .validate
  | prepared _ _ _ => .beforeRun
  | ran _ _ => .run

/-- Whether the answer to a call lets an action go on. -/
def Allows : Event → Prop
  | validated _ _ answer => answer = .ok []
  | prepared _ _ answer => ∃ extra, answer = .ok extra
  | ran _ _ => True

end Event

/-- A runner that notes every call with its answer, in their order. -/
def Runner.observed {m : Type → Type} [Monad m] (r : Runner m) :
    Runner (StateT (List Event) m) where
  validate hook i := do
    let answer ← r.validate hook i
    modify (· ++ [.validated hook i answer])
    return answer
  beforeRun hook i := do
    let answer ← r.beforeRun hook i
    modify (· ++ [.prepared hook i answer])
    return answer
  run i := do
    let answer ← r.run i
    modify (· ++ [.ran i answer])
    return answer

/-- **Whatever a computation gives has a property**: it might as well give it with a proof. -/
def Surely {m : Type → Type} [Functor m] {α : Type} (p : α → Prop) (x : m α) : Prop :=
  ∃ y : m { a // p a }, Subtype.val <$> y = x

namespace Surely

variable {m : Type → Type} [Monad m] [LawfulMonad m] {α β : Type} {p q : α → Prop}

theorem pure {a : α} (h : p a) : Surely p (Pure.pure a : m α) :=
  ⟨Pure.pure ⟨a, h⟩, by simp⟩

theorem mono {x : m α} (h : Surely p x) (hpq : ∀ a, p a → q a) : Surely q x := by
  obtain ⟨y, rfl⟩ := h
  exact ⟨(fun a => ⟨a.1, hpq a.1 a.2⟩) <$> y, by simp⟩

/-- What follows an unknown computation must do for every value of it. -/
theorem bind {x : m α} {f : α → m β} {p : β → Prop} (h : ∀ a, Surely p (f a)) :
    Surely p (x >>= f) := by
  obtain ⟨g, hg⟩ := Classical.axiomOfChoice h
  exact ⟨x >>= g, by simp [map_bind, hg]⟩

end Surely

/-! ## What an invocation brings with it -/

namespace Invocation

/-- The stages that a command declares; running its file is always the last. -/
def stages (i : Invocation) : List Stage :=
  (if i.command.declared.validate.isSome then [.validate] else []) ++
    (if i.command.declared.beforeRun.isSome then [.beforeRun] else []) ++ [.run]

/-- The runtimes a command is run against: those given, or the default alone if a runtime is
demanded and none was given. -/
def settledRuntimes (i : Invocation) : RuntimeSet :=
  match i.command.declared.runtimeDemand with
  | some ⟨some r⟩ => if i.runtimes.isEmpty then .ofList [r] else i.runtimes
  | _ => i.runtimes

/-- The invocation as hooks see it. -/
def settled (i : Invocation) : Invocation := { i with runtimes := i.settledRuntimes }

/-- Whether help is shown whatever else holds. -/
def AsksForHelp (i : Invocation) : Prop :=
  i.command.filePath = none ∨ (i.command.showsHelpWhenEmpty = true ∧ i.arguments = [])

/-- Whether a runtime is given, is not demanded, or has a default. -/
def HasRuntime (i : Invocation) : Prop :=
  i.runtimes.isEmpty = false ∨ i.command.declared.runtimeDemand = none ∨
    ∃ r, i.command.declared.runtimeDemand = some ⟨some r⟩

/-- Whether every required option has an argument. -/
def IsComplete (i : Invocation) : Prop :=
  ∀ o ∈ i.command.options, o.required = true → i.arguments.has (Naming.argumentKey o.long) = true

theorem missing_eq_nil {i : Invocation} : i.missing = [] ↔ i.IsComplete := by
  simp only [missing, IsComplete, List.filter_eq_nil_iff, List.mem_map, List.mem_filter]
  constructor
  · intro h o ho hr
    simpa using h o.long ⟨o, ⟨ho, hr⟩, rfl⟩
  · rintro h long ⟨o, ⟨ho, hr⟩, rfl⟩
    simpa using h o ho hr

theorem missingMessages_eq_nil {i : Invocation} : i.missingMessages = [] ↔ i.IsComplete := by
  rw [← missing_eq_nil, missingMessages]
  cases i.missing <;> simp

theorem missingMessages_settled (i : Invocation) :
    i.settled.missingMessages = i.missingMessages := rfl

theorem withRuntime?_of_hasRuntime {i : Invocation} (h : i.HasRuntime) :
    i.withRuntime? = some i.settled := by
  unfold withRuntime? settled settledRuntimes
  rcases h with hg | hd | ⟨r, hd⟩
  · cases hd : i.command.declared.runtimeDemand with
    | none => rfl
    | some demand =>
      obtain ⟨_ | r⟩ := demand <;> simp [hg]
  · simp [hd]
  · by_cases he : i.runtimes.isEmpty = true <;> simp [hd, he]

theorem withRuntime?_eq_none {i : Invocation} (h : ¬ i.HasRuntime) : i.withRuntime? = none := by
  simp only [HasRuntime, not_or, not_exists, Bool.not_eq_false] at h
  obtain ⟨he, hn, hs⟩ := h
  unfold withRuntime?
  cases hd : i.command.declared.runtimeDemand with
  | none => exact absurd hd hn
  | some demand =>
    obtain ⟨_ | r⟩ := demand
    · simp [he]
    · exact absurd hd (hs r)

theorem plan_of_asksForHelp {i : Invocation} (h : i.AsksForHelp) : i.plan = .help := by
  unfold plan
  rcases h with hf | ⟨hs, ha⟩
  · rw [hf]
  · cases i.command.filePath <;> simp [hs, ha]

theorem plan_of_not_asksForHelp {i : Invocation} (h : ¬ i.AsksForHelp) :
    ∃ path, i.command.filePath = some path ∧
      i.plan = i.withRuntime?.elim .missingRuntime (.proceed path) := by
  simp only [AsksForHelp, not_or, not_and] at h
  obtain ⟨path, hf⟩ := Option.ne_none_iff_exists'.mp h.1
  refine ⟨path, hf, ?_⟩
  have hh : (i.command.showsHelpWhenEmpty && i.arguments.isEmpty) = false := by
    cases hs : i.command.showsHelpWhenEmpty with
    | false => rfl
    | true => simpa using h.2 hs
  simp only [plan, hf, hh, Bool.false_eq_true, if_false]
  cases i.withRuntime? <;> rfl

end Invocation

/-! ## Courses of an action -/

/-- How the check of a command goes: the calls it takes and what it comes to. -/
inductive Checked (i : Invocation) : List Event → Except Causes (List String) → Prop
  | silent : i.command.declared.validate = none → Checked i [] (.ok [])
  | called {hook : Hook} {answer : Except Causes (List String)} :
      i.command.declared.validate = some hook →
      Checked i [.validated hook i.settled answer] answer

/-- How the preparation of a run goes: the calls it takes and the arguments it adds. -/
inductive Prepared (i : Invocation) : List Event → Except Causes Arguments → Prop
  | silent : i.command.declared.beforeRun = none → Prepared i [] (.ok [])
  | called {hook : Hook} {answer : Except Causes Arguments} :
      i.command.declared.beforeRun = some hook →
      Prepared i [.prepared hook i.settled answer] answer

/-- What stops an action: the calls up to the first stage that fails, and the failure of it. The
check and the missing arguments are one stage, whose messages are reported together. -/
inductive StopsWith (i : Invocation) : List Event → ActionFailure → Prop
  | runtime : ¬ i.HasRuntime → StopsWith i [] .missingRuntime
  | check {calls : List Event} {causes : Causes} {path : String} :
      i.command.filePath = some path → i.HasRuntime → Checked i calls (.error causes) →
      StopsWith i calls (.hook "validation" path causes)
  | objections {calls : List Event} {messages : List String} :
      i.HasRuntime → Checked i calls (.ok messages) → messages ++ i.missingMessages ≠ [] →
      StopsWith i calls (.validation (messages ++ i.missingMessages))
  | preparation {checks calls : List Event} {causes : Causes} {path : String} :
      i.command.filePath = some path → i.HasRuntime → i.IsComplete →
      Checked i checks (.ok []) → Prepared i calls (.error causes) →
      StopsWith i (checks ++ calls) (.hook "beforeRun" path causes)

/-- What the status of a file comes to. -/
def resultOfRun (path : String) : Except Causes Int → Except ActionFailure Outcome
  | .error causes => .error (.run path causes)
  | .ok status => .ok (.exited status)

/-- The ways an action can go: the calls of its runner and its result. -/
inductive Course (i : Invocation) : List Event → Except ActionFailure Outcome → Prop
  | help : i.AsksForHelp → Course i [] (.ok .help)
  | stopped {calls : List Event} {failure : ActionFailure} :
      ¬ i.AsksForHelp → StopsWith i calls failure → Course i calls (.error failure)
  | ran {checks calls : List Event} {extra : Arguments} {path : String}
      {answer : Except Causes Int} :
      ¬ i.AsksForHelp → i.command.filePath = some path → i.HasRuntime → i.IsComplete →
      Checked i checks (.ok []) → Prepared i calls (.ok extra) →
      Course i (checks ++ calls ++
          [.ran { i.settled with arguments := i.arguments.insertAll extra } answer])
        (resultOfRun path answer)

section Observed

variable {m : Type → Type} [Monad m] [LawfulMonad m] (r : Runner m) (i : Invocation)

/-- What follows the check must do for every way the check can go. -/
theorem surely_check {β : Type} {p : β × List Event → Prop}
    {f : Except Causes (List String) → StateT (List Event) m β} {noted : List Event}
    (h : ∀ calls answer, Checked i calls answer → Surely p ((f answer).run (noted ++ calls))) :
    Surely p ((r.observed.check i.settled >>= f).run noted) := by
  unfold Runner.check
  cases hv : i.settled.command.declared.validate with
  | none =>
    have := h [] _ (.silent hv)
    simpa using this
  | some hook =>
    simp only [Runner.observed, StateT.run_bind, StateT.run_monadLift, bind_assoc]
    refine Surely.bind fun answer => ?_
    have := h _ answer (.called hv)
    simpa using this

/-- What follows the preparation must do for every way the preparation can go. -/
theorem surely_extend {β : Type} {p : β × List Event → Prop}
    {f : Except Causes Arguments → StateT (List Event) m β} {noted : List Event}
    (h : ∀ calls answer, Prepared i calls answer → Surely p ((f answer).run (noted ++ calls))) :
    Surely p ((r.observed.extend i.settled >>= f).run noted) := by
  unfold Runner.extend
  cases hv : i.settled.command.declared.beforeRun with
  | none =>
    have := h [] _ (.silent hv)
    simpa using this
  | some hook =>
    simp only [Runner.observed, StateT.run_bind, StateT.run_monadLift, bind_assoc]
    refine Surely.bind fun answer => ?_
    have := h _ answer (.called hv)
    simpa using this

variable {r i}

/-- A command that passed all checks is prepared and run. -/
theorem finish_course {path : String} {checks : List Event} (ha : ¬ i.AsksForHelp)
    (hf : i.command.filePath = some path) (hr : i.HasRuntime) (hc : i.IsComplete)
    (hk : Checked i checks (.ok [])) :
    Surely (fun seen => Course i seen.2 seen.1)
      ((r.observed.finish path i.settled).run checks) := by
  unfold Runner.finish
  refine surely_extend r i fun calls answer hp => ?_
  cases answer with
  | error causes => exact Surely.pure (.stopped ha (.preparation hf hr hc hk hp))
  | ok extra =>
    simp only [Runner.observed, StateT.run_bind, StateT.run_monadLift, bind_assoc]
    refine Surely.bind fun answer => ?_
    simp only [StateT.run_pure, StateT.run_modify, pure_bind]
    cases answer with
    | error causes => exact Surely.pure (.ran ha hf hr hc hk hp)
    | ok status => exact Surely.pure (.ran ha hf hr hc hk hp)

/-- A command with a file and a runtime is checked first. -/
theorem checkAndRun_course {path : String} (ha : ¬ i.AsksForHelp)
    (hf : i.command.filePath = some path) (hr : i.HasRuntime) :
    Surely (fun seen => Course i seen.2 seen.1)
      ((r.observed.checkAndRun path i.settled).run []) := by
  unfold Runner.checkAndRun
  refine surely_check r i fun checks answer hk => ?_
  cases answer with
  | error causes => exact Surely.pure (.stopped ha (.check hf hr hk))
  | ok messages =>
    simp only [i.missingMessages_settled, List.nil_append]
    cases hall : messages ++ i.missingMessages with
    | cons first more =>
      have hne : messages ++ i.missingMessages ≠ [] := by simp [hall]
      exact Surely.pure (hall ▸ .stopped ha (.objections hr hk hne))
    | nil =>
      obtain ⟨rfl, hm⟩ := List.append_eq_nil_iff.mp hall
      exact finish_course ha hf hr (Invocation.missingMessages_eq_nil.mp hm) hk

variable (r i)

/-- Whatever the runner answers, an action takes one of its courses. -/
theorem perform_course :
    Surely (fun seen => Course i seen.2 seen.1) ((r.observed.perform i).run []) := by
  unfold Runner.perform
  by_cases ha : i.AsksForHelp
  · rw [Invocation.plan_of_asksForHelp ha]
    exact Surely.pure (.help ha)
  · obtain ⟨path, hf, hplan⟩ := Invocation.plan_of_not_asksForHelp ha
    rw [hplan]
    by_cases hr : i.HasRuntime
    · rw [Invocation.withRuntime?_of_hasRuntime hr]
      exact checkAndRun_course ha hf hr
    · rw [Invocation.withRuntime?_eq_none hr]
      exact Surely.pure (.stopped ha (.runtime hr))

end Observed

/-! ## The gate -/

/-- Whether nothing in an invocation itself keeps its file from being run. -/
structure Invocation.IsReady (i : Invocation) : Prop where
  asked : ¬ i.AsksForHelp
  runtime : i.HasRuntime
  complete : i.IsComplete

/-- What the noted calls and the result of an action have to do with its invocation. -/
structure Gate (i : Invocation) (calls : List Event) (result : Except ActionFailure Outcome) :
    Prop where
  /-- The calls are a beginning of the declared stages. -/
  order : calls.map Event.stage <+: i.stages
  /-- Hooks are the declared ones. They see the original arguments and the settled runtimes. -/
  check_sees : ∀ hook seen answer, .validated hook seen answer ∈ calls →
    i.command.declared.validate = some hook ∧ seen = i.settled
  prepare_sees : ∀ hook seen answer, .prepared hook seen answer ∈ calls →
    i.command.declared.beforeRun = some hook ∧ seen = i.settled
  /-- The file is run exactly if the invocation is ready and no hook objects. -/
  runs_iff : (∃ e ∈ calls, e.stage = .run) ↔ i.IsReady ∧ ∀ e ∈ calls, e.Allows
  /-- The file sees the original arguments with those that the hook before it adds put over them,
  and the settled runtimes; its status is the result. -/
  run_sees : ∀ seen answer, .ran seen answer ∈ calls →
    (∃ extra, Prepared i (calls.filter fun e => e.stage = .beforeRun) (.ok extra) ∧
      ∀ key, seen.arguments.lookup key =
        (extra.reverse.lookup key).or (i.arguments.lookup key)) ∧
    seen = { i with arguments := seen.arguments, runtimes := i.settledRuntimes } ∧
    ∃ path, i.command.filePath = some path ∧ result = resultOfRun path answer
  /-- If the file is not run, help is shown without a call, or the first failing stage is the last
  that was called and its failure is the result. -/
  stopped : (∀ e ∈ calls, e.stage ≠ .run) →
    (i.AsksForHelp ∧ calls = [] ∧ result = .ok .help) ∨
      (¬ i.AsksForHelp ∧ ∃ failure, StopsWith i calls failure ∧ result = .error failure)

section Courses

variable {i : Invocation} {calls : List Event}

theorem Checked.stages {answer : Except Causes (List String)} (h : Checked i calls answer) :
    calls.map Event.stage =
      if i.command.declared.validate.isSome then [.validate] else [] := by
  cases h with
  | silent hv => simp [hv]
  | called hv => simp [hv, Event.stage]

theorem Prepared.stages {answer : Except Causes Arguments} (h : Prepared i calls answer) :
    calls.map Event.stage =
      if i.command.declared.beforeRun.isSome then [.beforeRun] else [] := by
  cases h with
  | silent hv => simp [hv]
  | called hv => simp [hv, Event.stage]

theorem Checked.mem {answer : Except Causes (List String)} (h : Checked i calls answer)
    {e : Event} (he : e ∈ calls) : ∃ hook,
      i.command.declared.validate = some hook ∧ e = .validated hook i.settled answer := by
  cases h with
  | silent _ => cases he
  | called hv => exact ⟨_, hv, List.mem_singleton.mp he⟩

theorem Prepared.mem {answer : Except Causes Arguments} (h : Prepared i calls answer)
    {e : Event} (he : e ∈ calls) : ∃ hook,
      i.command.declared.beforeRun = some hook ∧ e = .prepared hook i.settled answer := by
  cases h with
  | silent _ => cases he
  | called hv => exact ⟨_, hv, List.mem_singleton.mp he⟩

theorem Checked.allows_iff {answer : Except Causes (List String)} (h : Checked i calls answer) :
    (∀ e ∈ calls, e.Allows) ↔ answer = .ok [] := by
  cases h <;> simp [Event.Allows]

theorem Prepared.allows_iff {answer : Except Causes Arguments} (h : Prepared i calls answer) :
    (∀ e ∈ calls, e.Allows) ↔ ∃ extra, answer = .ok extra := by
  cases h <;> simp [Event.Allows]

/-- A call that is made before the file is run is one of the declared hooks. -/
theorem StopsWith.mem {failure : ActionFailure} (h : StopsWith i calls failure) {e : Event}
    (he : e ∈ calls) :
    (∃ hook answer, i.command.declared.validate = some hook ∧
      e = .validated hook i.settled answer) ∨
    (∃ hook answer, i.command.declared.beforeRun = some hook ∧
      e = .prepared hook i.settled answer) := by
  cases h with
  | runtime _ => cases he
  | check _ _ hk => exact .inl (let ⟨hook, hv, e⟩ := hk.mem he; ⟨hook, _, hv, e⟩)
  | objections _ hk _ => exact .inl (let ⟨hook, hv, e⟩ := hk.mem he; ⟨hook, _, hv, e⟩)
  | preparation _ _ _ hk hp =>
    rcases List.mem_append.mp he with he | he
    · exact .inl (let ⟨hook, hv, e⟩ := hk.mem he; ⟨hook, _, hv, e⟩)
    · exact .inr (let ⟨hook, hv, e⟩ := hp.mem he; ⟨hook, _, hv, e⟩)

theorem StopsWith.order {failure : ActionFailure} (h : StopsWith i calls failure) :
    calls.map Event.stage <+: i.stages := by
  cases h with
  | runtime _ => simp
  | check _ _ hk =>
    rw [hk.stages, Invocation.stages, List.append_assoc]
    exact List.prefix_append _ _
  | objections _ hk _ =>
    rw [hk.stages, Invocation.stages, List.append_assoc]
    exact List.prefix_append _ _
  | preparation _ _ _ hk hp =>
    rw [List.map_append, hk.stages, hp.stages, Invocation.stages]
    exact List.prefix_append _ _

/-- Where an action stops, the invocation was not ready or a hook objected. -/
theorem StopsWith.not_allowed {failure : ActionFailure} (h : StopsWith i calls failure) :
    ¬ (i.IsReady ∧ ∀ e ∈ calls, e.Allows) := by
  rintro ⟨hready, hall⟩
  cases h with
  | runtime hr => exact hr hready.runtime
  | check _ _ hk => cases hk.allows_iff.mp hall
  | objections _ hk hne =>
    have hm := Invocation.missingMessages_eq_nil.mpr hready.complete
    have := Except.ok.inj (hk.allows_iff.mp hall)
    exact hne (by rw [this, hm, List.append_nil])
  | preparation _ _ _ _ hp =>
    obtain ⟨extra, he⟩ := hp.allows_iff.mp fun e he => hall e (List.mem_append.mpr (.inr he))
    cases he

theorem StopsWith.gate {failure : ActionFailure} (ha : ¬ i.AsksForHelp)
    (h : StopsWith i calls failure) : Gate i calls (.error failure) := by
  have hno : ∀ e ∈ calls, e.stage ≠ .run := by
    intro e he
    rcases h.mem he with ⟨hook, answer, _, rfl⟩ | ⟨hook, answer, _, rfl⟩ <;> simp [Event.stage]
  refine ⟨h.order, ?_, ?_, ?_, ?_, fun _ => .inr ⟨ha, failure, h, rfl⟩⟩
  · intro hook seen answer he
    rcases h.mem he with ⟨_, _, hv, e⟩ | ⟨_, _, _, e⟩
    · cases e; exact ⟨hv, rfl⟩
    · cases e
  · intro hook seen answer he
    rcases h.mem he with ⟨_, _, _, e⟩ | ⟨_, _, hv, e⟩
    · cases e
    · cases e; exact ⟨hv, rfl⟩
  · exact ⟨fun ⟨e, he, hs⟩ => absurd hs (hno e he), fun hr => absurd hr h.not_allowed⟩
  · intro seen answer he
    exact absurd rfl (hno _ he)

/-- The calls of an action that runs its file, told apart by their stage. -/
theorem ran_filter {checks : List Event} {extra : Arguments} {last : Event}
    (hk : Checked i checks (.ok [])) (hp : Prepared i calls (.ok extra)) (hl : last.stage = .run) :
    (checks ++ calls ++ [last]).filter (fun e => e.stage = .beforeRun) = calls := by
  have hchecks : checks.filter (fun e => e.stage = .beforeRun) = [] := by
    refine List.filter_eq_nil_iff.mpr fun e he => ?_
    obtain ⟨_, _, rfl⟩ := hk.mem he
    simp [Event.stage]
  have hcalls : calls.filter (fun e => e.stage = .beforeRun) = calls := by
    refine List.filter_eq_self.mpr fun e he => ?_
    obtain ⟨_, _, rfl⟩ := hp.mem he
    simp [Event.stage]
  simp [List.filter_append, hchecks, hcalls, hl]

theorem mem_ran {checks : List Event} {last e : Event} (h : e ∈ checks ++ calls ++ [last]) :
    e ∈ checks ∨ e ∈ calls ∨ e = last := by
  simpa [or_assoc] using h

theorem Course.gate {result : Except ActionFailure Outcome} (h : Course i calls result) :
    Gate i calls result := by
  cases h with
  | help ha =>
    refine ⟨by simp, by simp, by simp, ?_, by simp, fun _ => .inl ⟨ha, rfl, rfl⟩⟩
    exact ⟨by simp, fun ⟨hr, _⟩ => absurd ha hr.asked⟩
  | stopped ha hs => exact hs.gate ha
  | @ran checks calls extra path answer ha hf hr hc hk hp =>
    refine ⟨?_, ?_, ?_, ?_, ?_, ?_⟩
    · rw [List.map_append, List.map_append, hk.stages, hp.stages]
      exact List.prefix_rfl
    · intro hook seen given he
      rcases mem_ran he with he | he | he
      · obtain ⟨_, hv, e⟩ := hk.mem he; cases e; exact ⟨hv, rfl⟩
      · obtain ⟨_, _, e⟩ := hp.mem he; cases e
      · cases he
    · intro hook seen given he
      rcases mem_ran he with he | he | he
      · obtain ⟨_, _, e⟩ := hk.mem he; cases e
      · obtain ⟨_, hv, e⟩ := hp.mem he; cases e; exact ⟨hv, rfl⟩
      · cases he
    · refine ⟨fun _ => ⟨⟨ha, hr, hc⟩, fun e he => ?_⟩, fun _ =>
        ⟨_, List.mem_append_right _ (List.mem_singleton_self _), rfl⟩⟩
      rcases mem_ran he with he | he | rfl
      · exact hk.allows_iff.mpr rfl e he
      · exact hp.allows_iff.mpr ⟨extra, rfl⟩ e he
      · trivial
    · intro seen given he
      rcases mem_ran he with he | he | he
      · obtain ⟨_, _, e⟩ := hk.mem he; cases e
      · obtain ⟨_, _, e⟩ := hp.mem he; cases e
      · cases he
        refine ⟨⟨extra, ?_, fun key => Arguments.lookup_insertAll key i.arguments extra⟩, rfl,
          path, hf, rfl⟩
        rw [ran_filter hk hp rfl]
        exact hp
    · intro hno
      exact absurd rfl (hno _ (List.mem_append_right _ (List.mem_singleton_self _)))

end Courses

/-- **The gate holds for every invocation and every runner**, in any lawful monad: whatever the
hooks answer or however they fail, the noted calls and the result obey the gate. -/
theorem perform_gate {m : Type → Type} [Monad m] [LawfulMonad m] (r : Runner m)
    (i : Invocation) :
    Surely (fun seen => Gate i seen.2 seen.1) ((r.observed.perform i).run []) :=
  (perform_course r i).mono fun _ h => h.gate

/-- A command with a default runtime, and arguments its hook changes: the file sees the changed
arguments and the default runtime. -/
theorem perform_gate_of_changed_arguments :
    let hook : Hook := ⟨"(args) => changed"⟩
    let command : Command := .mk
      { name := "deploy", filePath := some "/c/deploy.js", beforeRun := some hook,
        runtimeDemand := some ⟨some .staging⟩ } []
    let asked : Invocation := ⟨["root", "deploy"], command, [("tag", .string "old")], {}, false⟩
    let settled : Invocation := { asked with runtimes := .ofList [.staging] }
    LawfulMonad Id ∧
      Gate asked
        [.prepared hook settled (.ok [("tag", .string "new")]),
          .ran { settled with arguments := [("tag", .string "new")] } (.ok 3)]
        (.ok (.exited 3)) := by
  intro hook command asked settled
  let runner : Runner Id :=
    ⟨fun _ _ => .ok [], fun _ _ => .ok [("tag", .string "new")], fun _ => .ok 3⟩
  obtain ⟨seen, hseen⟩ := perform_gate runner asked
  refine ⟨inferInstance, ?_⟩
  have hgate := seen.2
  have hrun : seen.1 = (runner.observed.perform asked).run [] := hseen
  rw [hrun] at hgate
  exact hgate

end CommandFiles
