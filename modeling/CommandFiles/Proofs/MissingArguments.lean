import CommandFiles.Proofs.ActionGate
import CommandFiles.Proofs.RepeatedOptions
import CommandFiles.Proofs.SuppliedOptions

/-! # Arguments that are reported missing

Three passes go over the options of a command: they are registered, their values are collected, and
the required ones are looked for among the collected values. What was given for an option is
collected, so it is not reported missing. But an option with a reserved name is neither registered
nor collected and is looked for all the same: where it is required, and no other option leaves a
value under its key, the command is never run, whatever is given to it. -/
namespace CommandFiles

open CommandLine Interface

/-! ## Parameters of options -/

section Parameters

variable {o : OptionSpec} {seen : List String}

/-- Of the options that are left none has a name from before, and no two have one name. -/
theorem nodup_firstOptions (seen : List String) (os : List OptionSpec) :
    ((firstOptions seen os).map OptionSpec.long).Nodup ∧
      ∀ o ∈ firstOptions seen os, o.long ∉ seen := by
  induction os generalizing seen with
  | nil => exact ⟨.nil, nofun⟩
  | cons o rest ih =>
    unfold firstOptions
    split
    · exact ih seen
    next hseen =>
    obtain ⟨hnodup, hnew⟩ := ih (o.long :: seen)
    refine ⟨?_, fun p hp => ?_⟩
    · rw [List.map_cons, List.nodup_cons]
      refine ⟨fun hm => ?_, hnodup⟩
      obtain ⟨p, hp, hlong⟩ := List.mem_map.mp hm
      exact hnew p hp (hlong ▸ List.mem_cons_self)
    · rcases List.mem_cons.mp hp with rfl | hp
      · simpa using hseen
      · exact fun hm => hnew p hp (List.mem_cons_of_mem _ hm)

/-- The first option of a name that is not reserved has a parameter. -/
theorem exists_parameterOf_first {c : Command} {k : Interface} (h : OptionsRegistered c k)
    (ho : o ∈ firstOptions [] c.options) (hr : o.long ∉ Naming.reserved) :
    ∃ short, parameterOf o short ∈ k.usage.parameters := by
  obtain ⟨command, hps⟩ := h
  rw [← parametersOf_firstOptions fun _ hm => absurd hm List.not_mem_nil] at hps
  obtain ⟨listed, hlisted, hoptions⟩ :=
    Report.listedFlags_of_parametersOf hps ((nodup_firstOptions [] c.options).1.filter _) nofun
  obtain ⟨short, hmem⟩ := exists_mem_listedFlags ho hr hlisted
  refine ⟨short, List.mem_of_mem_filter (?_ : _ ∈ k.options)⟩
  rw [hoptions]
  exact List.mem_map.mpr ⟨_, hmem, rfl⟩

end Parameters

namespace Invocation

section Missing

variable {tree : Command} {fallback : String} {i reached : Interface} {arguments : List String}
  {levels : List Level} {given : List (String × Given)} {o : OptionSpec} {g : Given}
  {v : Invocation} {long : String}

/-! ## What is collected -/

/-- What is given for an option is a value of the first option of its name. -/
theorem Supply.optionValue?_first (h : Supply tree fallback i arguments levels reached given)
    (ho : o ∈ (ofLevels tree fallback levels).command.options) (hr : o.long ∉ Naming.reserved)
    (hg : given.lookup o.long = some g) :
    ∃ first ∈ (ofLevels tree fallback levels).command.options, first.long = o.long ∧
      ∃ value, optionValue? (lastLevel levels) first = some value := by
  obtain ⟨first, hfirst, hlong⟩ := exists_firstOption ho List.not_mem_nil
  rw [← hlong] at hr hg
  obtain ⟨short, hparameter⟩ := exists_parameterOf_first h.registered hfirst hr
  obtain ⟨q, hq, hid, hfits⟩ := h.account.fitting _ _ hg
  obtain rfl := h.eq_parameterOf hparameter hq hid
  obtain ⟨value, -, hvalue⟩ :=
    optionValue?_of_fits (lookup_addDefaults_of_some hg h.completed) hfits
  exact ⟨first, mem_of_mem_firstOptions hfirst, hlong, value, hvalue⟩

/-- Where an option has a value, something stands under its key. -/
theorem has_of_optionValue? {l : Level} {c : Command} {value : Json} (ho : o ∈ c.options)
    (hr : o.long ∉ Naming.reserved) (hvalue : optionValue? l o = some value) :
    Arguments.has (Naming.argumentKey o.long) (argumentsAt l c) = true := by
  obtain ⟨before, after, hc⟩ := List.append_of_mem ho
  rw [Arguments.has, lookup_of_optionValue? hc hr hvalue]
  rfl

/-- Nothing stands under a key that only reserved names have. -/
theorem has_of_reserved {l : Level} {c : Command}
    (h : ∀ p ∈ c.options, p.long ∉ Naming.reserved → Naming.argumentKey p.long ≠
      Naming.argumentKey long) :
    Arguments.has (Naming.argumentKey long) (argumentsAt l c) = false := by
  rw [Arguments.has, lookup_argumentsAt, if_neg (Naming.argumentKey_ne_positionalName long),
    prevailing_eq_none fun p hp => ?_]
  · rfl
  · unfold valueUnder
    split
    · rfl
    · next hr => rw [if_neg (h p hp (by simpa using hr))]

/-! ## What is reported -/

theorem mem_missing : long ∈ v.missing ↔
    (∃ o ∈ v.command.options, o.required = true ∧ o.long = long) ∧
      v.arguments.has (Naming.argumentKey long) = false := by
  simp [missing, and_assoc]

/-- Whether an action ends with the report that some arguments are missing, and a long name is one
of those in the list. The messages of the check stand before it. -/
def Reports (v : Invocation) (calls : List Event) (result : Except ActionFailure Outcome)
    (long : String) : Prop :=
  ∃ said, Checked v calls (.ok said) ∧ long ∈ v.missing ∧
    result = .error (.validation
      (said ++ ["Missing required argument(s): " ++ ", ".intercalate v.missing]))

/-- If an action ends with messages about its arguments, every missing one is reported. -/
theorem reports_of_course {calls : List Event} {result : Except ActionFailure Outcome}
    {messages : List String} (h : Course v calls result) (hlong : long ∈ v.missing)
    (hresult : result = .error (.validation messages)) : Reports v calls result long := by
  have hsome : v.missingMessages =
      ["Missing required argument(s): " ++ ", ".intercalate v.missing] := by
    rw [missingMessages, if_neg]
    simpa using List.ne_nil_of_mem hlong
  cases h with
  | help _ => cases hresult
  | stopped _ hs =>
    cases hs with
    | objections _ hk _ => exact ⟨_, hk, hlong, by rw [hsome]⟩
    | runtime _ | check _ _ _ | preparation _ _ _ _ _ => cases hresult
  | @ran _ _ _ _ answer _ _ _ _ _ _ => cases answer <;> cases hresult

/-- **What is reported missing was not given, unless its name is reserved.** Whatever the runner
does, a name that is reported is that of a required option, and the arguments gave nothing for it to
the command. A required option with a reserved name is reported whatever was given, and it keeps the
command from ever being run, unless another option leaves a value under its key. -/
theorem reported_missing {m : Type → Type} [Monad m] [LawfulMonad m] (r : Runner m)
    (hi : (ofTree tree fallback).run.value = .ok i)
    (hm : CommandLine.match i arguments = .ok levels) :
    let v := ofLevels tree fallback levels
    ∃ reached given, supplied i.inherited i {} arguments = .ok (reached, given) ∧
      i.findPath? v.path.tail = some reached ∧
      Surely (fun seen =>
        (∀ long, Reports v seen.2 seen.1 long →
          (∃ o ∈ v.command.options, o.required = true ∧ o.long = long) ∧
            (long ∈ Naming.reserved ∨ given.lookup long = none)) ∧
        ∀ o ∈ v.command.options, o.required = true → o.long ∈ Naming.reserved →
          (∀ p ∈ v.command.options, p.long ∉ Naming.reserved →
            Naming.argumentKey p.long ≠ Naming.argumentKey o.long) →
          (∀ e ∈ seen.2, e.stage ≠ .run) ∧
            ∀ messages, seen.1 = .error (.validation messages) → Reports v seen.2 seen.1 o.long)
        ((r.observed.perform v).run []) := by
  obtain ⟨reached, given, hsupply⟩ := exists_supply hi hm
  have harguments := arguments_of_match hi hm
  refine ⟨reached, given, hsupply.supplied, hsupply.found, ?_⟩
  refine (perform_course r _).mono fun seen hcourse => ⟨?_, ?_⟩
  · rintro long ⟨said, -, hmissing, -⟩
    obtain ⟨⟨o, ho, hrequired, rfl⟩, hnone⟩ := mem_missing.mp hmissing
    refine ⟨⟨o, ho, hrequired, rfl⟩, ?_⟩
    by_cases hr : o.long ∈ Naming.reserved
    · exact .inl hr
    refine .inr (Option.eq_none_iff_forall_ne_some.mpr fun g hg => ?_)
    obtain ⟨first, hfirst, hlong, value, hvalue⟩ := hsupply.optionValue?_first ho hr hg
    rw [← hlong] at hr hnone
    rw [harguments, has_of_optionValue? hfirst hr hvalue] at hnone
    cases hnone
  · intro o ho hrequired _ hkeys
    have hmissing : o.long ∈ (ofLevels tree fallback levels).missing := by
      refine mem_missing.mpr ⟨⟨o, ho, hrequired, rfl⟩, ?_⟩
      rw [harguments, has_of_reserved hkeys]
    refine ⟨fun e he hstage => ?_, fun messages => reports_of_course hcourse hmissing⟩
    have hcomplete := (hcourse.gate.runs_iff.mp ⟨e, he, hstage⟩).1.complete
    rw [← missing_eq_nil] at hcomplete
    rw [hcomplete] at hmissing
    cases hmissing

end Missing

/-! A command that requires a text and a flag, and one that requires a reserved flag. -/

/-- `--tag`, which is required and takes a text. -/
def requiredTag : OptionSpec := { name := .long "tag", kind := .input, required := true }

/-- `--force`, which is required. -/
def requiredForce : OptionSpec := { name := .long "force", kind := .boolean, required := true }

/-- `--verbose`, which every command has, as a required option. -/
def requiredVerbose : OptionSpec := { name := .long "verbose", kind := .boolean, required := true }

/-- A runner whose hooks do nothing and whose files all end well. -/
def quietRunner : Runner Id := ⟨fun _ _ => .ok [], fun _ _ => .ok [], fun _ => .ok 0⟩

theorem reported_missing_of_force :
    let i := optionInterface [parameterOf requiredTag "t", parameterOf requiredForce "f"]
    let levels := [⟨"root", []⟩, ⟨"sub", [("tag", .values ["v1"])]⟩]
    let v := ofLevels (optionTree [requiredTag, requiredForce]) "zli" levels
    (ofTree (optionTree [requiredTag, requiredForce]) "zli").run.value = .ok i ∧
      CommandLine.match i ["sub", "--tag", "v1"] = .ok levels ∧ LawfulMonad Id ∧
      Reports v [] (.error (.validation ["Missing required argument(s): force"])) "force" ∧
      (supplied i.inherited i {} ["sub", "--tag", "v1"]).map (·.2.lookup "force") = .ok none := by
  intro i levels v
  have hi : (ofTree (optionTree [requiredTag, requiredForce]) "zli").run.value = .ok i := rfl
  have hm : CommandLine.match i ["sub", "--tag", "v1"] = .ok levels := rfl
  have hreport : Reports v [] (.error (.validation ["Missing required argument(s): force"]))
      "force" := ⟨[], .silent rfl, by decide, rfl⟩
  refine ⟨hi, hm, inferInstance, hreport, ?_⟩
  obtain ⟨reached, given, hsupplied, -, seen, hseen⟩ := reported_missing quietRunner hi hm
  have hrun : seen.1 = (quietRunner.observed.perform v).run [] := hseen
  have hreported := seen.2.1 "force" (by rw [hrun]; exact hreport)
  rw [hsupplied]
  exact congrArg Except.ok (hreported.2.resolve_left (by decide))

/-- A flag that was given is reported missing because its name is reserved. -/
theorem given_flag_reported_missing :
    let i := optionInterface []
    let levels := [⟨"root", []⟩, ⟨"sub", [("verbose", .flag)]⟩]
    (ofTree (optionTree [requiredVerbose]) "zli").run.value = .ok i ∧
      CommandLine.match i ["sub", "--verbose"] = .ok levels ∧
      (supplied i.inherited i {} ["sub", "--verbose"]).map Prod.snd = .ok [("verbose", .flag)] ∧
      quietRunner.perform (ofLevels (optionTree [requiredVerbose]) "zli" levels) =
        .error (.validation ["Missing required argument(s): verbose"]) :=
  ⟨rfl, rfl, rfl, rfl⟩

end Invocation

end CommandFiles
