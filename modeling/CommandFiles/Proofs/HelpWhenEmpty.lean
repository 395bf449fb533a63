import CommandFiles.Proofs.MissingArguments

/-! # Help where nothing is given

A command may show help where it is called without arguments. That is looked for among the collected
arguments, and there a default stands like a value that was given. So help is shown just if no
option of the command has a default that is collected: a flag any default at all, and an option with
values one that is a value of the parameter it was registered with. -/
namespace CommandFiles

open CommandLine Interface

/-! ## Values by default -/

/-- What stands for a parameter once the defaults are in: what was given for it, or its defaults. -/
theorem CommandLine.lookup_addDefaults_eq {ps : List Parameter} {given a : List (String × Given)}
    {key : String} (ha : addDefaults ps given = .ok a) :
    a.lookup key = (given.lookup key).or
      ((ps.find? fun p => p.id = key && !p.defaults.isEmpty).map fun p => .values p.defaults) := by
  induction ps generalizing given with
  | nil =>
    cases ha
    simp
  | cons p rest ih =>
    rw [addDefaults] at ha
    split at ha
    · next hskip =>
      rw [ih ha]
      rcases Bool.or_eq_true_iff.mp hskip with hempty | hgiven
      · simp [hempty]
      · by_cases hid : p.id = key
        · obtain ⟨g, hg⟩ := Option.isSome_iff_exists.mp hgiven
          rw [hid] at hg
          simp [hg]
        · simp [hid]
    · next hkeep =>
      rw [Bool.not_eq_true, Bool.or_eq_false_iff, Option.isSome_eq_false_iff,
        Option.isNone_iff_eq_none] at hkeep
      obtain ⟨_, _, ha⟩ := except_bind_eq_ok.mp ha
      by_cases hid : p.id = key
      · subst hid
        have hput : (put p.id (.values p.defaults) given).lookup p.id =
            some (.values p.defaults) := by
          rw [lookup_put_self, hkeep.2]
          rfl
        rw [lookup_addDefaults_of_some hput ha, hkeep.2]
        simp [hkeep.1]
      · rw [ih ha, lookup_put_of_ne (Ne.symm hid)]
        simp [hid]

namespace Invocation

variable {tree : Command} {fallback : String} {i reached : Interface} {arguments : List String}
  {levels : List Level} {given : List (String × Given)} {o : OptionSpec} {c : Command} {l : Level}

/-- The values that are put in for an option where none is given. -/
def defaultsOf (o : OptionSpec) : List String :=
  if o.kind.takesValue then defaultTexts o.defaultValue else []

theorem defaults_parameterOf (o : OptionSpec) (short : String) :
    (parameterOf o short).defaults = defaultsOf o := by
  by_cases h : o.kind.takesValue = true <;> simp [parameterOf, defaultsOf, h]

/-- Where nothing is given for an option, its defaults stand in the last level. -/
theorem Supply.lookup_first (h : Supply tree fallback i arguments levels reached given)
    (ho : o ∈ firstOptions [] (ofLevels tree fallback levels).command.options)
    (hr : o.long ∉ Naming.reserved) (hnone : given.lookup o.long = none) :
    (lastLevel levels).given.lookup o.long =
      if defaultsOf o = [] then none else some (.values (defaultsOf o)) := by
  obtain ⟨short, hparameter⟩ := exists_parameterOf_first h.registered ho hr
  rw [lookup_addDefaults_eq h.completed, hnone, Option.none_or]
  cases hfind : (parametersAt reached globalFlags).find? fun p =>
      p.id = o.long && !p.defaults.isEmpty with
  | some q =>
    have hfound := List.find?_some hfind
    rw [Bool.and_eq_true, decide_eq_true_eq] at hfound
    obtain rfl := h.eq_parameterOf hparameter (List.mem_of_find?_eq_some hfind) hfound.1
    rw [defaults_parameterOf] at hfound
    rw [if_neg (by simpa using hfound.2), Option.map_some, defaults_parameterOf]
  | none =>
    have hfree := List.find?_eq_none.mp hfind _
      (List.mem_append_left _ (List.mem_append_left _ hparameter))
    rw [id_parameterOf, defaults_parameterOf] at hfree
    rw [if_pos (by simpa using hfree)]
    rfl

/-! ## Empty arguments -/

theorem optionValue?_of_lookup_none (hkind : o.kind.takesValue = true)
    (h : l.given.lookup o.long = none) : optionValue? l o = none := by
  simp [optionValue?, hkind, Level.values?, h]

theorem argumentsAt_eq_nil_iff :
    argumentsAt l c = [] ↔ positionalValue? l = none ∧
      ∀ o ∈ c.options, o.long ∉ Naming.reserved → optionValue? l o = none := by
  constructor
  · intro hnil
    constructor
    · have hlookup := lookup_argumentsAt l c Naming.positionalName
      rw [hnil, if_pos rfl] at hlookup
      exact hlookup.symm
    · intro o ho hr
      refine Option.eq_none_iff_forall_ne_some.mpr fun value hvalue => ?_
      have hhas := has_of_optionValue? ho hr hvalue
      rw [hnil] at hhas
      cases hhas
  · rintro ⟨hpositional, hoptions⟩
    refine Json.ordered_ext (ordered_argumentsAt l c) .nil fun key => ?_
    rw [lookup_argumentsAt, hpositional, prevailing_eq_none fun o ho => ?_, ite_self]
    · rfl
    · unfold valueUnder
      split
      · rfl
      · next hr => rw [hoptions o ho (by simpa using hr), ite_self]

/-- Whether a command has an option that has a value where nothing is given: a flag with a default,
or an option with defaults of its parameter. Options with a reserved name have none. -/
inductive LeavesDefault (c : Command) : Prop where
  | flag {o : OptionSpec} {value : Json} : o ∈ c.options → o.long ∉ Naming.reserved →
      o.kind.takesValue = false → o.defaultValue = some value → value ≠ .null → LeavesDefault c
  | values {o : OptionSpec} : o ∈ firstOptions [] c.options → o.long ∉ Naming.reserved →
      defaultsOf o ≠ [] → LeavesDefault c

/-- Whether nothing was given but runtimes and verbosity. -/
def OnlyModifiers (given : List (String × Given)) : Prop :=
  ∀ key g, given.lookup key = some g → ∃ m : Modifier, key = m.id

theorem OnlyModifiers.lookup_eq_none {key : String} (h : OnlyModifiers given)
    (hkey : ∀ m : Modifier, key ≠ m.id) : given.lookup key = none := by
  refine Option.eq_none_iff_forall_ne_some.mpr fun g hg => ?_
  obtain ⟨m, hm⟩ := h key g hg
  exact hkey m hm

theorem OnlyModifiers.lookup_of_unreserved {long : String} (h : OnlyModifiers given)
    (hr : long ∉ Naming.reserved) : given.lookup long = none :=
  h.lookup_eq_none fun m hm => hr (hm ▸ m.id_mem_reserved)

/-- Without a default an option to which nothing was given has no value. -/
theorem Supply.optionValue?_eq_none (h : Supply tree fallback i arguments levels reached given)
    (honly : OnlyModifiers given)
    (hdefaults : ¬ LeavesDefault (ofLevels tree fallback levels).command)
    (ho : o ∈ (ofLevels tree fallback levels).command.options) (hr : o.long ∉ Naming.reserved) :
    optionValue? (lastLevel levels) o = none := by
  obtain ⟨first, hfirst, hlong⟩ := exists_firstOption ho List.not_mem_nil
  have hlookup := h.lookup_first hfirst (hlong ▸ hr) (honly.lookup_of_unreserved (hlong ▸ hr))
  have hnone : defaultsOf first = [] :=
    Classical.byContradiction fun hne => hdefaults (.values hfirst (hlong ▸ hr) hne)
  rw [hlong, if_pos hnone] at hlookup
  cases hkind : o.kind.takesValue with
  | true => exact optionValue?_of_lookup_none hkind hlookup
  | false =>
    have hflag : (lastLevel levels).hasFlag o.long = false := by simp [Level.hasFlag, hlookup]
    cases hdefault : o.defaultValue with
    | none => simp [optionValue?, hkind, hflag, hdefault]
    | some value =>
      obtain rfl : value = .null :=
        Classical.byContradiction fun hne => hdefaults (.flag ho hr hkind hdefault hne)
      simp [optionValue?, hkind, hflag, hdefault]

/-- A default is the value of its option. -/
theorem Supply.exists_optionValue? (h : Supply tree fallback i arguments levels reached given)
    (honly : OnlyModifiers given)
    (hdefaults : LeavesDefault (ofLevels tree fallback levels).command) :
    ∃ o ∈ (ofLevels tree fallback levels).command.options, o.long ∉ Naming.reserved ∧
      optionValue? (lastLevel levels) o ≠ none := by
  cases hdefaults with
  | @flag o value ho hr hkind hdefault hne =>
    refine ⟨o, ho, hr, ?_⟩
    cases hflag : (lastLevel levels).hasFlag o.long with
    | true => simp [optionValue?, hkind, hflag]
    | false =>
      cases value with
      | null => exact absurd rfl hne
      | bool _ | int _ | float _ | string _ | array _ | object _ =>
        simp [optionValue?, hkind, hflag, hdefault]
  | @values o ho hr hne =>
    refine ⟨o, mem_of_mem_firstOptions ho, hr, ?_⟩
    have hlookup := h.lookup_first ho hr (honly.lookup_of_unreserved hr)
    rw [if_neg hne] at hlookup
    have hkind : o.kind.takesValue = true := by
      by_contra hkind
      exact hne (if_neg hkind)
    obtain ⟨text, more, htexts⟩ := List.exists_cons_of_ne_nil hne
    rw [htexts] at hlookup
    by_cases hmany : o.kind.isMultiple = true <;>
      simp [optionValue?, hkind, hmany, Level.values?, hlookup]

/-- A command to which nothing is given has arguments just if it has a default. -/
theorem Supply.arguments_eq_nil_iff (h : Supply tree fallback i arguments levels reached given)
    (honly : OnlyModifiers given) :
    argumentsAt (lastLevel levels) (ofLevels tree fallback levels).command = [] ↔
      ¬ LeavesDefault (ofLevels tree fallback levels).command := by
  rw [argumentsAt_eq_nil_iff]
  constructor
  · rintro ⟨-, hoptions⟩ hdefaults
    obtain ⟨o, ho, hr, hvalue⟩ := h.exists_optionValue? honly hdefaults
    exact hvalue (hoptions o ho hr)
  · intro hdefaults
    refine ⟨?_, fun o ho hr => h.optionValue?_eq_none honly hdefaults ho hr⟩
    rw [positionalValue?, Level.values?, h.lookup_positionalName,
      honly.lookup_eq_none fun m => (Modifier.id_ne_positional m).symm]

/-! ## Help -/

section Help

variable {m : Type → Type} [Monad m] (r : Runner m) {v : Invocation}

theorem perform_of_asksForHelp (h : v.AsksForHelp) :
    (r.observed.perform v).run [] = pure (.ok .help, []) := by
  rw [Runner.perform, plan_of_asksForHelp h]
  rfl

/-- Where help is not asked for, it is not what an action ends with. -/
theorem not_help_of_course {calls : List Event} {result : Except ActionFailure Outcome}
    (h : Course v calls result) (hasks : ¬ v.AsksForHelp) : result ≠ .ok .help := by
  cases h with
  | help ha => exact absurd ha hasks
  | stopped _ _ => nofun
  | @ran _ _ _ _ answer _ _ _ _ _ _ => cases answer <;> nofun

/-- **Where nothing is given to a command that shows help then, help is shown just if no option of
it has a default**, whatever the runner does and without a call of it. Runtimes and verbosity may
be given. -/
theorem help_where_nothing_is_given [LawfulMonad m]
    (hi : (ofTree tree fallback).run.value = .ok i)
    (hm : CommandLine.match i arguments = .ok levels)
    (hfile : (ofLevels tree fallback levels).command.filePath ≠ none)
    (hshows : (ofLevels tree fallback levels).command.showsHelpWhenEmpty = true) :
    let v := ofLevels tree fallback levels
    ∃ reached given, supplied i.inherited i {} arguments = .ok (reached, given) ∧
      i.findPath? v.path.tail = some reached ∧
      (OnlyModifiers given →
        (¬ LeavesDefault v.command → (r.observed.perform v).run [] = pure (.ok .help, [])) ∧
        (LeavesDefault v.command →
          Surely (fun seen => seen.1 ≠ .ok .help) ((r.observed.perform v).run []))) := by
  obtain ⟨reached, given, hsupply⟩ := exists_supply hi hm
  refine ⟨reached, given, hsupply.supplied, hsupply.found, fun honly => ?_⟩
  have hempty := hsupply.arguments_eq_nil_iff honly
  rw [← arguments_of_match hi hm] at hempty
  refine ⟨fun hdefaults => ?_, fun hdefaults => ?_⟩
  · exact perform_of_asksForHelp r (.inr ⟨hshows, hempty.mpr hdefaults⟩)
  · refine (perform_course r _).mono fun seen hcourse => not_help_of_course hcourse ?_
    rintro (hnone | ⟨-, hnil⟩)
    · exact hfile hnone
    · exact hempty.mp hnil hdefaults

end Help

/-! A command that shows help, with an option that takes a text. -/

/-- `--region`, which takes a text and may have a default. -/
def regionOption (default : Option Json) : OptionSpec :=
  { name := .long "region", kind := .input, defaultValue := default }

/-- A command with that option that shows help where nothing is given to it. -/
def helpingTree (default : Option Json) : Command :=
  .mk { name := "root" }
    [.mk { name := "sub", filePath := some "/c/sub.js", showsHelp := some true
           options := some [regionOption default] } []]

/-- The interface of a tree with that command. -/
def helpingInterface (default : Option Json) : Interface :=
  optionInterface [parameterOf (regionOption default) "r"]

theorem help_where_nothing_is_given_but_verbosity :
    let levels := [⟨"root", []⟩, ⟨"sub", [("verbose", .flag)]⟩]
    let v := ofLevels (helpingTree none) "zli" levels
    (ofTree (helpingTree none) "zli").run.value = .ok (helpingInterface none) ∧
      CommandLine.match (helpingInterface none) ["sub", "--verbose"] = .ok levels ∧
      v.command.filePath ≠ none ∧ v.command.showsHelpWhenEmpty = true ∧ LawfulMonad Id ∧
      (quietRunner.observed.perform v).run [] = (.ok .help, []) := by
  intro levels v
  have hi : (ofTree (helpingTree none) "zli").run.value = .ok (helpingInterface none) := rfl
  have hm : CommandLine.match (helpingInterface none) ["sub", "--verbose"] = .ok levels := rfl
  have hfile : v.command.filePath ≠ none := by decide
  have hshows : v.command.showsHelpWhenEmpty = true := rfl
  refine ⟨hi, hm, hfile, hshows, inferInstance, ?_⟩
  obtain ⟨reached, given, hsupplied, -, hhelp⟩ :=
    help_where_nothing_is_given quietRunner hi hm hfile hshows
  cases hsupplied
  have honly : OnlyModifiers [("verbose", .flag)] := by
    intro key g hg
    rw [Record.lookup_entry] at hg
    split at hg
    · next hkey => exact ⟨.verbose, hkey⟩
    · cases hg
  have hoptions : ∀ o ∈ v.command.options, o = regionOption none :=
    fun o ho => List.mem_singleton.mp ho
  refine (hhelp honly).1 fun hdefaults => ?_
  cases hdefaults with
  | flag ho _ hkind _ _ =>
    rw [hoptions _ ho] at hkind
    cases hkind
  | values ho _ hne =>
    rw [hoptions _ (mem_of_mem_firstOptions ho)] at hne
    exact hne rfl

/-- A command to which nothing is given is run because an option of it has a default. -/
theorem default_hides_help :
    let tree := helpingTree (some (.string "eu"))
    let i := helpingInterface (some (.string "eu"))
    let levels := [⟨"root", []⟩, ⟨"sub", [("region", .values ["eu"])]⟩]
    let v := ofLevels tree "zli" levels
    (ofTree tree "zli").run.value = .ok i ∧ CommandLine.match i ["sub"] = .ok levels ∧
      (supplied i.inherited i {} ["sub"]).map Prod.snd = .ok [] ∧
      v.command.filePath = some "/c/sub.js" ∧ v.command.showsHelpWhenEmpty = true ∧
      (quietRunner.observed.perform v).run [] =
        (.ok (.exited 0), [.ran { v with arguments := [("region", .string "eu")] } (.ok 0)]) :=
  ⟨rfl, rfl, rfl, rfl, rfl, rfl⟩

end Invocation

end CommandFiles
