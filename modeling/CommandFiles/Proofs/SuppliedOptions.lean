import CommandFiles.Proofs.DeclaredShorts
import CommandFiles.Proofs.OptionArguments
import CommandFiles.Proofs.SuppliedArguments

/-! # Option values on their way to a command

What arguments give for an option is put among the arguments of the command under the key of the
option, as a flag, a text or a list of texts. It is lost there only to a later option that has the
same key and a value: keys leave out what sets some names apart, and nothing looks for keys that
meet. The arguments without a flag have a key of their own and are always kept. -/
namespace CommandFiles.Invocation

open CommandLine Interface

variable {o : OptionSpec} {short : String} {g : Given} {l : Level}

/-! ## One option -/

/-- What was given for an option, as a value among arguments. -/
inductive GivenAs (o : OptionSpec) : Given → Json → Prop where
  | flag : o.kind.takesValue = false → GivenAs o .flag (.bool true)
  | one {text : String} : o.kind.takesValue = true → o.kind.isMultiple = false →
      GivenAs o (.values [text]) (.string text)
  | many {texts : List String} : o.kind.isMultiple = true → texts ≠ [] →
      GivenAs o (.values texts) (.array (texts.map .string))

theorem action_parameterOf_eq (o : OptionSpec) (short : String) :
    (parameterOf o short).action =
      if o.kind.takesValue then if o.kind.isMultiple then .append else .set else .flag := by
  by_cases h : o.kind.takesValue = true <;> simp [parameterOf, h]

/-- What fits the parameter of an option is read as its value. -/
theorem optionValue?_of_fits (hg : l.given.lookup o.long = some g)
    (hf : Fits (parameterOf o short) g) :
    ∃ value, GivenAs o g value ∧ optionValue? l o = some value := by
  have haction := action_parameterOf_eq o short
  cases hkind : o.kind.takesValue with
  | false =>
    rw [hkind, if_neg Bool.false_ne_true] at haction
    cases hf with
    | flag _ =>
      refine ⟨_, .flag hkind, ?_⟩
      simp [optionValue?, hkind, Level.hasFlag, hg]
    | one hset => cases haction.symm.trans hset
    | many hgreedy => simp [Parameter.isGreedy, haction] at hgreedy
  | true =>
    rw [hkind, if_pos rfl] at haction
    cases hmany : o.kind.isMultiple with
    | false =>
      rw [hmany, if_neg Bool.false_ne_true] at haction
      cases hf with
      | flag hflag => cases haction.symm.trans hflag
      | one _ =>
        refine ⟨_, .one hkind hmany, ?_⟩
        simp [optionValue?, hkind, hmany, Level.values?, hg]
      | many hgreedy => simp [Parameter.isGreedy, haction] at hgreedy
    | true =>
      rw [hmany, if_pos rfl] at haction
      cases hf with
      | flag hflag => cases haction.symm.trans hflag
      | one hset => cases haction.symm.trans hset
      | many _ hne =>
        refine ⟨_, .many hmany hne, ?_⟩
        simp [optionValue?, hkind, hmany, Level.values?, hg]

/-- An option that is not passed over has a parameter. -/
theorem exists_parameterOf {c : Command} {i : Interface} (h : OptionsRegistered c i)
    (hdiffer : Report.OptionsDiffer c) (ho : o ∈ c.options) (hr : o.long ∉ Naming.reserved) :
    ∃ short, parameterOf o short ∈ i.usage.parameters := by
  obtain ⟨command, hps⟩ := h
  obtain ⟨listed, hlisted, hoptions⟩ := Report.listedFlags_of_parametersOf hps hdiffer nofun
  obtain ⟨short, hmem⟩ := exists_mem_listedFlags ho hr hlisted
  refine ⟨short, List.mem_of_mem_filter (?_ : _ ∈ i.options)⟩
  rw [hoptions]
  exact List.mem_map.mpr ⟨_, hmem, rfl⟩

/-- The value of the arguments without a flag. -/
theorem positionalValue?_of_lookup {texts : List String} (hne : texts ≠ [])
    (h : l.given.lookup Naming.positionalName = some (.values texts)) :
    positionalValue? l = some (.array (texts.map .string)) := by
  obtain ⟨text, more, rfl⟩ := List.exists_cons_of_ne_nil hne
  rw [positionalValue?, Level.values?, h]

/-! ## All arguments -/

section Supplied

variable {tree : Command} {fallback : String} {i : Interface} {arguments : List String}
  {levels : List Level}

/-- What a value comes to that an option puts under its key before other options. -/
theorem lookup_of_optionValue? {c : Command} {before after : List OptionSpec} {value : Json}
    (hc : c.options = before ++ o :: after) (hr : o.long ∉ Naming.reserved)
    (hvalue : optionValue? l o = some value) :
    (argumentsAt l c).lookup (Naming.argumentKey o.long) =
      some ((prevailing l after (Naming.argumentKey o.long)).getD value) := by
  have hown : valueUnder l (Naming.argumentKey o.long) o = some value := by
    rw [valueUnder, if_neg (by simpa using hr), if_pos rfl, hvalue]
  rw [lookup_argumentsAt, if_neg (Naming.argumentKey_ne_positionalName o.long), hc,
    prevailing_append, prevailing_cons, hown]
  cases prevailing l after (Naming.argumentKey o.long) <;> rfl

/-- What accepted arguments supply to the command that they ask for: `reached` is its interface, and
`given` is what they give to it. -/
structure Supply (tree : Command) (fallback : String) (i : Interface) (arguments : List String)
    (levels : List Level) (reached : Interface) (given : List (String × Given)) : Prop where
  supplied : CommandLine.supplied i.inherited i {} arguments = .ok (reached, given)
  found : i.findPath? (ofLevels tree fallback levels).path.tail = some reached
  registered : OptionsRegistered (ofLevels tree fallback levels).command reached
  parameters : Sound (parametersAt reached globalFlags)
  completed : addDefaults (parametersAt reached globalFlags) given = .ok (lastLevel levels).given
  account : Account reached arguments given

/-- Arguments that are accepted supply something to one command. -/
theorem exists_supply (hi : (ofTree tree fallback).run.value = .ok i)
    (hm : CommandLine.match i arguments = .ok levels) :
    ∃ reached given, Supply tree fallback i arguments levels reached given := by
  obtain ⟨run, hrun, rfl⟩ := exists_reading hm
  change Reading i.inherited i {} arguments run at hrun
  obtain ⟨first, more, rfl, -⟩ := hrun.exists_cons
  obtain ⟨k, hend⟩ := hrun.endsAt (hasBelow_of_ofTree hi) rfl
  have hinherited := inherited_of_ofTree hi
  rw [hinherited] at hrun
  have hinit : Noted (parametersAt i globalFlags) [] {} := noted_init
  obtain ⟨reached, own, given, hlast, hsupplied, hcontains, hdefaults, haccount⟩ :=
    hrun.exists_account (fun k hk => isLevel_of_ofTree hi hk) hinit
  obtain rfl : reached = k := by simpa [hlast] using hend.last
  refine ⟨reached, given, ?_, hend.found, hend.route.optionsRegistered hi,
    sound_of_isLevel (isLevel_of_ofTree hi hcontains), ?_, haccount⟩
  · rw [hinherited]
    exact hsupplied
  · rw [lastLevel, List.getLast?_map, hlast]
    exact hdefaults

/-- No other parameter has the id of an option that has one. -/
theorem Supply.eq_parameterOf {reached : Interface} {given : List (String × Given)} {q : Parameter}
    (h : Supply tree fallback i arguments levels reached given)
    (hparameter : parameterOf o short ∈ reached.usage.parameters)
    (hq : q ∈ parametersAt reached globalFlags) (hid : q.id = o.long) : q = parameterOf o short :=
  h.parameters.ids q hq _ (List.mem_append_left _ (List.mem_append_left _ hparameter))
    (by rw [hid, id_parameterOf])

/-- The arguments without a flag have no default. -/
theorem Supply.lookup_positionalName {reached : Interface} {given : List (String × Given)}
    (h : Supply tree fallback i arguments levels reached given) :
    (lastLevel levels).given.lookup Naming.positionalName =
      given.lookup Naming.positionalName := by
  refine lookup_addDefaults (fun p hp hid => ?_) h.completed
  rw [h.parameters.rest p hp (.inr hid)]
  rfl

/-- **A value that was given for an option is among the arguments, unless a later option has its key
and a value.** Where the options of a command have different names, the arguments of an invocation
hold under the key of an option what was given for it, or the value that later options leave there;
where no later option has the key, it is just what was given. The arguments without a flag are the
last of all arguments, as they stand there, and are all kept. -/
theorem arguments_of_supplied (hi : (ofTree tree fallback).run.value = .ok i)
    (hm : CommandLine.match i arguments = .ok levels)
    (hdiffer : Report.OptionsDiffer (ofLevels tree fallback levels).command) :
    let v := ofLevels tree fallback levels
    ∃ reached given, supplied i.inherited i {} arguments = .ok (reached, given) ∧
      i.findPath? v.path.tail = some reached ∧
      (∀ before o after g, v.command.options = before ++ o :: after → o.long ∉ Naming.reserved →
        given.lookup o.long = some g → ∃ value, GivenAs o g value ∧
          v.arguments.lookup (Naming.argumentKey o.long) =
            some ((prevailing (lastLevel levels) after (Naming.argumentKey o.long)).getD value) ∧
          ((∀ p ∈ after, Naming.argumentKey p.long ≠ Naming.argumentKey o.long) →
            v.arguments.lookup (Naming.argumentKey o.long) = some value)) ∧
      (given.lookup Naming.positionalName = none →
        v.arguments.lookup Naming.positionalName = none) ∧
      ∀ g, given.lookup Naming.positionalName = some g →
        ∃ texts, g = .values texts ∧ texts ≠ [] ∧ texts <:+ arguments ∧
          v.arguments.lookup Naming.positionalName = some (.array (texts.map .string)) := by
  obtain ⟨reached, given, hsupply⟩ := exists_supply hi hm
  dsimp only
  rw [arguments_of_match hi hm]
  refine ⟨reached, given, hsupply.supplied, hsupply.found, ?_, ?_, ?_⟩
  · intro before o after g hoptions hr hg
    have ho : o ∈ (ofLevels tree fallback levels).command.options := by
      rw [hoptions]
      simp
    obtain ⟨short, hparameter⟩ := exists_parameterOf hsupply.registered hdiffer ho hr
    obtain ⟨q, hq, hid, hfits⟩ := hsupply.account.fitting _ _ hg
    obtain rfl := hsupply.eq_parameterOf hparameter hq hid
    obtain ⟨value, hgiven, hvalue⟩ :=
      optionValue?_of_fits (lookup_addDefaults_of_some hg hsupply.completed) hfits
    have hlookup := lookup_of_optionValue? hoptions hr hvalue
    refine ⟨value, hgiven, hlookup, fun hkeys => ?_⟩
    rw [hlookup, prevailing_eq_none fun p hp => ?_, Option.getD_none]
    rw [valueUnder, if_neg (hkeys p hp), ite_self]
  · intro hnone
    rw [lookup_argumentsAt, if_pos rfl, positionalValue?, Level.values?,
      hsupply.lookup_positionalName, hnone]
  · intro g hg
    obtain ⟨texts, rfl, hne, hsuffix⟩ := hsupply.account.trailing g hg
    refine ⟨texts, rfl, hne, hsuffix, ?_⟩
    rw [lookup_argumentsAt, if_pos rfl]
    exact positionalValue?_of_lookup hne (lookup_addDefaults_of_some hg hsupply.completed)

end Supplied

/-! Two options whose names differ and have one key. -/

/-- `--dry-run`, which takes a text. -/
def hyphenedOption : OptionSpec := { name := .long "dry-run", kind := .input }

/-- `--dryRun`, which takes a text and has a default. -/
def joinedOption : OptionSpec :=
  { name := .long "dryRun", kind := .input, defaultValue := some (.string "x") }

/-- The interface of a command with both. -/
def meetingInterface : Interface :=
  optionInterface [parameterOf hyphenedOption "d", parameterOf joinedOption "D"]

/-- The levels of a call that gives some values to the command. -/
def meetingLevels (given : List (String × Given)) : List Level := [⟨"root", []⟩, ⟨"sub", given⟩]

theorem arguments_of_supplied_of_last :
    (ofTree (optionTree [hyphenedOption, joinedOption]) "zli").run.value = .ok meetingInterface ∧
      CommandLine.match meetingInterface ["sub", "--dryRun", "w", "--", "-a"] =
        .ok (meetingLevels [("dryRun", .values ["w"]), ("_", .values ["-a"])]) ∧
      (ofLevels (optionTree [hyphenedOption, joinedOption]) "zli"
        (meetingLevels [("dryRun", .values ["w"]), ("_", .values ["-a"])])).arguments.lookup
          "dryRun" = some (.string "w") := by
  have hi : (ofTree (optionTree [hyphenedOption, joinedOption]) "zli").run.value =
      .ok meetingInterface := rfl
  have hm : CommandLine.match meetingInterface ["sub", "--dryRun", "w", "--", "-a"] =
      .ok (meetingLevels [("dryRun", .values ["w"]), ("_", .values ["-a"])]) := rfl
  obtain ⟨reached, given, hsupplied, -, hkept, -⟩ := arguments_of_supplied hi hm (by decide)
  cases hsupplied
  obtain ⟨value, hgiven, -, hvalue⟩ :=
    hkept [hyphenedOption] joinedOption [] (.values ["w"]) rfl (by decide) rfl
  cases hgiven with
  | one _ _ => exact ⟨hi, hm, hvalue nofun⟩
  | many hmultiple _ => cases hmultiple

/-- A text that was given for an option is replaced by the default of a later one. -/
theorem supplied_value_is_replaced :
    ([hyphenedOption, joinedOption].map OptionSpec.long).Nodup ∧
      (ofTree (optionTree [hyphenedOption, joinedOption]) "zli").run.value = .ok meetingInterface ∧
      CommandLine.match meetingInterface ["sub", "--dry-run", "v"] =
        .ok (meetingLevels [("dry-run", .values ["v"]), ("dryRun", .values ["x"])]) ∧
      (supplied meetingInterface.inherited meetingInterface {} ["sub", "--dry-run", "v"]).map
        Prod.snd = .ok [("dry-run", .values ["v"])] ∧
      Naming.argumentKey "dry-run" = "dryRun" ∧
      (ofLevels (optionTree [hyphenedOption, joinedOption]) "zli"
        (meetingLevels [("dry-run", .values ["v"]), ("dryRun", .values ["x"])])).arguments =
          [("dryRun", .string "x")] :=
  ⟨by decide, rfl, rfl, rfl, rfl, rfl⟩

end CommandFiles.Invocation
