import CommandFiles.Proofs.DeclaredShorts
import CommandFiles.Proofs.DiscoveryFaults
import CommandFiles.Proofs.GlobalFlags
import CommandFiles.Proofs.OptionArguments

/-! # Options that are declared twice

Of the options of a command that share a name only the first is registered, so the others can be
left out without a change to the interface: the same arguments are accepted, and they lead to the
same command. The arguments of that command are collected from all of its options, though, and there
a repeated option is read in its own way from what was given for the first one. -/
namespace CommandFiles

open CommandLine Interface

/-! ## Leaving out repeated options -/

/-- Some options without those whose name stands before. `seen` are the names before all of them. -/
def firstOptions (seen : List String) : List OptionSpec → List OptionSpec
  | [] => []
  | o :: rest =>
    if seen.contains o.long then firstOptions seen rest
    else o :: firstOptions (o.long :: seen) rest

/-- The options whose name stands before. -/
def repeatedOptions (seen : List String) : List OptionSpec → List OptionSpec
  | [] => []
  | o :: rest =>
    if seen.contains o.long then o :: repeatedOptions seen rest
    else repeatedOptions (o.long :: seen) rest

/-- A declaration without its repeated options. -/
def Declaration.withoutRepeats (d : Declaration) : Declaration :=
  { d with options := d.options.map (firstOptions []) }

mutual

/-- Whether a tree comes of another one by leaving out the repeated options of some commands. -/
inductive Thinned : Command → Command → Prop where
  | mk {d d' : Declaration} {subs subs' : List Command} :
      d' = d ∨ d' = d.withoutRepeats → ThinnedAll subs subs' → Thinned (.mk d subs) (.mk d' subs')

/-- The same for the commands of a list. -/
inductive ThinnedAll : List Command → List Command → Prop where
  | nil : ThinnedAll [] []
  | cons {c c' : Command} {rest rest' : List Command} :
      Thinned c c' → ThinnedAll rest rest' → ThinnedAll (c :: rest) (c' :: rest')

end

section Thinned

variable {c c' : Command} {cs cs' : List Command}

theorem Thinned.name_eq (h : Thinned c c') : c'.name = c.name := by
  cases h with
  | mk hd _ => rcases hd with rfl | rfl <;> rfl

theorem Thinned.rootName_eq (h : Thinned c c') (fallback : String) :
    rootName c' fallback = rootName c fallback := by
  rw [rootName, rootName, h.name_eq]

theorem Thinned.secondName_eq (h : Thinned c c') :
    c'.declared.secondName = c.declared.secondName := by
  cases h with
  | mk hd _ => rcases hd with rfl | rfl <;> rfl

theorem Thinned.options_eq (h : Thinned c c') :
    c'.options = c.options ∨ c'.options = firstOptions [] c.options := by
  cases h with
  | @mk d d' subs subs' hd _ =>
    rcases hd with rfl | rfl
    · exact .inl rfl
    · refine .inr ?_
      change (d.options.map (firstOptions [])).getD [] = firstOptions [] (d.options.getD [])
      cases d.options <;> rfl

theorem ThinnedAll.names_eq (h : ThinnedAll cs cs') :
    cs'.map Command.name = cs.map Command.name := by
  induction cs generalizing cs' with
  | nil => cases h; rfl
  | cons c rest ih =>
    cases h with
    | cons hc hrest => rw [List.map_cons, List.map_cons, hc.name_eq, ih hrest]

theorem ThinnedAll.isEmpty_eq (h : ThinnedAll cs cs') : cs'.isEmpty = cs.isEmpty := by
  cases h <;> rfl

/-- The commands that a name finds in both lists. -/
theorem ThinnedAll.find? (h : ThinnedAll cs cs') (name : String) :
    (cs.find? (·.name = name) = none ∧ cs'.find? (·.name = name) = none) ∨
      ∃ c c', cs.find? (·.name = name) = some c ∧ cs'.find? (·.name = name) = some c' ∧
        Thinned c c' := by
  induction cs generalizing cs' with
  | nil => cases h; exact .inl ⟨rfl, rfl⟩
  | cons c rest ih =>
    cases h with
    | cons hc hrest =>
      rw [List.find?_cons, List.find?_cons, hc.name_eq]
      cases decide (c.name = name) with
      | true => exact .inr ⟨_, _, rfl, rfl, hc⟩
      | false => exact ih hrest

end Thinned

/-! ## The interface -/

namespace Interface

/-- Repeated options are no parameters, so that leaving them out changes none. -/
theorem parametersOf_firstOptions {command : String} {os : List OptionSpec}
    {before seen used : List String} (h : ∀ long ∈ before, long ∈ seen ∨ long ∈ Naming.reserved) :
    (parametersOf command (firstOptions before os) seen used).run.value =
      (parametersOf command os seen used).run.value := by
  induction os generalizing before seen used with
  | nil => rfl
  | cons o rest ih =>
    unfold firstOptions
    split
    · -- the option is left out, and was no parameter
      next hbefore =>
      rw [ih h, parametersOf]
      split
      · rfl
      · next hr =>
        have hseen := (h o.long (by simpa using hbefore)).resolve_right (by simpa using hr)
        rw [if_pos (by simpa using hseen)]
        exact warn_bind.symm
    · rw [parametersOf, parametersOf]
      split
      · next hr =>
        refine ih (List.forall_mem_cons.mpr ⟨.inr (by simpa using hr), h⟩)
      split
      · next hs =>
        exact ih (List.forall_mem_cons.mpr ⟨.inl (by simpa using hs), h⟩)
      split
      · rfl
      split
      · rfl
      · rw [value_bind_pure, value_bind_pure, ih]
        refine List.forall_mem_cons.mpr ⟨.inl List.mem_cons_self, fun long hm => ?_⟩
        exact (h long hm).imp_left (List.mem_cons_of_mem _)

theorem value_usageOf {d d' : Declaration} (h : d' = d ∨ d' = d.withoutRepeats)
    (about : Option String) (isLeaf : Bool) :
    (usageOf d' about isLeaf).run.value = (usageOf d about isLeaf).run.value := by
  rcases h with rfl | rfl
  · rfl
  have hoptions : d.withoutRepeats.options.getD [] = firstOptions [] (d.options.getD []) := by
    rw [Declaration.withoutRepeats]
    cases d.options <;> rfl
  rw [usageOf, usageOf, value_bind_pure, value_bind_pure, hoptions,
    parametersOf_firstOptions fun _ hm => absurd hm List.not_mem_nil]
  rfl

mutual

theorem value_ofSubcommand {c c' : Command} (h : Thinned c c') :
    (ofSubcommand c').run.value = (ofSubcommand c).run.value := by
  cases h with
  | @mk d d' subs subs' hd hsubs =>
    have hdeclared : d'.name = d.name ∧ d'.description = d.description := by
      rcases hd with rfl | rfl <;> exact ⟨rfl, rfl⟩
    rw [ofSubcommand, ofSubcommand, Logged.value_run_bind, Logged.value_run_bind, hdeclared.1,
      hdeclared.2, hsubs.isEmpty_eq, hsubs.names_eq, value_usageOf hd]
    refine congrArg (Except.bind _) (funext fun u => ?_)
    rw [Logged.value_run_bind, Logged.value_run_bind, value_ofSubcommands hsubs]
  termination_by sizeOf c

theorem value_ofSubcommands {cs cs' : List Command} (h : ThinnedAll cs cs') (parent : String)
    (names seenNames seenAliases : List String) :
    (ofSubcommands parent names cs' seenNames seenAliases).run.value =
      (ofSubcommands parent names cs seenNames seenAliases).run.value := by
  cases h with
  | nil => rfl
  | @cons c c' rest rest' hc hrest =>
    have hmore := fun seenNames seenAliases =>
      value_ofSubcommands hrest parent names seenNames seenAliases
    rw [ofSubcommands, ofSubcommands, hc.name_eq]
    split
    · exact warn_bind.trans ((hmore _ _).trans warn_bind.symm)
    split
    · exact warn_bind.trans ((hmore _ _).trans warn_bind.symm)
    rw [Logged.value_run_bind, Logged.value_run_bind, value_ofSubcommand hc]
    refine congrArg (Except.bind _) (funext fun i => ?_)
    rw [hc.secondName_eq]
    split
    · rw [value_bind_pure, value_bind_pure, hmore]
    split
    · rw [warn_bind, warn_bind, value_bind_pure, value_bind_pure, hmore]
    · rw [value_bind_pure, value_bind_pure, hmore]
  termination_by sizeOf cs

end

/-- A tree without some of its repeated options has the same interface, or none for the same
reason. -/
theorem value_ofTree {tree tree' : Command} (h : Thinned tree tree') (fallback : String) :
    (ofTree tree' fallback).run.value = (ofTree tree fallback).run.value := by
  have hname := h.rootName_eq fallback
  cases h with
  | @mk d d' subs subs' hd hsubs =>
    have hroot : { d' with name := rootName (.mk d subs) fallback } =
          { d with name := rootName (.mk d subs) fallback } ∨
        { d' with name := rootName (.mk d subs) fallback } =
          { d with name := rootName (.mk d subs) fallback }.withoutRepeats := by
      rcases hd with rfl | rfl
      · exact .inl rfl
      · exact .inr rfl
    have hdescription : d'.description = d.description := by rcases hd with rfl | rfl <;> rfl
    have husage := (value_usageOf hroot d'.description subs'.isEmpty).trans
      (by rw [hdescription, hsubs.isEmpty_eq])
    rw [ofTree, ofTree, hname]
    refine Logged.value_run_bind.trans (.trans ?_ Logged.value_run_bind.symm)
    refine congr (congrArg Except.bind husage) (funext fun u => ?_)
    change (ofSubcommands _ (subs'.map Command.name) subs' [] [] >>= _).run.value =
      (ofSubcommands _ (subs.map Command.name) subs [] [] >>= _).run.value
    rw [hsubs.names_eq, Logged.value_run_bind, Logged.value_run_bind, value_ofSubcommands hsubs]

end Interface

/-! ## Invocations -/

namespace Invocation

/-- Levels lead to the same command in both trees. -/
theorem descend_thinned {c c' : Command} (h : Thinned c c') (own : Level) (levels : List Level) :
    Thinned (descend c own levels).1 (descend c' own levels).1 ∧
      (descend c' own levels).2 = (descend c own levels).2 := by
  induction levels generalizing c c' own with
  | nil => exact ⟨h, rfl⟩
  | cons l rest ih =>
    have hsubs : ThinnedAll c.subcommands c'.subcommands := by
      cases h with
      | mk _ hsubs => exact hsubs
    rw [descend, descend]
    rcases hsubs.find? l.name with ⟨hf, hf'⟩ | ⟨sub, sub', hf, hf', hsub⟩
    · rw [hf, hf']
      exact ⟨h, rfl⟩
    · obtain ⟨htarget, hrest⟩ := ih hsub l
      rw [hf, hf']
      refine ⟨htarget, ?_⟩
      simp only [hrest, hsub.name_eq]

/-- The parts of an invocation that do not depend on the values of options, in both trees. -/
theorem ofLevels_thinned {tree tree' : Command} (h : Thinned tree tree') (fallback : String)
    (levels : List Level) :
    Thinned (ofLevels tree fallback levels).command (ofLevels tree' fallback levels).command ∧
      (ofLevels tree' fallback levels).path = (ofLevels tree fallback levels).path ∧
      (ofLevels tree' fallback levels).runtimes = (ofLevels tree fallback levels).runtimes ∧
      (ofLevels tree' fallback levels).verbose = (ofLevels tree fallback levels).verbose := by
  obtain ⟨hcommand, hrest⟩ := descend_thinned h (levels.head?.getD ⟨"", []⟩) levels.tail
  refine ⟨hcommand, ?_, ?_, ?_⟩
  · change rootName tree' fallback :: (descend tree' _ _).2.2.2 =
      rootName tree fallback :: (descend tree _ _).2.2.2
    rw [h.rootName_eq, hrest]
  · exact congrArg (fun r : Level × List Level × List String => runtimesOf (_ :: r.2.1)) hrest
  · exact congrArg (fun r : Level × List Level × List String => verboseAt (_ :: r.2.1)) hrest

/-! ## Arguments -/

section Arguments

variable {l : Level} {os : List OptionSpec} {o p : OptionSpec} {seen : List String} {key : String}

/-- Every option is a first or a repeated one. -/
theorem firstOptions_append_repeatedOptions (seen : List String) (os : List OptionSpec) :
    (firstOptions seen os ++ repeatedOptions seen os).Perm os := by
  induction os generalizing seen with
  | nil => exact .refl _
  | cons o rest ih =>
    unfold firstOptions repeatedOptions
    split
    · exact List.perm_middle.trans ((ih seen).cons o)
    · exact (ih (o.long :: seen)).cons o

theorem mem_of_mem_firstOptions (h : o ∈ firstOptions seen os) : o ∈ os :=
  (firstOptions_append_repeatedOptions seen os).mem_iff.mp (List.mem_append_left _ h)

theorem mem_of_mem_repeatedOptions (h : o ∈ repeatedOptions seen os) : o ∈ os :=
  (firstOptions_append_repeatedOptions seen os).mem_iff.mp (List.mem_append_right _ h)

/-- Of the options of a name the first one is kept. -/
theorem exists_firstOption (ho : o ∈ os) (hs : o.long ∉ seen) :
    ∃ p ∈ firstOptions seen os, p.long = o.long := by
  induction os generalizing seen with
  | nil => cases ho
  | cons first rest ih =>
    unfold firstOptions
    rcases List.mem_cons.mp ho with rfl | ho
    · rw [if_neg (by simpa using hs)]
      exact ⟨o, List.mem_cons_self, rfl⟩
    split
    · exact ih ho hs
    · by_cases he : first.long = o.long
      · exact ⟨first, List.mem_cons_self, he⟩
      · have hs' : o.long ∉ first.long :: seen := by
          rw [List.mem_cons, not_or]
          exact ⟨Ne.symm he, hs⟩
        obtain ⟨p, hp, hlong⟩ := ih ho hs'
        exact ⟨p, List.mem_cons_of_mem _ hp, hlong⟩

/-- Repeated options that have no value leave nothing. -/
theorem prevailing_firstOptions (h : ∀ o ∈ repeatedOptions seen os, valueUnder l key o = none) :
    prevailing l (firstOptions seen os) key = prevailing l os key := by
  induction os generalizing seen with
  | nil => rfl
  | cons o rest ih =>
    unfold repeatedOptions at h
    unfold firstOptions
    rw [prevailing_cons]
    split
    · next hs =>
      rw [if_pos hs, List.forall_mem_cons] at h
      rw [ih h.2, h.1, Option.or_none]
    · next hs =>
      rw [if_neg hs] at h
      rw [prevailing_cons, ih h]

/-- Options that all have the same value, if they have the key, leave that one. -/
theorem prevailing_of_alike {v : Option Json}
    (h : ∀ p ∈ os, valueUnder l key p = none ∨ valueUnder l key p = v) (ho : o ∈ os)
    (hv : valueUnder l key o = v) : prevailing l os key = v := by
  cases hp : prevailing l os key with
  | none =>
    have := List.findSome?_eq_none_iff.mp hp o (List.mem_reverse.mpr ho)
    rw [← hv, this]
  | some w =>
    obtain ⟨p, hp, hw⟩ := List.exists_of_findSome?_eq_some hp
    rcases h p (List.mem_reverse.mp hp) with hnone | hsame
    · rw [hnone] at hw
      cases hw
    · rw [← hsame, hw]

theorem optionValue?_congr (hlong : p.long = o.long) (hkind : p.kind = o.kind)
    (hdefault : p.defaultValue = o.defaultValue) : optionValue? l p = optionValue? l o := by
  rw [optionValue?, optionValue?, hlong, hkind, hdefault]

/-- Whether options are declared like a repeated one if they share its key: they have its name, its
kind and its default. -/
def RepeatsAlike (os : List OptionSpec) : Prop :=
  ∀ o ∈ repeatedOptions [] os, o.long ∉ Naming.reserved → ∀ p ∈ os, p.long ∉ Naming.reserved →
    Naming.argumentKey p.long = Naming.argumentKey o.long →
    p.long = o.long ∧ p.kind = o.kind ∧ p.defaultValue = o.defaultValue

theorem valueUnder_of_ne_none (h : valueUnder l key o ≠ none) :
    o.long ∉ Naming.reserved ∧ Naming.argumentKey o.long = key ∧
      valueUnder l key o = optionValue? l o := by
  unfold valueUnder at h ⊢
  split at h
  · exact absurd rfl h
  next hr =>
  split at h
  · next hk => exact ⟨by simpa using hr, hk, by rw [if_neg hr, if_pos hk]⟩
  · exact absurd rfl h

theorem RepeatsAlike.prevailing_eq (h : RepeatsAlike os) (l : Level) (key : String) :
    prevailing l (firstOptions [] os) key = prevailing l os key := by
  by_cases hsome : ∃ o ∈ repeatedOptions [] os, valueUnder l key o ≠ none
  swap
  · exact prevailing_firstOptions fun o ho =>
      Classical.byContradiction fun hvalue => hsome ⟨o, ho, hvalue⟩
  obtain ⟨o, ho, hvalue⟩ := hsome
  obtain ⟨hr, hk, -⟩ := valueUnder_of_ne_none hvalue
  have hall : ∀ p ∈ os, valueUnder l key p = none ∨ valueUnder l key p = valueUnder l key o := by
    intro p hp
    by_cases hp' : valueUnder l key p = none
    · exact .inl hp'
    · obtain ⟨hr', hk', he'⟩ := valueUnder_of_ne_none hp'
      obtain ⟨hlong, hkind, hdefault⟩ := h o ho hr p hp hr' (hk'.trans hk.symm)
      rw [he', (valueUnder_of_ne_none hvalue).2.2]
      exact .inr (optionValue?_congr hlong hkind hdefault)
  have hmem := mem_of_mem_repeatedOptions ho
  obtain ⟨first, hfirst, hlong⟩ := exists_firstOption hmem List.not_mem_nil
  have hfirst' : valueUnder l key first = valueUnder l key o := by
    obtain ⟨hlong', hkind, hdefault⟩ := h o ho hr first (mem_of_mem_firstOptions hfirst)
      (hlong ▸ hr) (congrArg _ hlong)
    rw [valueUnder, valueUnder, hlong, optionValue?_congr hlong hkind hdefault]
  rw [prevailing_of_alike hall hmem rfl,
    prevailing_of_alike (fun p hp => hall p (mem_of_mem_firstOptions hp)) hfirst hfirst']

end Arguments

/-- **A repeated option changes nothing but the arguments.** Without the repeated options of some
commands a tree has the same interface, so the same arguments are accepted, and they lead to the
same command with the same runtimes and as much output. The arguments of the command are the same
just if its options leave the same under every key without the repeated ones: so it is where none
of these has a value, and where they are declared like the first ones. -/
theorem ofLevels_without_repeats {tree tree' : Command} (h : Thinned tree tree')
    (fallback : String) :
    (ofTree tree' fallback).run.value = (ofTree tree fallback).run.value ∧
    ∀ i arguments levels, (ofTree tree fallback).run.value = .ok i →
      CommandLine.match i arguments = .ok levels →
      let v := ofLevels tree fallback levels
      let v' := ofLevels tree' fallback levels
      v'.path = v.path ∧ v'.runtimes = v.runtimes ∧ v'.verbose = v.verbose ∧
      (v'.arguments = v.arguments ↔ ∀ key,
        prevailing (lastLevel levels) v'.command.options key =
          prevailing (lastLevel levels) v.command.options key) ∧
      ((∀ o ∈ repeatedOptions [] v.command.options, o.long ∉ Naming.reserved →
          optionValue? (lastLevel levels) o = none) → v'.arguments = v.arguments) ∧
      (RepeatsAlike v.command.options → v'.arguments = v.arguments) := by
  refine ⟨value_ofTree h fallback, fun i arguments levels hi hm => ?_⟩
  have hi' := (value_ofTree h fallback).trans hi
  obtain ⟨hcommand, hpath, hruntimes, hverbose⟩ := ofLevels_thinned h fallback levels
  dsimp only
  have harguments : (ofLevels tree' fallback levels).arguments =
      (ofLevels tree fallback levels).arguments ↔ ∀ key,
        prevailing (lastLevel levels) (ofLevels tree' fallback levels).command.options key =
          prevailing (lastLevel levels) (ofLevels tree fallback levels).command.options key := by
    rw [arguments_of_match hi hm, arguments_of_match hi' hm]
    exact argumentsAt_eq_iff
  have hprevailing : (∀ key, prevailing (lastLevel levels)
        (firstOptions [] (ofLevels tree fallback levels).command.options) key =
          prevailing (lastLevel levels) (ofLevels tree fallback levels).command.options key) →
      (ofLevels tree' fallback levels).arguments = (ofLevels tree fallback levels).arguments := by
    intro hkeys
    rw [harguments]
    rcases hcommand.options_eq with he | he
    · exact fun key => by rw [he]
    · exact fun key => by rw [he, hkeys key]
  refine ⟨hpath, hruntimes, hverbose, harguments, fun hnone => hprevailing fun key => ?_,
    fun halike => hprevailing fun key => halike.prevailing_eq _ key⟩
  refine prevailing_firstOptions fun o ho => ?_
  refine Classical.byContradiction fun hvalue => ?_
  obtain ⟨hr, -, he⟩ := valueUnder_of_ne_none hvalue
  exact hvalue (he.trans (hnone o ho hr))

/-! A flag that is declared twice: alike, and the second time as on by default. -/

/-- `--flag`. -/
def plainFlag : OptionSpec := { name := .long "flag", kind := .boolean }

/-- `--flag`, which is on by default. -/
def flagOnByDefault : OptionSpec := { plainFlag with defaultValue := some (.bool true) }

theorem thinned_optionTree (o : OptionSpec) (ho : o.long = "flag") :
    Thinned (optionTree [plainFlag, o]) (optionTree [plainFlag]) := by
  have hfirst : firstOptions [] [plainFlag, o] = [plainFlag] := by
    have hplain : plainFlag.long = "flag" := rfl
    simp [firstOptions, hplain, ho]
  refine .mk (.inl rfl) (.cons (.mk (.inr ?_) .nil) .nil)
  rw [Declaration.withoutRepeats, Option.map_some, hfirst]

/-- The interface of a command with that flag. -/
def flagInterface : Interface := optionInterface [parameterOf plainFlag "f"]

theorem ofLevels_without_repeats_of_flag :
    Thinned (optionTree [plainFlag, plainFlag]) (optionTree [plainFlag]) ∧
      (ofTree (optionTree [plainFlag, plainFlag]) "zli").run.value = .ok flagInterface ∧
      CommandLine.match flagInterface ["sub", "--flag"] =
        .ok [⟨"root", []⟩, ⟨"sub", [("flag", .flag)]⟩] ∧
      (ofLevels (optionTree [plainFlag]) "zli"
        [⟨"root", []⟩, ⟨"sub", [("flag", .flag)]⟩]).arguments = [("flag", .bool true)] := by
  have hthinned := thinned_optionTree plainFlag rfl
  have hi : (ofTree (optionTree [plainFlag, plainFlag]) "zli").run.value = .ok flagInterface := rfl
  have hm : CommandLine.match flagInterface ["sub", "--flag"] =
      .ok [⟨"root", []⟩, ⟨"sub", [("flag", .flag)]⟩] := rfl
  obtain ⟨-, -, -, -, -, halike⟩ := (ofLevels_without_repeats hthinned "zli").2 _ _ _ hi hm
  refine ⟨hthinned, hi, hm, (halike ?_).trans rfl⟩
  intro o ho _ p hp _ _
  have hall : ∀ q ∈ [plainFlag, plainFlag], q = plainFlag := by simp
  rw [hall o (mem_of_mem_repeatedOptions ho), hall p hp]
  exact ⟨rfl, rfl, rfl⟩

/-- The default of a flag that is declared a second time is read although the first one is kept. -/
theorem repeated_default_is_read :
    Thinned (optionTree [plainFlag, flagOnByDefault]) (optionTree [plainFlag]) ∧
      (ofTree (optionTree [plainFlag, flagOnByDefault]) "zli").run.value = .ok flagInterface ∧
      (ofTree (optionTree [plainFlag]) "zli").run.value = .ok flagInterface ∧
      CommandLine.match flagInterface ["sub"] = .ok [⟨"root", []⟩, ⟨"sub", []⟩] ∧
      (ofLevels (optionTree [plainFlag, flagOnByDefault]) "zli"
        [⟨"root", []⟩, ⟨"sub", []⟩]).arguments = [("flag", .bool true)] ∧
      (ofLevels (optionTree [plainFlag]) "zli" [⟨"root", []⟩, ⟨"sub", []⟩]).arguments = [] :=
  ⟨thinned_optionTree flagOnByDefault rfl, rfl, rfl, rfl, rfl, rfl⟩

end Invocation

end CommandFiles
