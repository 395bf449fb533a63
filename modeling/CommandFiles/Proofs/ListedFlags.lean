import CommandFiles.Proofs.CommandRoute
import CommandFiles.Report.Listing

/-! # Flags that are listed and flags that are registered

The name map walks over the tree, the interface is built from it, and both give short flags to the
options of a command on their own. Where the names of the options differ both give the same ones, in
the same order: one step of either assigns the flag of one option, and both have used the same flags
before it. -/
namespace CommandFiles

open CommandLine Interface

namespace Report

/-- The options of a command that are listed, each with its short flag. -/
def listedFlags : List OptionSpec → List String → Except NamingError (List (OptionSpec × String))
  | [], _ => .ok []
  | o :: rest, used =>
    if Naming.reserved.contains o.long then listedFlags rest used
    else do
      let (short, used) ← Naming.assign o used
      let more ← listedFlags rest used
      return (o, short) :: more

/-- The line of an option with its short flag. -/
def flagLine (listed : OptionSpec × String) : String :=
  let (o, short) := listed
  let flags := Text.trim s!"-{short}, --{o.long} {o.kind.flagSuffix o.long}"
  s!"----> {flags} => {Naming.argumentKey o.long}\n"

/-- Whether a parameter is what a listed option says: it has the long name, and the short flag if
that is a single character. -/
def Tells (listed : OptionSpec × String) (p : Parameter) : Prop :=
  p.long = some listed.1.long ∧ ∀ c, listed.2 = String.ofList [c] → p.short = some c

/-- Whether the options of a command have different names, apart from those that are passed over. -/
def OptionsDiffer (c : Command) : Prop :=
  ((c.options.map OptionSpec.long).filter fun long => !Naming.reserved.contains long).Nodup

instance (c : Command) : Decidable (OptionsDiffer c) := inferInstanceAs (Decidable (List.Nodup _))

/-- The lines of options are those of the listed ones, one after another. -/
theorem optionLines_eq (os : List OptionSpec) (used : List String) :
    optionLines os used =
      (listedFlags os used).map fun listed => String.join (listed.map flagLine) := by
  induction os generalizing used with
  | nil => rfl
  | cons o rest ih =>
    unfold optionLines listedFlags
    split
    · exact ih used
    · unfold Naming.flagsText
      cases hassign : Naming.assign o used with
      | error e => rfl
      | ok assigned =>
        obtain ⟨short, taken⟩ := assigned
        change (optionLines rest taken >>= fun more => .ok (flagLine (o, short) ++ more)) =
          (listedFlags rest taken >>= fun more => .ok ((o, short) :: more)).map _
        rw [ih taken]
        cases listedFlags rest taken with
        | error e => rfl
        | ok more => exact congrArg Except.ok (by simp)

theorem tells_parameterOf (o : OptionSpec) (short : String) :
    Tells (o, short) (parameterOf o short) := by
  refine ⟨long_parameterOf o short, fun c hc => ?_⟩
  have hshort : short.toList = [c] := by
    rw [show short = String.ofList [c] from hc, String.toList_ofList]
  by_cases h : o.kind.takesValue = true <;> simp [parameterOf, h, hshort]

/-- **Both loops give the same flags**: where the names of options differ and they are registered,
the same options are listed with the same flags, in the same order. -/
theorem listedFlags_of_parametersOf {command : String} {os : List OptionSpec}
    {seen used : List String} {ps : List Parameter}
    (h : (parametersOf command os seen used).run.value = .ok ps)
    (hdiffer : ((os.map OptionSpec.long).filter fun long => !Naming.reserved.contains long).Nodup)
    (hnew : ∀ o ∈ os, o.long ∉ Naming.reserved → o.long ∉ seen) :
    ∃ listed, listedFlags os used = .ok listed ∧
      ps = listed.map fun l => parameterOf l.1 l.2 := by
  induction os generalizing seen used ps with
  | nil =>
    obtain rfl := pure_eq_ok.mp h
    exact ⟨[], rfl, rfl⟩
  | cons o rest ih =>
    have hrest := fun o' ho' => hnew o' (List.mem_cons_of_mem _ ho')
    unfold parametersOf at h
    unfold listedFlags
    split at h
    · -- A reserved option is passed over by both loops and takes no flag.
      next hreserved =>
      rw [if_pos hreserved]
      rw [List.map_cons, List.filter_cons_of_neg (by simpa using hreserved)] at hdiffer
      exact ih h hdiffer hrest
    next hreserved =>
    rw [if_neg hreserved]
    rw [List.map_cons, List.filter_cons_of_pos (by simpa using hreserved), List.nodup_cons]
      at hdiffer
    split at h
    · -- A repeated option would be listed but not registered.
      next hseen =>
      have := hnew o List.mem_cons_self (by simpa using hreserved)
      exact absurd hseen (by simpa using this)
    split at h
    · exact absurd h throw_ne_ok
    split at h
    · exact absurd h throw_ne_ok
    next short taken hassign =>
    obtain ⟨more, hmore, hps⟩ := bind_eq_ok.mp h
    obtain rfl := pure_eq_ok.mp hps
    obtain ⟨listed, hlisted, rfl⟩ := ih hmore hdiffer.2 fun o' ho' hfree hmem => by
      rcases List.mem_cons.mp hmem with hsame | hmem
      · refine hdiffer.1 (hsame ▸ List.mem_filter.mpr ⟨List.mem_map_of_mem ho', ?_⟩)
        simpa using hfree
      · exact hrest o' ho' hfree hmem
    refine ⟨(o, short) :: listed, ?_, rfl⟩
    rw [hassign]
    change (listedFlags rest taken >>= fun more => .ok ((o, short) :: more)) = _
    rw [hlisted]
    rfl

end Report

/-! ## Registered commands -/

namespace Interface

theorem exists_parametersOf {d : Declaration} {about : Option String} {isLeaf : Bool} {u : Usage}
    (h : (usageOf d about isLeaf).run.value = .ok u) :
    ∃ ps, (parametersOf d.name (d.options.getD []) [] [Naming.helpFlag]).run.value = .ok ps ∧
      u.parameters = ps ++ if isLeaf then [positional] else [] := by
  obtain ⟨ps, hps, hu⟩ := bind_eq_ok.mp h
  obtain rfl := pure_eq_ok.mp hu
  exact ⟨ps, hps, rfl⟩

/-- The options of a command are registered, each with its short flag, whatever global flags and
place for arguments stand behind them. -/
def OptionsRegistered (c : Command) (i : Interface) : Prop :=
  ∃ command, (parametersOf command c.options [] [Naming.helpFlag]).run.value = .ok i.options

theorem optionsRegistered_mk {d : Declaration} (subs : List Command) {about : Option String}
    {isLeaf : Bool} {u v : Usage} {globals : List Parameter} {below : List Interface}
    (hu : (usageOf d about isLeaf).run.value = .ok u)
    (hv : v.parameters = u.parameters ++ globals) (hg : ∀ p ∈ globals, p.isGlobal = true) :
    OptionsRegistered (.mk d subs) (mk v below) := by
  obtain ⟨ps, hps, hparameters⟩ := exists_parametersOf hu
  refine ⟨d.name, ?_⟩
  have hmore : ∀ p ∈ (if isLeaf then [positional] else []) ++ globals,
      p.isGlobal = true ∨ p.action = .positional := by
    intro p hp
    rcases List.mem_append.mp hp with hp | hp
    · cases isLeaf with
      | true => exact .inr (List.mem_singleton.mp hp ▸ rfl)
      | false => cases hp
    · exact .inl (hg p hp)
  rw [options_mk (fresh_parametersOf hps) hmore (by rw [hv, hparameters, List.append_assoc])]
  exact hps

theorem IsBuiltFor.optionsRegistered {c : Command} {i : Interface} (h : IsBuiltFor c i) :
    OptionsRegistered c i := by
  obtain ⟨d, subs⟩ := c
  obtain ⟨u, below, hbuilt, hi⟩ := h
  obtain ⟨_, _, hu, -, he⟩ := ofSubcommand_eq_ok hbuilt
  cases he
  rw [hi]
  have hglobals : u.parameters = u.parameters ++ [] := (List.append_nil _).symm
  exact optionsRegistered_mk subs hu hglobals nofun

end Interface

/-- What a route leads to is where it begins, or an interface built for the command. -/
theorem Route.isBuiltFor {c target : Command} {i reached : Interface} {names : List String}
    (h : Route c i names target reached) (hbelow : HasBelow c i) :
    (target = c ∧ reached = i) ∨ IsBuiltFor target reached := by
  induction h with
  | here => exact .inl ⟨rfl, rfl⟩
  | @down c node target i sub reached k names hnode hsub _ ih =>
    have hpair := hbelow.forall₂
    obtain ⟨hk, hnode⟩ := List.getElem?_eq_some_iff.mp hnode
    obtain ⟨hk', hsub⟩ := List.getElem?_eq_some_iff.mp hsub
    obtain ⟨hbuilt, hnext⟩ := hpair.get hk hk'
    rw [List.get_eq_getElem, List.get_eq_getElem, hnode, hsub] at hbuilt hnext
    rcases ih hnext with ⟨rfl, rfl⟩ | hbuilt'
    · exact .inr hbuilt
    · exact .inr hbuilt'

theorem Route.optionsRegistered {tree target : Command} {i reached : Interface}
    {names : List String} {fallback : String} (h : Route tree i names target reached)
    (hi : (ofTree tree fallback).run.value = .ok i) : OptionsRegistered target reached := by
  rcases h.isBuiltFor (hasBelow_of_ofTree hi) with ⟨rfl, rfl⟩ | hbuilt
  · obtain ⟨u, below, hu, -, rfl⟩ := ofTree_eq_ok hi
    obtain ⟨d, subs⟩ := target
    exact optionsRegistered_mk subs (d := { d with name := rootName (.mk d subs) fallback })
      (v := { u with parameters := u.parameters ++ globalFlags }) hu rfl
      fun _ => isGlobal_of_mem_globalFlags
  · exact hbuilt.optionsRegistered

namespace Report

theorem exists_listed {c : Command} {i : Interface} (h : OptionsRegistered c i)
    (hdiffer : OptionsDiffer c) :
    ∃ listed, listedFlags c.options [Naming.helpFlag] = .ok listed ∧
      List.Forall₂ Tells listed i.options := by
  obtain ⟨command, hps⟩ := h
  obtain ⟨listed, hlisted, hoptions⟩ := listedFlags_of_parametersOf hps hdiffer nofun
  refine ⟨listed, hlisted, ?_⟩
  rw [hoptions, List.forall₂_map_right_iff]
  exact List.forall₂_same.mpr fun l _ => tells_parameterOf l.1 l.2

theorem commandLines_of_listed {fallback shown : String} {trail : List String} {c : Command}
    {listed : List (OptionSpec × String)} (hshown : listedName? fallback trail c.name = some shown)
    (hlisted : listedFlags c.options [Naming.helpFlag] = .ok listed) :
    commandLines fallback trail c =
      .ok (commandLine fallback trail shown ++ String.join (listed.map flagLine)) := by
  rw [commandLines, hshown]
  dsimp only
  rw [optionLines_eq, hlisted]
  rfl

theorem nameMap_eq_ok {tree : Command} {fallback text : String} :
    nameMap tree fallback = .ok text ↔ ∃ parts,
      List.Forall₂ (fun entry part => commandLines fallback entry.1 entry.2 = .ok part)
        tree.walk parts ∧ text = String.join parts := by
  constructor
  · intro h
    obtain ⟨parts, hparts, h⟩ := except_bind_eq_ok.mp h
    exact ⟨parts, except_mapM_eq_ok.mp hparts, (except_pure_eq_ok.mp h).symm⟩
  · rintro ⟨parts, hparts, rfl⟩
    exact except_bind_eq_ok.mpr ⟨parts, except_mapM_eq_ok.mpr hparts, rfl⟩

/-- A walk over commands whose options all are registered and differ is listed to its end. -/
theorem exists_parts (fallback : String) {entries : List (List String × Command)}
    (h : ∀ entry ∈ entries, (∃ i, OptionsRegistered entry.2 i) ∧ OptionsDiffer entry.2) :
    ∃ parts, List.Forall₂
      (fun entry part => commandLines fallback entry.1 entry.2 = .ok part) entries parts := by
  induction entries with
  | nil => exact ⟨[], .nil⟩
  | cons entry rest ih =>
    obtain ⟨parts, hparts⟩ := ih fun e he => h e (List.mem_cons_of_mem _ he)
    obtain ⟨⟨i, hi⟩, hdiffer⟩ := h entry List.mem_cons_self
    obtain ⟨listed, hlisted, -⟩ := exists_listed hi hdiffer
    cases hshown : listedName? fallback entry.1 entry.2.name with
    | none => exact ⟨"" :: parts, .cons (by rw [commandLines, hshown]) hparts⟩
    | some shown => exact ⟨_ :: parts, .cons (commandLines_of_listed hshown hlisted) hparts⟩

/-- **The name map tells the registered options**: where the options of a registered command have
different names and the command is listed, its lines are those of the options that are registered
for it, in their order, with their long names and with every short flag that is a single character.
The map is printed if this is so for all commands of the tree. -/
theorem nameMap_tells {tree : Command} {fallback : String} {i : Interface}
    (h : (ofTree tree fallback).run.value = .ok i) :
    ((∀ entry ∈ tree.walk, (∃ names k, Route tree i names entry.2 k) ∧ OptionsDiffer entry.2) →
      ∃ text, nameMap tree fallback = .ok text) ∧
    ∀ text, nameMap tree fallback = .ok text →
      ∃ parts, text = String.join parts ∧
        List.Forall₂ (fun entry part => ∀ names k shown, Route tree i names entry.2 k →
          OptionsDiffer entry.2 → listedName? fallback entry.1 entry.2.name = some shown →
          ∃ listed, part = commandLine fallback entry.1 shown ++
              String.join (listed.map flagLine) ∧
            List.Forall₂ Tells listed k.options) tree.walk parts := by
  constructor
  · intro hall
    obtain ⟨parts, hparts⟩ := exists_parts fallback fun entry hentry => by
      obtain ⟨⟨names, k, hroute⟩, hdiffer⟩ := hall entry hentry
      exact ⟨⟨k, hroute.optionsRegistered h⟩, hdiffer⟩
    exact ⟨_, nameMap_eq_ok.mpr ⟨parts, hparts, rfl⟩⟩
  · intro text htext
    obtain ⟨parts, hparts, htext⟩ := nameMap_eq_ok.mp htext
    refine ⟨parts, htext, hparts.imp fun entry part hpart names k shown hroute hdiffer hshown => ?_⟩
    obtain ⟨listed, hlisted, htells⟩ := exists_listed (hroute.optionsRegistered h) hdiffer
    rw [commandLines_of_listed hshown hlisted] at hpart
    exact ⟨listed, (Except.ok.inj hpart).symm, htells⟩

/-- A command with options that share a letter, and one below it with a reserved option. -/
def lettered : Command :=
  let flag := fun (name : String) => ({ name := .long name, kind := .boolean } : OptionSpec)
  .mk { name := "r", options := some [flag "alpha", flag "apple"] }
    [.mk { name := "s", options := some [flag "local", flag "hide"] } []]

/-- The interface of these commands. -/
def letteredInterface : Interface :=
  let flag := fun (name : String) (short : Char) =>
    ({ id := name, long := some name, short := some short, action := .flag } : Parameter)
  .mk { name := "r", parameters := [flag "alpha" 'a', flag "apple" 'A'] ++ globalFlags }
    [.mk { name := "s", about := some (Command.defaultDescription "s")
           parameters := [flag "hide" 'H', positional] } []]

theorem nameMap_tells_lettered :
    (ofTree lettered "zli").run.value = .ok letteredInterface ∧
      ∃ text parts, nameMap lettered "zli" = .ok text ∧ text = String.join parts ∧
        List.Forall₂ (fun entry part => ∀ names k shown,
          Route lettered letteredInterface names entry.2 k →
          OptionsDiffer entry.2 → listedName? "zli" entry.1 entry.2.name = some shown →
          ∃ listed, part = commandLine "zli" entry.1 shown ++ String.join (listed.map flagLine) ∧
            List.Forall₂ Tells listed k.options) lettered.walk parts := by
  have hi : (ofTree lettered "zli").run.value = .ok letteredInterface := rfl
  obtain ⟨hprinted, htells⟩ := nameMap_tells hi
  obtain ⟨text, htext⟩ := hprinted fun entry hentry => by
    rcases List.mem_cons.mp hentry with rfl | hentry
    · exact ⟨⟨_, _, .here⟩, by decide⟩
    · obtain rfl := List.mem_singleton.mp hentry
      exact ⟨⟨_, _, .down (k := 0) rfl rfl .here⟩, by decide⟩
  obtain ⟨parts, hparts⟩ := htells text htext
  exact ⟨hi, text, parts, htext, hparts⟩

/-- A command with an option that is declared twice, and one without a name below it. -/
def relisted : Command :=
  let flag := fun (name : String) => ({ name := .long name, kind := .boolean } : OptionSpec)
  .mk { name := "r", options := some [flag "alpha", flag "alpha", flag "apple"] }
    [.mk { name := "", options := some [flag "beta"] } []]

/-- The interface of these commands. -/
def relistedInterface : Interface :=
  let flag := fun (name : String) (short : Char) =>
    ({ id := name, long := some name, short := some short, action := .flag } : Parameter)
  .mk { name := "r", parameters := [flag "alpha" 'a', flag "apple" 'A'] ++ globalFlags }
    [.mk { name := "", about := some (Command.defaultDescription "")
           parameters := [flag "beta" 'b', positional] } []]

/-- A repeated option is listed once more and takes a flag, and a command without a name is passed
over. -/
theorem nameMap_relisted :
    (ofTree relisted "zli").run.value = .ok relistedInterface ∧
      nameMap relisted "zli" =
        .ok ("> r\n----> -a, --alpha => alpha\n----> -A, --alpha => alpha\n" ++
          "----> -apple, --apple => apple\n") := by
  exact ⟨rfl, by decide +kernel⟩

end Report

end CommandFiles
