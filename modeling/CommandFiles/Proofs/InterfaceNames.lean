import CommandFiles.Proofs.InterfaceBuild
import Mathlib.Data.List.Nodup

/-! # Names in an interface

At every level of an interface that was built no two things are called the same: the names and
aliases of its subcommands and the built-in `help` differ, and so do the ids, the long names and the
short flags of its options, which also leave the global flags, help and the arguments without a flag
alone. -/
namespace CommandFiles.Interface

/-! ## What must differ -/

/-- The options that a command itself declares. -/
def options (i : Interface) : List Parameter :=
  i.usage.parameters.filter fun p => !p.isGlobal && p.action ≠ .positional

/-- The words that call a command: its name and its aliases. -/
def callWords (i : Interface) : List String := i.usage.name :: i.usage.aliases

/-- The names that no option may have: those of the global flags, of the help flag and of the
arguments without a flag. -/
def heldNames : List String := globalFlags.map (·.id) ++ [helpParameter.id, positional.id]

/-- Whether everything at the top level of an interface has a name of its own. -/
structure NamesDiffer (i : Interface) : Prop where
  words : (Naming.helpName :: i.subcommands.flatMap callWords).Nodup
  ids : (i.options.map (·.id) ++ heldNames).Nodup
  longs : (i.options.map (·.long) ++ heldNames.map some).Nodup
  shorts : ((helpParameter :: i.options).filterMap (·.short)).Nodup

/-! ## Options -/

theorem heldNames_nodup : heldNames.Nodup := by decide

theorem mem_reserved_of_mem_heldNames {name : String} (h : name ∈ heldNames) :
    name ∈ Naming.reserved := by
  have hall : ∀ name ∈ heldNames, name ∈ Naming.reserved := by decide
  exact hall name h

theorem isGlobal_of_mem_globalFlags {p : Parameter} (h : p ∈ globalFlags) :
    p.isGlobal = true := by
  have hall : ∀ p ∈ globalFlags, p.isGlobal = true := by decide
  exact hall p h

/-- The own options of a command are found again among its parameters, whatever global flags and
place for arguments stand behind them. -/
theorem options_mk {seen used : List String} {ps more : List Parameter} {u : Usage}
    {below : List Interface} (hps : Fresh seen used ps)
    (hmore : ∀ p ∈ more, p.isGlobal = true ∨ p.action = .positional)
    (hu : u.parameters = ps ++ more) : options (mk u below) = ps := by
  have hkeep : ps.filter (fun p => !p.isGlobal && p.action ≠ .positional) = ps := by
    refine List.filter_eq_self.mpr fun p hp => ?_
    have hown := hps.own p hp
    simp [hown.1, hown.2.1]
  have hdrop : more.filter (fun p => !p.isGlobal && p.action ≠ .positional) = [] := by
    refine List.filter_eq_nil_iff.mpr fun p hp => ?_
    rcases hmore p hp with h | h <;> simp [h]
  rw [options, usage, hu, List.filter_append, hkeep, hdrop, List.append_nil]

theorem Fresh.ids_nodup {seen used : List String} {ps : List Parameter} (h : Fresh seen used ps) :
    (ps.map (·.id) ++ heldNames).Nodup := by
  refine List.nodup_append.mpr ⟨h.nodup, heldNames_nodup, ?_⟩
  rintro _ hid held hheld rfl
  obtain ⟨p, hp, rfl⟩ := List.mem_map.mp hid
  exact h.unreserved p hp (mem_reserved_of_mem_heldNames hheld)

theorem Fresh.longs_nodup {seen used : List String} {ps : List Parameter}
    (h : Fresh seen used ps) : (ps.map (·.long) ++ heldNames.map some).Nodup := by
  have hlong : ps.map (·.long) = (ps.map (·.id)).map some := by
    rw [List.map_map]
    exact List.map_congr_left h.long_eq
  rw [hlong, ← List.map_append]
  exact h.ids_nodup.map fun _ _ => Option.some.inj

theorem Fresh.all_shorts_nodup {seen : List String} {ps : List Parameter}
    (h : Fresh seen [Naming.helpFlag] ps) :
    ((helpParameter :: ps).filterMap (·.short)).Nodup := by
  rw [List.filterMap_cons_some (show helpParameter.short = some 'h' from rfl)]
  refine List.nodup_cons.mpr ⟨fun hm => ?_, h.shorts_nodup⟩
  obtain ⟨p, hp, hs⟩ := List.mem_filterMap.mp hm
  exact h.unused p hp 'h' hs (List.mem_singleton.mpr rfl)

/-! ## Subcommands -/

/-- The words that call the commands of a list, beside what earlier commands have taken. -/
structure WordsDiffer (names seenNames seenAliases : List String) (is : List Interface) :
    Prop where
  name_mem : ∀ i ∈ is, i.usage.name ∈ names
  name_ne_help : ∀ i ∈ is, i.usage.name ≠ Naming.helpName
  name_not_mem : ∀ i ∈ is, i.usage.name ∉ seenNames
  alias_not_mem : ∀ i ∈ is, ∀ a ∈ i.usage.aliases,
    a ∉ names ∧ a ≠ Naming.helpName ∧ a ∉ seenAliases
  nodup : (is.flatMap callWords).Nodup

theorem mem_keptAlias {names seenAliases : List String} {d : Declaration} {a : String}
    (h : a ∈ (keptAlias names seenAliases d).toList) :
    a ∉ names ∧ a ≠ Naming.helpName ∧ a ∉ seenAliases := by
  obtain ⟨-, ha⟩ := Option.filter_eq_some_iff.mp (Option.mem_toList.mp h)
  simp only [Bool.not_eq_true', Bool.or_eq_false_iff, decide_eq_false_iff_not] at ha
  exact ⟨by simpa using ha.1.2, ha.1.1, by simpa using ha.2⟩

theorem Registered.wordsDiffer {names seenNames seenAliases : List String} {cs : List Command}
    {is : List Interface} (h : Registered names cs seenNames seenAliases is)
    (hnames : ∀ c ∈ cs, c.name ∈ names) : WordsDiffer names seenNames seenAliases is := by
  induction h with
  | nil => constructor <;> simp
  | skip _ _ ih => exact ih fun c hc => hnames c (List.mem_cons_of_mem _ hc)
  | @keep names d subs rest seenNames seenAliases u below is hn hs hi _ _ _ ih =>
    have hmem : d.name ∈ names := hnames _ List.mem_cons_self
    have hrest := ih fun c hc => hnames c (List.mem_cons_of_mem _ hc)
    have hname : u.name = d.name := name_of_ofSubcommand hi
    refine ⟨?_, ?_, ?_, ?_, ?_⟩
    · exact List.forall_mem_cons.mpr ⟨hname ▸ hmem, hrest.name_mem⟩
    · exact List.forall_mem_cons.mpr ⟨hname ▸ hn, hrest.name_ne_help⟩
    · refine List.forall_mem_cons.mpr ⟨hname ▸ hs, fun i hi hm => ?_⟩
      exact hrest.name_not_mem i hi (List.mem_cons_of_mem _ hm)
    · refine List.forall_mem_cons.mpr ⟨fun a ha => mem_keptAlias ha, fun i hi a ha => ?_⟩
      obtain ⟨h₁, h₂, h₃⟩ := hrest.alias_not_mem i hi a ha
      exact ⟨h₁, h₂, fun hm => h₃ (List.mem_append_right _ hm)⟩
    · -- the words of the first command against those of the commands behind it
      have hwords : ∀ w ∈ is.flatMap callWords,
          (∃ i ∈ is, w = i.usage.name) ∨ ∃ i ∈ is, w ∈ i.usage.aliases := by
        intro w hw
        obtain ⟨i, hi, hwi⟩ := List.mem_flatMap.mp hw
        rcases List.mem_cons.mp hwi with rfl | hwi
        · exact .inl ⟨i, hi, rfl⟩
        · exact .inr ⟨i, hi, hwi⟩
      have hcall : callWords (mk { u with aliases := (keptAlias names seenAliases d).toList } below) =
          d.name :: (keptAlias names seenAliases d).toList := by
        rw [callWords, usage, hname]
      rw [List.flatMap_cons, hcall]
      refine List.nodup_append.mpr ⟨?_, hrest.nodup, ?_⟩
      · refine List.nodup_cons.mpr ⟨fun hm => (mem_keptAlias hm).1 hmem, ?_⟩
        cases keptAlias names seenAliases d <;> simp
      · rintro w hw w' hw' rfl
        rcases List.mem_cons.mp hw with rfl | ha
        · rcases hwords _ hw' with ⟨i, hi, he⟩ | ⟨i, hi, hm⟩
          · exact hrest.name_not_mem i hi (he ▸ List.mem_cons_self)
          · exact (hrest.alias_not_mem i hi _ hm).1 hmem
        · rcases hwords _ hw' with ⟨i, hi, rfl⟩ | ⟨i, hi, hm⟩
          · exact (mem_keptAlias ha).1 (hrest.name_mem i hi)
          · exact (hrest.alias_not_mem i hi _ hm).2.2 (List.mem_append_left _ ha)

/-- The words below a command, with `help` among them. -/
theorem Registered.words_nodup {cs : List Command} {is : List Interface}
    (h : Registered (cs.map Command.name) cs [] [] is) :
    (Naming.helpName :: is.flatMap callWords).Nodup := by
  have hw := h.wordsDiffer fun c hc => List.mem_map_of_mem hc
  refine List.nodup_cons.mpr ⟨fun hm => ?_, hw.nodup⟩
  obtain ⟨i, hi, hwi⟩ := List.mem_flatMap.mp hm
  rcases List.mem_cons.mp hwi with he | ha
  · exact hw.name_ne_help i hi he.symm
  · exact (hw.alias_not_mem i hi _ ha).2.1 rfl

/-! ## Every level -/

/-- **Everything in an interface has a name of its own**, at every level of every interface that is
built. -/
theorem namesDiffer_of_ofTree {tree : Command} {fallback : String} {i k : Interface}
    (h : (ofTree tree fallback).run.value = .ok i) (hk : Contains i k) : NamesDiffer k := by
  obtain ⟨ps, more, cs, hps, hparameters, hmore, hbelow⟩ := isLevel_of_ofTree h hk
  have hoptions : k.options = ps := by
    obtain ⟨u, below⟩ := k
    refine options_mk hps (fun p hp => ?_) hparameters
    rcases hmore p hp with rfl | hp
    · exact .inr rfl
    · exact .inl (isGlobal_of_mem_globalFlags hp)
  exact ⟨hbelow.words_nodup, hoptions ▸ hps.ids_nodup, hoptions ▸ hps.longs_nodup,
    hoptions ▸ hps.all_shorts_nodup⟩

/-- Siblings that share names and aliases, and options that share names and letters. -/
def clashing : Command :=
  let flag := fun (name : OptionName) => ({ name := name, kind := .boolean } : OptionSpec)
  .mk {}
    [.mk { name := "deploy", secondName := some "sub" } [],
      .mk { name := "sub", secondName := some "s"
            options := some [flag (.long "home"), flag (.pair "t" "tags"), flag (.long "local"),
              flag (.long "hide"), flag (.long "home")] } [],
      .mk { name := "help" } [], .mk { name := "sub" } [],
      .mk { name := "ship", secondName := some "s" } []]

/-- What is left of the second of them. -/
def clashingSub : Interface :=
  .mk { name := "sub", about := some (Command.defaultDescription "sub"), aliases := ["s"]
        parameters := [
          { id := "home", long := some "home", short := some 'H', action := .flag },
          { id := "tags", long := some "tags", short := some 't', action := .flag },
          { id := "hide", long := some "hide", action := .flag }, positional] } []

/-- The interface of those siblings. -/
def clashingInterface : Interface :=
  let leaf := fun (name : String) => Interface.mk
    { name := name, about := some (Command.defaultDescription name)
      parameters := [positional] } []
  .mk { name := "zli", parameters := globalFlags } [leaf "deploy", clashingSub, leaf "ship"]

theorem namesDiffer_clashingSub :
    (ofTree clashing "zli").run.value = .ok clashingInterface ∧
      Contains clashingInterface clashingSub ∧ NamesDiffer clashingSub := by
  have hbuilt : (ofTree clashing "zli").run.value = .ok clashingInterface := rfl
  have hsub : Contains clashingInterface clashingSub :=
    .inside (List.mem_cons_of_mem _ List.mem_cons_self) (.self clashingSub)
  exact ⟨hbuilt, hsub, namesDiffer_of_ofTree hbuilt hsub⟩

end CommandFiles.Interface
