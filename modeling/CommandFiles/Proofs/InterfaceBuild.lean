import CommandFiles.CommandLine.Interface

/-! # What the interface of a tree is built from

A build that succeeds is taken apart once. `parametersOf` keeps an option only if its name and its
short flag are new, and `Registered` says which commands of a list get an interface, with which
alias, in which order. Every later fact about an interface is an induction over one of the two. -/
namespace CommandFiles.Interface

/-! ## Builds that succeed -/

section Build

variable {α β : Type} {b : Build α} {f : α → Build β} {a x : α} {y : β}

theorem bind_eq_ok : (b >>= f).run.value = .ok y ↔
    ∃ a, b.run.value = .ok a ∧ (f a).run.value = .ok y :=
  Logged.bind_eq_ok

theorem pure_eq_ok : (pure a : Build α).run.value = .ok x ↔ a = x := Logged.pure_eq_ok

theorem warn_bind {w : Warning} {b : Build α} :
    (warn w >>= fun _ => b).run.value = b.run.value := rfl

theorem throw_ne_ok {e : InterfaceError} : (throw e : Build α).run.value ≠ .ok a := by
  change (Except.error e : Except InterfaceError α) ≠ .ok a
  simp

end Build

/-! ## Parameters of options -/

/-- What sets the parameters of the options of one command apart from each other and from what is
taken already: `seen` holds long names, `used` short flags. -/
structure Fresh (seen used : List String) (ps : List Parameter) : Prop where
  long_eq : ∀ p ∈ ps, p.long = some p.id
  own : ∀ p ∈ ps, p.isGlobal = false ∧ p.action ≠ .positional ∧ p.action ≠ .help
  unreserved : ∀ p ∈ ps, p.id ∉ Naming.reserved
  unseen : ∀ p ∈ ps, p.id ∉ seen
  nodup : (ps.map (·.id)).Nodup
  unused : ∀ p ∈ ps, ∀ c, p.short = some c → String.ofList [c] ∉ used
  shorts_nodup : (ps.filterMap (·.short)).Nodup

theorem fresh_nil (seen used : List String) : Fresh seen used [] := by
  constructor <;> simp

@[simp] theorem id_parameterOf (o : OptionSpec) (short : String) :
    (parameterOf o short).id = o.long := by
  by_cases h : o.kind.takesValue = true <;> simp [parameterOf, h]

@[simp] theorem long_parameterOf (o : OptionSpec) (short : String) :
    (parameterOf o short).long = some o.long := by
  by_cases h : o.kind.takesValue = true <;> simp [parameterOf, h]

@[simp] theorem isGlobal_parameterOf (o : OptionSpec) (short : String) :
    (parameterOf o short).isGlobal = false := by
  by_cases h : o.kind.takesValue = true <;> simp [parameterOf, h]

theorem action_parameterOf (o : OptionSpec) (short : String) :
    (parameterOf o short).action ≠ .positional ∧ (parameterOf o short).action ≠ .help := by
  by_cases h : o.kind.takesValue = true
  · by_cases hm : o.kind.isMultiple = true <;> simp [parameterOf, h, hm]
  · simp [parameterOf, h]

/-- Only a short flag of a single character is one on the command line. -/
theorem short_parameterOf {o : OptionSpec} {short : String} {c : Char}
    (h : (parameterOf o short).short = some c) : short = String.ofList [c] := by
  have hc : short.toList = [c] := by
    by_cases hk : o.kind.takesValue = true <;>
    · simp only [parameterOf, hk, if_true, if_false, Bool.false_eq_true] at h
      split at h
      · next hc => rw [hc, Option.some.inj h]
      · cases h
  rw [← hc, String.ofList_toList]

/-- The short flag of an option that is kept is new. -/
theorem not_mem_of_assign {o : OptionSpec} {used taken : List String} {short : String}
    (hd : ((o.name.shortName?.map used.contains).getD false) = false)
    (h : Naming.assign o used = .ok (short, taken)) :
    short ∉ used ∧ taken = Naming.take used short := by
  unfold Naming.assign at h
  cases hs : Naming.shortFor o used with
  | error e => rw [hs] at h; cases h
  | ok s =>
    rw [hs] at h
    cases h
    refine ⟨?_, rfl⟩
    unfold Naming.shortFor at hs
    split at hs
    · next declared hdeclared =>
      cases hs
      rw [hdeclared] at hd
      simpa using hd
    · exact Naming.not_mem_of_shortFlag hs

theorem Fresh.cons {seen used taken : List String} {o : OptionSpec} {short : String}
    {ps : List Parameter} (hr : o.long ∉ Naming.reserved) (hs : o.long ∉ seen)
    (hu : short ∉ used) (ht : taken = Naming.take used short)
    (h : Fresh (o.long :: seen) taken ps) : Fresh seen used (parameterOf o short :: ps) where
  long_eq p hp := by
    rcases List.mem_cons.mp hp with rfl | hp
    · simp
    · exact h.long_eq p hp
  own p hp := by
    rcases List.mem_cons.mp hp with rfl | hp
    · exact ⟨isGlobal_parameterOf o short, action_parameterOf o short⟩
    · exact h.own p hp
  unreserved p hp := by
    rcases List.mem_cons.mp hp with rfl | hp
    · simpa using hr
    · exact h.unreserved p hp
  unseen p hp := by
    rcases List.mem_cons.mp hp with rfl | hp
    · simpa using hs
    · exact fun hm => h.unseen p hp (List.mem_cons_of_mem _ hm)
  nodup := by
    rw [List.map_cons, List.nodup_cons, id_parameterOf]
    refine ⟨fun hm => ?_, h.nodup⟩
    obtain ⟨p, hp, he⟩ := List.mem_map.mp hm
    exact h.unseen p hp (he ▸ List.mem_cons_self)
  unused p hp c hc := by
    rcases List.mem_cons.mp hp with rfl | hp
    · rwa [← short_parameterOf hc]
    · intro hm
      refine h.unused p hp c hc ?_
      rw [ht, Naming.mem_take]
      exact .inr hm
  shorts_nodup := by
    rw [List.filterMap_cons]
    split
    · exact h.shorts_nodup
    · next c hc =>
      refine List.nodup_cons.mpr ⟨fun hm => ?_, h.shorts_nodup⟩
      obtain ⟨p, hp, he⟩ := List.mem_filterMap.mp hm
      refine h.unused p hp c he ?_
      rw [ht, Naming.mem_take]
      exact .inl (short_parameterOf hc).symm

/-- The parameters of the options of a command are fresh. -/
theorem fresh_parametersOf {command : String} {os : List OptionSpec} {seen used : List String}
    {ps : List Parameter} (h : (parametersOf command os seen used).run.value = .ok ps) :
    Fresh seen used ps := by
  induction os generalizing seen used ps with
  | nil =>
    obtain rfl := pure_eq_ok.mp h
    exact fresh_nil seen used
  | cons o rest ih =>
    unfold parametersOf at h
    split at h
    · exact ih h
    next hr =>
    split at h
    · exact ih (warn_bind.symm.trans h)
    next hs =>
    split at h
    · exact absurd h throw_ne_ok
    next hd =>
    split at h
    · exact absurd h throw_ne_ok
    next short taken ha =>
    obtain ⟨more, hmore, hps⟩ := bind_eq_ok.mp h
    obtain rfl := pure_eq_ok.mp hps
    obtain ⟨hu, ht⟩ := not_mem_of_assign (by simpa using hd) ha
    exact (ih hmore).cons (by simpa using hr) (by simpa using hs) hu ht

/-! ## Usages -/

/-- A usage that was built: everything in it follows from the declaration but the parameters. -/
theorem usageOf_eq_ok {d : Declaration} {about : Option String} {isLeaf : Bool} {u : Usage}
    (h : (usageOf d about isLeaf).run.value = .ok u) :
    ∃ ps, Fresh [] [Naming.helpFlag] ps ∧
      u = { name := d.name, about := about, note := runtimeNote d
            parameters := ps ++ if isLeaf then [positional] else [] } := by
  obtain ⟨ps, hps, hu⟩ := bind_eq_ok.mp h
  exact ⟨ps, fresh_parametersOf hps, (pure_eq_ok.mp hu).symm⟩

/-! ## Subcommands -/

/-- The alias that a command gets: the declared one, unless it is taken. -/
def keptAlias (names seenAliases : List String) (d : Declaration) : Option String :=
  d.secondName.filter fun a =>
    !(a = Naming.helpName || names.contains a || seenAliases.contains a)

/-- Which commands of a list get an interface. `names` are the names of all commands of the list,
`seenNames` and `seenAliases` what commands before these have taken. -/
inductive Registered :
    (names : List String) → List Command → (seenNames seenAliases : List String) →
      List Interface → Prop where
  | nil {names seenNames seenAliases} : Registered names [] seenNames seenAliases []
  /-- The name stands for help or for an earlier command. -/
  | skip {names c rest seenNames seenAliases is} :
      c.name = Naming.helpName ∨ c.name ∈ seenNames →
      Registered names rest seenNames seenAliases is →
      Registered names (c :: rest) seenNames seenAliases is
  | keep {names d subs rest seenNames seenAliases u below is} :
      d.name ≠ Naming.helpName → d.name ∉ seenNames →
      (ofSubcommand (.mk d subs)).run.value = .ok (.mk u below) →
      Registered (subs.map Command.name) subs [] [] below →
      Registered names rest (d.name :: seenNames)
        ((keptAlias names seenAliases d).toList ++ seenAliases) is →
      Registered names (.mk d subs :: rest) seenNames seenAliases
        (.mk { u with aliases := (keptAlias names seenAliases d).toList } below :: is)

@[simp] theorem name_mk (d : Declaration) (subs : List Command) :
    (Command.mk d subs).name = d.name := rfl

theorem aliases_of_usageOf {d : Declaration} {about : Option String} {isLeaf : Bool} {u : Usage}
    (h : (usageOf d about isLeaf).run.value = .ok u) : u.aliases = [] := by
  obtain ⟨ps, -, rfl⟩ := usageOf_eq_ok h
  rfl

/-- The interface of one command. -/
theorem ofSubcommand_eq_ok {d : Declaration} {subs : List Command} {i : Interface}
    (h : (ofSubcommand (.mk d subs)).run.value = .ok i) :
    ∃ u below,
      (usageOf d (some (d.description.getD (Command.defaultDescription d.name)))
        subs.isEmpty).run.value = .ok u ∧
      (ofSubcommands d.name (subs.map Command.name) subs [] []).run.value = .ok below ∧
      i = .mk u below := by
  unfold ofSubcommand at h
  obtain ⟨u, hu, h⟩ := bind_eq_ok.mp h
  obtain ⟨below, hbelow, h⟩ := bind_eq_ok.mp h
  exact ⟨u, below, hu, hbelow, (pure_eq_ok.mp h).symm⟩

/-- The interface of a command has its name. -/
theorem name_of_ofSubcommand {c : Command} {i : Interface}
    (h : (ofSubcommand c).run.value = .ok i) : i.name = c.name := by
  obtain ⟨d, subs⟩ := c
  obtain ⟨u, below, hu, -, rfl⟩ := ofSubcommand_eq_ok h
  obtain ⟨ps, -, rfl⟩ := usageOf_eq_ok hu
  rfl

/-- The interface of a command that is kept, with the alias it gets, stands before the interfaces
of the commands behind it. -/
theorem cons_of_ofSubcommands {parent : String} {names : List String} {d : Declaration}
    {subs rest : List Command} {seenNames seenAliases : List String} {is : List Interface}
    (hn : d.name ≠ Naming.helpName) (hs : d.name ∉ seenNames)
    (h : (ofSubcommands parent names (.mk d subs :: rest) seenNames seenAliases).run.value =
      .ok is) :
    ∃ u below more,
      (ofSubcommand (.mk d subs)).run.value = .ok (.mk u below) ∧
      (ofSubcommands d.name (subs.map Command.name) subs [] []).run.value = .ok below ∧
      (ofSubcommands parent names rest (d.name :: seenNames)
        ((keptAlias names seenAliases d).toList ++ seenAliases)).run.value = .ok more ∧
      is = .mk { u with aliases := (keptAlias names seenAliases d).toList } below :: more := by
  unfold ofSubcommands at h
  rw [name_mk, if_neg hn, if_neg (by simpa using hs)] at h
  obtain ⟨i, hi, h⟩ := bind_eq_ok.mp h
  obtain ⟨u, below, hu, hbelow, rfl⟩ := ofSubcommand_eq_ok hi
  have ha := aliases_of_usageOf hu
  refine ⟨u, below, ?_⟩
  split at h
  · next hd =>
    obtain ⟨more, hmore, h⟩ := bind_eq_ok.mp h
    obtain rfl := pure_eq_ok.mp h
    have hk : keptAlias names seenAliases d = none := by
      rw [keptAlias, show d.secondName = none from hd, Option.filter_none]
    exact ⟨more, hi, hbelow, by rw [hk]; exact hmore, by rw [hk, Option.toList_none, ← ha]⟩
  next a hd =>
  split at h
  · next ht =>
    obtain ⟨more, hmore, h⟩ := bind_eq_ok.mp (warn_bind.symm.trans h)
    obtain rfl := pure_eq_ok.mp h
    have hk : keptAlias names seenAliases d = none := by
      rw [keptAlias, show d.secondName = some a from hd, Option.filter_some, ht]
      rfl
    exact ⟨more, hi, hbelow, by rw [hk]; exact hmore, by rw [hk, Option.toList_none, ← ha]⟩
  · next ht =>
    obtain ⟨more, hmore, h⟩ := bind_eq_ok.mp h
    obtain rfl := pure_eq_ok.mp h
    have hk : keptAlias names seenAliases d = some a := by
      rw [keptAlias, show d.secondName = some a from hd, Option.filter_some,
        if_pos (by simpa using ht)]
    refine ⟨more, hi, hbelow, by rw [hk]; exact hmore, ?_⟩
    rw [hk, Option.toList_some, withAlias, ha, List.nil_append]

/-- The interfaces that are built for a list of commands. -/
theorem registered_of_ofSubcommands {parent : String} {names : List String} :
    ∀ {cs : List Command} {seenNames seenAliases : List String} {is : List Interface},
      (ofSubcommands parent names cs seenNames seenAliases).run.value = .ok is →
      Registered names cs seenNames seenAliases is
  | [], _, _, _, h => by
    unfold ofSubcommands at h
    obtain rfl := pure_eq_ok.mp h
    exact .nil
  | .mk d subs :: rest, seenNames, _, _, h => by
    by_cases hn : d.name = Naming.helpName
    · unfold ofSubcommands at h
      rw [name_mk, if_pos hn] at h
      exact .skip (.inl hn) (registered_of_ofSubcommands (warn_bind.symm.trans h))
    by_cases hs : d.name ∈ seenNames
    · unfold ofSubcommands at h
      rw [name_mk, if_neg hn, if_pos (by simpa using hs)] at h
      exact .skip (.inr hs) (registered_of_ofSubcommands (warn_bind.symm.trans h))
    obtain ⟨u, below, more, hu, hbelow, hmore, rfl⟩ := cons_of_ofSubcommands hn hs h
    exact .keep hn hs hu (registered_of_ofSubcommands hbelow) (registered_of_ofSubcommands hmore)

/-- The interface of a tree: the usage of its root with the global flags, and the interfaces of the
commands below. -/
theorem ofTree_eq_ok {tree : Command} {fallback : String} {i : Interface}
    (h : (ofTree tree fallback).run.value = .ok i) :
    ∃ u below,
      (usageOf { tree.declared with name := rootName tree fallback } tree.declared.description
        tree.subcommands.isEmpty).run.value = .ok u ∧
      Registered (tree.subcommands.map Command.name) tree.subcommands [] [] below ∧
      i = .mk { u with parameters := u.parameters ++ globalFlags } below := by
  obtain ⟨u, hu, h⟩ := bind_eq_ok.mp h
  obtain ⟨below, hbelow, h⟩ := bind_eq_ok.mp h
  exact ⟨u, below, hu, registered_of_ofSubcommands hbelow, (pure_eq_ok.mp h).symm⟩

/-! ## Levels -/

/-- An interface and everything below it. -/
inductive Contains : Interface → Interface → Prop where
  | self (i : Interface) : Contains i i
  | inside {i j k : Interface} : j ∈ i.subcommands → Contains j k → Contains i k

/-- What is known of every interface that is built: behind the parameters of its options stand at
most the place for arguments without a flag and the global flags, and below it the registered
commands of a list. -/
def IsLevel (k : Interface) : Prop :=
  ∃ (ps more : List Parameter) (cs : List Command),
    Fresh [] [Naming.helpFlag] ps ∧ k.usage.parameters = ps ++ more ∧
      (∀ p ∈ more, p = positional ∨ p ∈ globalFlags) ∧
      Registered (cs.map Command.name) cs [] [] k.subcommands

theorem isLevel_mk {d : Declaration} {about : Option String} {isLeaf : Bool} {u v : Usage}
    {globals : List Parameter} {cs : List Command} {below : List Interface}
    (hu : (usageOf d about isLeaf).run.value = .ok u)
    (hv : v.parameters = u.parameters ++ globals) (hg : ∀ p ∈ globals, p ∈ globalFlags)
    (hbelow : Registered (cs.map Command.name) cs [] [] below) : IsLevel (mk v below) := by
  obtain ⟨ps, hps, rfl⟩ := usageOf_eq_ok hu
  refine ⟨ps, (if isLeaf then [positional] else []) ++ globals, cs, hps, ?_, fun p hp => ?_, hbelow⟩
  · rw [usage, hv, List.append_assoc]
  · rcases List.mem_append.mp hp with hp | hp
    · cases isLeaf with
      | true => exact .inl (List.mem_singleton.mp hp)
      | false => cases hp
    · exact .inr (hg p hp)

theorem Registered.isLevel {names seenNames seenAliases : List String} {cs : List Command}
    {is : List Interface} (h : Registered names cs seenNames seenAliases is) :
    ∀ i ∈ is, ∀ k, Contains i k → IsLevel k := by
  induction h with
  | nil => intro i hi; cases hi
  | skip _ _ ih => exact ih
  | keep _ _ hi hbelow _ ihbelow ih =>
    obtain ⟨u, below, hu, -, he⟩ := ofSubcommand_eq_ok hi
    cases he
    refine List.forall_mem_cons.mpr ⟨fun k hk => ?_, ih⟩
    cases hk with
    | self => exact isLevel_mk hu (List.append_nil _).symm (by simp) hbelow
    | inside hj hk => exact ihbelow _ hj k hk

/-- Every interface in that of a tree. -/
theorem isLevel_of_ofTree {tree : Command} {fallback : String} {i k : Interface}
    (h : (ofTree tree fallback).run.value = .ok i) (hk : Contains i k) : IsLevel k := by
  obtain ⟨u, below, hu, hbelow, rfl⟩ := ofTree_eq_ok h
  cases hk with
  | self => exact isLevel_mk hu rfl (fun _ hp => hp) hbelow
  | inside hj hk => exact hbelow.isLevel _ hj k hk

end CommandFiles.Interface
