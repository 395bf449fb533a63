import CommandFiles.Proofs.ListedFlags

/-! # Short flags that options declare

The options of a command get their short flags one after another, and an option that declares a
short flag finds out only at its turn whether it is still free. The loop stops there exactly if the
flag was given away before. Where the declared flags differ, only an option without one can have
got it; and where no such option stands before, every declared flag is left to its option. -/
namespace CommandFiles.Interface

open CommandLine (except_bind_eq_ok except_pure_eq_ok)
open Report (listedFlags)

/-- What a build that only packs its result comes to. -/
theorem value_bind_pure {α β : Type} (b : Build α) (f : α → β) :
    (b >>= fun a => pure (f a)).run.value = b.run.value.map f := by
  change (Logged.bind b.run _).value = _
  rw [Logged.bind]
  cases b.run.value <;> rfl

variable {command short : String} {o : OptionSpec} {os rest : List OptionSpec}
  {seen used taken : List String} {listed : List (OptionSpec × String)}

/-! ## Flags that are given -/

theorem listedFlags_cons (hr : o.long ∉ Naming.reserved) :
    listedFlags (o :: rest) used = .ok listed ↔
      ∃ short taken more, Naming.assign o used = .ok (short, taken) ∧
        listedFlags rest taken = .ok more ∧ listed = (o, short) :: more := by
  rw [listedFlags, if_neg (by simpa using hr)]
  constructor
  · intro h
    obtain ⟨⟨short, taken⟩, ha, h⟩ := except_bind_eq_ok.mp h
    obtain ⟨more, hmore, h⟩ := except_bind_eq_ok.mp h
    exact ⟨short, taken, more, ha, hmore, (except_pure_eq_ok.mp h).symm⟩
  · rintro ⟨short, taken, more, ha, hmore, rfl⟩
    exact except_bind_eq_ok.mpr ⟨_, ha, except_bind_eq_ok.mpr ⟨_, hmore, rfl⟩⟩

/-- A declared flag is given as it is. -/
theorem eq_of_assign {declared : String} (h : Naming.assign o used = .ok (short, taken))
    (hd : o.name.shortName? = some declared) : short = declared := by
  rw [Naming.assign, Naming.shortFor, hd] at h
  cases h
  rfl

theorem mem_of_assign_iff (h : Naming.assign o used = .ok (short, taken)) (flag : String) :
    flag ∈ taken ↔ flag = short ∨ flag ∈ used := by
  unfold Naming.assign at h
  cases hs : Naming.shortFor o used with
  | error e => rw [hs] at h; cases h
  | ok s =>
    rw [hs] at h
    cases h
    exact Naming.mem_take used _ flag

/-- Every option is listed, with the flag that it declares if it declares one. -/
theorem options_of_listedFlags (hr : ∀ o ∈ os, o.long ∉ Naming.reserved)
    (h : listedFlags os used = .ok listed) :
    listed.map Prod.fst = os ∧
      ∀ l ∈ listed, ∀ declared, l.1.name.shortName? = some declared → l.2 = declared := by
  induction os generalizing used listed with
  | nil =>
    cases h
    exact ⟨rfl, nofun⟩
  | cons o rest ih =>
    obtain ⟨hr₀, hr⟩ := List.forall_mem_cons.mp hr
    obtain ⟨short, taken, more, ha, hmore, rfl⟩ := (listedFlags_cons hr₀).mp h
    obtain ⟨hfst, hdeclared⟩ := ih hr hmore
    refine ⟨congrArg (o :: ·) hfst, List.forall_mem_cons.mpr ⟨fun declared hd => ?_, hdeclared⟩⟩
    exact eq_of_assign ha hd

/-- An option that is not passed over is listed. -/
theorem exists_mem_listedFlags (ho : o ∈ os) (hr : o.long ∉ Naming.reserved)
    (h : listedFlags os used = .ok listed) : ∃ short, (o, short) ∈ listed := by
  induction os generalizing used listed with
  | nil => cases ho
  | cons first rest ih =>
    by_cases hfirst : first.long ∈ Naming.reserved
    · rw [listedFlags, if_pos (by simpa using hfirst)] at h
      rcases List.mem_cons.mp ho with rfl | ho
      · exact absurd hfirst hr
      · exact ih ho h
    · obtain ⟨short, taken, more, -, hmore, rfl⟩ := (listedFlags_cons hfirst).mp h
      rcases List.mem_cons.mp ho with rfl | ho
      · exact ⟨short, List.mem_cons_self⟩
      · obtain ⟨short, hmem⟩ := ih ho hmore
        exact ⟨short, List.mem_cons_of_mem _ hmem⟩

/-! ## Flags that were given before -/

/-- Whether an option declares a flag that is used, or given to an option before it. -/
def Clashes (os : List OptionSpec) (used : List String) (short : String) : Prop :=
  ∃ before o after listed, os = before ++ o :: after ∧ o.name.shortName? = some short ∧
    listedFlags before used = .ok listed ∧ (short ∈ used ∨ short ∈ listed.map Prod.snd)

theorem not_clashes_nil : ¬ Clashes [] used short := by
  rintro ⟨before, o, after, -, h, -⟩
  cases before <;> cases h

/-- A clash is one of the first option, or one behind it once that has got its flag. -/
theorem clashes_cons (hr : o.long ∉ Naming.reserved) :
    Clashes (o :: rest) used short ↔ (o.name.shortName? = some short ∧ short ∈ used) ∨
      ∃ given taken, Naming.assign o used = .ok (given, taken) ∧ Clashes rest taken short := by
  constructor
  · rintro ⟨_ | ⟨first, before⟩, p, after, listed, hos, hp, hlisted, hmem⟩
    · obtain ⟨rfl, rfl⟩ := List.cons.inj hos
      cases hlisted
      exact .inl ⟨hp, hmem.resolve_right List.not_mem_nil⟩
    · obtain ⟨rfl, rfl⟩ := List.cons.inj hos
      obtain ⟨given, taken, more, ha, hmore, rfl⟩ := (listedFlags_cons hr).mp hlisted
      refine .inr ⟨given, taken, ha, before, p, after, more, rfl, hp, hmore, ?_⟩
      rw [mem_of_assign_iff ha]
      rw [List.map_cons, List.mem_cons] at hmem
      tauto
  · rintro (⟨hp, hmem⟩ | ⟨given, taken, ha, before, p, after, more, rfl, hp, hmore, hmem⟩)
    · exact ⟨[], o, rest, [], rfl, hp, rfl, .inl hmem⟩
    · refine ⟨o :: before, p, after, (o, given) :: more, rfl, hp,
        (listedFlags_cons hr).mpr ⟨given, taken, more, ha, hmore, rfl⟩, ?_⟩
      rw [mem_of_assign_iff ha] at hmem
      rw [List.map_cons, List.mem_cons]
      tauto

/-- How giving flags to the options of a command ends: all get theirs and none clashes, or one
clashes, or one finds no flag. -/
inductive Ends (command : String) (os : List OptionSpec) (used : List String) :
    Except InterfaceError (List Parameter) → Prop where
  | done {flags : List (OptionSpec × String)} : listedFlags os used = .ok flags →
      (∀ flag, ¬ Clashes os used flag) →
      Ends command os used (.ok (flags.map fun l => parameterOf l.1 l.2))
  | clash {flag : String} : Clashes os used flag →
      Ends command os used (.error (.duplicateShort command flag))
  | unnamed {cause : NamingError} : (∀ flag, ¬ Clashes os used flag) →
      Ends command os used (.error (.naming command cause))

theorem ends_parametersOf (command : String) (hr : ∀ o ∈ os, o.long ∉ Naming.reserved)
    (hnodup : (os.map OptionSpec.long).Nodup) (hnew : ∀ o ∈ os, o.long ∉ seen) :
    Ends command os used (parametersOf command os seen used).run.value := by
  induction os generalizing seen used with
  | nil => exact .done rfl fun _ => not_clashes_nil
  | cons o rest ih =>
    obtain ⟨hr₀, hr⟩ := List.forall_mem_cons.mp hr
    obtain ⟨hnew₀, hnew⟩ := List.forall_mem_cons.mp hnew
    rw [List.map_cons, List.nodup_cons] at hnodup
    have hrest : ∀ p ∈ rest, p.long ∉ o.long :: seen := by
      intro p hp hm
      rcases List.mem_cons.mp hm with he | hm
      · exact hnodup.1 (he ▸ List.mem_map_of_mem hp)
      · exact hnew p hp hm
    rw [parametersOf, if_neg (by simpa using hr₀), if_neg (by simpa using hnew₀)]
    split
    · -- the declared flag is used already
      next hd =>
      cases hs : o.name.shortName? with
      | none => simp [hs] at hd
      | some declared =>
        rw [hs] at hd
        exact .clash ((clashes_cons hr₀).mpr (.inl ⟨hs, by simpa using hd⟩))
    next hd =>
    have hfirst : ∀ short, ¬ (o.name.shortName? = some short ∧ short ∈ used) := by
      rintro short ⟨hs, hm⟩
      simp [hs, hm] at hd
    have hclash : ∀ {given taken}, Naming.assign o used = .ok (given, taken) → ∀ short,
        Clashes (o :: rest) used short ↔ Clashes rest taken short := by
      intro given taken ha short
      rw [clashes_cons hr₀, or_iff_right (hfirst short), ha]
      exact ⟨fun ⟨_, _, h, hc⟩ => by cases h; exact hc, fun hc => ⟨_, _, rfl, hc⟩⟩
    cases ha : Naming.assign o used with
    | error cause =>
      refine .unnamed fun short hc => ?_
      rcases (clashes_cons hr₀).mp hc with hc | ⟨_, _, h, -⟩
      · exact hfirst short hc
      · rw [ha] at h
        cases h
    | ok assigned =>
      obtain ⟨given, taken⟩ := assigned
      dsimp only
      rw [value_bind_pure]
      have hend : Ends command rest taken
          (parametersOf command rest (o.long :: seen) taken).run.value := ih hr hnodup.2 hrest
      generalize (parametersOf command rest (o.long :: seen) taken).run.value = more at hend ⊢
      cases hend with
      | done hlisted hnone =>
        have hfirst := (listedFlags_cons hr₀).mpr ⟨given, taken, _, ha, hlisted, rfl⟩
        exact .done hfirst fun short hc => hnone short ((hclash ha short).mp hc)
      | clash hc => exact .clash ((hclash ha _).mpr hc)
      | unnamed hnone => exact .unnamed fun short hc => hnone short ((hclash ha short).mp hc)

/-- Flags that do not clash are given once each, and none that was used before. -/
theorem shorts_nodup_of_listedFlags (hr : ∀ o ∈ os, o.long ∉ Naming.reserved)
    (h : listedFlags os used = .ok listed) (hnone : ∀ flag, ¬ Clashes os used flag) :
    (listed.map Prod.snd).Nodup ∧ ∀ flag ∈ listed.map Prod.snd, flag ∉ used := by
  induction os generalizing used listed with
  | nil =>
    cases h
    exact ⟨List.nodup_nil, nofun⟩
  | cons o rest ih =>
    obtain ⟨hr₀, hr⟩ := List.forall_mem_cons.mp hr
    obtain ⟨short, taken, more, ha, hmore, rfl⟩ := (listedFlags_cons hr₀).mp h
    have hclash := fun flag => not_or.mp (mt (clashes_cons hr₀).mpr (hnone flag))
    obtain ⟨hnodup, hnew⟩ := ih hr hmore fun flag hc => (hclash flag).2 ⟨short, taken, ha, hc⟩
    have hfree : ((o.name.shortName?.map used.contains).getD false) = false := by
      cases hs : o.name.shortName? with
      | none => rfl
      | some declared => simpa using fun hm => (hclash declared).1 ⟨hs, hm⟩
    have hold : ∀ flag ∈ more.map Prod.snd, flag ≠ short ∧ flag ∉ used := by
      intro flag hm
      have := hnew flag hm
      rwa [mem_of_assign_iff ha, not_or] at this
    refine ⟨List.nodup_cons.mpr ⟨fun hm => (hold _ hm).1 rfl, hnodup⟩, ?_⟩
    exact List.forall_mem_cons.mpr ⟨(not_mem_of_assign hfree ha).1, fun flag hm => (hold flag hm).2⟩

/-! ## Declared flags that differ -/

/-- The short flags that options declare. -/
def declaredShorts (os : List OptionSpec) : List String := os.filterMap (·.name.shortName?)

/-- Whether no names of the options of a command are in each other's way: the long ones differ and
none is reserved, the declared short ones differ and none is the one for help. -/
structure NamesApart (os : List OptionSpec) : Prop where
  unreserved : ∀ o ∈ os, o.long ∉ Naming.reserved
  longs : (os.map OptionSpec.long).Nodup
  shorts : (declaredShorts os).Nodup
  help : Naming.helpFlag ∉ declaredShorts os

/-- Whether the short flag that an option declares is given to an option before it that declares
none. -/
def TakenBefore (os : List OptionSpec) (short : String) : Prop :=
  ∃ before o after flags taker, os = before ++ o :: after ∧ o.name.shortName? = some short ∧
    listedFlags before [Naming.helpFlag] = .ok flags ∧ (taker, short) ∈ flags ∧
    taker.name.shortName? = none

/-- Where the declared flags differ, only an option without one can be in the way. -/
theorem NamesApart.clashes_iff (h : NamesApart os) :
    Clashes os [Naming.helpFlag] short ↔ TakenBefore os short := by
  constructor
  · rintro ⟨before, o, after, flags, rfl, ho, hflags, hmem⟩
    have hdeclared : declaredShorts (before ++ o :: after) =
        declaredShorts before ++ short :: declaredShorts after := by
      simp [declaredShorts, ho]
    have hhelp : short ∉ [Naming.helpFlag] := by
      intro hm
      refine h.help ?_
      rw [← List.mem_singleton.mp hm, hdeclared]
      simp
    obtain ⟨⟨taker, given⟩, hl, rfl⟩ := List.mem_map.mp (hmem.resolve_left hhelp)
    refine ⟨before, o, after, flags, taker, rfl, ho, hflags, hl, ?_⟩
    have hr : ∀ p ∈ before, p.long ∉ Naming.reserved := fun p hp =>
      h.unreserved p (List.mem_append_left _ hp)
    obtain ⟨hfst, hown⟩ := options_of_listedFlags hr hflags
    cases ht : taker.name.shortName? with
    | none => rfl
    | some declared =>
      -- the flag would be declared twice
      have hgiven : given = declared := hown _ hl declared ht
      have hbefore : given ∈ declaredShorts before :=
        List.mem_filterMap.mpr ⟨taker, hfst ▸ List.mem_map_of_mem hl, hgiven ▸ ht⟩
      have hnodup := h.shorts
      rw [hdeclared, List.nodup_append] at hnodup
      exact absurd rfl (hnodup.2.2 given hbefore given List.mem_cons_self)
  · rintro ⟨before, o, after, flags, taker, hos, ho, hflags, hl, -⟩
    exact ⟨before, o, after, flags, hos, ho, hflags, .inr (List.mem_map_of_mem hl)⟩

/-- **A declared short flag is left to its option, unless an option before it has got it.** Where
the names of the options of a command are not in each other's way, giving them flags stops at a
declared one exactly if that was given to an option before it that declares none. If it does not
stop, every option has got the flag that it declares, and no other option has got that flag. -/
theorem usageOf_leaves_declared_shorts (d : Declaration) (about : Option String) (isLeaf : Bool)
    (h : NamesApart (d.options.getD [])) :
    (∀ command short,
      (usageOf d about isLeaf).run.value = .error (.duplicateShort command short) →
      command = d.name ∧ TakenBefore (d.options.getD []) short) ∧
    ((∃ short, TakenBefore (d.options.getD []) short) →
      ∃ short, (usageOf d about isLeaf).run.value = .error (.duplicateShort d.name short)) ∧
    ∀ u, (usageOf d about isLeaf).run.value = .ok u →
      ∃ flags : List (OptionSpec × String), flags.map Prod.fst = d.options.getD [] ∧
        u.parameters = flags.map (fun l => parameterOf l.1 l.2) ++
          (if isLeaf then [positional] else []) ∧
        (∀ l ∈ flags, ∀ short, l.1.name.shortName? = some short → l.2 = short) ∧
        (flags.map Prod.snd).Nodup := by
  have hends : Ends d.name (d.options.getD []) [Naming.helpFlag]
      (parametersOf d.name (d.options.getD []) [] [Naming.helpFlag]).run.value :=
    ends_parametersOf d.name h.unreserved h.longs (by simp)
  rw [usageOf, value_bind_pure]
  generalize (parametersOf d.name (d.options.getD []) [] [Naming.helpFlag]).run.value = result
    at hends ⊢
  cases hends with
  | @done flags hflags hnone =>
    refine ⟨nofun, fun ⟨short, ht⟩ => absurd (h.clashes_iff.mpr ht) (hnone short), ?_⟩
    rintro _ ⟨⟩
    obtain ⟨hfst, hdeclared⟩ := options_of_listedFlags h.unreserved hflags
    exact ⟨flags, hfst, rfl, hdeclared,
      (shorts_nodup_of_listedFlags h.unreserved hflags hnone).1⟩
  | @clash flag hc =>
    refine ⟨?_, fun _ => ⟨flag, rfl⟩, nofun⟩
    rintro _ _ ⟨⟩
    exact ⟨rfl, h.clashes_iff.mp hc⟩
  | unnamed hnone =>
    exact ⟨nofun, fun ⟨short, ht⟩ => absurd (h.clashes_iff.mpr ht) (hnone short), nofun⟩

/-! An option that declares a flag before one whose name begins with it, and behind one. -/

/-- `--alpha`, which gets the first flag that is free. -/
def alphaFlag : OptionSpec := { name := .long "alpha", kind := .boolean }

/-- `-a, --add`. -/
def addFlag : OptionSpec := { name := .pair "a" "add", kind := .boolean }

/-- A command with some options. -/
def lettersDeclaration (os : List OptionSpec) : Declaration := { name := "r", options := some os }

theorem namesApart_letters {os : List OptionSpec} (h : os.Perm [alphaFlag, addFlag]) :
    NamesApart os := by
  have hunreserved : ∀ o ∈ [alphaFlag, addFlag], o.long ∉ Naming.reserved := by decide
  have hshorts : (declaredShorts os).Perm ["a"] := h.filterMap _
  refine ⟨fun o ho => hunreserved o (h.mem_iff.mp ho), (h.map _).nodup_iff.mpr (by decide),
    hshorts.nodup_iff.mpr (by decide), fun hm => ?_⟩
  exact absurd (hshorts.mem_iff.mp hm) (by decide)

theorem usageOf_leaves_declared_shorts_of_leading :
    NamesApart [addFlag, alphaFlag] ∧
      (¬ ∃ short, TakenBefore [addFlag, alphaFlag] short) ∧
      (usageOf (lettersDeclaration [addFlag, alphaFlag]) none true).run.value =
        .ok { name := "r"
              parameters := [parameterOf addFlag "a", parameterOf alphaFlag "A", positional] } ∧
      ∃ flags : List (OptionSpec × String), flags.map Prod.fst = [addFlag, alphaFlag] ∧
        (∀ l ∈ flags, ∀ short, l.1.name.shortName? = some short → l.2 = short) ∧
        (flags.map Prod.snd).Nodup := by
  have happart := namesApart_letters (.swap alphaFlag addFlag [])
  have hbuilt : (usageOf (lettersDeclaration [addFlag, alphaFlag]) none true).run.value =
      .ok { name := "r"
            parameters := [parameterOf addFlag "a", parameterOf alphaFlag "A", positional] } := rfl
  obtain ⟨-, hstops, hgiven⟩ := usageOf_leaves_declared_shorts
    (lettersDeclaration [addFlag, alphaFlag]) none true happart
  obtain ⟨flags, hfst, -, hdeclared, hnodup⟩ := hgiven _ hbuilt
  refine ⟨happart, fun htaken => ?_, hbuilt, flags, hfst, hdeclared, hnodup⟩
  obtain ⟨short, hfails⟩ := hstops htaken
  rw [hbuilt] at hfails
  cases hfails

/-- A flag that is declared once is said to be declared twice, because it was given away before. -/
theorem declared_short_taken_before :
    NamesApart [alphaFlag, addFlag] ∧
      (usageOf (lettersDeclaration [alphaFlag, addFlag]) none true).run.value =
        .error (.duplicateShort "r" "a") :=
  ⟨namesApart_letters (.refl _), rfl⟩

end CommandFiles.Interface
