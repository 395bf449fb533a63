import CommandFiles.Proofs.MadeFiles
import CommandFiles.Scaffold

/-! # The files of a scaffold

A scaffold in an empty directory writes its configuration there, and its other files where the root
of the project leads. Nothing but these files is written. A file is kept only if there is something
at its path, which may be a directory that was made on the way to the root. -/
namespace CommandFiles.Scaffold

open FileSystem

variable {fs fs₁ fs' : FileSystem} {path text base home : String} {r : Request} {e : Failure}
  {planned written : List (String × String)} {s : String × String} {report result : Report}
  {overwrite : Bool} {outcome : Except Failure Report} {directory within names : List String}

/-! ## Files that were written -/

/-- Whether a file system comes of another one by writing files at paths, and by making directories
for them. -/
structure Wrote (written : List (String × String)) (fs fs' : FileSystem) : Prop where
  grows : Grows fs fs'
  stays : ∀ names, (fs.root.fileAt? names).isSome → (fs'.root.fileAt? names).isSome
  origin : ∀ names content, fs'.root.fileAt? names = some content →
    fs.root.fileAt? names = some content ∨
      ∃ s ∈ written, fs'.resolve s.1 = .ok names ∧ content = .text s.2
  there : ∀ s ∈ written, ∃ names, fs'.resolve s.1 = .ok names ∧ (fs'.root.fileAt? names).isSome

theorem writeDeep_of_writeFile (h : writeFile path text fs = (.ok (), fs₁)) :
    writeDeep path text fs = (.ok (), fs₁) := by
  unfold writeFile at h
  split at h
  · next hdeep => cases h; exact hdeep
  · cases h

theorem exists_unwritten (h : writeFile path text fs = (.error e, fs')) :
    ∃ cause, e = .unwritten path cause ∧ writeDeep path text fs = (.error cause, fs') := by
  unfold writeFile at h
  split at h
  · cases h
  · next cause fs₁ hdeep => cases h; exact ⟨cause, rfl, hdeep⟩

theorem Wrote.refl (fs : FileSystem) : Wrote [] fs fs :=
  ⟨.refl fs, fun _ h => h, fun _ _ h => .inl h, fun _ h => nomatch h⟩

theorem Wrote.cons (h : writeFile path text fs = (.ok (), fs₁)) (hrest : Wrote written fs₁ fs') :
    Wrote ((path, text) :: written) fs fs' := by
  obtain ⟨names, hresolve, hgrows, hfiles⟩ := exists_of_writeDeep (writeDeep_of_writeFile h)
  have hpath := hrest.grows.resolve hresolve
  have hthere : (fs₁.root.fileAt? names).isSome := by rw [hfiles, if_pos rfl]; rfl
  refine ⟨hgrows.trans hrest.grows, fun other hother => hrest.stays other ?_,
    fun other content hother => ?_, fun s hs => ?_⟩
  · rw [hfiles]
    split
    · rfl
    · exact hother
  · rcases hrest.origin other content hother with hold | ⟨s, hs, horigin⟩
    · rw [hfiles] at hold
      split at hold
      · next heq =>
        cases hold
        exact .inr ⟨_, List.mem_cons_self, heq ▸ hpath, rfl⟩
      · exact .inl hold
    · exact .inr ⟨s, List.mem_cons_of_mem _ hs, horigin⟩
  · rcases List.mem_cons.mp hs with rfl | hs
    · exact ⟨names, hpath, hrest.stays names hthere⟩
    · exact hrest.there s hs

/-! ## Seeds -/

/-- **What becomes of the first seed**: it is kept, or writing it fails, or it is written. -/
theorem plant_step {seed : String × String}
    (h : plant overwrite (seed :: planned) report fs = (outcome, fs')) :
    (fs.hasPath seed.1 = true ∧ overwrite = false ∧
      plant overwrite planned { report with kept := report.kept ++ [seed.1] } fs =
        (outcome, fs')) ∨
    (overwrite = false → fs.hasPath seed.1 = false) ∧
      ((∃ e, writeFile seed.1 seed.2 fs = (.error e, fs') ∧ outcome = .error e) ∨
        ∃ fs₁, writeFile seed.1 seed.2 fs = (.ok (), fs₁) ∧
          plant overwrite planned { report with written := report.written ++ [seed.1] } fs₁ =
            (outcome, fs')) := by
  rw [plant] at h
  split at h
  · next hkept =>
    simp only [Bool.and_eq_true, Bool.not_eq_true'] at hkept
    exact .inl ⟨hkept.1, hkept.2, h⟩
  · next hkept =>
    refine .inr ⟨fun ho => by simpa [ho] using hkept, ?_⟩
    split at h
    · next e fs₁ hwrite => cases h; exact .inl ⟨e, hwrite, rfl⟩
    · next fs₁ hwrite => exact .inr ⟨fs₁, hwrite, h⟩

theorem plant_cons {seed : String × String}
    (h : plant overwrite (seed :: planned) report fs = (.ok result, fs')) :
    (fs.hasPath seed.1 = true ∧
      plant overwrite planned { report with kept := report.kept ++ [seed.1] } fs =
        (.ok result, fs')) ∨
    ∃ fs₁, writeFile seed.1 seed.2 fs = (.ok (), fs₁) ∧
      plant overwrite planned { report with written := report.written ++ [seed.1] } fs₁ =
        (.ok result, fs') := by
  rcases plant_step h with ⟨hhas, -, h⟩ | ⟨-, ⟨e, -, hresult⟩ | h⟩
  · exact .inl ⟨hhas, h⟩
  · cases hresult
  · exact .inr h

/-- Every seed is written or kept, and nothing else is written. -/
theorem exists_of_plant (h : plant overwrite planned report fs = (.ok result, fs')) :
    result.configPath = report.configPath ∧ (∀ path ∈ report.kept, path ∈ result.kept) ∧
      ∃ written, (∀ s ∈ written, s ∈ planned) ∧ Wrote written fs fs' ∧
        ∀ s ∈ planned, s ∈ written ∨ s.1 ∈ result.kept := by
  induction planned generalizing report fs with
  | nil =>
    cases h
    exact ⟨rfl, fun _ => id, [], by simp, .refl _, by simp⟩
  | cons seed planned ih =>
    rcases plant_cons h with ⟨-, h⟩ | ⟨fs₁, hwrite, h⟩
    · obtain ⟨hconfig, hkept, written, hwritten, hwrote, hall⟩ := ih h
      refine ⟨hconfig, fun path hpath => hkept path (List.mem_append_left _ hpath), written,
        fun s hs => List.mem_cons_of_mem _ (hwritten s hs), hwrote, fun s hs => ?_⟩
      rcases List.mem_cons.mp hs with rfl | hs
      · exact .inr (hkept _ (by simp))
      · exact hall s hs
    · obtain ⟨hconfig, hkept, written, hwritten, hwrote, hall⟩ := ih h
      refine ⟨hconfig, hkept, seed :: written, fun s hs => ?_, hwrote.cons hwrite, fun s hs => ?_⟩
      · rcases List.mem_cons.mp hs with rfl | hs
        · exact List.mem_cons_self
        · exact List.mem_cons_of_mem _ (hwritten s hs)
      · rcases List.mem_cons.mp hs with rfl | hs
        · exact .inl List.mem_cons_self
        · exact (hall s hs).imp_left (List.mem_cons_of_mem _)

/-- Where the configuration of an empty directory was written, there is nothing else. -/
theorem at?_of_write_config (hbase : fs.resolve base = .ok directory)
    (hempty : fs.root.at? directory = some (.directory []))
    (h : writeFile (Path.under base Config.fileName) text fs = (.ok (), fs₁)) :
    fs₁.root.at? directory = some (.directory [(Config.fileName, .file (.text text))]) := by
  have hname : Path.IsName Config.fileName := by decide
  obtain ⟨d', hparent, hd'⟩ := exists_parent?_under hname (ne_empty_of_resolve hbase)
  have hwrite :=
    write_of_writeDeep hparent (hd' fs directory hbase) hempty (writeDeep_of_writeFile h)
  obtain ⟨trail, name, entries, rfl, hentries, hold, hresolve⟩ := exists_of_write hwrite
  have hgrows : Grows fs (fs.put (trail ++ [name]) (.file (.text text))) := grows_put trivial hold
  obtain ⟨base', hbase', heq⟩ :=
    exists_of_resolve_under_name (ne_empty_of_resolve hbase) hname hresolve
  cases (hgrows.resolve hbase).symm.trans hbase'
  obtain ⟨rfl, hlast⟩ := List.append_inj' heq rfl
  obtain rfl := List.singleton_inj.mp hlast
  cases hentries.symm.trans hempty
  exact Entry.at?_put_parent _ hempty

/-! ## Projects -/

/-- The files of a project and what they hold. The second list of names leads from the directory of
the configuration to the root. -/
def projectFiles (directory within : List String) (c : Config) : List (List String × String) :=
  [(directory ++ [Config.fileName], c.toText),
   (directory ++ within ++ ["commands"] ++ ["index.js"], indexText c.executable),
   (directory ++ within ++ ["commands"] ++ ["show-globals.js"], showGlobalsText),
   (directory ++ within ++ ["package.json"], packageText)]

/-- The files of a project have different names. -/
theorem eq_of_mem_projectFiles {c : Config} {text' : String}
    (h : (names, text) ∈ projectFiles directory within c)
    (h' : (names, text') ∈ projectFiles directory within c) : text = text' := by
  have hnodup : ((projectFiles directory within c).map fun p => p.1.getLast?).Nodup := by
    simp only [projectFiles, List.map_cons, List.map_nil, List.getLast?_concat]
    decide
  exact congrArg Prod.snd (List.inj_on_of_nodup_map hnodup h h' rfl)

theorem exists_of_mem_projectFiles {c : Config}
    (h : (names, text) ∈ projectFiles directory within c) :
    ∃ name more, names = directory ++ name :: more := by
  have hne : ∀ p ∈ projectFiles directory within c,
      ∃ rest, p.1 = directory ++ rest ∧ rest ≠ [] := by
    simp [projectFiles]
  obtain ⟨rest, rfl, hrest⟩ := hne _ h
  obtain ⟨name, more, rfl⟩ := List.exists_cons_of_ne_nil hrest
  exact ⟨name, more, rfl⟩

/-- What a scaffold leaves behind: the files of the project, and in the directory of its
configuration no other ones. -/
structure Project (fs : FileSystem) (directory within : List String) (c : Config) : Prop where
  namesDiffer : fs.root.NamesDiffer
  config : fs.root.fileAt? (directory ++ [Config.fileName]) = some (.text c.toText)
  index : fs.root.fileAt? (directory ++ within ++ ["commands"] ++ ["index.js"]) =
    some (.text (indexText c.executable))
  showGlobals : fs.root.fileAt? (directory ++ within ++ ["commands"] ++ ["show-globals.js"]) =
    some (.text showGlobalsText)
  only : ∀ name more content, fs.root.fileAt? (directory ++ name :: more) = some content →
    ∃ text, (directory ++ name :: more, text) ∈ projectFiles directory within c

theorem under_ne_empty {d name : String} (hn : Path.IsName name) : Path.under d name ≠ "" := by
  obtain ⟨front, hfront⟩ := Path.exists_toList_under d
  intro h
  have hlist := hfront name (Path.isAbsolute_of_noSlash hn.noSlash)
  rw [h] at hlist
  exact hn.nonempty (List.append_eq_nil_iff.mp hlist.symm).2

theorem under_ne_empty_left {d : String} (hd : d ≠ "") (p : String) : Path.under d p ≠ "" := by
  intro h
  cases hp : Path.isAbsolute p.toList with
  | true =>
    rw [Path.under, hp, Bool.true_or, if_pos rfl] at h
    rw [h] at hp
    cases hp
  | false =>
    obtain ⟨before, hunder, -⟩ := exists_toList_under_slash hd hp
    rw [h] at hunder
    cases before <;> cases hunder

/-- What lies below the command root lies below the root. -/
theorem eq_of_resolve_commands (hroot : fs.resolve ((configFor base r).rootDir home) = .ok names)
    {name : String} (hname : Path.IsName name) {found : List String}
    (h : fs.resolve (Path.under ((configFor base r).commandsRoot home) name) = .ok found) :
    found = names ++ ["commands"] ++ [name] := by
  have hcommands : Path.IsName "commands" := by decide
  obtain ⟨inner, hinner, rfl⟩ :=
    exists_of_resolve_under_name (under_ne_empty hcommands) hname h
  rw [eq_of_resolve_under_name hcommands hroot hinner]

/-- The paths that a scaffold writes to, and what it writes there. -/
def sown (home base : String) (r : Request) : List (String × String) :=
  (Path.under base Config.fileName, (configFor base r).toText) :: seeds home (configFor base r)

/-- The paths of a scaffold lead to the files of the project. -/
theorem mem_projectFiles_of_resolve (hbase : fs.resolve base = .ok directory)
    (hroot : fs.resolve ((configFor base r).rootDir home) = .ok (directory ++ within))
    {s : String × String} (hs : s ∈ sown home base r) (h : fs.resolve s.1 = .ok names) :
    (names, s.2) ∈ projectFiles directory within (configFor base r) := by
  simp only [sown, seeds, List.mem_cons, List.not_mem_nil, or_false] at hs
  rcases hs with rfl | rfl | rfl | rfl
  · rw [eq_of_resolve_under_name (by decide) hbase h]
    exact List.mem_cons_self
  · rw [eq_of_resolve_commands hroot (by decide) h]
    simp [projectFiles]
  · rw [eq_of_resolve_commands hroot (by decide) h]
    simp [projectFiles]
  · rw [eq_of_resolve_under_name (by decide) hroot h]
    simp [projectFiles]

/-- **What becomes of the configuration**: the scaffold is refused for it, or it cannot be written,
or it is written before all seeds. -/
theorem configure_cases (h : configure home base r fs = (outcome, fs')) :
    (outcome = .error (.present (Path.under base Config.fileName)) ∧ fs' = fs ∧
      r.overwrite = false ∧ fs.hasPath (Path.under base Config.fileName) = true) ∨
    (r.overwrite = false → fs.hasPath (Path.under base Config.fileName) = false) ∧
      ((∃ cause, outcome = .error (.unwritten (Path.under base Config.fileName) cause) ∧
          writeDeep (Path.under base Config.fileName) (configFor base r).toText fs =
            (.error cause, fs')) ∨
        ∃ fs₁, writeFile (Path.under base Config.fileName) (configFor base r).toText fs =
            (.ok (), fs₁) ∧
          plant r.overwrite (seeds home (configFor base r))
            { configPath := Path.under base Config.fileName } fs₁ = (outcome, fs')) := by
  rw [configure] at h
  split at h
  · next hthere =>
    cases h
    simp only [Bool.and_eq_true, Bool.not_eq_true'] at hthere
    exact .inl ⟨rfl, rfl, hthere.2, hthere.1⟩
  · next hfree =>
    refine .inr ⟨fun ho => by simpa [ho] using hfree, ?_⟩
    split at h
    · next e fs₁ hwrite =>
      cases h
      obtain ⟨cause, rfl, hdeep⟩ := exists_unwritten hwrite
      exact .inl ⟨cause, rfl, hdeep⟩
    · next fs₁ hwrite => exact .inr ⟨fs₁, hwrite, h⟩

theorem exists_of_configure (h : configure home base r fs = (.ok report, fs')) :
    ∃ fs₁, writeFile (Path.under base Config.fileName) (configFor base r).toText fs =
        (.ok (), fs₁) ∧
      plant r.overwrite (seeds home (configFor base r))
        { configPath := Path.under base Config.fileName } fs₁ = (.ok report, fs') := by
  rcases configure_cases h with ⟨hreport, -⟩ | ⟨-, ⟨cause, hreport, -⟩ | hwritten⟩
  · cases hreport
  · cases hreport
  · exact hwritten

theorem grows_configure (h : configure home base r fs = (.ok report, fs')) : Grows fs fs' := by
  obtain ⟨fs₁, hwrite, hplant⟩ := exists_of_configure h
  obtain ⟨-, -, hgrows, -⟩ := exists_of_writeDeep (writeDeep_of_writeFile hwrite)
  obtain ⟨-, -, _, -, hwrote, -⟩ := exists_of_plant hplant
  exact hgrows.trans hwrote.grows

/-- Where a seed is: directly below the root or below the command root. -/
theorem exists_root_of_seed (hbase : base ≠ "") (hs : s ∈ seeds home (configFor base r))
    (h : fs.resolve s.1 = .ok names) :
    ∃ root, fs.resolve ((configFor base r).rootDir home) = .ok root ∧
      (names = root ++ ["package.json"] ∨ ∃ name, names = root ++ ["commands"] ++ [name]) := by
  have hname : Path.IsName "commands" := by decide
  have hcommands : ∀ {file : String}, Path.IsName file →
      fs.resolve (Path.under ((configFor base r).commandsRoot home) file) = .ok names →
      ∃ root, fs.resolve ((configFor base r).rootDir home) = .ok root ∧
        names = root ++ ["commands"] ++ [file] := by
    intro file hfile h
    obtain ⟨inner, hinner, rfl⟩ := exists_of_resolve_under_name (under_ne_empty hname) hfile h
    obtain ⟨root, hroot, rfl⟩ :=
      exists_of_resolve_under_name (under_ne_empty_left hbase _) hname hinner
    exact ⟨root, hroot, rfl⟩
  simp only [seeds, List.mem_cons, List.not_mem_nil, or_false] at hs
  rcases hs with rfl | rfl | rfl
  · obtain ⟨root, hroot, hnames⟩ := hcommands (by decide) h
    exact ⟨root, hroot, .inr ⟨_, hnames⟩⟩
  · obtain ⟨root, hroot, hnames⟩ := hcommands (by decide) h
    exact ⟨root, hroot, .inr ⟨_, hnames⟩⟩
  · obtain ⟨root, hroot, hnames⟩ :=
      exists_of_resolve_under_name (under_ne_empty_left hbase _) (by decide) h
    exact ⟨root, hroot, .inl hnames⟩

/-- Where a scaffold was made, its root leads somewhere. -/
theorem exists_resolve_root (hbase : base ≠ "") (h : configure home base r fs = (.ok report, fs')) :
    ∃ names, fs'.resolve ((configFor base r).rootDir home) = .ok names := by
  obtain ⟨fs₁, -, hplant⟩ := exists_of_configure h
  obtain ⟨names, hindex⟩ : ∃ names,
      fs'.resolve (Path.under ((configFor base r).commandsRoot home) "index.js") = .ok names := by
    rcases plant_cons hplant with ⟨hhas, -⟩ | ⟨fs₂, hwrite, hplant₂⟩
    · obtain ⟨-, -, _, -, hwrote, -⟩ := exists_of_plant hplant
      cases hresolve :
          fs₁.resolve (Path.under ((configFor base r).commandsRoot home) "index.js") with
      | error e =>
        rw [hasPath, entry_of_resolve_error hresolve] at hhas
        cases hhas
      | ok names => exact ⟨names, hwrote.grows.resolve hresolve⟩
    · obtain ⟨-, -, _, -, hwrote, -⟩ := exists_of_plant hplant₂
      obtain ⟨names, hresolve, -⟩ := exists_of_writeDeep (writeDeep_of_writeFile hwrite)
      exact ⟨names, hwrote.grows.resolve hresolve⟩
  obtain ⟨root, hroot, -⟩ := exists_root_of_seed hbase List.mem_cons_self hindex
  exact ⟨root, hroot⟩

/-- In an empty directory the index file is always written. -/
theorem hasPath_index_eq_false (hbase : fs.resolve base = .ok directory)
    (hempty : fs.root.at? directory = some (.directory []))
    (h : writeFile (Path.under base Config.fileName) text fs = (.ok (), fs₁))
    (hgrows : Grows fs₁ fs')
    (hroot : fs'.resolve ((configFor base r).rootDir home) = .ok (directory ++ within)) :
    fs₁.hasPath (Path.under ((configFor base r).commandsRoot home) "index.js") = false := by
  cases hresolve : fs₁.resolve (Path.under ((configFor base r).commandsRoot home) "index.js") with
  | error e =>
    rw [hasPath, entry_of_resolve_error hresolve]
    rfl
  | ok names =>
    -- what lies below the directory would lie below the configuration
    obtain rfl := eq_of_resolve_commands hroot (by decide) (hgrows.resolve hresolve)
    obtain ⟨first, more, hfirst⟩ := List.exists_cons_of_ne_nil
      (List.append_ne_nil_of_right_ne_nil within (List.cons_ne_nil "commands" []))
    have hnone : fs₁.root.at? (directory ++ within ++ ["commands"] ++ ["index.js"]) = none := by
      rw [List.append_assoc directory, hfirst, List.append_assoc, Entry.at?_append,
        at?_of_write_config hbase hempty h]
      change (Entry.directory _).at? (first :: (more ++ ["index.js"])) = none
      rw [Entry.at?, Record.lookup_entry]
      by_cases hname : first = Config.fileName
      · rw [if_pos hname]
        cases more <;> rfl
      · rw [if_neg hname]
        rfl
    rw [hasPath, entry_of_resolve hresolve, hnone]
    rfl

/-- A scaffold in an empty directory writes its configuration and the index file; the others may be
kept. -/
theorem exists_wrote_of_configure (hbase : fs.resolve base = .ok directory)
    (hempty : fs.root.at? directory = some (.directory []))
    (h : configure home base r fs = (.ok report, fs'))
    (hroot : fs'.resolve ((configFor base r).rootDir home) = .ok (directory ++ within)) :
    report.configPath = Path.under base Config.fileName ∧
      ∃ written, (∀ s ∈ written, s ∈ sown home base r) ∧ Wrote written fs fs' ∧
        (∀ s ∈ (sown home base r).take 2, s ∈ written) ∧
        ∀ s ∈ sown home base r, s ∈ written ∨ s.1 ∈ report.kept := by
  obtain ⟨fs₁, hconfig, hplant⟩ := exists_of_configure h
  obtain ⟨hpath, -, _, -, hwrote₁, -⟩ := exists_of_plant hplant
  have hindex := hasPath_index_eq_false hbase hempty hconfig hwrote₁.grows hroot
  rcases plant_cons hplant with ⟨hhas, -⟩ | ⟨fs₂, hwrite, hplant₂⟩
  · rw [hindex] at hhas
    cases hhas
  obtain ⟨-, -, written, hwritten, hwrote₂, hall⟩ := exists_of_plant hplant₂
  refine ⟨hpath, _, fun s hs => ?_, (hwrote₂.cons hwrite).cons hconfig, fun s hs => ?_,
    fun s hs => ?_⟩
  · rcases List.mem_cons.mp hs with rfl | hs
    · exact List.mem_cons_self
    rcases List.mem_cons.mp hs with rfl | hs
    · exact List.mem_cons_of_mem _ List.mem_cons_self
    · exact List.mem_cons_of_mem _ (List.mem_cons_of_mem _ (hwritten s hs))
  · exact List.mem_of_mem_take (i := 2) hs
  · rcases List.mem_cons.mp hs with rfl | hs
    · exact .inl List.mem_cons_self
    rcases List.mem_cons.mp hs with rfl | hs
    · exact .inl (List.mem_cons_of_mem _ List.mem_cons_self)
    · exact (hall s hs).imp_left fun hs => List.mem_cons_of_mem _ (List.mem_cons_of_mem _ hs)

section Written

variable {c : Config}

theorem fileAt?_of_empty (hempty : fs.root.at? directory = some (.directory [])) (name : String)
    (more : List String) : fs.root.fileAt? (directory ++ name :: more) = none := by
  rw [Entry.fileAt?, Entry.at?_append, hempty]
  rfl

/-- Every file that was written holds its text in the end, since no other one is written there. -/
theorem Wrote.exists_fileAt? (hwrote : Wrote written fs fs')
    (hempty : fs.root.at? directory = some (.directory []))
    (hmem : ∀ s ∈ written, ∀ names, fs'.resolve s.1 = .ok names →
      (names, s.2) ∈ projectFiles directory within c) {s : String × String} (hs : s ∈ written) :
    ∃ names, fs'.resolve s.1 = .ok names ∧ fs'.root.fileAt? names = some (.text s.2) := by
  obtain ⟨names, hresolve, hfile⟩ := hwrote.there s hs
  refine ⟨names, hresolve, ?_⟩
  obtain ⟨content, hcontent⟩ := Option.isSome_iff_exists.mp hfile
  rcases hwrote.origin names content hcontent with hfirst | ⟨s', hs', hresolve', rfl⟩
  · obtain ⟨name, more, rfl⟩ := exists_of_mem_projectFiles (hmem s hs names hresolve)
    rw [fileAt?_of_empty hempty] at hfirst
    cases hfirst
  · rw [hcontent, eq_of_mem_projectFiles (hmem s' hs' names hresolve') (hmem s hs names hresolve)]

end Written

/-- **What a scaffold in an empty directory leaves behind**, if its root leads to a place in that
directory and the file that shows all globals was not kept. -/
theorem project_of_configure (hnames : fs.root.NamesDiffer)
    (hbase : fs.resolve base = .ok directory)
    (hempty : fs.root.at? directory = some (.directory []))
    (h : configure home base r fs = (.ok report, fs'))
    (hroot : fs'.resolve ((configFor base r).rootDir home) = .ok (directory ++ within))
    (hshow : Path.under ((configFor base r).commandsRoot home) "show-globals.js" ∉ report.kept) :
    report.configPath = Path.under base Config.fileName ∧ fs'.resolve base = .ok directory ∧
      Project fs' directory within (configFor base r) := by
  obtain ⟨hpath, written, hwritten, hwrote, hfirst, hall⟩ :=
    exists_wrote_of_configure hbase hempty h hroot
  have hbase' := hwrote.grows.resolve hbase
  have hmem : ∀ s ∈ written, ∀ names, fs'.resolve s.1 = .ok names →
      (names, s.2) ∈ projectFiles directory within (configFor base r) :=
    fun s hs names => mem_projectFiles_of_resolve hbase' hroot (hwritten s hs)
  have hshown : (Path.under ((configFor base r).commandsRoot home) "show-globals.js",
      showGlobalsText) ∈ written :=
    (hall _ (List.mem_cons_of_mem _ (List.mem_cons_of_mem _ List.mem_cons_self))).resolve_right
      hshow
  refine ⟨hpath, hbase', hwrote.grows.namesDiffer hnames, ?_, ?_, ?_, ?_⟩
  · obtain ⟨names, hresolve, hfile⟩ :=
      hwrote.exists_fileAt? hempty hmem (hfirst _ List.mem_cons_self)
    obtain rfl := eq_of_resolve_under_name (by decide) hbase' hresolve
    exact hfile
  · obtain ⟨names, hresolve, hfile⟩ := hwrote.exists_fileAt? hempty hmem
      (hfirst _ (List.mem_cons_of_mem _ List.mem_cons_self))
    obtain rfl := eq_of_resolve_commands hroot (by decide) hresolve
    exact hfile
  · obtain ⟨names, hresolve, hfile⟩ := hwrote.exists_fileAt? hempty hmem hshown
    obtain rfl := eq_of_resolve_commands hroot (by decide) hresolve
    exact hfile
  · intro name more content hcontent
    rcases hwrote.origin _ _ hcontent with hfirst | ⟨s, hs, hresolve, rfl⟩
    · rw [fileAt?_of_empty hempty] at hfirst
      cases hfirst
    · exact ⟨s.2, hmem s hs _ hresolve⟩

end CommandFiles.Scaffold
