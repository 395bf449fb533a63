import CommandFiles.Proofs.FailedScaffolds

/-! # Files that a scaffold spares

A scaffold that does not overwrite looks at each of its paths before it writes there. So it changes
no file that was there, unless one of its paths steps up from a directory that is not there: such a
path leads nowhere until the directory is made for it. The report tells which seeds were there
before, up to directories that the scaffold has made in their places itself. -/
namespace CommandFiles

namespace Entry

variable {e : Entry} {names other : List String}

theorem isSome_at?_of_prefix (h : names <+: other) (hthere : (e.at? other).isSome) :
    (e.at? names).isSome := by
  obtain ⟨rest, rfl⟩ := h
  rw [at?_append] at hthere
  cases hat : e.at? names with
  | none => rw [hat] at hthere; cases hthere
  | some found => rfl

end Entry

namespace Scaffold

open FileSystem

variable {fs fs₁ fs' : FileSystem} {base home : String} {r : Request} {report result : Report}
  {planned written : List (String × String)} {isKept isKept' : String → Bool}
  {paths : List String} {outcome : Except Failure Report} {directory names : List String}
  {content : Content} {seed s : String × String}

/-! ## Reports -/

/-- Whether a report tells of paths which ones were kept, and that the others were written. -/
structure Report.Tells (report : Report) (paths : List String) (isKept : String → Bool) : Prop where
  kept : report.kept = paths.filter isKept
  written : report.written = paths.filter fun path => !isKept path

theorem Report.Tells.congr (h : report.Tells paths isKept)
    (heq : ∀ path ∈ paths, isKept path = isKept' path) : report.Tells paths isKept' where
  kept := h.kept.trans (List.filter_congr heq)
  written := h.written.trans (List.filter_congr fun path hpath => by rw [heq path hpath])

/-- The paths of the seeds of a scaffold, in their order. -/
def seedPaths (home base : String) (r : Request) : List String :=
  (seeds home (configFor base r)).map Prod.fst

/-! ## Seeds without overwriting -/

/-- How the files of a scaffold come to be kept or written. The directories that were made belong to
the ones that were written. -/
structure Planted (planned : List (String × String)) (isKept : String → Bool)
    (fs fs' : FileSystem) : Prop where
  wrote : Wrote (planned.filter fun s => !isKept s.1) fs fs'
  made : MadeAt ((planned.filter fun s => !isKept s.1).flatMap fun s => Path.above s.1) fs fs'
  spares : ∀ s ∈ planned, fs.hasPath s.1 = true → isKept s.1 = true
  there : ∀ s ∈ planned, isKept s.1 = true → fs'.hasPath s.1 = true

/-- What is decided of one path does not matter to the others. -/
theorem update_of_mem {b : Bool} (hseed : seed.1 ∉ planned.map Prod.fst) (hs : s ∈ planned) :
    Function.update isKept seed.1 b s.1 = isKept s.1 :=
  Function.update_of_ne (fun h => hseed (List.mem_map.mpr ⟨s, hs, h⟩)) b isKept

theorem filter_update {b : Bool} (hseed : seed.1 ∉ planned.map Prod.fst) :
    (planned.filter fun s => !Function.update isKept seed.1 b s.1) =
      planned.filter fun s => !isKept s.1 :=
  List.filter_congr fun s hs => by rw [update_of_mem hseed hs]

theorem Planted.cons_kept (h : Planted planned isKept fs fs')
    (hseed : seed.1 ∉ planned.map Prod.fst) (hthere : fs.hasPath seed.1 = true) :
    Planted (seed :: planned) (Function.update isKept seed.1 true) fs fs' := by
  have hfilter : ((seed :: planned).filter fun s => !Function.update isKept seed.1 true s.1) =
      planned.filter fun s => !isKept s.1 := by
    rw [List.filter_cons_of_neg (by simp), filter_update hseed]
  refine ⟨hfilter ▸ h.wrote, hfilter ▸ h.made, ?_, ?_⟩
  · intro s hs hhas
    rcases List.mem_cons.mp hs with rfl | hs
    · rw [Function.update_self]
    · rw [update_of_mem hseed hs]
      exact h.spares s hs hhas
  · intro s hs hkept
    rcases List.mem_cons.mp hs with rfl | hs
    · exact h.wrote.grows.hasPath hthere
    · rw [update_of_mem hseed hs] at hkept
      exact h.there s hs hkept

theorem Planted.cons_written (h : Planted planned isKept fs₁ fs')
    (hseed : seed.1 ∉ planned.map Prod.fst) (hnew : fs.hasPath seed.1 = false)
    (hwrite : writeFile seed.1 seed.2 fs = (.ok (), fs₁)) :
    Planted (seed :: planned) (Function.update isKept seed.1 false) fs fs' := by
  have hdeep := writeDeep_of_writeFile hwrite
  have hfilter : ((seed :: planned).filter fun s => !Function.update isKept seed.1 false s.1) =
      seed :: planned.filter fun s => !isKept s.1 := by
    rw [List.filter_cons_of_pos (by simp), filter_update hseed]
  refine ⟨hfilter ▸ h.wrote.cons hwrite, ?_, ?_, ?_⟩
  · rw [hfilter, List.flatMap_cons]
    refine ((madeAt_writeDeep hdeep).mono ?_).trans (h.made.mono ?_) h.wrote.lasts
    · exact fun _ => List.mem_append_left _
    · exact fun _ => List.mem_append_right _
  · intro s hs hhas
    rcases List.mem_cons.mp hs with rfl | hs
    · rw [hnew] at hhas
      cases hhas
    · rw [update_of_mem hseed hs]
      exact h.spares s hs ((lasts_writeDeep hdeep).hasPath hhas)
  · intro s hs hkept
    rcases List.mem_cons.mp hs with rfl | hs
    · rw [Function.update_self] at hkept
      cases hkept
    · rw [update_of_mem hseed hs] at hkept
      exact h.there s hs hkept

/-- **Seeds are kept or written, and the report tells which**, in their order. -/
theorem exists_planted_of_plant (hnodup : (planned.map Prod.fst).Nodup)
    (h : plant false planned report fs = (.ok result, fs')) :
    ∃ isKept, Planted planned isKept fs fs' ∧
      result.kept = report.kept ++ (planned.filter fun s => isKept s.1).map Prod.fst ∧
      result.written = report.written ++ (planned.filter fun s => !isKept s.1).map Prod.fst := by
  induction planned generalizing report fs with
  | nil =>
    cases h
    refine ⟨fun _ => true, ⟨.refl _, .refl _ _, by simp, by simp⟩, by simp, by simp⟩
  | cons seed planned ih =>
    rw [List.map_cons, List.nodup_cons] at hnodup
    obtain ⟨hseed, hnodup⟩ := hnodup
    rcases plant_step h with ⟨hthere, -, h⟩ | ⟨hnew, ⟨e, -, hresult⟩ | ⟨fs₁, hwrite, h⟩⟩
    · obtain ⟨isKept, hplanted, hkept, hwritten⟩ := ih hnodup h
      refine ⟨_, hplanted.cons_kept hseed hthere, ?_, ?_⟩
      · rw [hkept, List.filter_cons_of_pos (by simp),
          List.filter_congr fun s hs => update_of_mem hseed hs, List.map_cons, List.append_assoc,
          List.singleton_append]
      · rw [hwritten, List.filter_cons_of_neg (by simp), filter_update hseed]
    · cases hresult
    · obtain ⟨isKept, hplanted, hkept, hwritten⟩ := ih hnodup h
      refine ⟨_, hplanted.cons_written hseed (hnew rfl) hwrite, ?_, ?_⟩
      · rw [hkept, List.filter_cons_of_neg (by simp),
          List.filter_congr fun s hs => update_of_mem hseed hs]
      · rw [hwritten, List.filter_cons_of_pos (by simp), filter_update hseed, List.map_cons,
          List.append_assoc, List.singleton_append]

theorem nodup_sown (home base : String) (r : Request) :
    ((sown home base r).map Prod.fst).Nodup :=
  List.Nodup.of_map Path.fileName?
    (by rw [List.map_map]; exact nodup_fileName?_sown home base r)

/-- Where nothing is overwritten, a scaffold that succeeds has planted its configuration and its
seeds, and the report tells of the seeds. -/
theorem exists_planted_of_configure (ho : r.overwrite = false)
    (h : configure home base r fs = (.ok report, fs')) :
    ∃ isKept, Planted (sown home base r) isKept fs fs' ∧
      report.Tells (seedPaths home base r) isKept := by
  have hnodup := nodup_sown home base r
  rw [sown, List.map_cons, List.nodup_cons] at hnodup
  obtain ⟨hconfig, hnodup⟩ := hnodup
  rcases configure_cases h with ⟨hreport, -⟩ | ⟨hnew, ⟨cause, hreport, -⟩ | ⟨fs₁, hwrite, hplant⟩⟩
  · cases hreport
  · cases hreport
  rw [ho] at hplant
  obtain ⟨isKept, hplanted, hkept, hwritten⟩ := exists_planted_of_plant hnodup hplant
  have htells : report.Tells (seedPaths home base r) isKept := by
    refine ⟨?_, ?_⟩
    · rw [seedPaths, List.filter_map, hkept]
      rfl
    · rw [seedPaths, List.filter_map, hwritten]
      rfl
  refine ⟨_, hplanted.cons_written hconfig (hnew ho) hwrite, ?_⟩
  refine htells.congr ?_
  intro path hpath
  rw [Function.update_of_ne]
  rintro rfl
  exact hconfig hpath

/-! ## What is spared -/

/-- Whatever becomes of a scaffold, only such files are written that are new or may be
overwritten. -/
theorem exists_wrote_of_any (h : configure home base r fs = (outcome, fs')) :
    ∃ written, (∀ s ∈ written, s ∈ sown home base r ∧
      (r.overwrite = false → fs.hasPath s.1 = false)) ∧ Wrote written fs fs' := by
  rcases configure_cases h with ⟨-, rfl, -⟩ | ⟨hnew, ⟨cause, -, hdeep⟩ | ⟨fs₁, hwrite, hplant⟩⟩
  · exact ⟨[], by simp, .refl _⟩
  · exact ⟨[], by simp, wrote_of_unwritten hdeep⟩
  · obtain ⟨written, hwritten, hwrote⟩ := exists_wrote_of_plant hplant
    have hgrows := (lasts_writeDeep (writeDeep_of_writeFile hwrite)).toGrows
    refine ⟨_, ?_, hwrote.cons hwrite⟩
    intro s hs
    rcases List.mem_cons.mp hs with rfl | hs
    · exact ⟨List.mem_cons_self, hnew⟩
    · obtain ⟨hmem, hlater⟩ := hwritten s hs
      exact ⟨List.mem_cons_of_mem _ hmem, fun ho => hgrows.hasPath_eq_false (hlater ho)⟩

/-- Files at new paths take the place of no other file, if their paths are grounded. -/
theorem Wrote.fileAt?_of_new (hwrote : Wrote written fs fs')
    (hnew : ∀ s ∈ written, fs.hasPath s.1 = false)
    (hfile : fs.root.fileAt? names = some content) :
    fs'.root.fileAt? names = some content ∨
      ∃ s ∈ written, ¬ fs.IsGrounded s.1 ∧ fs'.resolve s.1 = .ok names := by
  obtain ⟨content', hcontent⟩ :=
    Option.isSome_iff_exists.mp (hwrote.stays names (by rw [hfile]; rfl))
  rcases hwrote.origin names content' hcontent with hold | ⟨s, hs, hresolve, -⟩
  · exact .inl (by rw [hcontent, ← hold, hfile])
  · refine .inr ⟨s, hs, ?_, hresolve⟩
    intro hgrounded
    have hnone := hgrounded.at?_eq_none hwrote.lasts (hnew s hs) hresolve
    rw [Entry.fileAt?, hnone] at hfile
    cases hfile

/-- What is kept in a grounded place was there before, or it is a directory that was made there. -/
theorem Planted.exists_directory_of_kept (h : Planted (sown home base r) isKept fs fs')
    (hs : s ∈ sown home base r) (hkept : isKept s.1 = true) (hnew : fs.hasPath s.1 = false)
    (hgrounded : fs.IsGrounded s.1) :
    ∃ names entries, fs'.resolve s.1 = .ok names ∧ fs.root.at? names = none ∧
      fs'.root.at? names = some (.directory entries) := by
  obtain ⟨names, hresolve⟩ := hasPath_iff.mp (h.there s hs hkept)
  have hnone := hgrounded.at?_eq_none h.wrote.lasts hnew hresolve
  obtain ⟨new, hthere⟩ := Option.isSome_iff_exists.mp (isSome_at?_of_resolve hresolve)
  cases new with
  | directory entries => exact ⟨names, entries, hresolve, hnone, hthere⟩
  | file content =>
    -- another file would have to have the same place
    rcases h.wrote.origin names content (Entry.fileAt?_eq_some.mpr hthere) with
      hold | ⟨s', hs', hresolve', -⟩
    · rw [Entry.fileAt?, hnone] at hold
      cases hold
    · obtain ⟨hmem, hwritten⟩ := List.mem_filter.mp hs'
      rw [eq_of_resolve_sown hmem hs hresolve' hresolve, hkept] at hwritten
      cases hwritten

theorem isGrounded_of_mem_sown (hbase : fs.IsGrounded base)
    (hroot : fs.IsGrounded ((configFor base r).rootDir home)) (hs : s ∈ sown home base r) :
    fs.IsGrounded s.1 := by
  have hname : Path.IsName "commands" := by decide
  have hcommands : fs.IsGrounded ((configFor base r).commandsRoot home) :=
    isGrounded_under hname hroot
  simp only [sown, seeds, List.mem_cons, List.not_mem_nil, or_false] at hs
  rcases hs with rfl | rfl | rfl | rfl
  · exact isGrounded_under (by decide) hbase
  · exact isGrounded_under (by decide) hcommands
  · exact isGrounded_under (by decide) hcommands
  · exact isGrounded_under (by decide) hroot

/-- A new directory on the way to a grounded file lies on the way to the directory of the file. -/
theorem isPrefix_dropLast_of_above {q : String} {target : List String}
    (hs : s ∈ sown home base r) (hgrounded : fs.IsGrounded s.1) (hgrows : Grows fs fs')
    (hq : q ∈ Path.above s.1) (hnames : fs'.resolve q = .ok names)
    (hnone : fs.root.at? names = none) (htarget : fs'.resolve s.1 = .ok target) :
    names <+: target.dropLast := by
  obtain ⟨d, name, hn, hpath⟩ := exists_under_of_mem_sown hs
  rw [hpath] at hgrounded hq htarget
  obtain ⟨within, rfl⟩ := List.getLast?_eq_some_iff.mp (getLast?_of_resolve_under hn htarget)
  rw [List.dropLast_concat]
  exact hgrounded.isPrefix_of_above hn hgrows hq hnames hnone htarget

/-- The directory of a seed is the root or the command root, so no seed is on the way to one. -/
theorem not_isPrefix_of_seed {target : List String} (hbase : base ≠ "")
    (hs : s ∈ seeds home (configFor base r)) (hnames : fs.resolve s.1 = .ok names)
    {t : String × String} (ht : t ∈ seeds home (configFor base r))
    (htarget : fs.resolve t.1 = .ok target) : ¬ names <+: target.dropLast := by
  intro hprefix
  obtain ⟨root, hroot, hseed⟩ := exists_root_of_seed hbase hs hnames
  obtain ⟨root', hroot', htarget⟩ := exists_root_of_seed hbase ht htarget
  cases hroot.symm.trans hroot'
  have hcommands : names <+: root ++ ["commands"] := by
    rcases htarget with rfl | ⟨name, rfl⟩
    · rw [List.dropLast_concat] at hprefix
      exact hprefix.trans (List.prefix_append root _)
    · rwa [List.dropLast_concat] at hprefix
  rcases hseed with rfl | ⟨name, rfl⟩
  · have hname := (List.prefix_append_right_inj root).mp hcommands
    revert hname
    decide
  · have hlength := hcommands.length_le
    rw [List.length_append, List.length_singleton] at hlength
    omega

/-- Where the base directory is there and the root is grounded, only such seeds are kept that were
there. -/
theorem Planted.hasPath_of_kept (h : Planted (sown home base r) isKept fs fs')
    (hbase : fs.resolve base = .ok directory)
    (hroot : fs.IsGrounded ((configFor base r).rootDir home))
    (hs : s ∈ seeds home (configFor base r)) (hkept : isKept s.1 = true) :
    fs.hasPath s.1 = true := by
  by_contra hnew
  rw [Bool.not_eq_true] at hnew
  have hgrounded : ∀ t ∈ sown home base r, fs.IsGrounded t.1 :=
    fun t => isGrounded_of_mem_sown (isGrounded_of_resolve hbase) hroot
  have hgrows := h.wrote.grows
  have hmem : s ∈ sown home base r := List.mem_cons_of_mem _ hs
  obtain ⟨names, entries, hresolve, hnone, hthere⟩ :=
    h.exists_directory_of_kept hmem hkept hnew (hgrounded s hmem)
  obtain ⟨q, hq, hleads⟩ := h.made names entries hnone hthere
  obtain ⟨t, ht, habove⟩ := List.mem_flatMap.mp hq
  obtain ⟨hsown, -⟩ := List.mem_filter.mp ht
  obtain ⟨target, htarget, -⟩ := h.wrote.there t ht
  have hprefix :=
    isPrefix_dropLast_of_above hsown (hgrounded t hsown) hgrows habove hleads hnone htarget
  rcases List.mem_cons.mp hsown with rfl | hseed
  · -- the directory of the configuration was there, and all directories on the way to it
    rw [eq_of_resolve_under_name (by decide) (hgrows.resolve hbase) htarget, List.dropLast_concat]
      at hprefix
    have hold := Entry.isSome_at?_of_prefix hprefix (isSome_at?_of_resolve hbase)
    rw [hnone] at hold
    cases hold
  · exact not_isPrefix_of_seed (ne_empty_of_resolve hbase) hs hresolve hseed htarget hprefix

/-- **A scaffold that does not overwrite spares what is there.** Whether it succeeds or fails, every
file that was there holds what it held, unless one of the paths of the scaffold steps up from a
directory that is not there and leads to the file when that directory has been made. And if it
succeeds, the report tells of the seeds which ones were kept and that the others were written. All
seeds are kept that were there before, and besides them only such ones whose paths step up from a
directory that is not there, or that are directories now: not any, if the base directory is there and
the path of the root does not step up like this. -/
theorem spared_of_configure (ho : r.overwrite = false)
    (h : configure home base r fs = (outcome, fs')) :
    (∀ names content, fs.root.fileAt? names = some content →
      fs'.root.fileAt? names = some content ∨
        ∃ s ∈ sown home base r, ¬ fs.IsGrounded s.1 ∧ fs'.resolve s.1 = .ok names) ∧
    ∀ report, outcome = .ok report →
      (∃ isKept, report.Tells (seedPaths home base r) isKept ∧
        ∀ path ∈ seedPaths home base r, (fs.hasPath path = true → isKept path = true) ∧
          (isKept path = true → fs.hasPath path = true ∨ ¬ fs.IsGrounded path ∨
            fs'.isDirectory path = true)) ∧
      (fs.hasPath base = true → fs.IsGrounded ((configFor base r).rootDir home) →
        report.Tells (seedPaths home base r) fs.hasPath) := by
  constructor
  · intro names content hfile
    obtain ⟨written, hwritten, hwrote⟩ := exists_wrote_of_any h
    rcases hwrote.fileAt?_of_new (fun s hs => (hwritten s hs).2 ho) hfile with
      hsame | ⟨s, hs, hgrounded, hresolve⟩
    · exact .inl hsame
    · exact .inr ⟨s, (hwritten s hs).1, hgrounded, hresolve⟩
  · rintro report rfl
    obtain ⟨isKept, hplanted, htells⟩ := exists_planted_of_configure ho h
    refine ⟨⟨isKept, htells, ?_⟩, ?_⟩
    · intro path hpath
      obtain ⟨s, hs, rfl⟩ := List.mem_map.mp hpath
      have hmem : s ∈ sown home base r := List.mem_cons_of_mem _ hs
      refine ⟨hplanted.spares s hmem, ?_⟩
      intro hkept
      by_cases hthere : fs.hasPath s.1 = true
      · exact .inl hthere
      by_cases hgrounded : fs.IsGrounded s.1
      · rw [Bool.not_eq_true] at hthere
        obtain ⟨names, entries, hresolve, -, hdirectory⟩ :=
          hplanted.exists_directory_of_kept hmem hkept hthere hgrounded
        refine .inr (.inr ?_)
        rw [isDirectory, entry_of_resolve hresolve, hdirectory]
      · exact .inr (.inl hgrounded)
    · intro hbase hroot
      obtain ⟨directory, hdirectory⟩ := hasPath_iff.mp hbase
      refine htells.congr ?_
      intro path hpath
      obtain ⟨s, hs, rfl⟩ := List.mem_map.mp hpath
      rw [Bool.eq_iff_iff]
      exact ⟨hplanted.hasPath_of_kept hdirectory hroot hs,
        hplanted.spares s (List.mem_cons_of_mem _ hs)⟩

/-! ## A small scaffold -/

/-- A file system with an index file that is there before any scaffold. -/
def ownProject : FileSystem where
  root := .directory
    [("w", .directory [("commands", .directory [("index.js", .file (.text "mine"))])])]
  cwd := ["w"]

/-- The way to the root steps up from a directory that is there, so the index file is found. -/
theorem spared_of_configure_own : ∃ report fs',
    configure "/home/u" "/w" { root := some "commands/.." } ownProject = (.ok report, fs') ∧
    fs'.root.fileAt? ["w", "commands", "index.js"] = some (.text "mine") ∧
    report.kept = ["/w/commands/../commands/index.js"] ∧
    report.written =
      ["/w/commands/../commands/show-globals.js", "/w/commands/../package.json"] := by
  obtain ⟨report, fs', hconfigure⟩ : ∃ report fs',
      configure "/home/u" "/w" { root := some "commands/.." } ownProject = (.ok report, fs') := by
    refine ⟨{ configPath := "/w/.zli.toml", written := ?_, kept := ?_ }, _, configure_eq_of_fst ?_⟩
    · exact ["/w/commands/../commands/show-globals.js", "/w/commands/../package.json"]
    · exact ["/w/commands/../commands/index.js"]
    · decide +kernel
  have hbase : ownProject.resolve "/w" = .ok ["w"] := by decide +kernel
  have hroot : ownProject.resolve
      ((configFor "/w" { root := some "commands/.." }).rootDir "/home/u") = .ok ["w"] := by
    decide +kernel
  obtain ⟨hfiles, hreported⟩ := spared_of_configure rfl hconfigure
  refine ⟨report, fs', hconfigure, ?_, ?_⟩
  · rcases hfiles ["w", "commands", "index.js"] (.text "mine") (by decide +kernel) with
      hsame | ⟨s, hs, hgrounded, -⟩
    · exact hsame
    · exact absurd (isGrounded_of_mem_sown (isGrounded_of_resolve hbase)
        (isGrounded_of_resolve hroot) hs) hgrounded
  · obtain ⟨-, htells⟩ := hreported report rfl
    obtain ⟨hkept, hwritten⟩ :=
      htells (hasPath_iff.mpr ⟨_, hbase⟩) (isGrounded_of_resolve hroot)
    rw [hkept, hwritten]
    decide +kernel

/-- A root that steps up from a directory that is not there is taken for a new one. The index file
in it is written over. -/
theorem own_index_clobbered : ∃ report fs',
    ownProject.read "/w/commands/index.js" = .ok "mine" ∧
    configure "/home/u" "/w" { root := some "missing/.." } ownProject = (.ok report, fs') ∧
    report.kept = [] ∧ fs'.read "/w/commands/index.js" = .ok (indexText "zli") := by
  have hreport : (configure "/home/u" "/w" { root := some "missing/.." } ownProject).1 = .ok
      { configPath := "/w/.zli.toml"
        written := ["/w/missing/../commands/index.js", "/w/missing/../commands/show-globals.js",
          "/w/missing/../package.json"] } := by
    decide +kernel
  refine ⟨_, _, ?_, configure_eq_of_fst hreport, rfl, ?_⟩
  all_goals decide +kernel

end Scaffold

end CommandFiles
