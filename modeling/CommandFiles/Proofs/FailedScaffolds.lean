import CommandFiles.Proofs.MadeDirectories
import CommandFiles.Proofs.PlantedFiles

/-! # Scaffolds that fail

The configuration of a project is written before its other files. A scaffold that is refused leaves
everything as it was, and one whose configuration cannot be written leaves all files as they were.
But where another file cannot be written the configuration stays behind, and it is then the reason
for which the corrected request is refused. -/
namespace CommandFiles.Scaffold

open FileSystem

variable {fs fs₁ fs' : FileSystem} {path text base home : String} {r : Request} {e : Failure}
  {planned written : List (String × String)} {report : Report} {overwrite : Bool}
  {outcome : Except Failure Report} {names : List String} {s s' : String × String}

/-! ## Files that were written until then -/

theorem Wrote.lasts (h : Wrote written fs fs') : Lasts fs fs' := ⟨h.grows, h.stays⟩

theorem wrote_of_unwritten {cause : OsError} (h : writeDeep path text fs = (.error cause, fs')) :
    Wrote [] fs fs' := by
  obtain ⟨hgrows, hfiles⟩ := grows_of_unwritten h
  refine ⟨hgrows, (lasts_writeDeep h).stays, ?_, fun _ hs => nomatch hs⟩
  intro names content hcontent
  rw [hfiles] at hcontent
  exact .inl hcontent

/-- Whatever becomes of the seeds, only such ones are written that are new or may be overwritten. -/
theorem exists_wrote_of_plant (h : plant overwrite planned report fs = (outcome, fs')) :
    ∃ written, (∀ s ∈ written, s ∈ planned ∧ (overwrite = false → fs.hasPath s.1 = false)) ∧
      Wrote written fs fs' := by
  induction planned generalizing report fs with
  | nil => cases h; exact ⟨[], by simp, .refl _⟩
  | cons seed planned ih =>
    rcases plant_step h with ⟨-, -, h⟩ | ⟨hnew, ⟨e, hwrite, -⟩ | ⟨fs₁, hwrite, h⟩⟩
    · obtain ⟨written, hwritten, hwrote⟩ := ih h
      exact ⟨written, fun s hs => (hwritten s hs).imp_left (List.mem_cons_of_mem _), hwrote⟩
    · obtain ⟨cause, -, hdeep⟩ := exists_unwritten hwrite
      exact ⟨[], by simp, wrote_of_unwritten hdeep⟩
    · obtain ⟨written, hwritten, hwrote⟩ := ih h
      have hgrows := (lasts_writeDeep (writeDeep_of_writeFile hwrite)).toGrows
      refine ⟨seed :: written, ?_, hwrote.cons hwrite⟩
      intro s hs
      rcases List.mem_cons.mp hs with rfl | hs
      · exact ⟨List.mem_cons_self, hnew⟩
      · obtain ⟨hmem, hlater⟩ := hwritten s hs
        exact ⟨List.mem_cons_of_mem _ hmem, fun ho => hgrows.hasPath_eq_false (hlater ho)⟩

/-- A failure of the seeds names the one that could not be written. -/
theorem exists_unwritten_of_plant (h : plant overwrite planned report fs = (.error e, fs')) :
    ∃ s ∈ planned, ∃ cause, e = .unwritten s.1 cause := by
  induction planned generalizing report fs with
  | nil => cases h
  | cons seed planned ih =>
    rcases plant_step h with ⟨-, -, h⟩ | ⟨-, ⟨e, hwrite, he⟩ | ⟨fs₁, -, h⟩⟩
    · obtain ⟨s, hs, hcause⟩ := ih h
      exact ⟨s, List.mem_cons_of_mem _ hs, hcause⟩
    · cases he
      obtain ⟨cause, rfl, -⟩ := exists_unwritten hwrite
      exact ⟨seed, List.mem_cons_self, cause, rfl⟩
    · obtain ⟨s, hs, hcause⟩ := ih h
      exact ⟨s, List.mem_cons_of_mem _ hs, hcause⟩

/-! ## Places of a scaffold -/

theorem exists_under_of_mem_sown (hs : s ∈ sown home base r) :
    ∃ d name, Path.IsName name ∧ s.1 = Path.under d name := by
  simp only [sown, seeds, List.mem_cons, List.not_mem_nil, or_false] at hs
  rcases hs with rfl | rfl | rfl | rfl
  all_goals exact ⟨_, _, by decide, rfl⟩

theorem nodup_fileName?_sown (home base : String) (r : Request) :
    ((sown home base r).map fun s => Path.fileName? s.1).Nodup := by
  have hnames : (sown home base r).map (fun s => Path.fileName? s.1) =
      [Config.fileName, "index.js", "show-globals.js", "package.json"].map some := by
    simp only [sown, seeds, List.map_cons, List.map_nil]
    repeat rw [Path.fileName?_under_name _ (by decide)]
  rw [hnames]
  decide

/-- No two files of a scaffold have the same place. -/
theorem eq_of_resolve_sown (hs : s ∈ sown home base r) (hs' : s' ∈ sown home base r)
    (h : fs.resolve s.1 = .ok names) (h' : fs.resolve s'.1 = .ok names) : s = s' := by
  have hlast : ∀ t ∈ sown home base r, fs.resolve t.1 = .ok names →
      Path.fileName? t.1 = names.getLast? := by
    intro t ht hresolve
    obtain ⟨d, name, hn, hpath⟩ := exists_under_of_mem_sown ht
    rw [hpath] at hresolve ⊢
    rw [Path.fileName?_under_name d hn, getLast?_of_resolve_under hn hresolve]
  exact List.inj_on_of_nodup_map (nodup_fileName?_sown home base r) hs hs'
    ((hlast s hs h).trans (hlast s' hs' h').symm)

/-! ## Ways to fail -/

/-- The seeds leave the configuration as it was written. -/
theorem read_config_of_plant
    (hwrite : writeFile (Path.under base Config.fileName) (configFor base r).toText fs =
      (.ok (), fs₁))
    (h : plant overwrite (seeds home (configFor base r)) report fs₁ = (outcome, fs')) :
    fs'.read (Path.under base Config.fileName) = .ok (configFor base r).toText := by
  obtain ⟨names, hresolve, -, hfiles⟩ := exists_of_writeDeep (writeDeep_of_writeFile hwrite)
  obtain ⟨written, hwritten, hwrote⟩ := exists_wrote_of_plant h
  have hpath := hwrote.grows.resolve hresolve
  have hfile : fs₁.root.fileAt? names = some (.text (configFor base r).toText) := by
    rw [hfiles, if_pos rfl]
  refine read_of_resolve hpath ?_
  obtain ⟨content, hcontent⟩ :=
    Option.isSome_iff_exists.mp (hwrote.stays names (by rw [hfile]; rfl))
  rcases hwrote.origin names content hcontent with hold | ⟨s, hs, hseed, rfl⟩
  · rwa [hfile.symm.trans hold]
  · have hmem : s ∈ sown home base r := List.mem_cons_of_mem _ (hwritten s hs).1
    rw [hcontent, eq_of_resolve_sown hmem List.mem_cons_self hseed hpath]

/-- A configuration that could not be written is not there, unless the path of its directory steps
up from a directory that is not there. -/
theorem hasPath_config_of_unwritten {cause : OsError} (hbase : fs.IsGrounded base)
    (h : writeDeep (Path.under base Config.fileName) text fs = (.error cause, fs')) :
    fs'.hasPath (Path.under base Config.fileName) =
      fs.hasPath (Path.under base Config.fileName) := by
  have hname : Path.IsName Config.fileName := by decide
  have hlasts := lasts_writeDeep h
  obtain ⟨-, hfiles⟩ := grows_of_unwritten h
  cases hhas : fs.hasPath (Path.under base Config.fileName) with
  | true => exact hlasts.hasPath hhas
  | false =>
    rw [← Bool.not_eq_true]
    intro hlater
    obtain ⟨names, hnames⟩ := hasPath_iff.mp hlater
    have hgrounded := isGrounded_under hname hbase
    have hnone := hgrounded.at?_eq_none hlasts hhas hnames
    obtain ⟨new, hnew⟩ := Option.isSome_iff_exists.mp (isSome_at?_of_resolve hnames)
    cases new with
    | file content =>
      have hfile := hfiles names
      rw [Entry.fileAt?, Entry.fileAt?, hnew, hnone] at hfile
      cases hfile
    | directory entries =>
      -- it would have been made as a directory that its own path lies in
      obtain ⟨q, hq, hresolve⟩ := madeAt_writeDeep h names entries hnone hnew
      obtain ⟨within, rfl⟩ := List.getLast?_eq_some_iff.mp (getLast?_of_resolve_under hname hnames)
      have hprefix :=
        hgrounded.isPrefix_of_above hname hlasts.toGrows hq hresolve hnone hnames
      have hlength := hprefix.length_le
      rw [List.length_append, List.length_singleton] at hlength
      omega

/-- **How a scaffold fails.** If it is refused, its configuration was there, and nothing is changed.
If its configuration cannot be written, no file is changed, and the configuration is there just if
it was before, unless the path of its directory steps up from a directory that is not there. If
another file cannot be written, the configuration of the failed request is left behind, and every
request that does not overwrite is refused from then on. -/
theorem config_of_failure (h : configure home base r fs = (.error e, fs')) :
    (e = .present (Path.under base Config.fileName) ∧ fs' = fs ∧ r.overwrite = false ∧
      fs.hasPath (Path.under base Config.fileName) = true) ∨
    (∃ cause, e = .unwritten (Path.under base Config.fileName) cause ∧
      (∀ names, fs'.root.fileAt? names = fs.root.fileAt? names) ∧
      (fs.IsGrounded base → fs'.hasPath (Path.under base Config.fileName) =
        fs.hasPath (Path.under base Config.fileName))) ∨
    ∃ s ∈ seeds home (configFor base r), ∃ cause, e = .unwritten s.1 cause ∧
      fs'.read (Path.under base Config.fileName) = .ok (configFor base r).toText ∧
      ∀ home' r', r'.overwrite = false → configure home' base r' fs' =
        (.error (.present (Path.under base Config.fileName)), fs') := by
  rcases configure_cases h with
    ⟨he, hrefused⟩ | ⟨-, ⟨cause, he, hdeep⟩ | ⟨fs₁, hwrite, hplant⟩⟩
  · cases he
    exact .inl ⟨rfl, hrefused⟩
  · cases he
    obtain ⟨-, hfiles⟩ := grows_of_unwritten hdeep
    exact .inr (.inl ⟨cause, rfl, hfiles, fun hbase => hasPath_config_of_unwritten hbase hdeep⟩)
  · obtain ⟨s, hs, cause, he⟩ := exists_unwritten_of_plant hplant
    obtain ⟨names, hresolve, -⟩ := exists_of_writeDeep (writeDeep_of_writeFile hwrite)
    obtain ⟨written, -, hwrote⟩ := exists_wrote_of_plant hplant
    have hpath := hasPath_iff.mpr ⟨names, hwrote.grows.resolve hresolve⟩
    refine .inr (.inr ⟨s, hs, cause, he, read_config_of_plant hwrite hplant, ?_⟩)
    intro home' r' ho
    exact configure_of_present hpath ho

/-! ## A small scaffold -/

/-- A file system with a file where the root of a project would go. -/
def blockedProject : FileSystem where
  root := .directory [("w", .directory [("zli_commands", .file (.text "x"))])]
  cwd := ["w"]

theorem configure_eq_of_fst (h : (configure home base r fs).1 = outcome) :
    configure home base r fs = (outcome, (configure home base r fs).2) :=
  Prod.ext h rfl

theorem configure_blockedProject : (configure "/home/u" "/w" {} blockedProject).1 =
    .error (.unwritten "/w/zli_commands/commands/index.js" .notDirectory) := by
  decide +kernel

/-- The index file cannot be written, and then every request is refused that does not overwrite. -/
theorem config_of_failure_blocked : ∃ fs',
    configure "/home/u" "/w" {} blockedProject =
      (.error (.unwritten "/w/zli_commands/commands/index.js" .notDirectory), fs') ∧
    fs'.read "/w/.zli.toml" = .ok (configFor "/w" {}).toText ∧
    ∀ home' r', r'.overwrite = false →
      configure home' "/w" r' fs' = (.error (.present "/w/.zli.toml"), fs') := by
  have hpath : Path.under "/w" Config.fileName = "/w/.zli.toml" := by decide
  obtain ⟨fs', hconfigure⟩ : ∃ fs', configure "/home/u" "/w" {} blockedProject = (.error _, fs') :=
    ⟨_, configure_eq_of_fst configure_blockedProject⟩
  refine ⟨fs', hconfigure, ?_⟩
  rcases config_of_failure hconfigure with ⟨he, -⟩ | ⟨cause, he, -⟩ | ⟨s, -, cause, -, hleft⟩
  · cases he
  · rw [hpath] at he
    exact absurd (Failure.unwritten.inj he).1 (by decide)
  · rwa [hpath] at hleft

/-- A failed request leaves a configuration behind that was not there. The request for another root,
which could have been granted before, is then refused. -/
theorem half_made_configuration_remains : ∃ fs',
    blockedProject.hasPath "/w/.zli.toml" = false ∧
    configure "/home/u" "/w" {} blockedProject =
      (.error (.unwritten "/w/zli_commands/commands/index.js" .notDirectory), fs') ∧
    fs'.read "/w/.zli.toml" = .ok (configFor "/w" {}).toText ∧
    (configure "/home/u" "/w" { root := some "cli" } fs').1 = .error (.present "/w/.zli.toml") ∧
    (configure "/home/u" "/w" { root := some "cli" } blockedProject).1 = .ok
      { configPath := "/w/.zli.toml"
        written := ["/w/cli/commands/index.js", "/w/cli/commands/show-globals.js",
          "/w/cli/package.json"] } := by
  refine ⟨_, ?_, configure_eq_of_fst configure_blockedProject, ?_, ?_, ?_⟩
  all_goals decide +kernel

end CommandFiles.Scaffold
