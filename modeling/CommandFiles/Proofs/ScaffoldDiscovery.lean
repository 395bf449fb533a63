import CommandFiles.Config.Load
import CommandFiles.Proofs.FoundFiles
import CommandFiles.Proofs.PlantedFiles
import CommandFiles.Proofs.SeededCommands

/-! # A scaffold can be discovered

The project that a scaffold leaves behind is discovered as a tree of two commands: the root has the
name of the executable, and below it there is the command that shows all globals. The name has to be
one that stands for itself between single quotes. -/
namespace CommandFiles

namespace FileSystem

variable {fs : FileSystem} {d name text : String} {base : List String}

/-- What a file in a directory holds is read under its name. -/
theorem read_under_name (hd : fs.resolve d = .ok base)
    (hfile : fs.root.fileAt? (base ++ [name]) = some (.text text)) (hn : Path.IsName name)
    (hzero : '\x00' ∉ name.toList) (hshort : ¬ name.utf8ByteSize > maxName) :
    fs.read (Path.under d name) = .ok text :=
  read_of_resolve (resolve_under_name hd (Entry.fileAt?_eq_some.mp hfile) hn hzero hshort) hfile

end FileSystem

namespace Discovery

variable {fs : FileSystem} {path text : String} {o : Script.Outline}

theorem outline_eq_ok (hread : fs.read path = .ok text)
    (hextension : Path.extension? path = some "js") :
    outline fs Literal.optionsName path = .ok o ↔
      Script.Outline.read ⟨false, false⟩ text = .ok o := by
  have hdialect : Script.Dialect.ofExtension (some "js") = ⟨false, false⟩ := rfl
  rw [outline, hread, hextension, hdialect]
  exact mapError_eq_ok

end Discovery

namespace Scaffold

open FileSystem

variable {fs fs' : FileSystem} {base home cwd : String} {r : Request} {report : Report}
  {directory within : List String} {c₀ : Config} {c : Context}

/-! ## The search -/

/-- The command files of a project, in the order of a search. -/
def found : List String := ["index.js", "show-globals.js"]

/-- The filter of the settings that a project begins with takes the command files. -/
theorem exists_filter : ∃ f, FileFilter.ofSettings ["js", "mjs"] [] = .ok f ∧
    ∀ name ∈ found, Entry.isSkipped f [] name = false ∧ f.hasEnding name = true := by
  have h : (FileFilter.ofSettings ["js", "mjs"] []).toOption.map (fun f =>
      found.all fun name => !Entry.isSkipped f [] name && f.hasEnding name) = some true := by
    decide +kernel
  obtain ⟨f, hf, hall⟩ := Option.map_eq_some_iff.mp h
  exact ⟨f, Discovery.eq_ok_of_toOption hf, by simpa using hall⟩

theorem isName_found : ∀ name ∈ found,
    Path.IsName name ∧ '\x00' ∉ name.toList ∧ ¬ name.utf8ByteSize > maxName := by
  decide

theorem extension?_found (root : String) {name : String} (h : name ∈ found) :
    Path.extension? (Path.under root name) = some "js" := by
  have hextension : ∀ name ∈ found, (Path.splitName name).2 = some "js" := by decide
  rw [Path.extension?, Path.fileName?_under_name root (isName_found name h).1, Option.bind_some,
    hextension name h]

/-- Below the command root of a project there are no other files. -/
theorem Project.mem_found (h : Project fs directory within c₀) {entries : List (String × Entry)}
    (hentries : fs.root.at? (directory ++ within ++ ["commands"]) = some (.directory entries))
    {names : List String} {content : Content}
    (hnames : (Entry.directory entries).at? names = some (.file content)) :
    ∃ name ∈ found, names = [name] := by
  have hne : names ≠ [] := by
    rintro rfl
    cases hnames
  have hat : fs.root.at? (directory ++ (within ++ "commands" :: names)) = some (.file content) := by
    rw [← List.append_assoc, ← List.singleton_append, ← List.append_assoc, Entry.at?_append,
      hentries]
    exact hnames
  obtain ⟨first, more, hfirst⟩ := List.exists_cons_of_ne_nil
    (List.append_ne_nil_of_right_ne_nil within (List.cons_ne_nil "commands" names))
  rw [hfirst] at hat
  obtain ⟨text, hmem⟩ := h.only first more content (Entry.fileAt?_eq_some.mpr hat)
  simp only [← hfirst, projectFiles, List.mem_cons, Prod.mk.injEq, List.append_assoc,
    List.append_cancel_left_eq, List.not_mem_nil, or_false, List.cons_append, List.nil_append,
    List.cons.injEq, true_and] at hmem
  rcases hmem with ⟨hconfig, -⟩ | ⟨rfl, -⟩ | ⟨rfl, -⟩ | ⟨⟨hpackage, -⟩, -⟩
  · -- the configuration does not lie two levels below its directory
    have hlength := congrArg List.length hconfig
    have hpos := List.length_pos_iff.mpr hne
    simp only [List.length_append, List.length_cons, List.length_nil] at hlength
    omega
  · exact ⟨_, List.mem_cons_self, rfl⟩
  · exact ⟨_, List.mem_cons_of_mem _ List.mem_cons_self, rfl⟩
  · exact absurd hpackage (by decide)

theorem Project.exists_lookup (h : Project fs directory within c₀) :
    ∃ entries, fs.root.at? (directory ++ within ++ ["commands"]) = some (.directory entries) ∧
      ∀ name ∈ found, ∃ content, entries.lookup name = some (.file content) := by
  obtain ⟨entries, hentries, hindex⟩ :=
    Entry.exists_lookup_of_at? (Entry.fileAt?_eq_some.mp h.index)
  obtain ⟨entries', hentries', hshow⟩ :=
    Entry.exists_lookup_of_at? (Entry.fileAt?_eq_some.mp h.showGlobals)
  cases hentries.symm.trans hentries'
  refine ⟨entries, hentries, fun name hname => ?_⟩
  simp only [found, List.mem_cons, List.not_mem_nil, or_false] at hname
  rcases hname with rfl | rfl
  · exact ⟨_, hindex⟩
  · exact ⟨_, hshow⟩

/-- The command files of a project are found in the order of their names. -/
theorem Project.commandFiles_eq (h : Project fs directory within c₀)
    (hcommands : fs.resolve c.commandsRoot = .ok (directory ++ within ++ ["commands"]))
    (hextensions : c.config.extensions = ["js", "mjs"]) (hexclude : c.config.exclude = []) :
    Discovery.commandFiles fs c = .ok (found.map fun name => Path.under c.commandsRoot name) := by
  obtain ⟨f, hf, htaken⟩ := exists_filter
  obtain ⟨entries, hentries, hlookup⟩ := h.exists_lookup
  have hplaces : (found.map Entry.searchName).Pairwise (· < ·) := by decide
  have hfound := Entry.commandFiles_eq_of_files (f := f)
    (Entry.namesDiffer_of_at? h.namesDiffer hentries) hplaces
    (fun name hname => ⟨(htaken name hname).1, (htaken name hname).2, hlookup name hname⟩)
    fun names content => h.mem_found hentries
  have hentry := entry_of_resolve hcommands
  rw [hentries] at hentry
  have hsearch : Discovery.search fs f c.commandsRoot =
      .ok (found.map fun name => Path.under c.commandsRoot name) := by
    rw [Discovery.search, hentry]
    change Except.ok ((Entry.commandFiles f [] (.directory entries)).map _) = _
    rw [hfound, List.map_map]
    rfl
  rw [Discovery.commandFiles, FileFilter.ofConfig, hextensions, hexclude, hf]
  change (Discovery.search fs f c.commandsRoot).mapError _ = _
  rw [hsearch]
  rfl

/-! ## The tree -/

/-- A blank declaration shows nowhere through what is laid over it. -/
theorem overlayDeclared_blank (name : String) (above : Declaration) :
    Command.overlayDeclared { name } above = above := by
  obtain ⟨_, description, secondName, filePath, options, demand, beforeRun, validate, showsHelp,
    dependencies⟩ := above
  simp [Command.overlayDeclared]

/-- What the index file declares stands at the top, and the other command below it. -/
theorem merge_seeds (index showGlobals : Declaration) :
    Command.merge (.mk showGlobals []) ["show-globals.js"]
      (Command.merge (.mk index []) ["index.js"] Command.empty) =
        .mk index [.mk showGlobals []] := by
  have hindex : Command.isIndexFile "index.js" = true := by decide
  have hshow : Command.isIndexFile "show-globals.js" = false := by decide
  have hroot : Command.merge (.mk index []) ["index.js"] Command.empty = .mk index [] := by
    rw [Command.merge, if_pos hindex]
    exact congrArg (Command.mk · []) (overlayDeclared_blank "" index)
  rw [hroot, Command.merge, hshow, if_neg Bool.false_ne_true]
  exact congrArg (fun d => Command.mk index [.mk d []]) (overlayDeclared_blank _ showGlobals)

/-- The command files of a project hold the commands that they were made of. -/
theorem Project.holds (h : Project fs directory within c₀)
    (hcommands : fs.resolve c.commandsRoot = .ok (directory ++ within ++ ["commands"]))
    (hplain : Script.IsPlainText c₀.executable.toList) :
    Discovery.Holds fs c (Path.under c.commandsRoot "index.js")
        (.mk ((Seed.index c₀.executable).declaration (Path.under c.commandsRoot "index.js")) []) ∧
      Discovery.Holds fs c (Path.under c.commandsRoot "show-globals.js")
        (.mk (Seed.showGlobals.declaration (Path.under c.commandsRoot "show-globals.js")) []) := by
  have hread : ∀ name ∈ found, ∀ text,
      fs.root.fileAt? (directory ++ within ++ ["commands"] ++ [name]) = some (.text text) →
        fs.read (Path.under c.commandsRoot name) = .ok text := by
    intro name hname text hfile
    obtain ⟨hn, hzero, hshort⟩ := isName_found name hname
    exact read_under_name hcommands hfile hn hzero hshort
  have hindex : "index.js" ∈ found := List.mem_cons_self
  have hshow : "show-globals.js" ∈ found := List.mem_cons_of_mem _ List.mem_cons_self
  obtain ⟨o, ho, hseed⟩ := Seed.outline_indexText hplain
  obtain ⟨o', ho', hseed'⟩ := Seed.outline_showGlobalsText
  have houtline := (Discovery.outline_eq_ok (hread _ hindex _ h.index)
    (extension?_found _ hindex)).mpr ho
  have houtline' := (Discovery.outline_eq_ok (hread _ hshow _ h.showGlobals)
    (extension?_found _ hshow)).mpr ho'
  exact ⟨Discovery.holds_of_outline houtline hseed, Discovery.holds_of_outline houtline' hseed'⟩

theorem segmentsBelow_found (root : String) {name : String} (h : name ∈ found) :
    Path.segmentsBelow root (Path.under root name) = [name] := by
  have hnames : ∀ n ∈ [name], Path.IsName n := by simpa using (isName_found name h).1
  have hsegments := Path.segmentsBelow_under root (List.cons_ne_nil name []) hnames
  rwa [Entry.pathOf, String.intercalate_singleton] at hsegments

/-- Whether the settings of a context are those of a project, and its root is the one of the
project. -/
structure Matches (fs : FileSystem) (directory within : List String) (c : Context) : Prop where
  root : fs.resolve c.rootDir = .ok (directory ++ within)
  commandsDir : c.config.commandsDir = "commands"
  extensions : c.config.extensions = ["js", "mjs"]
  exclude : c.config.exclude = []

theorem Project.resolve_commandsRoot (h : Project fs directory within c₀)
    (hc : Matches fs directory within c) :
    fs.resolve c.commandsRoot = .ok (directory ++ within ++ ["commands"]) := by
  obtain ⟨entries, hentries, -⟩ := h.exists_lookup
  rw [Context.commandsRoot, Config.commandsRoot, hc.commandsDir]
  exact resolve_under_name hc.root hentries (by decide) (by decide) (by decide)

/-- **A project is discovered as the two commands that its files were made of.** -/
theorem Project.discover_eq (h : Project fs directory within c₀)
    (hc : Matches fs directory within c)
    (hplain : Script.IsPlainText c₀.executable.toList) :
    (Discovery.discover fs c).run.value = .ok (.mk
      ((Seed.index c₀.executable).declaration (Path.under c.commandsRoot "index.js"))
      [.mk (Seed.showGlobals.declaration (Path.under c.commandsRoot "show-globals.js")) []]) := by
  have hcommands := h.resolve_commandsRoot hc
  obtain ⟨hindex, hshow⟩ := h.holds hcommands hplain
  refine Discovery.discover_eq_ok.mpr
    ⟨_, h.commandFiles_eq hcommands hc.extensions hc.exclude, .merge hindex (.merge hshow ?_)⟩
  rw [segmentsBelow_found _ List.mem_cons_self,
    segmentsBelow_found _ (List.mem_cons_of_mem _ List.mem_cons_self), merge_seeds]
  exact .done _

/-- Where the index file cannot be read as a module, there is no tree. -/
theorem Project.discover_ne (h : Project fs directory within c₀)
    (hc : Matches fs directory within c)
    (hfault : (Script.Outline.read ⟨false, false⟩ (indexText c₀.executable)).toOption.isNone = true)
    (tree : Command) : (Discovery.discover fs c).run.value ≠ .ok tree := by
  intro htree
  have hcommands := h.resolve_commandsRoot hc
  have hindex : "index.js" ∈ found := List.mem_cons_self
  obtain ⟨hn, hzero, hshort⟩ := isName_found _ hindex
  have hread := read_under_name hcommands h.index hn hzero hshort
  have hload : ∀ command,
      (Discovery.load fs c (Path.under c.commandsRoot "index.js")).run.value ≠ .ok command := by
    intro command hcommand
    obtain ⟨o, ho, -⟩ := Logged.bind_eq_ok.mp hcommand
    rw [(Discovery.outline_eq_ok hread (extension?_found _ hindex)).mp ho] at hfault
    cases hfault
  obtain ⟨files, hfiles, hassembled⟩ := Discovery.discover_eq_ok.mp htree
  cases (h.commandFiles_eq hcommands hc.extensions hc.exclude).symm.trans hfiles
  cases hassembled with
  | skip hnone _ => exact hload _ hnone
  | merge hholds _ => exact hload _ hholds

/-! ## The configuration -/

/-- The settings of a scaffold are had back from its file, if they are from their text. -/
theorem Project.loadFile_eq (h : Project fs directory within (configFor base r))
    (hbase : fs.resolve base = .ok directory)
    (htext : Config.ofText (configFor base r).toText =
      some { configFor base r with baseDir := ".", source := none }) :
    Config.loadFile fs (Path.under base Config.fileName) =
      .ok { configFor base r with
        baseDir := (Path.parent? (Path.under base Config.fileName)).getD "."
        source := some (Path.under base Config.fileName) } := by
  have hread := read_under_name hbase h.config (by decide) (by decide) (by decide)
  refine CommandLine.except_bind_eq_ok.mpr ⟨(configFor base r).toText, ?_, ?_⟩
  · rw [hread]
    rfl
  · dsimp only
    rw [htext]
    rfl

/-- Whether a path leads to a place in a directory, if it leads anywhere. -/
def StaysInside (fs : FileSystem) (directory : List String) (path : String) : Prop :=
  ∀ names, fs.resolve path = .ok names → directory <+: names

/-- A root stays inside the directory of a scaffold if its points never lead above it. -/
theorem staysInside_of_staysBelow (hbase : fs.resolve base = .ok directory)
    (hconfigure : configure home base r fs = (.ok report, fs')) {p : String}
    (hroot : (configFor base r).rootDir home = Path.under base p)
    (hp : Path.isAbsolute p.toList = false)
    (hbelow : staysBelow 0 (Path.splitSlash p.toList) = true) :
    StaysInside fs' directory ((configFor base r).rootDir home) := by
  intro names hnames
  rw [hroot] at hnames
  exact prefix_of_staysBelow ((grows_configure hconfigure).resolve hbase) hp hbelow hnames

/-- The configuration that a scaffold has written is loaded as the settings of the project that it
leaves behind. -/
theorem exists_matches_of_configure (hnames : fs.root.NamesDiffer)
    (hbase : fs.resolve base = .ok directory)
    (hempty : fs.root.at? directory = some (.directory []))
    (hconfigure : configure home base r fs = (.ok report, fs'))
    (hinside : StaysInside fs' directory ((configFor base r).rootDir home))
    (htext : Config.ofText (configFor base r).toText =
      some { configFor base r with baseDir := ".", source := none })
    (hshow : Path.under ((configFor base r).commandsRoot home) "show-globals.js" ∉ report.kept)
    (cwd : String) :
    ∃ c within, Config.loadFile fs' report.configPath = .ok c ∧
      Project fs' directory within (configFor base r) ∧
      Matches fs' directory within ⟨c, cwd, home⟩ := by
  have hne := ne_empty_of_resolve hbase
  obtain ⟨names, hroot⟩ := exists_resolve_root hne hconfigure
  obtain ⟨within, rfl⟩ := hinside names hroot
  obtain ⟨hpath, hbase', hproject⟩ :=
    project_of_configure hnames hbase hempty hconfigure hroot hshow
  have hload := hproject.loadFile_eq hbase' htext
  -- the directory that the settings are loaded for is the one that the scaffold was made in
  have hname : Path.IsName Config.fileName := by decide
  obtain ⟨parent, hparent, hleads⟩ := exists_parent?_under hname hne
  rw [hparent, Option.getD_some] at hload
  rw [hpath]
  exact ⟨_, within, hload, hproject,
    resolve_under_of_resolve hbase' (hleads fs' directory hbase') hroot, rfl, rfl, rfl⟩

/-- **A scaffold can be discovered.** If one is made in an empty directory, with a root that stays
inside that directory, then the configuration that was written is loaded and the discovery with it
succeeds: the root of the tree has the name of the executable, and the command that shows all
globals is the only one below it. The executable has to stand for itself between single quotes, and
no directory may have been made in place of a file on the way to the root. -/
theorem discover_of_configure (hnames : fs.root.NamesDiffer)
    (hbase : fs.resolve base = .ok directory)
    (hempty : fs.root.at? directory = some (.directory []))
    (hconfigure : configure home base r fs = (.ok report, fs'))
    (hinside : StaysInside fs' directory ((configFor base r).rootDir home))
    (htext : Config.ofText (configFor base r).toText =
      some { configFor base r with baseDir := ".", source := none })
    (hplain : Script.IsPlainText (configFor base r).executable.toList)
    (hshow : Path.under ((configFor base r).commandsRoot home) "show-globals.js" ∉ report.kept)
    (cwd : String) :
    ∃ c tree, Config.loadFile fs' report.configPath = .ok c ∧
      (Discovery.discover fs' ⟨c, cwd, home⟩).run.value = .ok tree ∧
      tree.name = (configFor base r).executable ∧
      tree.subcommands.map Command.name = ["show-globals"] := by
  obtain ⟨c, within, hload, hproject, hc⟩ :=
    exists_matches_of_configure hnames hbase hempty hconfigure hinside htext hshow cwd
  exact ⟨c, _, hload, hproject.discover_eq hc hplain, rfl, rfl⟩

/-! ## Small scaffolds -/

/-- A file system with an empty directory. -/
def emptyProject : FileSystem where
  root := .directory [("w", .directory [])]
  cwd := ["w"]

/-- A request for an executable with a blank in its name, and a root behind a way back. -/
def blankRequest : Request := { root := some "tools/../cli", executable := some "my tool" }

/-- A request for an executable with a quote in its name. -/
def quotedRequest : Request := { root := some "cli", executable := some "a'b" }

/-- The settings in a document that is given by its characters. -/
def settingsOf (chars : List Char) : Option Config := do
  let chars := match chars with
    | '\uFEFF' :: rest => rest
    | chars => chars
  let table ← (Toml.readStatements (chars.length + 1) chars).bind Toml.build
  table.foldlM (fun c (key, v) => c.set key v) {}

theorem ofText_eq_settingsOf (text : String) : Config.ofText text = settingsOf text.toList := rfl

theorem ofText_toText_small : ∀ r ∈ [blankRequest, quotedRequest],
    Config.ofText (configFor "/w" r).toText =
      some { configFor "/w" r with baseDir := ".", source := none } := by
  intro r hr
  rw [ofText_eq_settingsOf, Config.toText]
  simp only [String.toList_append, String.toList_join, List.flatMap_cons, List.flatMap_nil,
    Toml.writePair]
  revert r
  decide +kernel

theorem exists_configure_small : ∀ r ∈ [blankRequest, quotedRequest], ∃ report fs',
    configure "/home/u" "/w" r emptyProject = (.ok report, fs') ∧ report.kept = [] ∧
      StaysInside fs' ["w"] ((configFor "/w" r).rootDir "/home/u") := by
  have hreports : ∀ r ∈ [blankRequest, quotedRequest],
      (configure "/home/u" "/w" r emptyProject).1.toOption.map Report.kept = some [] := by
    decide +kernel
  have hroots : ∀ r ∈ [blankRequest, quotedRequest],
      Config.expandTilde "/home/u" (configFor "/w" r).root = (configFor "/w" r).root ∧
        Path.isAbsolute (configFor "/w" r).root.toList = false ∧
        staysBelow 0 (Path.splitSlash (configFor "/w" r).root.toList) = true := by
    decide
  have hbase : emptyProject.resolve "/w" = .ok ["w"] :=
    Discovery.eq_ok_of_toOption (by decide)
  intro r hr
  obtain ⟨report, hreport, hkept⟩ := Option.map_eq_some_iff.mp (hreports r hr)
  have hconfigure : configure "/home/u" "/w" r emptyProject = (.ok report, _) :=
    Prod.ext (Discovery.eq_ok_of_toOption hreport) rfl
  obtain ⟨hexpand, hp, hbelow⟩ := hroots r hr
  refine ⟨report, _, hconfigure, hkept, staysInside_of_staysBelow hbase hconfigure ?_ hp hbelow⟩
  rw [Config.rootDir, hexpand]
  rfl

theorem namesDiffer_emptyProject : emptyProject.root.NamesDiffer := by
  simp [emptyProject, Entry.NamesDiffer, Entry.namesDifferIn]

theorem resolve_emptyProject : emptyProject.resolve "/w" = .ok ["w"] :=
  Discovery.eq_ok_of_toOption (by decide)

/-- The executable has a blank in its name, and the way to the root leads through a directory and
back. -/
theorem discover_of_configure_blank : ∃ report fs',
    configure "/home/u" "/w" blankRequest emptyProject = (.ok report, fs') ∧
      report.kept = [] ∧ StaysInside fs' ["w"] ((configFor "/w" blankRequest).rootDir "/home/u") ∧
      ∃ c tree, Config.loadFile fs' report.configPath = .ok c ∧
        (Discovery.discover fs' ⟨c, "/w", "/home/u"⟩).run.value = .ok tree ∧
        tree.name = "my tool" ∧ tree.subcommands.map Command.name = ["show-globals"] := by
  have hblank : blankRequest ∈ [blankRequest, quotedRequest] := List.mem_cons_self
  obtain ⟨report, fs', hconfigure, hkept, hinside⟩ := exists_configure_small _ hblank
  have hplain : Script.IsPlainText (configFor "/w" blankRequest).executable.toList := by
    decide
  exact ⟨report, fs', hconfigure, hkept, hinside, discover_of_configure namesDiffer_emptyProject
    resolve_emptyProject rfl hconfigure hinside (ofText_toText_small _ hblank) hplain
    (hkept ▸ List.not_mem_nil) "/w"⟩

/-- A scaffold for an executable with a quote in its name cannot be discovered, although its
configuration is loaded and its root stays inside the empty directory it was made in. -/
theorem quoted_executable_not_discovered : ∃ report fs' c,
    emptyProject.resolve "/w" = .ok ["w"] ∧
      emptyProject.root.at? ["w"] = some (.directory []) ∧
      configure "/home/u" "/w" quotedRequest emptyProject = (.ok report, fs') ∧
      StaysInside fs' ["w"] ((configFor "/w" quotedRequest).rootDir "/home/u") ∧
      Config.loadFile fs' report.configPath = .ok c ∧
      ∀ tree, (Discovery.discover fs' ⟨c, "/w", "/home/u"⟩).run.value ≠ .ok tree := by
  have hquoted : quotedRequest ∈ [blankRequest, quotedRequest] :=
    List.mem_cons_of_mem _ List.mem_cons_self
  obtain ⟨report, fs', hconfigure, hkept, hinside⟩ := exists_configure_small _ hquoted
  obtain ⟨c, within, hload, hproject, hc⟩ := exists_matches_of_configure namesDiffer_emptyProject
    resolve_emptyProject rfl hconfigure hinside (ofText_toText_small _ hquoted)
    (hkept ▸ List.not_mem_nil) "/w"
  exact ⟨report, fs', c, resolve_emptyProject, rfl, hconfigure, hinside, hload,
    hproject.discover_ne hc Seed.indexText_not_read⟩

end Scaffold

end CommandFiles
