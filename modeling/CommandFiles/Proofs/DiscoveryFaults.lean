import CommandFiles.Proofs.DiscoveryRun
import CommandFiles.Proofs.LoadedCommands
import CommandFiles.Program

/-! # All files or none

A discovery takes one file after another, and a file passes all its stages or ends the discovery at
the first stage that it does not pass. So a tree comes of a discovery just if every file is accepted,
and otherwise the error is the one of the first file that is not. A run that discovers the tree has
done nothing until then: it changes no file and starts no program. -/
namespace CommandFiles

/-- The file or directory that an error is about. -/
def DiscoveryError.path? : DiscoveryError → Option String
  | exclusion _ => none
  | root path _ | unread path _ _ | unparsed path _ _ _ | refused path _ _ => some path
  | rejected r => some r.path

namespace Logged

variable {ε α β : Type} {b : ExceptT ε Logged α} {f : α → ExceptT ε Logged β}

theorem value_run_bind :
    (b >>= f).run.value = b.run.value.bind fun a => (f a).run.value := by
  change (Logged.bind b.run _).value = _
  unfold Logged.bind
  cases b.run.value <;> rfl

end Logged

namespace Discovery

open CommandFiles.Script

variable {fs : FileSystem} {c : Context} {path : String} {e : DiscoveryError}

/-! ## Stages -/

/-- A file is read and its text is a module with an outline. -/
def Outlined (fs : FileSystem) (path : String) (o : Outline) : Prop :=
  ∃ text, fs.read path = .ok text ∧
    Outline.read (Dialect.ofExtension (Path.extension? path)) text = .ok o

/-- A file passes all stages: it is read and parsed, its exports can be used, and either it exports
no options, or its dependencies are literals and its option literal has a value of the shape of a
command. -/
def Accepted (fs : FileSystem) (c : Context) (path : String) : Prop :=
  ∃ o, Outlined fs path o ∧
    ((Literal.optionFragment path o).value = .ok none ∨
      ∃ f found v command, (Literal.optionFragment path o).value = .ok (some f) ∧
        Literal.dependencies o = .ok found ∧ (f.evaluate c.globals c.cwd).value = .ok v ∧
        Command.ofJson v.toJson = .ok command)

/-- A file fails at a stage, after it has passed those before. -/
inductive Fails (fs : FileSystem) (c : Context) (path : String) : DiscoveryError → Prop where
  | unread {cause} : fs.read path = .error cause →
    Fails fs c path (.unread path Literal.optionsName cause)
  | unparsed {text p} : fs.read path = .ok text →
    Outline.read (Dialect.ofExtension (Path.extension? path)) text = .error p →
    Fails fs c path (.unparsed path Literal.optionsName p.line p.column)
  | unusable {o r} : Outlined fs path o → (Literal.optionFragment path o).value = .error r →
    Fails fs c path (.refused path Literal.optionsName r)
  | dependencies {o f r} : Outlined fs path o →
    (Literal.optionFragment path o).value = .ok (some f) → Literal.dependencies o = .error r →
    Fails fs c path (.refused path Literal.dependenciesName r)
  | unevaluated {o f found r} : Outlined fs path o →
    (Literal.optionFragment path o).value = .ok (some f) → Literal.dependencies o = .ok found →
    (f.evaluate c.globals c.cwd).value = .error r → Fails fs c path (.rejected r)
  | misshapen {o f found v m} : Outlined fs path o →
    (Literal.optionFragment path o).value = .ok (some f) → Literal.dependencies o = .ok found →
    (f.evaluate c.globals c.cwd).value = .ok v → Command.ofJson v.toJson = .error m →
    Fails fs c path (.rejected (.compile path m.message f.source.toOption))

theorem outline_of_outlined {o : Outline} (h : Outlined fs path o) (looked : String) :
    outline fs looked path = .ok o := by
  obtain ⟨text, hread, hparse⟩ := h
  rw [outline, hread]
  exact mapError_eq_ok.mpr hparse

/-- What comes of a file that is read and parsed. -/
theorem value_load {o : Outline} (h : Outlined fs path o) :
    (load fs c path).run.value =
      ((Literal.optionFragment path o).value.mapError (.refused path Literal.optionsName)).bind
        fun found => match found with
          | none => .ok none
          | some f =>
            ((Literal.dependencies o).mapError (.refused path Literal.dependenciesName)).bind
              fun deps => ((f.evaluate c.globals c.cwd).value.mapError .rejected).bind
                fun v => (commandOf f v).map fun command => some (withDependencies deps command) := by
  rw [load, outline_of_outlined h]
  refine Logged.value_run_bind.trans (Logged.value_run_bind.trans ?_)
  refine congrArg (Except.bind _) (funext fun found => ?_)
  cases found with
  | none => rfl
  | some f =>
    refine Logged.value_run_bind.trans ?_
    refine congrArg (Except.bind _) (funext fun deps => ?_)
    refine Logged.value_run_bind.trans ?_
    refine congrArg (Except.bind _) (funext fun v => ?_)
    refine Logged.value_run_bind.trans ?_
    change (commandOf f v).bind _ = _
    cases commandOf f v <;> rfl

theorem load_of_accepted (h : Accepted fs c path) : ∃ found, (load fs c path).run.value = .ok found := by
  obtain ⟨o, ho, hnone | ⟨f, found, v, command, hf, hdeps, hv, hshape⟩⟩ := h
  · refine ⟨none, ?_⟩
    rw [value_load ho, hnone]
    rfl
  · refine ⟨some (withDependencies found command), ?_⟩
    rw [value_load ho, hf, hdeps]
    change ((f.evaluate c.globals c.cwd).value.mapError _).bind _ = _
    rw [hv]
    change (commandOf f v).map _ = _
    rw [commandOf, hshape]
    rfl

theorem load_of_fails (h : Fails fs c path e) : (load fs c path).run.value = .error e := by
  cases h with
  | unread hread =>
    rw [load, outline, hread]
    rfl
  | unparsed hread hparse =>
    rw [load, outline, hread]
    refine Logged.value_run_bind.trans ?_
    change Except.bind (Except.mapError _ (Outline.read _ _)) _ = _
    rw [hparse]
    rfl
  | unusable ho hf => rw [value_load ho, hf]; rfl
  | dependencies ho hf hdeps => rw [value_load ho, hf, hdeps]; rfl
  | unevaluated ho hf hdeps hv =>
    rw [value_load ho, hf, hdeps]
    change Except.bind (Except.mapError _ (Logged.value _)) _ = _
    rw [hv]
    rfl
  | @misshapen o f found v m ho hf hdeps hv hshape =>
    rw [value_load ho, hf, hdeps]
    change Except.bind (Except.mapError _ (Logged.value _)) _ = _
    rw [hv]
    change (commandOf f v).map _ = _
    rw [commandOf, hshape, Literal.path_optionFragment hf]
    rfl

/-- A file is accepted or fails at one of its stages. -/
theorem accepted_or_fails (fs : FileSystem) (c : Context) (path : String) :
    Accepted fs c path ∨ ∃ e, Fails fs c path e := by
  cases hread : fs.read path with
  | error cause => exact .inr ⟨_, .unread hread⟩
  | ok text =>
  cases hparse : Outline.read (Dialect.ofExtension (Path.extension? path)) text with
  | error p => exact .inr ⟨_, .unparsed hread hparse⟩
  | ok o =>
  have ho : Outlined fs path o := ⟨text, hread, hparse⟩
  cases hf : (Literal.optionFragment path o).value with
  | error r => exact .inr ⟨_, .unusable ho hf⟩
  | ok found =>
  cases found with
  | none => exact .inl ⟨o, ho, .inl hf⟩
  | some f =>
  cases hdeps : Literal.dependencies o with
  | error r => exact .inr ⟨_, .dependencies ho hf hdeps⟩
  | ok found =>
  cases hv : (f.evaluate c.globals c.cwd).value with
  | error r => exact .inr ⟨_, .unevaluated ho hf hdeps hv⟩
  | ok v =>
  cases hshape : Command.ofJson v.toJson with
  | error m => exact .inr ⟨_, .misshapen ho hf hdeps hv hshape⟩
  | ok command => exact .inl ⟨o, ho, .inr ⟨f, found, v, command, hf, hdeps, hv, hshape⟩⟩

theorem load_eq_error : (load fs c path).run.value = .error e ↔ Fails fs c path e := by
  refine ⟨fun h => ?_, load_of_fails⟩
  obtain haccepted | ⟨e', hfails⟩ := accepted_or_fails fs c path
  · obtain ⟨found, hfound⟩ := load_of_accepted haccepted
    cases hfound.symm.trans h
  · cases (load_of_fails hfails).symm.trans h
    exact hfails

theorem load_isOk : (∃ found, (load fs c path).run.value = .ok found) ↔ Accepted fs c path := by
  refine ⟨fun ⟨found, hfound⟩ => ?_, load_of_accepted⟩
  obtain haccepted | ⟨e, hfails⟩ := accepted_or_fails fs c path
  · exact haccepted
  · cases (load_of_fails hfails).symm.trans hfound

theorem path_rejection (fault : Literal.Fault) (path : String) (generated : Option String) :
    (fault.rejection path generated).path = path := by
  cases fault <;> rfl

theorem path_of_evaluate {f : Literal.Fragment} {globals : Record Value} {directory : String}
    {r : Literal.Rejection} (h : (f.evaluate globals directory).value = .error r) :
    r.path = f.path := by
  unfold Literal.Fragment.evaluate at h
  dsimp only at h
  split at h
  · cases h
  · cases h
    exact path_rejection _ _ _

/-- The error of a file is about that file. -/
theorem Fails.path?_eq (h : Fails fs c path e) : e.path? = some path := by
  cases h with
  | unevaluated ho hf hdeps hv =>
    exact congrArg some ((path_of_evaluate hv).trans (Literal.path_optionFragment hf))
  | _ => rfl

/-! ## Runs -/

variable {tree : Command} {files : List String}

theorem addFile_isOk : (∃ result, (addFile fs c tree path).run.value = .ok result) ↔
    Accepted fs c path := by
  rw [← load_isOk, addFile, Logged.value_run_bind]
  cases (load fs c path).run.value with
  | error e => simp [Except.bind]
  | ok found => cases found <;> simp [Except.bind]

theorem addFile_eq_error : (addFile fs c tree path).run.value = .error e ↔ Fails fs c path e := by
  rw [← load_eq_error, addFile, Logged.value_run_bind]
  cases (load fs c path).run.value with
  | error e => simp [Except.bind]
  | ok found => cases found <;> simp [Except.bind]

/-- A tree comes of some files just if all of them are accepted. -/
theorem addFiles_isOk : (∃ result, (addFiles fs c tree files).run.value = .ok result) ↔
    ∀ path ∈ files, Accepted fs c path := by
  induction files generalizing tree with
  | nil => exact ⟨fun _ => nofun, fun _ => ⟨tree, rfl⟩⟩
  | cons path rest ih =>
    simp only [addFiles_cons, Logged.bind_eq_ok, List.forall_mem_cons]
    constructor
    · rintro ⟨result, next, hnext, hrest⟩
      exact ⟨addFile_isOk.mp ⟨next, hnext⟩, ih.mp ⟨result, hrest⟩⟩
    · rintro ⟨haccepted, hall⟩
      obtain ⟨next, hnext⟩ := addFile_isOk.mpr haccepted
      obtain ⟨result, hrest⟩ := ih.mpr hall
      exact ⟨result, next, hnext, hrest⟩

/-- What ends a discovery is the fault of the first file that is not accepted. -/
theorem addFiles_eq_error : (addFiles fs c tree files).run.value = .error e ↔
    ∃ before path after, files = before ++ path :: after ∧ (∀ p ∈ before, Accepted fs c p) ∧
      Fails fs c path e := by
  induction files generalizing tree with
  | nil => exact ⟨nofun, fun ⟨before, path, after, h, _⟩ => by cases before <;> cases h⟩
  | cons path rest ih =>
    rw [addFiles_cons, Logged.value_run_bind]
    constructor
    · intro h
      cases hfirst : (addFile fs c tree path).run.value with
      | error e' =>
        rw [hfirst] at h
        cases h
        exact ⟨[], path, rest, rfl, nofun, addFile_eq_error.mp hfirst⟩
      | ok next =>
        rw [hfirst] at h
        obtain ⟨before, other, after, rfl, haccepted, hfails⟩ := ih.mp h
        have hpath := addFile_isOk.mp ⟨next, hfirst⟩
        exact ⟨path :: before, other, after, rfl,
          List.forall_mem_cons.mpr ⟨hpath, haccepted⟩, hfails⟩
    · rintro ⟨before, other, after, hfiles, haccepted, hfails⟩
      cases before with
      | nil =>
        obtain ⟨rfl, rfl⟩ := List.cons.inj hfiles
        rw [addFile_eq_error.mpr hfails]
        rfl
      | cons first before =>
        obtain ⟨rfl, rfl⟩ := List.cons.inj hfiles
        obtain ⟨hpath, hbefore⟩ := List.forall_mem_cons.mp haccepted
        obtain ⟨next, hnext⟩ := addFile_isOk.mpr hpath
        rw [hnext]
        exact ih.mpr ⟨before, other, after, rfl, hbefore, hfails⟩

section Found

variable (hfiles : commandFiles fs c = .ok files)
include hfiles

theorem value_discover : (discover fs c).run.value =
    (addFiles fs c Command.empty files).run.value := by
  rw [discover, hfiles]
  exact Logged.value_run_bind

end Found

end Discovery

namespace Program

open CommandLine (Reserved)

variable {m : Type → Type} [Monad m] [LawfulMonad m]

/-- What an invocation runs in, once its configuration has been loaded. -/
def Setting.context (s : Setting) (config : Config) : Context :=
  ⟨named s.binaryName config, s.cwd, s.home⟩

/-! ## Runs that end with the discovery -/

theorem run_getThe_bind {β : Type} (next : FileSystem → Run m β) (fs : FileSystem) :
    (getThe FileSystem >>= next : Run m β).run.run fs = (next fs).run.run fs := by
  have hget : (getThe FileSystem : Run m FileSystem).run.run fs = pure (.ok fs, fs) := by
    change (ExceptT.lift (get : StateT FileSystem m FileSystem)).run.run fs = _
    simp
  rw [ExceptT.run_bind, StateT.run_bind, hget, pure_bind]

theorem run_ofExcept_bind {ε α β : Type} (wrap : ε → ProgramError) {r : Except ε α} {a : α}
    (hr : r = .ok a) (next : α → Run m β) (fs : FileSystem) :
    (ofExcept wrap r >>= next).run.run fs = (next a).run.run fs := by
  rw [ExceptT.run_bind, StateT.run_bind, hr]
  simp [ofExcept, Except.mapError]

theorem run_warnAll (w : Surroundings m) (warnings : List Warning) (fs : FileSystem) :
    (warnAll w warnings).run.run fs = do
      warnings.forM w.warn
      return (.ok (), fs) := by
  induction warnings with
  | nil => simp [warnAll]
  | cons warning rest ih => simp [warnAll, effect, ih]

/-- A result that comes with warnings is gone on with after the warnings, and files stay. -/
theorem run_ofLogged {ε α : Type} (w : Surroundings m) (wrap : ε → ProgramError)
    (r : ExceptT ε Logged α) (fs : FileSystem) :
    (ofLogged w wrap r).run.run fs = do
      r.run.warnings.forM w.warn
      return (r.run.value.mapError wrap, fs) := by
  rw [ofLogged, ExceptT.run_bind, StateT.run_bind, run_warnAll]
  simp [ofExcept]

/-- A run that was to go on with a result that is an error ends after the warnings. -/
theorem run_ofLogged_bind {ε α β : Type} (w : Surroundings m) (wrap : ε → ProgramError)
    {r : ExceptT ε Logged α} {e : ε} (hr : r.run.value = .error e) (next : α → Run m β)
    (fs : FileSystem) : (ofLogged w wrap r >>= next).run.run fs = do
      r.run.warnings.forM w.warn
      return (.error (wrap e), fs) := by
  rw [ExceptT.run_bind, StateT.run_bind, run_ofLogged, hr]
  simp [Except.mapError]

section Failing

variable {fs : FileSystem} {c : Context} {e : DiscoveryError}
  (hfails : (Discovery.discover fs c).run.value = .error e)
include hfails

theorem run_writeCache (w : Surroundings m) : (writeCache w c).run.run fs = do
    (Discovery.discover fs c).run.warnings.forM w.warn
    return (.error (.discovery e), fs) := by
  rw [writeCache, run_getThe_bind, run_ofLogged_bind w _ hfails]

theorem run_loadTree (w : Surroundings m) (next : Command → Run m Int) :
    (loadTree w c true >>= next).run.run fs = do
      (Discovery.discover fs c).run.warnings.forM w.warn
      return (.error (.discovery e), fs) := by
  have hnone : warnAll w [] = pure () := rfl
  rw [loadTree, bind_assoc, run_getThe_bind]
  dsimp only
  rw [if_pos rfl, hnone, pure_bind]
  exact run_ofLogged_bind w _ hfails next fs

end Failing

/-- An invocation in which one flag alone is reserved goes straight to what the flag asks for. -/
theorem run_of_split {fs : FileSystem} {s : Setting} {config : Config} {flags : Reserved}
    {arguments rest : List String} (hsplit : Reserved.split arguments = .ok (flags, rest))
    (hplain : flags.configure = none) (hconfig : Config.load fs s.configFile s.cwd = .ok config)
    (w : Surroundings m) : (run w s arguments).run.run fs =
      (runIn w (s.context config) flags rest).run.run fs := by
  rw [run, run_ofExcept_bind _ hsplit]
  simp only [hplain]
  rw [run_getThe_bind, run_ofExcept_bind _ hconfig, Setting.context]

end Program

namespace Discovery

open CommandLine (Reserved)
open Program (Setting)

/-- **A discovery is all or nothing.** If the files below the command root can be listed, it succeeds
just if every file is read and parsed, its exports can be used, and it exports no options or has
literal dependencies and an option literal with a value of the shape of a command. Otherwise it fails
with the error of the first file that is not accepted, which is about that file. A run that was to
write the cache, and one that was to discover the tree anew for a command, then give the warnings of
the discovery and fail; they do nothing else, so all files stay as they were and nothing is started. -/
theorem discover_all_or_nothing {m : Type → Type} [Monad m] [LawfulMonad m] {fs : FileSystem}
    {c : Context} {files : List String} (hfiles : commandFiles fs c = .ok files) :
    ((∃ tree, (discover fs c).run.value = .ok tree) ↔ ∀ path ∈ files, Accepted fs c path) ∧
    (∀ e, (discover fs c).run.value = .error e ↔
      ∃ before path after, files = before ++ path :: after ∧ (∀ p ∈ before, Accepted fs c p) ∧
        Fails fs c path e) ∧
    (∀ path e, Fails fs c path e → ¬ Accepted fs c path ∧ e.path? = some path) ∧
    ∀ e, (discover fs c).run.value = .error e →
      ∀ (w : Surroundings m) (s : Setting) (config : Config) (arguments rest : List String),
        Config.load fs s.configFile s.cwd = .ok config → c = s.context config →
        (Reserved.split arguments = .ok ({ writeCache := true }, rest) ∨
          Reserved.split arguments = .ok ({ fresh := true }, rest)) →
        (Program.run w s arguments).run.run fs = do
          (discover fs c).run.warnings.forM w.warn
          return (.error (.discovery e), fs) := by
  have hvalue := value_discover hfiles
  refine ⟨hvalue ▸ addFiles_isOk, fun e => hvalue ▸ addFiles_eq_error,
    fun path e hfails => ⟨fun haccepted => ?_, hfails.path?_eq⟩,
    fun e he w s config arguments rest hconfig hc hsplit => ?_⟩
  · obtain ⟨found, hfound⟩ := load_of_accepted haccepted
    cases hfound.symm.trans (load_of_fails hfails)
  · subst hc
    rcases hsplit with hsplit | hsplit
    · rw [Program.run_of_split hsplit rfl hconfig]
      exact Program.run_writeCache he w
    · rw [Program.run_of_split hsplit rfl hconfig]
      exact Program.run_loadTree he w _

/-! A project with a file that is accepted and one whose text ends too early. -/

def brokenFile : FileSystem :=
  projectWith [("a.js", .file (.text "export const OPTS = \x7b name: 'a' \x7d;")),
    ("b.js", .file (.text "export const OPTS = \x7b name: 'b',"))]

def projectSetting : Setting := ⟨"zli", none, "/w", "/home/u"⟩

def brokenContext : Context := projectSetting.context (Config.anchored "/w")

/-- Surroundings that answer nothing. -/
def quiet : Surroundings Id where
  absolute path := .ok path
  capture _ := .error .permissionDenied
  start _ := .error .permissionDenied
  print _ := ()
  warn _ := ()
  complain _ := ()

/-- The text of the second file ends where a property should come. -/
def brokenError : DiscoveryError :=
  .unparsed "/w/zli_commands/commands/b.js" "OPTS" 1 33

/-- The error of a computation that fails. -/
def errorOf? {ε α : Type} : Except ε α → Option ε
  | .ok _ => none
  | .error e => some e

theorem eq_error_of_errorOf? {ε α : Type} {r : Except ε α} {e : ε} (h : errorOf? r = some e) :
    r = .error e := by
  cases r with
  | ok a => cases h
  | error e' => exact congrArg Except.error (Option.some.inj h)

theorem fails_brokenFile :
    Fails brokenFile brokenContext "/w/zli_commands/commands/b.js" brokenError := by
  have hread : brokenFile.read "/w/zli_commands/commands/b.js" =
      .ok "export const OPTS = \x7b name: 'b'," := eq_ok_of_toOption (by decide +kernel)
  have hparse : Script.Outline.read
      (Script.Dialect.ofExtension (Path.extension? "/w/zli_commands/commands/b.js"))
      "export const OPTS = \x7b name: 'b'," = .error ⟨1, 33⟩ :=
    eq_error_of_errorOf? (by decide +kernel)
  exact .unparsed hread hparse

theorem discover_all_or_nothing_of_broken_file :
    LawfulMonad Id ∧
    commandFiles brokenFile brokenContext =
      .ok ["/w/zli_commands/commands/a.js", "/w/zli_commands/commands/b.js"] ∧
    (discover brokenFile brokenContext).run.value = .error brokenError ∧
    (¬ Accepted brokenFile brokenContext "/w/zli_commands/commands/b.js" ∧
      brokenError.path? = some "/w/zli_commands/commands/b.js") ∧
    Config.load brokenFile projectSetting.configFile projectSetting.cwd =
      .ok (Config.anchored "/w") ∧
    Reserved.split ["--write-cache"] = .ok ({ writeCache := true }, []) ∧
    Reserved.split ["sub", "--fresh", "x"] = .ok ({ fresh := true }, ["sub", "x"]) ∧
    ∀ arguments ∈ [["--write-cache"], ["sub", "--fresh", "x"]],
      (Program.run quiet projectSetting arguments).run.run brokenFile =
        (.error (.discovery brokenError), brokenFile) := by
  have hfiles : commandFiles brokenFile brokenContext =
      .ok (["/w/zli_commands/commands/a.js"] ++ "/w/zli_commands/commands/b.js" :: []) :=
    eq_ok_of_toOption (by decide +kernel)
  have haccepted : Accepted brokenFile brokenContext "/w/zli_commands/commands/a.js" := by
    obtain ⟨command, hcommand, -⟩ := exists_holds brokenFile brokenContext
      "/w/zli_commands/commands/a.js" Command.name "a" (by decide +kernel)
    exact load_isOk.mp ⟨_, hcommand⟩
  have hconfig : Config.load brokenFile projectSetting.configFile projectSetting.cwd =
      .ok (Config.anchored "/w") := eq_ok_of_toOption (by decide +kernel)
  have hwrite : Reserved.split ["--write-cache"] = .ok ({ writeCache := true }, []) :=
    eq_ok_of_toOption (by decide +kernel)
  have hfresh : Reserved.split ["sub", "--fresh", "x"] = .ok ({ fresh := true }, ["sub", "x"]) :=
    eq_ok_of_toOption (by decide +kernel)
  obtain ⟨-, herror, habout, hrun⟩ := discover_all_or_nothing (m := Id) hfiles
  have hdiscover := (herror brokenError).mpr
    ⟨_, _, _, rfl, List.forall_mem_singleton.mpr haccepted, fails_brokenFile⟩
  refine ⟨inferInstance, hfiles, hdiscover, habout _ _ fails_brokenFile, hconfig, hwrite, hfresh,
    List.forall_mem_cons.mpr ⟨?_, List.forall_mem_singleton.mpr ?_⟩⟩
  · exact hrun _ hdiscover quiet projectSetting _ _ _ hconfig rfl (.inl hwrite)
  · exact hrun _ hdiscover quiet projectSetting _ _ _ hconfig rfl (.inr hfresh)

end Discovery

end CommandFiles
