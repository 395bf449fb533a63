import CommandFiles.Proofs.DataText
import CommandFiles.Proofs.WrittenFiles

/-! # Trees kept and had back

The file that keeps a tree has the tree as its default export, behind two lines of comments. The
expression there comes to a value that is written as the tree is, so the tree is read out of it
again: the default values of a discovered tree are documents in order, and what is written of such
a tree determines it. What is needed of the tree is that its numbers and the texts of its functions
can be had back, and that the file has the name of a plain module. A hook that gives its parameter
a type shows that the texts cannot always be had back: it may be discovered, but no plain module
holds it. -/
namespace CommandFiles

open Script Script.Reader

namespace Script

variable {words text : List Char}

theorem skipTrivia_lineComment (h : words.any isLineEnd = false) (ended : Bool) :
    skipTrivia .lineComment ended (words ++ '\n' :: text) = skipTrivia .between true text := by
  induction words with
  | nil => rfl
  | cons c rest ih =>
    rw [List.any_cons, Bool.or_eq_false_iff] at h
    rw [List.cons_append, skipTrivia, h.1]
    exact ih h.2

theorem skipTrivia_comment (h : words.any isLineEnd = false) (ended : Bool) :
    skipTrivia .between ended ('/' :: '/' :: (words ++ '\n' :: text)) =
      skipTrivia .between true text := by
  rw [skipTrivia]
  exact skipTrivia_lineComment h ended

end Script

/-! ## Literals of commands -/

namespace Command

theorem not_isFunction_orderedMembers (d : Declaration) (subs : List Command) :
    ¬ Json.IsFunction (orderedMembers d subs) := by
  rintro ⟨source, h⟩
  have hname : ("name", Json.string d.name) ∈ orderedMembers d subs := by simp [orderedMembers]
  rw [h, List.mem_singleton] at hname
  exact absurd (Prod.mk.inj hname).1 (by decide)

/-- The literal of a command is an object. -/
theorem exists_source {tree : Command} (h : tree.toJson.InOrder) :
    ∃ text, (Value.ofJson tree.toJson).source.toList = '{' :: text := by
  obtain ⟨d, subs⟩ := tree
  rw [toJson_eq] at h ⊢
  cases h with
  | object hordered _ =>
    rw [Value.ofJson_object (not_isFunction_orderedMembers d subs) hordered.nodup, Value.source,
      Value.toList_sourceAt_object]
    exact ⟨_, rfl⟩

end Command

namespace Cache

open Literal Discovery

variable {fs disk disk' : FileSystem} {c : Context} {path : String} {tree : Command}

/-! ## The file that keeps a tree -/

/-- The lines that a cache begins with are comments. -/
theorem toList_textOf (tree : Command) : (textOf tree).toList =
    '/' :: '/' :: (" zli command cache (schema 1, zli 0.3.0).".toList ++
      '\n' :: '/' :: '/' :: (" Generated file; rebuild with `--write-cache`.".toList ++
        '\n' :: defaultExport (Value.ofJson tree.toJson).source.toList ['\n'])) := by
  have hheading : heading.toList = '/' :: '/' ::
      (" zli command cache (schema 1, zli 0.3.0).".toList ++
        '\n' :: '/' :: '/' :: " Generated file; rebuild with `--write-cache`.".toList) := by
    decide
  simp [textOf, hheading, defaultExport_eq]

theorem skipTrivia_textOf (tree : Command) :
    skipTrivia .between false (skipInterpreterLine (textOf tree).toList) =
      .ok (true, defaultExport (Value.ofJson tree.toJson).source.toList ['\n']) := by
  have hfirst : " zli command cache (schema 1, zli 0.3.0).".toList.any isLineEnd = false := by
    decide
  have hsecond : " Generated file; rebuild with `--write-cache`.".toList.any isLineEnd = false := by
    decide
  rw [toList_textOf]
  change skipTrivia .between false ('/' :: '/' :: _) = _
  rw [skipTrivia_comment hfirst, skipTrivia_comment hsecond]
  exact skipTrivia_solid (isWord_export.solid.append _) true

theorem length_source_le (tree : Command) :
    (Value.ofJson tree.toJson).source.toList.length ≤ (textOf tree).toList.length := by
  rw [toList_textOf, defaultExport_eq]
  simp only [List.length_cons, List.length_append]
  omega

/-! ## Keeping and reading -/

theorem run_bind_of_ok {α β : Type} {x : Loading α} {a : α} (h : x.run = ⟨.ok a, []⟩)
    (f : α → Loading β) : (x >>= f).run = (f a).run := by
  change (x.run >>= _ : Logged _) = _
  rw [h]
  rfl

theorem ofExcept_eq_ok {α : Type} {r : Except CacheError α} {a : α} :
    (ofExcept r).run.value = .ok a ↔ r = .ok a := Iff.rfl

/-- A tree whose literal stands for it is read out of the file that keeps it. -/
theorem load_textOf (hread : disk.read path = .ok (textOf tree))
    (hdialect : Dialect.ofExtension (Path.extension? path) = ⟨false, false⟩)
    (hliteral : Reads true assignment (Value.ofJson tree.toJson).source.toList
      (StandsFor ⟨path, c.globals, c.cwd⟩ tree.toJson))
    (horder : tree.toJson.InOrder) (hsame : Command.ofJson tree.toJson = .ok tree) :
    (load disk c path).run = ⟨.ok tree, []⟩ := by
  obtain ⟨text, htext⟩ := Command.exists_source horder
  have hskip := skipTrivia_textOf tree
  have hlength := length_source_le tree
  rw [htext] at hliteral hskip hlength
  have hgap : IsGap ['\n'] := by simp [IsGap]
  obtain ⟨o, v, ⟨-, hv⟩, ho, hexport⟩ :=
    exists_outline_of c path (P := fun v => v ≠ .undefined ∧ v.toJson = tree.toJson) hliteral hgap
      hskip hlength
  have hfile : (ofExcept ((disk.read path).mapError .os)).run = ⟨.ok (textOf tree), []⟩ := by
    rw [hread]
    rfl
  have houtline : (ofExcept ((Outline.read (Dialect.ofExtension (Path.extension? path))
      (textOf tree)).mapError fun p => .unparsed path p.line p.column)).run = ⟨.ok o, []⟩ := by
    rw [hdialect, ho]
    rfl
  have hcommand : (ofExcept ((Command.ofJson v.toJson).mapError .mismatch)).run =
      ⟨.ok tree, []⟩ := by
    rw [hv, hsame]
    rfl
  rw [load, run_bind_of_ok hfile, run_bind_of_ok houtline, run_bind_of_ok hexport]
  exact hcommand

/-- **A discovered tree that is kept is had back**, without a warning, if its numbers and the texts
of its functions can be had back and it is kept as a plain module. -/
theorem load_of_save (hdiscover : (Discovery.discover fs c).run.value = .ok tree)
    (hdialect : Dialect.ofExtension (Path.extension? path) = ⟨false, false⟩)
    (hrestorable : Restorable ⟨path, c.globals, c.cwd⟩ tree.toJson)
    (hsave : save tree path disk = (.ok (), disk')) :
    (load disk' c path).run = ⟨.ok tree, []⟩ := by
  have hdefaults := Discovery.defaultsInOrder_of_discover hdiscover
  have horder := Command.inOrder_toJson tree hdefaults
  exact load_textOf (FileSystem.read_of_writeDeep hsave) hdialect
    (reads_json horder hrestorable 0) horder (Command.ofJson_toJson tree hdefaults)

/-- A project with one command, which has a hook. -/
def hookedCommand : FileSystem :=
  projectWith [("x.js", .file (.text
    "export const OPTS = \x7b name: 'x', validate: entry => [] \x7d;"))]

theorem load_of_save_hooked :
    ∃ tree kept, (discover hookedCommand projectContext).run.value = .ok tree ∧
      Dialect.ofExtension (Path.extension? projectContext.cachePath) = ⟨false, false⟩ ∧
      Restorable ⟨projectContext.cachePath, projectContext.globals, projectContext.cwd⟩
        tree.toJson ∧
      save tree projectContext.cachePath hookedCommand = (.ok (), kept) ∧
      (load kept projectContext projectContext.cachePath).run = ⟨.ok tree, []⟩ := by
  have hpath : projectContext.cachePath = "/w/zli_commands/.zli-cache.js" := by decide
  rw [hpath]
  have hfiles : commandFiles hookedCommand projectContext =
      .ok ["/w/zli_commands/commands/x.js"] := eq_ok_of_toOption (by decide +kernel)
  obtain ⟨command, hholds, hlook⟩ := exists_holds hookedCommand projectContext
    "/w/zli_commands/commands/x.js"
    (fun command => ((treeWith command).toJson.functionTexts,
      (treeWith command).toJson.numbers.isEmpty,
      (save (treeWith command) "/w/zli_commands/.zli-cache.js" hookedCommand).1.toOption))
    (["entry => []"], true, some ()) (by decide +kernel)
  have hplace : Path.segmentsBelow projectContext.commandsRoot "/w/zli_commands/commands/x.js" =
      ["x.js"] := by decide +kernel
  have htree := discover_of_plain hfiles hholds hplace (by decide +kernel)
  simp only [Prod.mk.injEq] at hlook
  obtain ⟨htexts, hnumbers, hsaved⟩ := hlook
  have hdialect : Dialect.ofExtension (Path.extension? "/w/zli_commands/.zli-cache.js") =
      ⟨false, false⟩ := by decide
  have hrestorable : Restorable ⟨"/w/zli_commands/.zli-cache.js", projectContext.globals,
      projectContext.cwd⟩ (treeWith command).toJson := by
    constructor
    · rw [List.isEmpty_iff.mp hnumbers]
      nofun
    · rw [htexts, List.forall_mem_singleton]
      exact (embeds_entry _).restores
  have hsave : save (treeWith command) "/w/zli_commands/.zli-cache.js" hookedCommand =
      (.ok (), _) := Prod.ext (eq_ok_of_toOption hsaved) rfl
  exact ⟨_, _, htree, hdialect, hrestorable, hsave,
    load_of_save htree hdialect hrestorable hsave⟩

/-! ## A text that cannot be had back -/

/-- A project with one file, whose hook gives its parameter a type. -/
def typedHook : FileSystem :=
  projectWith [("index.ts", .file (.text
    "export const OPTS = \x7b name: 'x', validate: (args: any) => [] \x7d;"))]

/-- What an invocation in that project runs in. -/
def typedContext : Context :=
  ⟨{ Config.anchored "/w" with extensions := ["ts"] }, "/w", "/home/u"⟩

/-- The command of that file. -/
def typedCommand : Command :=
  .mk { name := "x", filePath := some "/w/zli_commands/commands/index.ts",
        validate := some ⟨"(args: any) => []"⟩ } []

theorem discover_typedHook : (discover typedHook typedContext).run.value = .ok typedCommand := by
  have hfiles : commandFiles typedHook typedContext =
      .ok ["/w/zli_commands/commands/index.ts"] := eq_ok_of_toOption (by decide +kernel)
  obtain ⟨⟨d, subs⟩, hholds, hlook⟩ := exists_holds typedHook typedContext
    "/w/zli_commands/commands/index.ts"
    (fun command => (command.declared.name, command.declared.filePath, command.declared.validate,
      command.declared.description.isNone && command.declared.secondName.isNone &&
      command.declared.options.isNone && command.declared.runtimeDemand.isNone &&
      command.declared.beforeRun.isNone && command.declared.showsHelp.isNone &&
      command.declared.dependencies.isNone && command.subcommands.isEmpty))
    ("x", some "/w/zli_commands/commands/index.ts", some ⟨"(args: any) => []"⟩, true)
    (by decide +kernel)
  have htree := discover_eq_ok.mpr ⟨_, hfiles, .merge hholds (.done _)⟩
  rw [show Path.segmentsBelow typedContext.commandsRoot "/w/zli_commands/commands/index.ts" =
      ["index.ts"] by decide, Command.merge_index _ (by decide)] at htree
  obtain ⟨name, description, secondName, filePath, options, runtimeDemand, beforeRun, validate,
    showsHelp, dependencies⟩ := d
  simp only [Prod.mk.injEq, Bool.and_eq_true, Option.isNone_iff_eq_none, List.isEmpty_iff,
    Command.declared, Command.subcommands] at hlook
  obtain ⟨rfl, rfl, rfl, ⟨⟨⟨⟨⟨⟨rfl, rfl⟩, rfl⟩, rfl⟩, rfl⟩, rfl⟩, rfl⟩, rfl⟩ := hlook
  exact htree

theorem ofJson_typedCommand : Value.ofJson typedCommand.toJson = .object ⟨[
    ("filePath", .string "/w/zli_commands/commands/index.ts"), ("name", .string "x"),
    ("subcommands", .array []), ("validate", .function "(args: any) => []")]⟩ := by
  have hmembers : typedCommand.toJson = .object [
      ("filePath", .string "/w/zli_commands/commands/index.ts"), ("name", .string "x"),
      ("subcommands", .array []), ("validate", Value.functionJson "(args: any) => []")] :=
    Command.toJson_eq _ _
  rw [hmembers, Value.ofJson_object (by rintro ⟨_, h⟩; simp at h) (by decide)]
  rfl

/-- A plain module does not hold the text of the hook. -/
theorem not_read_typedCommand :
    (Outline.read ⟨false, false⟩ (textOf typedCommand)).isOk = false := by
  have hkey : ∀ k ∈ ["filePath", "name", "subcommands", "validate"], Value.keySource k = k := by
    decide
  simp only [List.forall_mem_cons] at hkey
  obtain ⟨hfile, hname, hsubs, hvalidate, -⟩ := hkey
  unfold Outline.read
  rw [toList_textOf, ofJson_typedCommand, Value.source, Value.toList_sourceAt_object]
  simp only [List.map_cons, List.map_nil, hfile, hname, hsubs, hvalidate, Value.sourceAt,
    Json.quote, String.toList_ofList]
  decide +kernel

theorem typed_hook_not_loaded :
    ∃ tree kept, (discover typedHook typedContext).run.value = .ok tree ∧
      Dialect.ofExtension (Path.extension? typedContext.cachePath) = ⟨false, false⟩ ∧
      save tree typedContext.cachePath typedHook = (.ok (), kept) ∧
      ∀ read, (load kept typedContext typedContext.cachePath).run.value ≠ .ok read := by
  have hpath : typedContext.cachePath = "/w/zli_commands/.zli-cache.js" := by decide
  rw [hpath]
  have hdialect : Dialect.ofExtension (Path.extension? "/w/zli_commands/.zli-cache.js") =
      ⟨false, false⟩ := by decide
  have hsave : save typedCommand "/w/zli_commands/.zli-cache.js" typedHook = (.ok (), _) :=
    Prod.ext (eq_ok_of_toOption (by decide +kernel)) rfl
  refine ⟨typedCommand, _, discover_typedHook, hdialect, hsave, fun read hread => ?_⟩
  obtain ⟨text, htext, hread⟩ := Logged.bind_eq_ok.mp hread
  have htext := mapError_eq_ok.mp (ofExcept_eq_ok.mp htext)
  obtain rfl := Except.ok.inj ((FileSystem.read_of_writeDeep hsave).symm.trans htext)
  obtain ⟨o, ho, -⟩ := Logged.bind_eq_ok.mp hread
  have ho := mapError_eq_ok.mp (ofExcept_eq_ok.mp ho)
  have hunread := not_read_typedCommand
  rw [← hdialect, ho] at hunread
  cases hunread

end Cache

end CommandFiles
