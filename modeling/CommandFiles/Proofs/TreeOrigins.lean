import CommandFiles.Proofs.LoadedCommands
import CommandFiles.Proofs.TreeSteps

/-! # Where the commands of a tree come from

A tree is made of directories, of the commands of files, and of the commands that option literals
hold themselves. The path of a file is put into the command of its literal and nowhere else: what a
literal holds further down keeps the path that the literal gives it, if any. A property of what
commands declare is kept by a step if it holds of directories, of what the step lays over a command,
and of everything below the new command. -/
namespace CommandFiles

namespace Command

/-- Whether what every command of a tree declares has a property. -/
def Everywhere (P : Declaration → Prop) (tree : Command) : Prop :=
  ∀ depth node, tree.ContainsAt depth node → P node.declared

variable {P : Declaration → Prop} {c command : Command}

theorem everywhere_iff :
    Everywhere P c ↔ P c.declared ∧ ∀ sub ∈ c.subcommands, Everywhere P sub := by
  constructor
  · intro h
    exact ⟨h 0 c (.self c), fun sub hsub depth node hnode =>
      h (depth + 1) node (.inside hsub hnode)⟩
  · rintro ⟨hown, hsubs⟩ depth node hnode
    cases hnode with
    | self => exact hown
    | inside hsub hnode => exact hsubs _ hsub _ _ hnode

theorem everywhere_placeholder (hdirectory : ∀ name, P { name := name }) (name : String) :
    Everywhere P (placeholder name) :=
  everywhere_iff.mpr ⟨hdirectory name, fun _ hsub => nomatch hsub⟩

section Merge

variable (hdirectory : ∀ name, P { name := name })
  (hover : ∀ below, P below → P (overlayDeclared below command.declared))
  (hbelow : ∀ sub ∈ command.subcommands, Everywhere P sub)

include hover hbelow in
theorem Everywhere.overlay (h : Everywhere P c) : Everywhere P (c.overlay command) := by
  obtain ⟨hown, hsubs⟩ := everywhere_iff.mp h
  refine everywhere_iff.mpr ⟨hover _ hown, fun sub hsub => ?_⟩
  exact (List.mem_append.mp hsub).elim (hsubs sub) (hbelow sub)

/-- Commands below a command are exchanged. -/
theorem Everywhere.withSubcommands {subs : List Command} (h : Everywhere P c)
    (hsubs : ∀ sub ∈ subs, Everywhere P sub) : Everywhere P (c.withSubcommands subs) :=
  everywhere_iff.mpr ⟨(everywhere_iff.mp h).1, hsubs⟩

include hdirectory hover hbelow in
/-- **A step keeps a property of all commands** if the new command brings it along. -/
theorem Everywhere.merge {segments : List String} (h : Everywhere P c) :
    Everywhere P (command.merge segments c) := by
  induction segments generalizing c with
  | nil =>
    rw [Command.merge]
    exact h.overlay hover hbelow
  | cons first rest ih =>
    have hsubs := (everywhere_iff.mp h).2
    cases rest with
    | nil =>
      by_cases hindex : isIndexFile first = true
      · rw [merge_index command hindex]
        exact h.overlay hover hbelow
      rw [merge_plain command (Bool.eq_false_iff.mpr hindex)]
      refine h.withSubcommands fun sub hsub => ?_
      obtain hold | ⟨before, hmem, -, -, rfl⟩ | ⟨below, rfl | hmem, rfl⟩ :=
        (stepped_place command c.subcommands).comes hsub
      · exact hsubs sub hold
      · exact (hsubs before hmem).overlay hover hbelow
      · exact (everywhere_placeholder hdirectory _).overlay hover hbelow
      · exact (hsubs below hmem).overlay hover hbelow
    | cons next more =>
      refine everywhere_iff.mpr ⟨?_, fun sub hsub => ?_⟩
      · rw [declared_merge_inside]
        exact (everywhere_iff.mp h).1
      obtain hold | ⟨before, hmem, -, rfl⟩ | rfl :=
        (stepped_merge command first next more c).comes hsub
      · exact hsubs sub hold
      · exact ih (hsubs before hmem)
      · exact ih (everywhere_placeholder hdirectory first)

end Merge

end Command

namespace Discovery

variable {fs : FileSystem} {c : Context} {files : List String} {tree command node : Command}

/-- A property of what commands declare holds in a discovered tree if it holds of directories and
every file brings it along. -/
theorem Assembled.everywhere {P : Declaration → Prop}
    (h : Assembled fs c Command.empty files tree) (hdirectory : ∀ name, P { name := name })
    (hfile : ∀ path ∈ files, ∀ command, Holds fs c path command →
      (∀ below, P below → P (Command.overlayDeclared below command.declared)) ∧
        ∀ sub ∈ command.subcommands, sub.Everywhere P) : tree.Everywhere P :=
  h.keeps (Command.everywhere_placeholder hdirectory "") fun path hpath command hholds _ htree =>
    htree.merge hdirectory (hfile path hpath command hholds).1 (hfile path hpath command hholds).2

/-- **Every command of a discovered tree stands for a directory, or it has the name and the path of
a file that was found, or it is one that the option literal of such a file holds further down**,
just as the literal has it. -/
theorem origin_of_node {depth : Nat} (h : (discover fs c).run.value = .ok tree)
    (hnode : tree.ContainsAt depth node) :
    ∃ files, commandFiles fs c = .ok files ∧
      (node.declared = { name := node.name } ∨
        (∃ path ∈ files, ∃ command, Holds fs c path command ∧ node.name = command.name ∧
          node.filePath = some path) ∨
        ∃ path ∈ files, ∃ command level inner, Holds fs c path command ∧
          command.ContainsAt (level + 1) inner ∧ node.declared = inner.declared) := by
  obtain ⟨files, hfiles, hassembled⟩ := discover_eq_ok.mp h
  refine ⟨files, hfiles, ?_⟩
  refine hassembled.everywhere
    (P := fun d => d = { name := d.name } ∨
      (∃ path ∈ files, ∃ command, Holds fs c path command ∧ d.name = command.name ∧
        d.filePath = some path) ∨
      ∃ path ∈ files, ∃ command level inner, Holds fs c path command ∧
        command.ContainsAt (level + 1) inner ∧ d = inner.declared)
    (fun _ => .inl rfl) (fun path hpath command hholds => ⟨fun below _ => ?_, ?_⟩) depth node hnode
  · refine .inr (.inl ⟨path, hpath, command, hholds, rfl, ?_⟩)
    change (command.filePath <|> below.filePath) = some path
    rw [filePath_of_holds hholds]
    rfl
  · exact fun sub hsub level inner hinner =>
      .inr (.inr ⟨path, hpath, command, level, inner, hholds, .inside hsub hinner, rfl⟩)

/-- The tree with one command. -/
def treeWith (command : Command) : Command :=
  Command.empty.withSubcommands (Command.place command Command.empty.subcommands)

/-- The tree of a project with one file, which is no index file. -/
theorem discover_of_plain {path name : String} {command : Command}
    (hfiles : commandFiles fs c = .ok [path]) (hholds : Holds fs c path command)
    (hplace : Path.segmentsBelow c.commandsRoot path = [name])
    (hplain : Command.isIndexFile name = false) :
    (discover fs c).run.value = .ok (treeWith command) := by
  have htree := discover_eq_ok.mpr ⟨_, hfiles, .merge hholds (.done _)⟩
  rwa [hplace, Command.merge_plain command hplain] at htree

/-- A file whose option literal holds other commands. -/
def nestedCommands : FileSystem :=
  projectWith [("x.js", .file (.text ("export const OPTS = \x7b name: 'x', subcommands: " ++
    "[\x7b name: 'y' \x7d, \x7b name: 'z', filePath: '/elsewhere.js' \x7d] \x7d;")))]

/-- The command of that file lies below the root as it is. -/
theorem exists_nestedCommands :
    ∃ tree command : Command, (discover nestedCommands projectContext).run.value = .ok tree ∧
      (∀ sub ∈ command.subcommands, tree.ContainsAt 2 sub) ∧
      command.subcommands.map (fun sub => (sub.name, sub.filePath)) =
        [("y", none), ("z", some "/elsewhere.js")] := by
  have hfiles : commandFiles nestedCommands projectContext =
      .ok ["/w/zli_commands/commands/x.js"] := eq_ok_of_toOption (by decide +kernel)
  obtain ⟨command, hholds, hlook⟩ := exists_holds nestedCommands projectContext
    "/w/zli_commands/commands/x.js"
    (fun c => c.subcommands.map fun sub => (sub.name, sub.filePath))
    [("y", none), ("z", some "/elsewhere.js")] (by decide +kernel)
  have hplace : Path.segmentsBelow projectContext.commandsRoot "/w/zli_commands/commands/x.js" =
      ["x.js"] := by decide +kernel
  have htree := discover_of_plain hfiles hholds hplace (by decide +kernel)
  refine ⟨_, command, htree, fun sub hsub => ?_, hlook⟩
  have hplaced : (Command.placeholder command.name).overlay command ∈
      Command.place command Command.empty.subcommands := by
    simp [Command.place, Command.empty, Command.placeholder, Command.subcommands]
  exact .inside hplaced (.inside (by simpa [Command.placeholder, Command.subcommands]) (.self sub))

theorem origin_of_nested_command :
    ∃ tree node files, (discover nestedCommands projectContext).run.value = .ok tree ∧
      tree.ContainsAt 2 node ∧ commandFiles nestedCommands projectContext = .ok files ∧
      (node.declared = { name := node.name } ∨
        (∃ path ∈ files, ∃ command, Holds nestedCommands projectContext path command ∧
          node.name = command.name ∧ node.filePath = some path) ∨
        ∃ path ∈ files, ∃ command level inner, Holds nestedCommands projectContext path command ∧
          command.ContainsAt (level + 1) inner ∧ node.declared = inner.declared) := by
  obtain ⟨tree, command, htree, hbelow, hlook⟩ := exists_nestedCommands
  have hmem : ("y", none) ∈ command.subcommands.map fun sub => (sub.name, sub.filePath) := by
    rw [hlook]
    exact List.mem_cons_self
  obtain ⟨node, hnode, -⟩ := List.mem_map.mp hmem
  obtain ⟨files, horigin⟩ := origin_of_node htree (hbelow node hnode)
  exact ⟨tree, node, files, htree, hbelow node hnode, horigin⟩

/-- What a literal holds further down has no path, or the path of some other file. -/
theorem nested_command_elsewhere :
    ∃ tree y z, (discover nestedCommands projectContext).run.value = .ok tree ∧
      tree.ContainsAt 2 y ∧ y.name = "y" ∧ y.filePath = none ∧
      tree.ContainsAt 2 z ∧ z.name = "z" ∧ z.filePath = some "/elsewhere.js" := by
  obtain ⟨tree, command, htree, hbelow, hlook⟩ := exists_nestedCommands
  have hmem : ∀ own ∈ [("y", none), ("z", some "/elsewhere.js")],
      ∃ sub ∈ command.subcommands, (sub.name, sub.filePath) = own := by
    rw [← hlook]
    exact fun own => List.mem_map.mp
  obtain ⟨y, hy, hyown⟩ := hmem ("y", none) (by simp)
  obtain ⟨z, hz, hzown⟩ := hmem ("z", some "/elsewhere.js") (by simp)
  obtain ⟨hyname, hypath⟩ := Prod.mk.inj hyown
  obtain ⟨hzname, hzpath⟩ := Prod.mk.inj hzown
  exact ⟨tree, y, z, htree, hbelow y hy, hyname, hypath, hbelow z hz, hzname, hzpath⟩

end Discovery

end CommandFiles
