import CommandFiles.Proofs.LoadedCommands
import CommandFiles.Proofs.TreeAssembly
import CommandFiles.Proofs.TreeSteps

/-! # Which files are still in the tree

The command of a file that is not an index file gets a node of its own, with the path of the file.
Later files leave that node alone, with one exception: a directory is looked up by the names that
commands declare, so the index file of a directory may be laid over the command of another file. -/
namespace CommandFiles

namespace Command

variable {command node : Command}

/-- Whether a file has a node of its own at some depth of a tree, under the name it declares. -/
def HasNode (path name : String) (depth : Nat) (tree : Command) : Prop :=
  ∃ node, tree.ContainsAt depth node ∧ node.name = name ∧ node.filePath = some path

/-- The command of a plain file has a node with its name and its path, as deep as its file lies. -/
theorem hasNode_merge {file path : String} (hfile : isIndexFile file = false)
    (hpath : command.filePath = some path) (directories : List String) (tree : Command) :
    HasNode path command.name (directories.length + 1)
      (command.merge (directories ++ [file]) tree) := by
  have hover : ∀ below : Command, (below.overlay command).filePath = some path := fun below => by
    change (command.filePath <|> below.filePath) = some path
    rw [hpath]
    rfl
  induction directories generalizing tree with
  | nil =>
    obtain ⟨node, hnode, hnew⟩ := (stepped_place command tree.subcommands).arrives
    obtain ⟨below, rfl⟩ : ∃ below : Command, node = below.overlay command := by
      rcases hnew with ⟨below, -, rfl⟩ | ⟨below, -, -, -, rfl⟩ <;> exact ⟨below, rfl⟩
    rw [List.nil_append, merge_plain command hfile]
    exact ⟨_, .inside hnode (.self _), rfl, hover below⟩
  | cons directory rest ih =>
    obtain ⟨next, more, hnext⟩ := List.exists_cons_of_ne_nil
      (List.append_ne_nil_of_right_ne_nil rest (List.cons_ne_nil file []))
    obtain ⟨sub, hsub, hnew⟩ := (stepped_merge command directory next more tree).arrives
    obtain ⟨start, rfl⟩ : ∃ start, sub = command.merge (next :: more) start := by
      rcases hnew with rfl | ⟨start, -, -, rfl⟩ <;> exact ⟨_, rfl⟩
    rw [← hnext] at hsub
    obtain ⟨node, hnode, hown⟩ := ih start
    rw [List.cons_append, hnext, ← hnext]
    exact ⟨node, .inside hsub hnode, hown⟩

theorem containsAt_overlay {depth : Nat} {tree : Command} (h : tree.ContainsAt (depth + 1) node)
    (command : Command) : (tree.overlay command).ContainsAt (depth + 1) node := by
  cases h with
  | inside hsub h => exact .inside (List.mem_append_left _ hsub) h

/-- A plain file leaves all nodes with a file as they are: it goes over placeholders only. -/
theorem containsAt_merge_plain {depth : Nat} {tree : Command} {file : String}
    (hplain : isIndexFile file = false) (hfile : node.isPlaceholder = false)
    (h : tree.ContainsAt (depth + 1) node) :
    (command.merge [file] tree).ContainsAt (depth + 1) node := by
  rw [merge_plain command hplain]
  cases h with
  | inside hsub h =>
    rcases (stepped_place command tree.subcommands).stays hsub with
      hstays | ⟨_, hnew, -, hplaceholder, rfl⟩
    · exact .inside hstays h
    cases h with
    | self => rw [hfile] at hplaceholder; cases hplaceholder
    | inside hbelow h => exact .inside hnew (containsAt_overlay (.inside hbelow h) command)

/-- **A node with a file stays in the tree** with all it declares, unless the index file of a
directory that it stands for is taken. -/
theorem containsAt_merge (command : Command) {depth : Nat} {tree : Command} {segments : List String}
    (hfile : node.isPlaceholder = false) (h : tree.ContainsAt (depth + 1) node)
    (hmiss : ∀ directories directory file, segments = directories ++ [directory, file] →
      directories.length = depth → isIndexFile file = true → node.standsFor directory = false) :
    ∃ node', (command.merge segments tree).ContainsAt (depth + 1) node' ∧
      node'.declared = node.declared := by
  induction segments generalizing depth tree with
  | nil =>
    rw [merge]
    exact ⟨node, containsAt_overlay h command, rfl⟩
  | cons first rest ih =>
    cases rest with
    | nil =>
      by_cases hindex : isIndexFile first = true
      · exact ⟨node, merge_index command hindex tree ▸ containsAt_overlay h command, rfl⟩
      · exact ⟨node, containsAt_merge_plain (Bool.eq_false_iff.mpr hindex) hfile h, rfl⟩
    | cons next more =>
      obtain _ | ⟨hsub, hbelow⟩ := h
      rcases (stepped_merge command first next more tree).stays hsub with
        hstays | ⟨_, hnew, hfits, rfl⟩
      · exact ⟨node, .inside hstays hbelow, rfl⟩
      cases depth with
      | zero =>
        -- The way leads through the node itself, so the file does not describe its directory.
        cases hbelow
        refine ⟨_, .inside hnew (.self _), ?_⟩
        cases more with
        | nil =>
          have hplain : isIndexFile next = false := by
            by_contra hindex
            have := hmiss [] first next rfl rfl (by simpa using hindex)
            rw [hfits] at this
            cases this
          rw [merge_plain command hplain]
          rfl
        | cons last others => exact declared_merge_inside command next last others node
      | succ depth =>
        obtain ⟨node', hnode', hdeclared⟩ := ih hbelow
          fun directories directory file hsegments hlength =>
            hmiss (first :: directories) directory file (hsegments ▸ rfl)
              (congrArg (· + 1) hlength)
        exact ⟨node', .inside hnew hnode', hdeclared⟩

end Command

namespace Discovery

variable {fs : FileSystem} {c : Context}

/-- Whether a file is the index file of a directory, at some depth below the command root, that a
command stands for. -/
def IsIndexOver (fs : FileSystem) (c : Context) (command : Command) (depth : Nat)
    (path : String) : Prop :=
  ∃ index directories directory file, Holds fs c path index ∧
    Path.segmentsBelow c.commandsRoot path = directories ++ [directory, file] ∧
    directories.length = depth ∧ Command.isIndexFile file = true ∧
    command.standsFor directory = true

/-- **The command of every plain file has a node with the path of the file**, as deep as the file
lies, unless a file taken later is the index file of a directory that this command stands for. -/
theorem exists_node_of_file {tree command : Command} {path name : String}
    {before after directories : List String} (h : (discover fs c).run.value = .ok tree)
    (hfiles : commandFiles fs c = .ok (before ++ path :: after))
    (hholds : Holds fs c path command)
    (hplace : Path.segmentsBelow c.commandsRoot path = directories ++ [name])
    (hplain : Command.isIndexFile name = false) :
    (∃ node, tree.ContainsAt (directories.length + 1) node ∧ node.filePath = some path) ∨
      ∃ later ∈ after, IsIndexOver fs c command directories.length later := by
  obtain ⟨files, hfiles', hassembled⟩ := discover_eq_ok.mp h
  cases hfiles.symm.trans hfiles'
  obtain ⟨between, -, hafter⟩ := hassembled.split hholds
  have hpath := filePath_of_holds hholds
  refine or_iff_not_imp_right.mpr fun hlater => ?_
  have hstart := Command.hasNode_merge hplain hpath directories between
  rw [← hplace] at hstart
  obtain ⟨node, hcontains, -, hfile⟩ := hafter.keeps hstart
    fun later hmem index hindex tree ⟨node, hcontains, hname, hfile⟩ => by
      have hstands (directory : String) :
          node.standsFor directory = command.standsFor directory := by
        rw [Command.standsFor, Command.standsFor, hname, Command.indexDirectory?_of_filePath hfile,
          Command.indexDirectory?_of_filePath hpath]
      obtain ⟨node', hcontains', hdeclared⟩ := Command.containsAt_merge index
        (by rw [Command.isPlaceholder, hfile]; rfl) hcontains
        fun others directory file hsegments hlength hisIndex => by
          rw [hstands, Bool.eq_false_iff]
          exact fun hfits =>
            hlater ⟨later, hmem, index, others, directory, file, hindex, hsegments, hlength,
              hisIndex, hfits⟩
      refine ⟨node', hcontains', ?_, ?_⟩
      · rw [Command.name, hdeclared]
        exact hname
      · rw [Command.filePath, hdeclared]
        exact hfile
  exact ⟨node, hcontains, hfile⟩

/-- A file whose command is named like the directory beside it, and a file in that directory. -/
def sharedName : FileSystem :=
  projectWith [("a.js", .file (.text "export const OPTS = \x7b name: 'b' \x7d;")),
    ("b", .directory [("c.js", .file (.text "export const OPTS = \x7b name: 'c' \x7d;"))])]

theorem exists_node_of_file_below_shared_name :
    ∃ tree node, (discover sharedName projectContext).run.value = .ok tree ∧
      tree.ContainsAt 2 node ∧ node.filePath = some "/w/zli_commands/commands/b/c.js" := by
  have hfiles : commandFiles sharedName projectContext =
      .ok (["/w/zli_commands/commands/a.js"] ++ "/w/zli_commands/commands/b/c.js" :: []) :=
    eq_ok_of_toOption (by decide +kernel)
  obtain ⟨first, hfirst, -⟩ := exists_holds sharedName projectContext
    "/w/zli_commands/commands/a.js" Command.name "b" (by decide +kernel)
  obtain ⟨second, hsecond, -⟩ := exists_holds sharedName projectContext
    "/w/zli_commands/commands/b/c.js" Command.name "c" (by decide +kernel)
  have hplace : Path.segmentsBelow projectContext.commandsRoot "/w/zli_commands/commands/b/c.js" =
      ["b"] ++ ["c.js"] := by decide +kernel
  have htree := discover_eq_ok.mpr ⟨_, hfiles, .merge hfirst (.merge hsecond (.done _))⟩
  obtain ⟨node, hnode, hpath⟩ | ⟨later, hlater, -⟩ :=
    exists_node_of_file htree hfiles hsecond hplace (by decide +kernel)
  · exact ⟨_, node, htree, hnode, hpath⟩
  · cases hlater

/-- The same names, with an index file in the directory. -/
def takenName : FileSystem :=
  projectWith [("a.js", .file (.text "export const OPTS = \x7b name: 'b' \x7d;")),
    ("b", .directory [("index.js", .file (.text "export const OPTS = \x7b name: 'b' \x7d;"))])]

/-- The index file of a directory replaces the file that declares the name of the directory. -/
theorem file_replaced_by_index :
    ∃ tree command, (discover takenName projectContext).run.value = .ok tree ∧
      Holds takenName projectContext "/w/zli_commands/commands/a.js" command ∧
      ∀ depth node, tree.ContainsAt depth node →
        node.filePath ≠ some "/w/zli_commands/commands/a.js" := by
  have hfiles : commandFiles takenName projectContext =
      .ok ["/w/zli_commands/commands/a.js", "/w/zli_commands/commands/b/index.js"] :=
    eq_ok_of_toOption (by decide +kernel)
  obtain ⟨⟨a, below⟩, hholds, hlook⟩ := exists_holds takenName projectContext
    "/w/zli_commands/commands/a.js" (fun c => (c.name, c.subcommands.isEmpty)) ("b", true)
    (by decide +kernel)
  obtain ⟨⟨b, below'⟩, hindex, hlook'⟩ := exists_holds takenName projectContext
    "/w/zli_commands/commands/b/index.js" (fun c => (c.name, c.subcommands.isEmpty)) ("b", true)
    (by decide +kernel)
  obtain ⟨ha, rfl⟩ : a.name = "b" ∧ below = [] := by
    simpa [Command.name, Command.declared, Command.subcommands] using hlook
  obtain ⟨-, rfl⟩ : b.name = "b" ∧ below' = [] := by
    simpa [Command.name, Command.declared, Command.subcommands] using hlook'
  have htree : Command.merge (.mk b []) ["b", "index.js"]
      (Command.merge (.mk a []) ["a.js"] Command.empty) =
        .mk {} [.mk (Command.overlayDeclared (Command.overlayDeclared { name := "b" } a) b)
          []] := by
    have hplain : Command.isIndexFile "a.js" = false := by decide +kernel
    have hisIndex : Command.isIndexFile "index.js" = true := by decide +kernel
    simp [Command.merge, Command.place, Command.changeFirst?, Command.standsFor, Command.overlay,
      Command.withSubcommands, Command.empty, Command.placeholder, Command.name, Command.declared,
      Command.subcommands, Command.overlayDeclared, hplain, hisIndex, ha]
  have hdiscover := discover_eq_ok.mpr ⟨_, hfiles, .merge hholds (.merge hindex (.done _))⟩
  rw [show Path.segmentsBelow projectContext.commandsRoot "/w/zli_commands/commands/a.js" =
      ["a.js"] by decide +kernel,
    show Path.segmentsBelow projectContext.commandsRoot "/w/zli_commands/commands/b/index.js" =
      ["b", "index.js"] by decide +kernel, htree] at hdiscover
  refine ⟨_, _, hdiscover, hholds, fun depth node h => ?_⟩
  have hpath : b.filePath = some "/w/zli_commands/commands/b/index.js" :=
    filePath_of_holds hindex
  cases h with
  | self => simp [Command.filePath, Command.declared]
  | inside hsub h =>
    obtain rfl := List.mem_singleton.mp hsub
    cases h with
    | self => simp [Command.filePath, Command.declared, Command.overlayDeclared, hpath]
    | inside hsub => cases hsub

end Discovery

end CommandFiles
