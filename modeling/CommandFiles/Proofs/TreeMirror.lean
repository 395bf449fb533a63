import CommandFiles.Command.Tree
import CommandFiles.Proofs.PathNames
import Mathlib.Data.List.Dedup
import Mathlib.Data.List.Perm.Subperm

/-! # The tree mirrors the directory

Command files come into the tree one after another, in whatever order. While a directory fills, its
command may be a placeholder, and its index file may give it another name later on. As long as the
labels inside every directory differ, each file below still finds it: the tree has one command for
each file and one for each directory, below the command of the directory they lie in. First this is
said as a relation between files and a tree; one step keeps it, hence every run does. -/
namespace CommandFiles

/-- A command with the names on the way to its file. -/
abbrev Placed := List String × Command

namespace Placed

/-- The command of a file that describes the directory it lies in. -/
def index? : Placed → Option Command
  | ([file], c) => if Command.isIndexFile file then some c else none
  | _ => none

/-- The command of a file of the directory that does not describe it. -/
def plain? : Placed → Option Command
  | ([file], c) => if Command.isIndexFile file then none else some c
  | _ => none

/-- The directory that a file further down lies in. -/
def folder? : Placed → Option String
  | (directory :: _ :: _, _) => some directory
  | _ => none

/-- A file as it is seen from a directory, if it lies in it. -/
def inside? (directory : String) : Placed → Option Placed
  | (d :: file :: rest, c) => if d = directory then some (file :: rest, c) else none
  | _ => none

/-- The commands of the index files of a directory. -/
def indexes (files : List Placed) : List Command := files.filterMap index?

/-- The commands of its other files. -/
def plain (files : List Placed) : List Command := files.filterMap plain?

/-- The directories in it that hold a command file, at whatever depth. -/
def folders (files : List Placed) : List String := (files.filterMap folder?).dedup

/-- The files of a directory in it. -/
def inside (directory : String) (files : List Placed) : List Placed :=
  files.filterMap (inside? directory)

/-- The files of a directory further down. -/
def within : List String → List Placed → List Placed
  | [], files => files
  | directory :: rest, files => within rest (inside directory files)

/-- The labels of a directory: its own name, and the one that its index file declares. -/
def labels (files : List Placed) (directory : String) : List String :=
  directory :: (indexes (inside directory files)).map Command.name

end Placed

open Placed

/-- Whether a directory has one index file at most, and all labels in it differ. -/
structure LabelsDiffer (files : List Placed) : Prop where
  oneIndex : (indexes files).length ≤ 1
  plainNames : ((plain files).map Command.name).Nodup
  plainFolders : ∀ c ∈ plain files, ∀ d ∈ folders files, c.name ∉ labels files d
  folderLabels : ∀ d ∈ folders files, ∀ e ∈ folders files, d ≠ e →
    ∀ label ∈ labels files d, label ∉ labels files e

instance (files : List Placed) : Decidable (LabelsDiffer files) :=
  decidable_of_iff
    ((indexes files).length ≤ 1 ∧ ((plain files).map Command.name).Nodup ∧
      (∀ c ∈ plain files, ∀ d ∈ folders files, c.name ∉ labels files d) ∧
      ∀ d ∈ folders files, ∀ e ∈ folders files, d ≠ e →
        ∀ label ∈ labels files d, label ∉ labels files e)
    ⟨fun ⟨h, hn, hp, hf⟩ => ⟨h, hn, hp, hf⟩,
      fun h => ⟨h.oneIndex, h.plainNames, h.plainFolders, h.folderLabels⟩⟩

/-- Whether the labels differ inside every directory. -/
def LabelsDifferEverywhere (files : List Placed) : Prop :=
  ∀ directory, LabelsDiffer (within directory files)

/-- Whether a command has nothing below it and tells by its path where it comes from: from an index
file of its directory, or from another file. -/
structure TellsOrigin (file : Placed) : Prop where
  alone : file.2.subcommands = []
  plain : ∀ before name, file.1 = before ++ [name] → Command.isIndexFile name = false →
    file.2.indexDirectory? = none
  index : ∀ before directory name, file.1 = before ++ [directory, name] →
    Command.isIndexFile name = true → file.2.indexDirectory? = some directory

/-- **Whether a command mirrors a directory**: it declares what the index file does, or nothing but
the name of the directory, and below it there is one command for each other file, as it is, and one
for each directory, which mirrors that directory. -/
inductive Mirrors : String → List Placed → Command → Prop
  | mk {name : String} {files : List Placed} {declared : Declaration} {subs : List Command}
      (node : String → Command)
      (declares : declared = ((indexes files).head?.map Command.declared).getD { name })
      (below : subs.Perm (plain files ++ (folders files).map node))
      (mirrored : ∀ d ∈ folders files, Mirrors d (inside d files) (node d)) :
      Mirrors name files (.mk declared subs)

/-! ## Files seen from a directory -/

namespace Placed

variable {files more : List Placed} {d : String}

theorem mem_folders : d ∈ folders files ↔ ∃ f ∈ files, folder? f = some d := by
  simp [folders]

theorem nodup_folders (files : List Placed) : (folders files).Nodup := List.nodup_dedup _

theorem inside_eq_nil (h : d ∉ folders files) : inside d files = [] := by
  rw [inside, List.filterMap_eq_nil_iff]
  intro f hf
  unfold inside?
  split
  · rename_i e file rest c
    split
    · rename_i hed
      subst hed
      exact absurd (mem_folders.2 ⟨_, hf, rfl⟩) h
    · rfl
  · rfl

theorem mem_plain {c : Command} :
    c ∈ plain files ↔ ∃ name, ([name], c) ∈ files ∧ Command.isIndexFile name = false := by
  rw [plain, List.mem_filterMap]
  constructor
  · rintro ⟨f, hf, hc⟩
    unfold plain? at hc
    split at hc
    · rename_i name c'
      split at hc
      · cases hc
      · rename_i hname
        cases hc
        exact ⟨name, hf, by simpa using hname⟩
    · cases hc
  · rintro ⟨name, hf, hname⟩
    exact ⟨_, hf, by simp [plain?, hname]⟩

theorem mem_indexes {c : Command} :
    c ∈ indexes files ↔ ∃ name, ([name], c) ∈ files ∧ Command.isIndexFile name = true := by
  rw [indexes, List.mem_filterMap]
  constructor
  · rintro ⟨f, hf, hc⟩
    unfold index? at hc
    split at hc
    · rename_i name c'
      split at hc
      · rename_i hname
        cases hc
        exact ⟨name, hf, hname⟩
      · cases hc
    · cases hc
  · rintro ⟨name, hf, hname⟩
    exact ⟨_, hf, by simp [index?, hname]⟩

theorem mem_inside {f : Placed} :
    f ∈ inside d files ↔ f.1 ≠ [] ∧ (d :: f.1, f.2) ∈ files := by
  rw [inside, List.mem_filterMap]
  constructor
  · rintro ⟨g, hg, hf⟩
    unfold inside? at hf
    split at hf
    · split at hf
      · rename_i hd
        subst hd
        cases hf
        exact ⟨by simp, hg⟩
      · cases hf
    · cases hf
  · obtain ⟨names, c⟩ := f
    rintro ⟨hne, hf⟩
    obtain ⟨file, rest, rfl⟩ := List.exists_cons_of_ne_nil hne
    exact ⟨_, hf, by simp [inside?]⟩

/-- What is chosen from fewer files is less, in whatever order they stand. -/
theorem filterMap_subperm {α : Type} (choice : Placed → Option α) (h : more.Subperm files) :
    (more.filterMap choice).Subperm (files.filterMap choice) := by
  obtain ⟨middle, hperm, hsub⟩ := h
  exact ⟨_, hperm.filterMap choice, hsub.filterMap choice⟩

theorem labels_subset (h : more.Subperm files) : labels more d ⊆ labels files d := by
  refine List.cons_subset_cons d (List.map_subset _ ?_)
  exact (filterMap_subperm index? (filterMap_subperm (inside? d) h)).subset

theorem folders_subset (h : more.Subperm files) : folders more ⊆ folders files := by
  intro d hd
  obtain ⟨f, hf, hfolder⟩ := mem_folders.1 hd
  exact mem_folders.2 ⟨f, h.subset hf, hfolder⟩

end Placed

/-! ## Fewer files keep what holds of all -/

theorem LabelsDiffer.of_subperm {files fewer : List Placed} (h : LabelsDiffer files)
    (hsub : fewer.Subperm files) : LabelsDiffer fewer := by
  have hplain : (plain fewer).Subperm (plain files) := filterMap_subperm plain? hsub
  have hfolders := folders_subset hsub
  refine ⟨?_, ?_, ?_, ?_⟩
  · exact Nat.le_trans (filterMap_subperm index? hsub).length_le h.oneIndex
  · obtain ⟨middle, hperm, hmiddle⟩ := hplain
    exact (hperm.map _).nodup ((hmiddle.map _).nodup h.plainNames)
  · intro c hc d hd hlabel
    exact h.plainFolders c (hplain.subset hc) d (hfolders hd) (labels_subset hsub hlabel)
  · intro d hd e he hne label hl hl'
    exact h.folderLabels d (hfolders hd) e (hfolders he) hne label (labels_subset hsub hl)
      (labels_subset hsub hl')

theorem LabelsDifferEverywhere.of_subperm {files fewer : List Placed}
    (h : LabelsDifferEverywhere files) (hsub : fewer.Subperm files) :
    LabelsDifferEverywhere fewer := by
  intro directory
  have hwithin : ∀ directory {files fewer : List Placed}, fewer.Subperm files →
      (within directory fewer).Subperm (within directory files) := by
    intro directory
    induction directory with
    | nil => exact fun hsub => hsub
    | cons d rest ih => exact fun hsub => ih (filterMap_subperm (inside? d) hsub)
  exact (h directory).of_subperm (hwithin directory hsub)

theorem LabelsDifferEverywhere.inside {files : List Placed} (h : LabelsDifferEverywhere files)
    (d : String) : LabelsDifferEverywhere (inside d files) :=
  fun directory => h (d :: directory)

/-- Only the directories that hold a command file need a look. -/
theorem LabelsDifferEverywhere.of_folders {files : List Placed} (h : LabelsDiffer files)
    (hfolders : ∀ d ∈ folders files, LabelsDifferEverywhere (Placed.inside d files)) :
    LabelsDifferEverywhere files := by
  have hnil : ∀ directory, within directory [] = [] := by
    intro directory
    induction directory with
    | nil => rfl
    | cons d rest ih => exact ih
  intro directory
  cases directory with
  | nil => exact h
  | cons d rest =>
    by_cases hd : d ∈ folders files
    · exact hfolders d hd rest
    · rw [within, inside_eq_nil hd, hnil]
      exact ⟨by simp [indexes], by simp [plain], by simp [plain], by simp [folders]⟩

theorem TellsOrigin.inside {names : List String} {c : Command} {d : String}
    (h : TellsOrigin (d :: names, c)) : TellsOrigin (names, c) where
  alone := h.alone
  plain before name hnames := h.plain (d :: before) name (congrArg (d :: ·) hnames)
  index before directory name hnames :=
    h.index (d :: before) directory name (congrArg (d :: ·) hnames)

/-! ## Changing the only one that fits -/

namespace Command

variable {fits : Command → Bool} (change : Command → Command)

theorem changeFirst?_eq_none {cs : List Command} (h : ∀ c ∈ cs, fits c = false) :
    changeFirst? fits change cs = none := by
  induction cs with
  | nil => rfl
  | cons c rest ih =>
    have hc : ¬ fits c = true := by simp [h c List.mem_cons_self]
    rw [changeFirst?, if_neg hc, ih fun k hk => h k (List.mem_cons_of_mem _ hk)]
    rfl

theorem changeFirst?_eq_some {cs : List Command} (h : ∃ c ∈ cs, fits c = true) :
    ∃ before c after, cs = before ++ c :: after ∧ fits c = true ∧
      changeFirst? fits change cs = some (before ++ change c :: after) := by
  induction cs with
  | nil => simp at h
  | cons k rest ih =>
    by_cases hk : fits k = true
    · exact ⟨[], k, rest, rfl, hk, by rw [changeFirst?, if_pos hk]; rfl⟩
    · have hrest : ∃ c ∈ rest, fits c = true := by simpa [hk] using h
      obtain ⟨before, c, after, rfl, hc, hchange⟩ := ih hrest
      exact ⟨k :: before, c, after, rfl, hc, by rw [changeFirst?, if_neg hk, hchange]; rfl⟩

/-- The only command that fits is changed, wherever it stands. -/
theorem changeFirst?_perm {cs others : List Command} {x : Command} (h : cs.Perm (x :: others))
    (hx : fits x = true) (hothers : ∀ c ∈ others, fits c = false) :
    ∃ subs, changeFirst? fits change cs = some subs ∧ subs.Perm (change x :: others) := by
  obtain ⟨before, c, after, rfl, hc, hchange⟩ :=
    changeFirst?_eq_some change ⟨x, h.symm.subset List.mem_cons_self, hx⟩
  have hcx : c = x := by
    have hmem : c ∈ x :: others := h.subset (List.mem_append_right before List.mem_cons_self)
    rcases List.mem_cons.1 hmem with hcx | hc'
    · exact hcx
    · rw [hothers c hc'] at hc; cases hc
  subst hcx
  have hothers : (before ++ after).Perm others := (List.perm_middle.symm.trans h).cons_inv
  exact ⟨_, hchange, List.perm_middle.trans (hothers.cons _)⟩

end Command

/-! ## The command of a directory -/

namespace Mirrors

variable {files : List Placed} {d e : String} {node : Command}

/-- The command of a directory bears one of its labels. -/
theorem name_mem_labels (h : Mirrors d (inside d files) node) : node.name ∈ labels files d := by
  obtain ⟨_, declares, _, _⟩ := h
  cases hindex : (indexes (inside d files)).head? with
  | none =>
    rw [hindex] at declares
    subst declares
    exact List.mem_cons_self
  | some c =>
    rw [hindex] at declares
    subst declares
    have hname : c.name ∈ (indexes (inside d files)).map Command.name :=
      List.mem_map_of_mem (List.mem_of_head? hindex)
    exact List.mem_cons_of_mem _ hname

/-- The command of a directory comes from no file, or from the index file of the directory. -/
theorem name_or_index (h : Mirrors d (inside d files) node) (ho : ∀ f ∈ files, TellsOrigin f) :
    node.name = d ∧ node.indexDirectory? = none ∨ node.indexDirectory? = some d := by
  obtain ⟨_, declares, _, _⟩ := h
  cases hindex : (indexes (inside d files)).head? with
  | none =>
    rw [hindex] at declares
    subst declares
    exact .inl ⟨rfl, rfl⟩
  | some c =>
    rw [hindex] at declares
    subst declares
    obtain ⟨name, hmem, hname⟩ := mem_indexes.1 (List.mem_of_head? hindex)
    exact .inr ((ho _ (mem_inside.1 hmem).2).index [] d name rfl hname)

theorem standsFor_self (h : Mirrors d (inside d files) node) (ho : ∀ f ∈ files, TellsOrigin f) :
    Command.standsFor d node = true := by
  rcases h.name_or_index ho with ⟨hname, _⟩ | hindex
  · simp [Command.standsFor, hname]
  · simp [Command.standsFor, hindex]

theorem standsFor_other (h : Mirrors e (inside e files) node) (ho : ∀ f ∈ files, TellsOrigin f)
    (hlabel : d ∉ labels files e) : Command.standsFor d node = false := by
  have hname : node.name ≠ d := fun hname => hlabel (hname ▸ h.name_mem_labels)
  have hne : e ≠ d := by rintro rfl; exact hlabel List.mem_cons_self
  rcases h.name_or_index ho with ⟨_, hindex⟩ | hindex
  · simp [Command.standsFor, hname, hindex]
  · simp [Command.standsFor, hname, hindex, hne]

theorem placeholder (name : String) : Mirrors name [] (Command.placeholder name) :=
  .mk (fun _ => Command.empty) rfl .rfl (by simp [folders])

end Mirrors

/-! ## One more file -/

namespace Placed

variable {files : List Placed} {d e file : String} {rest : List String} {c : Command}

theorem plain_append_inside : plain (files ++ [(d :: file :: rest, c)]) = plain files := by
  simp [plain, plain?]

theorem inside_append_self :
    inside d (files ++ [(d :: file :: rest, c)]) = inside d files ++ [(file :: rest, c)] := by
  simp [inside, inside?]

theorem inside_append_other (h : d ≠ e) :
    inside e (files ++ [(d :: file :: rest, c)]) = inside e files := by
  simp [inside, inside?, h]

theorem inside_append_file : inside e (files ++ [([file], c)]) = inside e files := by
  simp [inside, inside?]

theorem folders_append_file : folders (files ++ [([file], c)]) = folders files := by
  rw [folders, List.filterMap_append, List.filterMap_cons_none rfl, List.filterMap_nil,
    List.append_nil, folders]

/-- A file further down brings its directory along, unless it is there already. -/
theorem folders_append_inside :
    (folders (files ++ [(d :: file :: rest, c)])).Perm (d :: (folders files).erase d) := by
  have hnodup : (d :: (folders files).erase d).Nodup :=
    List.nodup_cons.2 ⟨(nodup_folders files).not_mem_erase, (nodup_folders files).erase d⟩
  refine (List.perm_ext_iff_of_nodup (nodup_folders _) hnodup).2 fun e => ?_
  rw [List.mem_cons, (nodup_folders files).mem_erase_iff, mem_folders, mem_folders]
  by_cases he : e = d
  · simp [he, folder?]
  · simp [he, folder?, Ne.symm he]

end Placed

namespace Mirrors

variable {name : String} {files : List Placed} {tree c : Command} {file : String}

theorem merge_index (h : Mirrors name files tree) (hfile : Command.isIndexFile file = true)
    (hone : (indexes (files ++ [([file], c)])).length ≤ 1) (halone : c.subcommands = []) :
    Mirrors name (files ++ [([file], c)]) (Command.merge c [file] tree) := by
  obtain ⟨node, declares, below, mirrored⟩ := h
  have hindexes : indexes (files ++ [([file], c)]) = indexes files ++ [c] := by
    simp [indexes, index?, hfile]
  have hplain : plain (files ++ [([file], c)]) = plain files := by simp [plain, plain?, hfile]
  have hnone : indexes files = [] := by
    rw [hindexes, List.length_append, List.length_singleton] at hone
    exact List.eq_nil_of_length_eq_zero (by omega)
  rw [hnone] at declares
  rw [Command.merge, if_pos hfile, Command.overlay, declares]
  refine .mk node ?_ ?_ ?_
  · rw [hindexes, hnone]
    cases c with
    | mk d subs => simp [Command.overlayDeclared, Command.declared]
  · rw [hplain, folders_append_file, halone, List.append_nil]
    exact below
  · intro d hd
    rw [inside_append_file]
    exact mirrored d (folders_append_file ▸ hd)

theorem merge_plain (h : Mirrors name files tree) (hfile : Command.isIndexFile file = false)
    (hlabels : LabelsDiffer (files ++ [([file], c)])) (halone : c.subcommands = []) :
    Mirrors name (files ++ [([file], c)]) (Command.merge c [file] tree) := by
  obtain ⟨node, declares, below, mirrored⟩ := h
  rename_i declared subs
  have hindexes : indexes (files ++ [([file], c)]) = indexes files := by
    simp [indexes, index?, hfile]
  have hplain : plain (files ++ [([file], c)]) = plain files ++ [c] := by
    simp [plain, plain?, hfile]
  -- No command in the directory has the name of the new one, so nothing is overlaid.
  have hfresh : ∀ k ∈ subs, k.name ≠ c.name := by
    intro k hk hname
    rcases List.mem_append.1 (below.subset hk) with hk | hk
    · have hnames := hlabels.plainNames
      rw [hplain, List.map_append, List.nodup_append] at hnames
      exact hnames.2.2 _ (List.mem_map_of_mem hk) _ (by simp) hname
    · obtain ⟨d, hd, rfl⟩ := List.mem_map.1 hk
      have hlabel := (mirrored d hd).name_mem_labels
      have hc : c ∈ plain (files ++ [([file], c)]) := by rw [hplain]; simp
      refine hlabels.plainFolders c hc d (by rw [folders_append_file]; exact hd) ?_
      rw [labels, inside_append_file, ← hname]
      exact hlabel
  have hfind : subs.find? (fun k => decide (k.name = c.name)) = none := by
    rw [List.find?_eq_none]
    intro k hk
    simpa using hfresh k hk
  have hplace : Command.place c subs = subs ++ [c] := by
    rw [Command.place, hfind]
    cases c with
    | mk d under =>
      have hunder : under = [] := halone
      subst hunder
      simp [Command.overlay, Command.overlayDeclared, Command.placeholder, Command.declared,
        Command.subcommands]
  rw [Command.merge, if_neg (by simp [hfile])]
  refine .mk node ?_ ?_ ?_
  · rw [hindexes]
    exact declares
  · rw [hplain, folders_append_file, Command.subcommands, hplace]
    refine (below.append_right [c]).trans ?_
    rw [List.append_assoc, List.append_assoc]
    exact List.perm_append_comm.append_left _
  · intro d hd
    rw [inside_append_file]
    exact mirrored d (folders_append_file ▸ hd)

section Inside

variable {d : String} {rest : List String} {node : String → Command}

/-- Beside the command of a directory, none stands for the directory. -/
theorem standsFor_others (hlabels : LabelsDiffer (files ++ [(d :: file :: rest, c)]))
    (ho : ∀ f ∈ files, TellsOrigin f)
    (mirrored : ∀ e ∈ folders files, Mirrors e (inside e files) (node e)) :
    ∀ k ∈ plain files ++ ((folders files).erase d).map node, Command.standsFor d k = false := by
  have hsub : files.Subperm (files ++ [(d :: file :: rest, c)]) :=
    (List.sublist_append_left _ _).subperm
  have hd : d ∈ folders (files ++ [(d :: file :: rest, c)]) :=
    folders_append_inside.symm.subset List.mem_cons_self
  intro k hk
  rcases List.mem_append.1 hk with hmem | hmem
  · obtain ⟨name, hfile, hname⟩ := mem_plain.1 hmem
    have hindex := (ho _ hfile).plain [] name rfl hname
    have hne : k.name ≠ d := by
      intro hne
      have hlabel := hlabels.plainFolders k (by rw [plain_append_inside]; exact hmem) d hd
      exact hlabel (hne ▸ List.mem_cons_self)
    simp [Command.standsFor, hne, hindex]
  · obtain ⟨e, he, rfl⟩ := List.mem_map.1 hmem
    obtain ⟨hne, he⟩ := (nodup_folders files).mem_erase_iff.1 he
    refine (mirrored e he).standsFor_other ho fun hlabel => ?_
    exact hlabels.folderLabels d hd e (folders_subset hsub he) hne.symm d List.mem_cons_self
      (labels_subset hsub hlabel)

/-- The command of a directory, old or new, is found among the others and takes up what lies in the
directory. -/
theorem exists_merge_inside {declared : Declaration} {subs : List Command}
    (below : subs.Perm (plain files ++ (folders files).map node))
    (mirrored : ∀ e ∈ folders files, Mirrors e (inside e files) (node e))
    (ho : ∀ f ∈ files, TellsOrigin f)
    (hothers : ∀ k ∈ plain files ++ ((folders files).erase d).map node,
      Command.standsFor d k = false) :
    ∃ inner subs', Mirrors d (inside d files) inner ∧
      Command.merge c (d :: file :: rest) (.mk declared subs) = .mk declared subs' ∧
      subs'.Perm (Command.merge c (file :: rest) inner ::
        (plain files ++ ((folders files).erase d).map node)) := by
  by_cases hknown : d ∈ folders files
  · have hbelow : subs.Perm (node d :: (plain files ++ ((folders files).erase d).map node)) := by
      refine below.trans (.trans ?_ List.perm_middle)
      exact ((List.perm_cons_erase hknown).map node).append_left _
    obtain ⟨subs', hchange, hperm⟩ := Command.changeFirst?_perm
      (Command.merge c (file :: rest)) hbelow
      ((mirrored d hknown).standsFor_self ho) hothers
    refine ⟨node d, subs', mirrored d hknown, ?_, hperm⟩
    rw [Command.merge, Command.subcommands, hchange]
    rfl
  -- A directory without a file so far gets a placeholder behind the others.
  · rw [List.erase_of_not_mem hknown] at hothers ⊢
    have hchange := Command.changeFirst?_eq_none (Command.merge c (file :: rest))
      fun k hk => hothers k (below.subset hk)
    refine ⟨Command.placeholder d, _, inside_eq_nil hknown ▸ placeholder d, ?_,
      (below.append_right _).trans (List.perm_append_singleton _ _)⟩
    rw [Command.merge, Command.subcommands, hchange]
    rfl

/-- A file further down keeps the mirror if it does so in its directory. -/
theorem merge_inside (h : Mirrors name files tree)
    (hlabels : LabelsDiffer (files ++ [(d :: file :: rest, c)]))
    (ho : ∀ f ∈ files, TellsOrigin f)
    (hstep : ∀ inner, Mirrors d (inside d files) inner →
      Mirrors d (inside d files ++ [(file :: rest, c)]) (Command.merge c (file :: rest) inner)) :
    Mirrors name (files ++ [(d :: file :: rest, c)])
      (Command.merge c (d :: file :: rest) tree) := by
  obtain ⟨node, declares, below, mirrored⟩ := h
  have hindexes : indexes (files ++ [(d :: file :: rest, c)]) = indexes files := by
    simp [indexes, index?]
  have herase : ∀ e ∈ (folders files).erase d, e ≠ d ∧ e ∈ folders files :=
    fun e he => (nodup_folders files).mem_erase_iff.1 he
  obtain ⟨inner, subs', hinner, hmerge, hperm⟩ :=
    exists_merge_inside below mirrored ho (standsFor_others hlabels ho mirrored)
  rw [hmerge]
  let node' : String → Command :=
    fun e => if e = d then Command.merge c (file :: rest) inner else node e
  have hself : node' d = Command.merge c (file :: rest) inner := if_pos rfl
  have hother : ∀ e, e ≠ d → node' e = node e := fun e he => if_neg he
  refine .mk node' (hindexes ▸ declares) ?_ ?_
  · have hmap : ((folders files).erase d).map node' = ((folders files).erase d).map node :=
      List.map_congr_left fun e he => hother e (herase e he).1
    rw [plain_append_inside]
    refine hperm.trans (.trans ?_ ((folders_append_inside.map node').append_left _).symm)
    rw [List.map_cons, hself, hmap]
    exact List.perm_middle.symm
  · intro e he
    by_cases hed : e = d
    · subst hed
      rw [hself, inside_append_self]
      exact hstep inner hinner
    · rw [hother e hed, inside_append_other (Ne.symm hed)]
      have he' := folders_append_inside.subset he
      exact mirrored e (herase e ((List.mem_cons.1 he').resolve_left hed)).2

end Inside

/-- **One more file keeps the mirror**, however deep it lies. -/
theorem merge {segments : List String} (h : Mirrors name files tree) (hne : segments ≠ [])
    (hlabels : LabelsDifferEverywhere (files ++ [(segments, c)]))
    (ho : ∀ f ∈ files ++ [(segments, c)], TellsOrigin f) :
    Mirrors name (files ++ [(segments, c)]) (Command.merge c segments tree) := by
  induction segments generalizing name files tree with
  | nil => exact absurd rfl hne
  | cons d rest ih =>
    have hnow : LabelsDiffer (files ++ [(d :: rest, c)]) := hlabels []
    have hown : TellsOrigin (d :: rest, c) := ho _ (by simp)
    cases rest with
    | nil =>
      cases hfile : Command.isIndexFile d with
      | true => exact merge_index h hfile hnow.oneIndex hown.alone
      | false => exact merge_plain h hfile hnow hown.alone
    | cons file rest =>
      refine merge_inside h hnow (fun f hf => ho f (List.mem_append_left _ hf)) ?_
      intro inner hinner
      have hinside := hlabels.inside d
      rw [inside_append_self] at hinside
      refine ih hinner (by simp) hinside fun f hf => ?_
      rw [← inside_append_self, mem_inside] at hf
      exact (ho _ hf.2).inside

end Mirrors

end CommandFiles
