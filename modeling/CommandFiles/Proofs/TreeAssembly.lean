import CommandFiles.Proofs.TreeMirror
import Mathlib.Data.List.Induction

/-! # Trees from command files in any order

Command files lie at paths below a command root, and each of their commands carries its path. Where
the labels inside every directory differ, the tree that comes of them mirrors the directory, in
whichever order they are taken; two orders give trees that differ in the order of siblings alone. -/
namespace CommandFiles

open Placed

/-- A command file: the names on the way to it below the command root, and its command. -/
structure CommandFile where
  segments : List String
  command : Command

namespace CommandFile

/-- The path of a command file. -/
def path (root : String) (f : CommandFile) : String :=
  Path.under root (Entry.pathOf f.segments)

/-- The command of a file with the names on the way to it. -/
def placed (f : CommandFile) : Placed := (f.segments, f.command)

end CommandFile

/-- The tree that some command files make, taken one after another. Each is put where its path below
the command root says. -/
def assemble (root : String) (files : List CommandFile) : Command :=
  files.foldl
    (fun tree f => Command.merge f.command (Path.segmentsBelow root (f.path root)) tree)
    Command.empty

/-- Whether names do not clash among some command files: all names have an extension, each command
carries the path of its file and nothing below it, and the labels inside each directory differ. -/
structure Orderly (root : String) (files : List CommandFile) : Prop where
  placed : ∀ f ∈ files, f.segments ≠ []
  named : ∀ f ∈ files, ∀ name ∈ f.segments, Path.IsName name
  extended : ∀ f ∈ files, ∀ name ∈ f.segments.getLast?, (Path.extension? name).isSome = true
  owned : ∀ f ∈ files, f.command.filePath = some (f.path root)
  alone : ∀ f ∈ files, f.command.subcommands = []
  labelled : LabelsDifferEverywhere (files.map CommandFile.placed)

/-- Whether two trees are the same up to the order of siblings. -/
inductive Alike : Command → Command → Prop
  | mk {declared : Declaration} {subs subs' : List Command} (pairs : List (Command × Command))
      (left : subs.Perm (pairs.map Prod.fst)) (right : subs'.Perm (pairs.map Prod.snd))
      (alike : ∀ pair ∈ pairs, Alike pair.1 pair.2) :
      Alike (.mk declared subs) (.mk declared subs')

/-! ## The origin of a command -/

theorem Command.indexDirectory?_of_filePath {c : Command} {path : String}
    (h : c.filePath = some path) :
    c.indexDirectory? =
      if Path.stem? path = some indexName then (Path.parent? path).bind Path.fileName?
      else none := by
  rw [indexDirectory?, h]
  rfl

/-- The stem of a path is that of its last name. -/
theorem Path.stem?_under (root : String) {before : List String} {name : String}
    (hn : ∀ n ∈ before ++ [name], IsName n) :
    stem? (under root (Entry.pathOf (before ++ [name]))) = stem? name := by
  rw [stem?, stem?, fileName?_under root hn, fileName?_of_isName (hn name (by simp))]

namespace Command

/-- Whether a path is that of an index file inside the directory that some names lead to. -/
structure IsIndexIn (dirs : List String) (path : String) : Prop where
  stem : Path.stem? path = some indexName
  inside : ∀ directory ∈ dirs.getLast?, (Path.parent? path).bind Path.fileName? = some directory

/-- The paths of index files below a root are those that the names on the way to them make. -/
theorem isIndexIn_under (root : String) {dirs : List String} {file : String}
    (hnames : ∀ n ∈ dirs ++ [file], Path.IsName n) (hfile : isIndexFile file = true) :
    IsIndexIn dirs (Path.under root (Entry.pathOf (dirs ++ [file]))) where
  stem := by
    rw [isIndexFile, Bool.and_eq_true, decide_eq_true_eq] at hfile
    rw [Path.stem?_under root hnames, hfile.1]
  inside directory hdirectory := by
    obtain ⟨before, rfl⟩ := List.getLast?_eq_some_iff.mp hdirectory
    have hbefore : ∀ n ∈ before ++ [directory], Path.IsName n :=
      fun n hn => hnames n (List.mem_append_left _ hn)
    rw [List.append_assoc, List.singleton_append] at hnames ⊢
    rw [Path.parent?_under root hnames, Option.bind_some, Path.fileName?_under root hbefore]

theorem indexDirectory?_of_isIndexIn {c : Command} {dirs : List String} {path directory : String}
    (hpath : c.filePath = some path) (h : IsIndexIn dirs path)
    (hdirectory : directory ∈ dirs.getLast?) : c.indexDirectory? = some directory := by
  rw [indexDirectory?_of_filePath hpath, if_pos h.stem, h.inside directory hdirectory]

end Command

theorem Orderly.tellsOrigin {root : String} {files : List CommandFile} (h : Orderly root files)
    {f : CommandFile} (hf : f ∈ files) : TellsOrigin f.placed where
  alone := h.alone f hf
  plain before name hnames hname := by
    have hnames : f.segments = before ++ [name] := hnames
    have hn := h.named f hf
    have hextended := h.extended f hf name (by simp [hnames])
    have hstem : Path.stem? name ≠ some Command.indexName := by
      simpa [Command.isIndexFile, hextended] using hname
    rw [hnames] at hn
    change f.command.indexDirectory? = none
    rw [Command.indexDirectory?_of_filePath (h.owned f hf), CommandFile.path, hnames,
      Path.stem?_under root hn, if_neg hstem]
  index before directory name hnames hname := by
    have hnames : f.segments = before ++ [directory] ++ [name] := by
      rw [List.append_assoc]
      exact hnames
    have hn := h.named f hf
    have hpath := h.owned f hf
    rw [hnames] at hn
    rw [CommandFile.path, hnames] at hpath
    exact Command.indexDirectory?_of_isIndexIn hpath (Command.isIndexIn_under root hn hname)
      (by simp)

theorem Alike.refl : ∀ c : Command, Alike c c
  | .mk declared subs => by
    refine .mk (subs.map fun c => (c, c)) (by simp [Function.comp_def])
      (by simp [Function.comp_def]) ?_
    intro pair hpair
    obtain ⟨c, hc, rfl⟩ := List.mem_map.1 hpair
    exact Alike.refl c
termination_by c => sizeOf c
decreasing_by
  have := List.sizeOf_lt_of_mem hc
  simp only [Command.mk.sizeOf_spec]
  omega

namespace Mirrors

variable {name : String} {files : List Placed} {tree tree' : Command}

/-- A mirror does not depend on the order of the files. -/
theorem perm {files' : List Placed} (h : Mirrors name files tree) (hperm : files.Perm files')
    (hlabels : LabelsDifferEverywhere files) : Mirrors name files' tree := by
  induction h generalizing files' with
  | @mk name files declared subs node declares below mirrored ih =>
    have hindexes : indexes files = indexes files' := by
      have hone := (hlabels []).oneIndex
      have hp : (indexes files).Perm (indexes files') := hperm.filterMap _
      match hi : indexes files, hone with
      | [], _ => rw [hi] at hp; exact hp.nil_eq
      | [c], _ => rw [hi] at hp; exact (List.singleton_perm.1 hp)
    have hfolders : (folders files).Perm (folders files') := (hperm.filterMap _).dedup
    refine .mk node (hindexes ▸ declares) ?_ ?_
    · exact below.trans ((hperm.filterMap _).append (hfolders.map node))
    · intro d hd
      have hd := hfolders.symm.subset hd
      exact ih d hd (hperm.filterMap _) (hlabels.inside d)

/-- Two trees that mirror the same files differ in the order of siblings alone. -/
theorem alike (h : Mirrors name files tree) (h' : Mirrors name files tree') : Alike tree tree' := by
  induction h generalizing tree' with
  | @mk name files declared subs node declares below mirrored ih =>
    obtain ⟨node', declares', below', mirrored'⟩ := h'
    subst declares declares'
    refine .mk ((plain files).map (fun c => (c, c)) ++
      (folders files).map fun d => (node d, node' d)) ?_ ?_ ?_
    · simpa [Function.comp_def] using below
    · simpa [Function.comp_def] using below'
    · intro pair hpair
      rcases List.mem_append.1 hpair with hpair | hpair
      · obtain ⟨c, hc, rfl⟩ := List.mem_map.1 hpair
        exact Alike.refl c
      · obtain ⟨d, hd, rfl⟩ := List.mem_map.1 hpair
        exact ih d hd (mirrored' d hd)

end Mirrors

/-! ## Runs -/

theorem assemble_concat (root : String) (files : List CommandFile) (f : CommandFile)
    (hne : f.segments ≠ []) (hn : ∀ name ∈ f.segments, Path.IsName name) :
    assemble root (files ++ [f]) = Command.merge f.command f.segments (assemble root files) := by
  rw [assemble, List.foldl_append, List.foldl_cons, List.foldl_nil, CommandFile.path,
    Path.segmentsBelow_under root hne hn]
  rfl

theorem Orderly.of_perm {root : String} {files order : List CommandFile} (h : Orderly root files)
    (hperm : order.Perm files) : Orderly root order where
  placed f hf := h.placed f (hperm.subset hf)
  named f hf := h.named f (hperm.subset hf)
  extended f hf := h.extended f (hperm.subset hf)
  owned f hf := h.owned f (hperm.subset hf)
  alone f hf := h.alone f (hperm.subset hf)
  labelled := h.labelled.of_subperm (hperm.map _).subperm

theorem Orderly.mirrors_assemble {root : String} {files : List CommandFile}
    (h : Orderly root files) :
    Mirrors "" (files.map CommandFile.placed) (assemble root files) := by
  induction files using List.reverseRecOn with
  | nil => exact Mirrors.placeholder ""
  | append_singleton files f ih =>
    have hsub : files ⊆ files ++ [f] := List.subset_append_left _ _
    have hfewer : Orderly root files :=
      { placed := fun g hg => h.placed g (hsub hg)
        named := fun g hg => h.named g (hsub hg)
        extended := fun g hg => h.extended g (hsub hg)
        owned := fun g hg => h.owned g (hsub hg)
        alone := fun g hg => h.alone g (hsub hg)
        labelled := h.labelled.of_subperm ((List.sublist_append_left _ _).map _).subperm }
    have hf : f ∈ files ++ [f] := by simp
    have hplaced : (files ++ [f]).map CommandFile.placed =
        files.map CommandFile.placed ++ [(f.segments, f.command)] := by
      rw [List.map_append]
      rfl
    have hlabels := h.labelled
    rw [hplaced] at hlabels
    rw [assemble_concat root files f (h.placed f hf) (h.named f hf), hplaced]
    refine (ih hfewer).merge (h.placed f hf) hlabels fun g hg => ?_
    rw [← hplaced] at hg
    obtain ⟨file, hfile, rfl⟩ := List.mem_map.1 hg
    exact h.tellsOrigin hfile

/-- **Command files whose names do not clash make a tree that mirrors the directory**, in whichever
order they are taken, and any two orders make the same tree up to the order of siblings. -/
theorem assemble_mirrors (root : String) (files : List CommandFile) (h : Orderly root files) :
    (∀ order : List CommandFile, order.Perm files →
      Mirrors "" (files.map CommandFile.placed) (assemble root order)) ∧
    ∀ order other : List CommandFile, order.Perm files → other.Perm files →
      Alike (assemble root order) (assemble root other) := by
  have hmirrors : ∀ order : List CommandFile, order.Perm files →
      Mirrors "" (files.map CommandFile.placed) (assemble root order) := by
    intro order hperm
    have horder := h.of_perm hperm
    exact horder.mirrors_assemble.perm (hperm.map _) horder.labelled
  refine ⟨hmirrors, fun order other horder hother => ?_⟩
  exact (hmirrors order horder).alike (hmirrors other hother)

/-- Four command files; the index file of a directory names it anew. -/
def serviceFiles : List CommandFile :=
  [⟨["svc", "up.js"], .mk { name := "up", filePath := some "commands/svc/up.js" } []⟩,
    ⟨["svc", "index.js"], .mk { name := "service", filePath := some "commands/svc/index.js" } []⟩,
    ⟨["svc", "db", "seed.js"],
      .mk { name := "seed", filePath := some "commands/svc/db/seed.js" } []⟩,
    ⟨["deploy.js"], .mk { name := "deploy", filePath := some "commands/deploy.js" } []⟩]

theorem assemble_mirrors_of_renamed_directory :
    Orderly "commands" serviceFiles ∧
      Mirrors "" (serviceFiles.map CommandFile.placed)
        (assemble "commands" serviceFiles.reverse) ∧
      Alike (assemble "commands" serviceFiles) (assemble "commands" serviceFiles.reverse) := by
  have h : Orderly "commands" serviceFiles :=
    { placed := by decide
      named := by decide
      extended := by decide +kernel
      owned := by decide +kernel
      alone := by decide
      labelled := by
        have hroot : folders (serviceFiles.map CommandFile.placed) = ["svc"] := by decide +kernel
        have hsvc : folders (inside "svc" (serviceFiles.map CommandFile.placed)) = ["db"] := by
          decide +kernel
        have hdb : folders (inside "db" (inside "svc" (serviceFiles.map CommandFile.placed))) =
            [] := by decide +kernel
        refine .of_folders (by decide +kernel) fun d hd => ?_
        obtain rfl : d = "svc" := by simpa [hroot] using hd
        refine .of_folders (by decide +kernel) fun d hd => ?_
        obtain rfl : d = "db" := by simpa [hsvc] using hd
        exact .of_folders (by decide +kernel) (by simp [hdb]) }
  have hmirrors := assemble_mirrors "commands" serviceFiles h
  exact ⟨h, hmirrors.1 _ (List.reverse_perm _),
    hmirrors.2 _ _ (List.Perm.refl _) (List.reverse_perm _)⟩

end CommandFiles
