import CommandFiles.Discovery

/-! # What a discovery that succeeds has done

A discovery takes the command files one after another: a file without an option literal leaves the
tree as it is, and the command of any other file is put into it. `Assembled` says so as a relation
between a tree, the files still to come and the tree in the end, so that facts about discovered
trees are inductions over their files. -/
namespace CommandFiles

namespace Discovery

variable {fs : FileSystem} {c : Context} {tree result : Command} {files : List String}

/-- The command of a file. -/
def Holds (fs : FileSystem) (c : Context) (path : String) (command : Command) : Prop :=
  (load fs c path).run.value = .ok (some command)

/-- Which trees come of a tree when the commands of some files are put into it, in their order. -/
inductive Assembled (fs : FileSystem) (c : Context) : Command → List String → Command → Prop where
  | done (tree : Command) : Assembled fs c tree [] tree
  | skip {tree result : Command} {path : String} {rest : List String} :
    (load fs c path).run.value = .ok none → Assembled fs c tree rest result →
    Assembled fs c tree (path :: rest) result
  | merge {tree result command : Command} {path : String} {rest : List String} :
    Holds fs c path command →
    Assembled fs c (command.merge (Path.segmentsBelow c.commandsRoot path) tree) rest result →
    Assembled fs c tree (path :: rest) result

/-- A file holds a command if a look at what was read of it succeeds. -/
theorem exists_holds {α : Type} (fs : FileSystem) (c : Context) (path : String)
    (look : Command → α) (a : α)
    (h : (load fs c path).run.value.toOption.join.map look = some a) :
    ∃ command, Holds fs c path command ∧ look command = a := by
  unfold Holds
  cases hload : (load fs c path).run.value with
  | error e => rw [hload] at h; cases h
  | ok found =>
    rw [hload] at h
    obtain ⟨command, hcommand, hlook⟩ := Option.map_eq_some_iff.mp h
    exact ⟨command, congrArg Except.ok hcommand, hlook⟩

/-! ## Runs -/

theorem addFile_eq_ok {path : String} : (addFile fs c tree path).run.value = .ok result ↔
    ((load fs c path).run.value = .ok none ∧ result = tree) ∨
    ∃ command, Holds fs c path command ∧
      result = command.merge (Path.segmentsBelow c.commandsRoot path) tree := by
  constructor
  · intro h
    obtain ⟨found, hfound, h⟩ := Logged.bind_eq_ok.mp h
    cases found with
    | none => exact .inl ⟨hfound, (Logged.pure_eq_ok.mp h).symm⟩
    | some command => exact .inr ⟨command, hfound, (Logged.pure_eq_ok.mp h).symm⟩
  · rintro (⟨hfound, rfl⟩ | ⟨command, hfound, rfl⟩)
    · exact Logged.bind_eq_ok.mpr ⟨none, hfound, rfl⟩
    · exact Logged.bind_eq_ok.mpr ⟨some command, hfound, rfl⟩

theorem addFiles_eq_ok :
    (addFiles fs c tree files).run.value = .ok result ↔ Assembled fs c tree files result := by
  constructor
  · intro h
    induction files generalizing tree with
    | nil =>
      obtain rfl := Logged.pure_eq_ok.mp h
      exact .done tree
    | cons path rest ih =>
      rw [addFiles_cons] at h
      obtain ⟨next, hnext, hrest⟩ := Logged.bind_eq_ok.mp h
      rcases addFile_eq_ok.mp hnext with ⟨hfound, rfl⟩ | ⟨command, hfound, rfl⟩
      · exact .skip hfound (ih hrest)
      · exact .merge hfound (ih hrest)
  · intro h
    induction h with
    | done tree => rfl
    | skip hfound _ ih =>
      exact Logged.bind_eq_ok.mpr ⟨_, addFile_eq_ok.mpr (.inl ⟨hfound, rfl⟩), ih⟩
    | merge hfound _ ih =>
      exact Logged.bind_eq_ok.mpr ⟨_, addFile_eq_ok.mpr (.inr ⟨_, hfound, rfl⟩), ih⟩

/-- **A discovery succeeds just if the search does and the tree comes of the files it finds.** -/
theorem discover_eq_ok : (discover fs c).run.value = .ok tree ↔
    ∃ files, commandFiles fs c = .ok files ∧ Assembled fs c Command.empty files tree := by
  constructor
  · intro h
    obtain ⟨files, hfiles, h⟩ := Logged.bind_eq_ok.mp h
    exact ⟨files, hfiles, addFiles_eq_ok.mp h⟩
  · rintro ⟨files, hfiles, h⟩
    exact Logged.bind_eq_ok.mpr ⟨files, hfiles, addFiles_eq_ok.mpr h⟩

namespace Assembled

/-- What every step keeps holds of the tree in the end. -/
theorem keeps {P : Command → Prop} (h : Assembled fs c tree files result) (hstart : P tree)
    (hstep : ∀ path ∈ files, ∀ command, Holds fs c path command → ∀ tree, P tree →
      P (command.merge (Path.segmentsBelow c.commandsRoot path) tree)) : P result := by
  induction h with
  | done tree => exact hstart
  | skip _ _ ih => exact ih hstart fun path hpath => hstep path (List.mem_cons_of_mem _ hpath)
  | merge hfound _ ih =>
    exact ih (hstep _ List.mem_cons_self _ hfound _ hstart)
      fun path hpath => hstep path (List.mem_cons_of_mem _ hpath)

/-- The tree at a file, before it is taken. -/
theorem split {path : String} {before after : List String} {command : Command}
    (h : Assembled fs c tree (before ++ path :: after) result) (hfound : Holds fs c path command) :
    ∃ between, Assembled fs c tree before between ∧
      Assembled fs c (command.merge (Path.segmentsBelow c.commandsRoot path) between) after
        result := by
  induction before generalizing tree with
  | nil =>
    refine ⟨tree, .done tree, ?_⟩
    cases h with
    | skip hnone _ => cases hfound.symm.trans hnone
    | merge hother h =>
      cases hfound.symm.trans hother
      exact h
  | cons first before ih =>
    cases h with
    | skip hnone h =>
      obtain ⟨between, hbefore, hafter⟩ := ih h
      exact ⟨between, .skip hnone hbefore, hafter⟩
    | merge hother h =>
      obtain ⟨between, hbefore, hafter⟩ := ih h
      exact ⟨between, .merge hother hbefore, hafter⟩

end Assembled

/-! ## Small file systems -/

/-- A file system with some files below the command root of a project in `/w`. -/
def projectWith (files : List (String × Entry)) : FileSystem where
  root := .directory [("w", .directory [("zli_commands", .directory
    [("commands", .directory files)])])]
  cwd := ["w"]

/-- What an invocation in that project runs in. -/
def projectContext : Context := ⟨Config.anchored "/w", "/w", "/home/u"⟩

theorem eq_ok_of_toOption {ε α : Type} {r : Except ε α} {a : α} (h : r.toOption = some a) :
    r = .ok a := by
  cases r with
  | error e => cases h
  | ok b => exact congrArg Except.ok (Option.some.inj h)

end Discovery

end CommandFiles
