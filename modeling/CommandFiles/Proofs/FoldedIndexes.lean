import CommandFiles.Proofs.TreeAddresses
import CommandFiles.Proofs.TreeAssembly

/-! # Index files of one directory

A directory may have several index files, with different extensions. Each lays its command over the
command of the directory and may rename it; the next one still finds it, because the command now
tells by its path which directory it stands for. So all of them make the one command that comes of
laying them over each other first. -/
namespace CommandFiles.Command

/-! ## Laying commands over each other -/

theorem overlayDeclared_assoc (a b c : Declaration) :
    overlayDeclared (overlayDeclared a b) c = overlayDeclared a (overlayDeclared b c) := by
  simp only [overlayDeclared, Option.orElse_eq_orElse, Option.orElse_eq_or, Option.or_assoc]

theorem overlay_assoc (a b c : Command) :
    (a.overlay b).overlay c = a.overlay (b.overlay c) := by
  simp only [overlay, declared, subcommands, overlayDeclared_assoc, List.append_assoc]

/-! ## Changing one of several commands, or adding one -/

/-- Changes the first command that fits, or adds a changed new one at the end. -/
def changeOrAdd (fits : Command → Bool) (change : Command → Command) (fresh : Command)
    (cs : List Command) : List Command :=
  (changeFirst? fits change cs).getD (cs ++ [change fresh])

variable {fits : Command → Bool} {change more : Command → Command} {fresh c : Command}
  {cs : List Command}

theorem changeOrAdd_cons : changeOrAdd fits change fresh (c :: cs) =
    if fits c then change c :: cs else c :: changeOrAdd fits change fresh cs := by
  rw [changeOrAdd, changeOrAdd, changeFirst?]
  split
  · rfl
  · cases changeFirst? fits change cs <;> rfl

/-- A second change finds the command of the first one if that one still fits. -/
theorem changeOrAdd_changeOrAdd (hfresh : fits (change fresh) = true)
    (hfits : ∀ c, fits c = true → fits (change c) = true) (cs : List Command) :
    changeOrAdd fits more fresh (changeOrAdd fits change fresh cs) =
      changeOrAdd fits (more ∘ change) fresh cs := by
  induction cs with
  | nil =>
    change changeOrAdd fits more fresh [change fresh] = [more (change fresh)]
    rw [changeOrAdd_cons, if_pos hfresh]
  | cons c rest ih =>
    rw [changeOrAdd_cons, changeOrAdd_cons]
    by_cases hc : fits c = true
    · rw [if_pos hc, if_pos hc, changeOrAdd_cons, if_pos (hfits c hc)]
      rfl
    · rw [if_neg hc, if_neg hc, changeOrAdd_cons, if_neg hc, ih]

/-- A file further down changes the command of its directory, or a new one for it. -/
theorem merge_inside (command : Command) (directory : String) {rest : List String}
    (hrest : rest ≠ []) (node : Command) :
    merge command (directory :: rest) node = node.withSubcommands
      (changeOrAdd (standsFor directory) (merge command rest) (placeholder directory)
        node.subcommands) := by
  obtain ⟨file, more, rfl⟩ := List.exists_cons_of_ne_nil hrest
  rw [merge, changeOrAdd]
  cases changeFirst? (standsFor directory) (merge command (file :: more)) node.subcommands <;> rfl

/-! ## Index files -/

variable {dirs : List String} {directory file path : String} {first second command : Command}

theorem filePath_overlay (h : command.filePath = some path) (c : Command) :
    (c.overlay command).filePath = some path := by
  change (command.filePath <|> c.filePath) = some path
  rw [h]
  rfl

/-- The command of a directory that an index file of it was laid over stands for the directory,
whatever its name is now. -/
theorem standsFor_overlay (hpath : first.filePath = some path) (h : IsIndexIn [directory] path)
    (c : Command) : (c.overlay first).standsFor directory = true := by
  rw [standsFor, indexDirectory?_of_isIndexIn (filePath_overlay hpath c) h rfl]
  simp

/-- A file further down leaves a command standing for the directory it stands for. -/
theorem standsFor_merge_inside (command : Command) (next : String) {rest : List String}
    (hrest : rest ≠ []) (c : Command) :
    (merge command (next :: rest) c).standsFor directory = c.standsFor directory := by
  rw [merge_inside command next hrest]
  rfl

theorem IsIndexIn.tail {next : String} (h : IsIndexIn (directory :: next :: dirs) path) :
    IsIndexIn (next :: dirs) path :=
  ⟨h.stem, h.inside⟩

/-- **Two index files of one directory make one command**, that of the second laid over that of the
first, under whichever name. -/
theorem merge_merge_index (hfile : isIndexFile file = true) (hpath : first.filePath = some path)
    (h : IsIndexIn dirs path) (second tree : Command) :
    merge second (dirs ++ [file]) (merge first (dirs ++ [file]) tree) =
      merge (first.overlay second) (dirs ++ [file]) tree := by
  induction dirs generalizing tree with
  | nil => simp only [List.nil_append, merge_index _ hfile, overlay_assoc]
  | cons directory rest ih =>
    have hrest : rest ++ [file] ≠ [] := by simp
    -- The command of the directory is found again: below it lies the one that is changed, or it
    -- is the one itself and tells its directory by its path.
    have hfits : ∀ c, standsFor directory c = true ∨ c = placeholder directory →
        standsFor directory (merge first (rest ++ [file]) c) = true := by
      intro c hc
      cases rest with
      | nil =>
        rw [List.nil_append, merge_index _ hfile]
        exact standsFor_overlay hpath h c
      | cons next more =>
        rw [List.cons_append, standsFor_merge_inside first next (by simp)]
        rcases hc with hc | rfl
        · exact hc
        · simp [standsFor, placeholder, name, declared]
    have hsame : merge second (rest ++ [file]) ∘ merge first (rest ++ [file]) =
        merge (first.overlay second) (rest ++ [file]) := by
      funext c
      cases rest with
      | nil => exact ih ⟨h.stem, by simp⟩ c
      | cons next more => exact ih h.tail c
    rw [List.cons_append, merge_inside _ _ hrest, merge_inside _ _ hrest, merge_inside _ _ hrest,
      subcommands_withSubcommands, changeOrAdd_changeOrAdd (hfits _ (.inr rfl))
        (fun c hc => hfits c (.inl hc)), hsame]
    rfl

/-- It does not matter what the index file of a directory is called. -/
theorem merge_index_name {file' : String} (hfile : isIndexFile file = true)
    (hfile' : isIndexFile file' = true) (dirs : List String) (command tree : Command) :
    merge command (dirs ++ [file]) tree = merge command (dirs ++ [file']) tree := by
  induction dirs generalizing tree with
  | nil => rw [List.nil_append, List.nil_append, merge_index _ hfile, merge_index _ hfile']
  | cons directory rest ih =>
    have hsame : merge command (rest ++ [file]) = merge command (rest ++ [file']) := funext ih
    rw [List.cons_append, List.cons_append, merge_inside _ _ (by simp), merge_inside _ _ (by simp),
      hsame]

/-- **All index files of one directory make one command**: each is laid over those before it, and
the whole over the command of the directory. -/
theorem foldl_merge_index {more : List (String × Command)} (hfile : isIndexFile file = true)
    (hfirst : ∃ path, first.filePath = some path ∧ IsIndexIn dirs path)
    (hmore : ∀ f ∈ more, isIndexFile f.1 = true ∧
      ∃ path, f.2.filePath = some path ∧ IsIndexIn dirs path) (tree : Command) :
    more.foldl (fun tree f => merge f.2 (dirs ++ [f.1]) tree)
        (merge first (dirs ++ [file]) tree) =
      merge (more.foldl (fun below f => below.overlay f.2) first) (dirs ++ [file]) tree := by
  induction more generalizing first with
  | nil => rfl
  | cons f rest ih =>
    obtain ⟨path, hpath, hindex⟩ := hfirst
    obtain ⟨⟨hname, path', hpath', hindex'⟩, hrest⟩ := List.forall_mem_cons.mp hmore
    rw [List.foldl_cons, List.foldl_cons, merge_index_name hname hfile,
      merge_merge_index hfile hpath hindex]
    exact ih ⟨path', filePath_overlay hpath' first, hindex'⟩ hrest

/-- **The index files of a directory fold**: merging two of them one after the other is merging the
one laid over the other, and laying over is associative. -/
theorem indexes_fold :
    (∀ (tree first second : Command) (dirs : List String) (file path : String),
      isIndexFile file = true → first.filePath = some path → IsIndexIn dirs path →
      merge second (dirs ++ [file]) (merge first (dirs ++ [file]) tree) =
        merge (first.overlay second) (dirs ++ [file]) tree) ∧
    ∀ a b c : Command, (a.overlay b).overlay c = a.overlay (b.overlay c) :=
  ⟨fun tree _ second _ _ _ hfile hpath h => merge_merge_index hfile hpath h second tree,
    overlay_assoc⟩

/-- The index file renames the command of its directory, which lies behind another one. -/
theorem indexes_fold_of_renamed :
    let tree := mk {} [mk { name := "svc" } []]
    let first := mk { name := "svc", filePath := some "/c/services/index.js" } []
    let second := mk { name := "other", description := some "services" } []
    isIndexFile "index.js" = true ∧ first.filePath = some "/c/services/index.js" ∧
      IsIndexIn ["services"] "/c/services/index.js" ∧
      merge second ["services", "index.js"] (merge first ["services", "index.js"] tree) =
        merge (first.overlay second) ["services", "index.js"] tree := by
  intro tree first second
  have hindex : IsIndexIn ["services"] "/c/services/index.js" :=
    ⟨by decide, fun _ h => Option.some.inj h ▸ by decide⟩
  exact ⟨by decide, rfl, hindex, indexes_fold.1 tree first second ["services"] "index.js"
    "/c/services/index.js" (by decide) rfl hindex⟩

end CommandFiles.Command
