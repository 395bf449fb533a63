import CommandFiles.Proofs.MadeFiles

/-! # What a search finds where the files are known

Directories without files do not count in a search. If all files below a directory lie in it itself,
and their places in a search differ, the search finds them in the order of their places. -/
namespace CommandFiles

namespace Entry

variable {f : FileFilter} {trail names found : List String} {e : Entry}
  {entries : List (String × Entry)}

mutual

/-- Where a search finds something there is a file. -/
theorem exists_file_of_mem_commandFiles : ∀ {trail : List String} {e : Entry}, e.NamesDiffer →
    names ∈ commandFiles f trail e → ∃ below content, e.at? below = some (.file content)
  | _, .file content, _, _ => ⟨[], content, rfl⟩
  | _, .directory entries, hnames, h => by
    rw [NamesDiffer] at hnames
    rw [commandFiles] at h
    obtain ⟨p, hp, hfile⟩ := List.mem_flatMap.mp h
    obtain ⟨⟨name, e⟩, hm, below, content, hbelow⟩ :=
      exists_file_of_mem_commandFilesIn hnames.2 (Text.mem_sortOn.mp hp) hfile
    exact ⟨name :: below, content,
      (at?_cons (Record.lookup_of_mem hnames.1 hm) below).trans hbelow⟩

theorem exists_file_of_mem_commandFilesIn {p : String × List (List String)} :
    ∀ {trail : List String} {entries : List (String × Entry)}, namesDifferIn entries →
      p ∈ commandFilesIn f trail entries → names ∈ p.2 →
      ∃ m ∈ entries, ∃ below content, m.2.at? below = some (.file content)
  | _, [], _, h, _ => by cases h
  | trail, (name, e) :: rest, hnames, h, hfile => by
    rw [namesDifferIn] at hnames
    rw [commandFilesIn] at h
    rcases List.mem_cons.mp h with rfl | h
    · dsimp only at hfile
      split at hfile
      · cases hfile
      · exact ⟨(name, e), List.mem_cons_self, exists_file_of_mem_commandFiles hnames.1 hfile⟩
    · obtain ⟨m, hm, hbelow⟩ := exists_file_of_mem_commandFilesIn hnames.2 h hfile
      exact ⟨m, List.mem_cons_of_mem _ hm, hbelow⟩

end

/-- A file that is taken, behind the place of its name. -/
def taken (name : String) : String × List (List String) := (searchName name, [[name]])

theorem placed_file {name : String} (hskipped : isSkipped f [] name = false)
    (hending : f.hasEnding name = true) (content : Content) :
    placed f [] (name, .file content) = taken name := by
  simp [placed, taken, hskipped, commandFiles, hending]

/-- **A search finds the files of a directory in the order of their places**, if they are all files
below it. -/
theorem commandFiles_eq_of_files (hnames : (directory entries).NamesDiffer)
    (hplaces : (found.map searchName).Pairwise (· < ·))
    (htaken : ∀ name ∈ found, isSkipped f [] name = false ∧ f.hasEnding name = true ∧
      ∃ content, entries.lookup name = some (.file content))
    (honly : ∀ names content, (directory entries).at? names = some (.file content) →
      ∃ name ∈ found, names = [name]) :
    commandFiles f [] (directory entries) = found.map fun name => [name] := by
  rw [NamesDiffer] at hnames
  have hplaced : ∀ m ∈ entries, holdsFiles (placed f [] m) = true →
      m.1 ∈ found ∧ placed f [] m = taken m.1 := by
    rintro ⟨name, e⟩ hm hholds
    have hlookup := Record.lookup_of_mem hnames.1 hm
    obtain ⟨file, more, hfiles⟩ := List.exists_cons_of_ne_nil
      (by simpa [holdsFiles] using hholds : (placed f [] (name, e)).2 ≠ [])
    have hmem : file ∈ commandFiles f ([] ++ [name]) e := by
      have hfirst : file ∈ (placed f [] (name, e)).2 := hfiles ▸ List.mem_cons_self
      rw [placed] at hfirst
      dsimp only at hfirst
      split at hfirst
      · cases hfirst
      · exact hfirst
    obtain ⟨below, content, hbelow⟩ :=
      exists_file_of_mem_commandFiles (namesDiffer_of_lookup hnames.2 hlookup) hmem
    obtain ⟨name', hname', heq⟩ := honly (name :: below) content
      ((at?_cons hlookup below).trans hbelow)
    obtain ⟨rfl, rfl⟩ := List.cons.inj heq
    cases hbelow
    obtain ⟨hskipped, hending, -⟩ := htaken name hname'
    exact ⟨hname', placed_file hskipped hending content⟩
  have hdistinct : (found.map searchName).Nodup := by
    refine hplaces.imp ?_
    rintro p _ hlt rfl
    exact String.lt_irrefl p hlt
  have hnodup : found.Nodup := hdistinct.of_map
  have hperm : ((entries.filter fun m => holdsFiles (placed f [] m)).map Prod.fst).Perm found := by
    refine (List.perm_ext_iff_of_nodup (hnames.1.sublist (List.filter_sublist.map _)) hnodup).mpr
      fun name => ⟨fun h => ?_, fun h => ?_⟩
    · obtain ⟨m, hm, rfl⟩ := List.mem_map.mp h
      obtain ⟨hm, hholds⟩ := List.mem_filter.mp hm
      exact (hplaced m hm hholds).1
    · obtain ⟨hskipped, hending, content, hlookup⟩ := htaken name h
      refine List.mem_map.mpr ⟨(name, .file content), List.mem_filter.mpr
        ⟨Record.mem_of_lookup hlookup, ?_⟩, rfl⟩
      rw [placed_file hskipped hending]
      rfl
  have hfiltered : ((Text.sortOn Prod.fst (entries.map (placed f []))).filter holdsFiles).Perm
      (found.map taken) := by
    refine ((Text.perm_sortOn _ _).filter _).trans ?_
    have hmap : (entries.map (placed f [])).filter holdsFiles =
        ((entries.filter fun m => holdsFiles (placed f [] m)).map Prod.fst).map taken := by
      rw [List.filter_map, List.map_map]
      refine List.map_congr_left fun m hm => ?_
      obtain ⟨hm, hholds⟩ := List.mem_filter.mp hm
      exact (hplaced m hm hholds).2
    rw [hmap]
    exact hperm.map taken
  have hsorted : (Text.sortOn Prod.fst (entries.map (placed f []))).filter holdsFiles =
      found.map taken := by
    have hordered : (found.map taken).Pairwise fun p q => p.1 < q.1 := by
      rw [List.pairwise_map] at hplaces ⊢
      exact hplaces
    refine List.Perm.eq_of_pairwise (fun p q hp hq hpq hqp => ?_)
      ((Text.pairwise_sortOn Prod.fst _).filter _)
      (hordered.imp fun h => String.not_lt.mp (String.lt_asymm h)) hfiltered
    have hplace := String.le_antisymm hpq hqp
    obtain ⟨name, hname, rfl⟩ := List.mem_map.mp (hfiltered.subset hp)
    obtain ⟨name', hname', rfl⟩ := List.mem_map.mp hq
    rw [List.inj_on_of_nodup_map hdistinct hname hname' hplace]
  rw [commandFiles, commandFilesIn_eq, ← flatMap_filter_holdsFiles, hsorted, List.flatMap_map,
    List.map_eq_flatMap]
  rfl

end Entry

end CommandFiles
