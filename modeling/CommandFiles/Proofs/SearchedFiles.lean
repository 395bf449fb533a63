import Mathlib.Data.List.Pairwise
import CommandFiles.Proofs.SearchOrder
import CommandFiles.Proofs.WrittenFiles

/-! # Which files a search finds

A search finds a file if its name has one of the endings and nothing on the way to it is passed
over. It finds every such file once: the files of a directory stand together, and where two ways
first part, the one along the smaller name in lower case comes first. -/
namespace CommandFiles

namespace Text

variable {α β : Type}

theorem insertOn_map (name : α → String) (g : β → α) (b : β) (items : List β) :
    insertOn name (g b) (items.map g) = (insertOn (fun b => name (g b)) b items).map g := by
  induction items with
  | nil => rfl
  | cons c rest ih =>
    rw [List.map_cons, insertOn, insertOn]
    split
    · rw [ih, List.map_cons]
    · rfl

theorem sortOn_map (name : α → String) (g : β → α) (items : List β) :
    sortOn name (items.map g) = (sortOn (fun b => name (g b)) items).map g := by
  induction items with
  | nil => rfl
  | cons b rest ih =>
    show insertOn name (g b) (sortOn name (rest.map g)) = _
    rw [ih, insertOn_map]
    rfl

end Text

namespace Entry

variable {f : FileFilter} {trail names below : List String} {e : Entry}
  {entries : List (String × Entry)} {m : String × Entry} {name : String}

/-! ## One directory -/

/-- The entries of a directory are searched one after another, in the order of their places. -/
theorem commandFiles_directory : commandFiles f trail (.directory entries) =
    (Text.sortOn (fun m => searchName m.1) entries).flatMap fun m => (placed f trail m).2 := by
  rw [commandFiles, commandFilesIn_eq, Text.sortOn_map, List.flatMap_map]
  rfl

theorem mem_placed : names ∈ (placed f trail m).2 ↔
    isSkipped f trail m.1 = false ∧ names ∈ commandFiles f (trail ++ [m.1]) m.2 := by
  unfold placed
  cases isSkipped f trail m.1 <;> simp

theorem mem_commandFiles_directory : names ∈ commandFiles f trail (.directory entries) ↔
    ∃ m ∈ entries, names ∈ (placed f trail m).2 := by
  simp [commandFiles_directory]

theorem eq_trail_of_mem_file {content : Content}
    (h : names ∈ commandFiles f trail (.file content)) : names = trail := by
  rw [commandFiles] at h
  split at h
  · exact List.mem_singleton.mp h
  · cases h

/-- What is found behind an entry lies behind its name. -/
theorem name_eq_of_mem_placed (h : names ∈ (placed f trail m).2)
    (hlead : trail ++ name :: below <+: names) : m.1 = name := by
  have hname := prefix_of_mem_placed h
  have hfirst : trail ++ [name] <+: names := by
    refine List.IsPrefix.trans ?_ hlead
    simp
  have heq := (List.prefix_of_prefix_length_le hname hfirst (by simp)).eq_of_length (by simp)
  simpa using heq

/-! ## What is found -/

/-- Whether names lead from an entry to a file that is taken, and nothing on the way is passed
over. -/
structure Taken (f : FileFilter) (trail : List String) (e : Entry) (below : List String) :
    Prop where
  file : ∃ content, e.at? below = some (.file content)
  ending : ((trail ++ below).getLast?.map f.hasEnding).getD false = true
  kept : ∀ above name, above ++ [name] <+: below → isSkipped f (trail ++ above) name = false

theorem taken_cons : Taken f trail (.directory entries) (name :: below) ↔
    ∃ found, entries.lookup name = some found ∧ isSkipped f trail name = false ∧
      Taken f (trail ++ [name]) found below := by
  have hassoc : ∀ rest, trail ++ name :: rest = trail ++ [name] ++ rest := by simp
  constructor
  · intro htaken
    obtain ⟨⟨content, hfile⟩, hending, hkept⟩ := htaken
    rw [at?] at hfile
    cases hlookup : entries.lookup name with
    | none => rw [hlookup] at hfile; cases hfile
    | some found =>
      rw [hlookup] at hfile
      refine ⟨found, rfl, by simpa using hkept [] name (by simp), ⟨content, hfile⟩,
        hassoc below ▸ hending, ?_⟩
      intro above next hlead
      have hnext := hkept (name :: above) next (by simpa using hlead)
      rwa [hassoc] at hnext
  · intro h
    obtain ⟨found, hlookup, hskipped, ⟨content, hfile⟩, hending, hkept⟩ := h
    refine ⟨⟨content, (at?_cons hlookup below).trans hfile⟩, hassoc below ▸ hending, ?_⟩
    intro above next hlead
    cases above with
    | nil =>
      obtain ⟨rfl, -⟩ := List.cons_prefix_cons.mp hlead
      rwa [List.append_nil]
    | cons first above =>
      rw [List.cons_append, List.cons_prefix_cons] at hlead
      obtain ⟨rfl, hlead⟩ := hlead
      rw [hassoc]
      exact hkept above next hlead

/-- **What a search finds.** -/
theorem mem_commandFiles (hdiffer : e.NamesDiffer) :
    trail ++ below ∈ commandFiles f trail e ↔ Taken f trail e below := by
  induction below generalizing trail e with
  | nil =>
    cases e with
    | file content =>
      rw [commandFiles]
      constructor
      · intro h
        split at h
        · next hending => exact ⟨⟨content, rfl⟩, by rwa [List.append_nil], by simp⟩
        · cases h
      · intro h
        have hending := h.ending
        rw [List.append_nil] at hending ⊢
        rw [if_pos hending]
        exact List.mem_singleton_self trail
    | directory entries =>
      refine iff_of_false ?_ fun h => by simpa [at?] using h.file
      intro h
      obtain ⟨m, -, hm⟩ := mem_commandFiles_directory.mp h
      have hlong := (prefix_of_mem_placed hm).length_le
      simp only [List.length_append, List.length_singleton, List.length_nil] at hlong
      omega
  | cons name rest ih =>
    cases e with
    | file content =>
      refine iff_of_false ?_ fun h => by simpa [at?] using h.file
      intro h
      simpa using eq_trail_of_mem_file h
    | directory entries =>
      rw [NamesDiffer] at hdiffer
      have hbelow : ∀ found, entries.lookup name = some found →
          (trail ++ name :: rest ∈ commandFiles f (trail ++ [name]) found ↔
            Taken f (trail ++ [name]) found rest) := by
        intro found hlookup
        rw [← ih (namesDiffer_of_lookup hdiffer.2 hlookup)]
        simp
      rw [taken_cons, mem_commandFiles_directory]
      constructor
      · intro h
        obtain ⟨⟨other, found⟩, hm, hplaced⟩ := h
        obtain rfl : other = name := name_eq_of_mem_placed hplaced (List.prefix_refl _)
        obtain ⟨hskipped, hmem⟩ := mem_placed.mp hplaced
        have hlookup := Record.lookup_of_mem hdiffer.1 hm
        exact ⟨found, hlookup, hskipped, (hbelow found hlookup).mp hmem⟩
      · intro h
        obtain ⟨found, hlookup, hskipped, htaken⟩ := h
        exact ⟨(name, found), Record.mem_of_lookup hlookup,
          mem_placed.mpr ⟨hskipped, (hbelow found hlookup).mpr htaken⟩⟩

/-! ## In which order it is found -/

/-- Whether one way comes before another one: of the names where they first part, the one in lower
case is not greater than the other. -/
def Precedes (names others : List String) : Prop :=
  ∃ common name other rest more, names = common ++ name :: rest ∧
    others = common ++ other :: more ∧ name ≠ other ∧
    Text.toLowerCase name ≤ Text.toLowerCase other

theorem Precedes.ne {others : List String} (h : Precedes names others) : names ≠ others := by
  obtain ⟨common, name, other, rest, more, rfl, rfl, hne, -⟩ := h
  intro heq
  exact hne (List.cons.inj (List.append_cancel_left heq)).1

/-- The entries of a directory in the order of their places, with different names. -/
theorem pairwise_sortOn_searchName (hnodup : (entries.map Prod.fst).Nodup) :
    (Text.sortOn (fun m => searchName m.1) entries).Pairwise fun m m' =>
      m.1 ≠ m'.1 ∧ searchName m.1 ≤ searchName m'.1 := by
  have hperm := (Text.perm_sortOn (fun m : String × Entry => searchName m.1) entries).map Prod.fst
  have hdiffer := List.pairwise_map.mp (hperm.symm.nodup hnodup)
  exact hdiffer.and (Text.pairwise_sortOn _ entries)

mutual

/-- **The files are found in the order of their ways.** -/
theorem pairwise_commandFiles : ∀ {trail : List String} {e : Entry}, e.NamesDiffer →
    (commandFiles f trail e).Pairwise Precedes
  | trail, .file content, _ => by
    rw [commandFiles]
    split <;> simp
  | trail, .directory entries, hdiffer => by
    rw [NamesDiffer] at hdiffer
    rw [commandFiles_directory, List.pairwise_flatMap]
    refine ⟨fun m hm => ?_, (pairwise_sortOn_searchName hdiffer.1).imp ?_⟩
    · unfold placed
      dsimp only
      split
      · exact List.Pairwise.nil
      · exact pairwise_commandFilesIn hdiffer.2 m (Text.mem_sortOn.mp hm)
    · intro m m' horder names hnames others hothers
      obtain ⟨hne, hle⟩ := horder
      obtain ⟨rest, hrest⟩ := prefix_of_mem_placed hnames
      obtain ⟨more, hmore⟩ := prefix_of_mem_placed hothers
      exact ⟨trail, m.1, m'.1, rest, more, by simp [← hrest], by simp [← hmore], hne, hle⟩

theorem pairwise_commandFilesIn : ∀ {trail : List String} {entries : List (String × Entry)},
    namesDifferIn entries → ∀ m ∈ entries,
      (commandFiles f (trail ++ [m.1]) m.2).Pairwise Precedes
  | _, [], _, _, h => by cases h
  | trail, (name, e) :: rest, hdiffer, m, h => by
    rw [namesDifferIn] at hdiffer
    rcases List.mem_cons.mp h with rfl | h
    · exact pairwise_commandFiles hdiffer.1
    · exact pairwise_commandFilesIn hdiffer.2 m h

end

/-- Whether the ways through one place stand together in a list. -/
def IsTogether (place : List String) (found : List (List String)) : Prop :=
  ∃ before inside after, found = before ++ inside ++ after ∧
    (∀ names ∈ inside, place <+: names) ∧ ∀ names ∈ before ++ after, ¬ place <+: names

theorem isTogether_of_forall_not {place : List String} {found : List (List String)}
    (h : ∀ names ∈ found, ¬ place <+: names) : IsTogether place found :=
  ⟨found, [], [], by simp, nofun, by simpa using h⟩

theorem IsTogether.between {place : List String} {found before after : List (List String)}
    (h : IsTogether place found) (hbefore : ∀ names ∈ before, ¬ place <+: names)
    (hafter : ∀ names ∈ after, ¬ place <+: names) :
    IsTogether place (before ++ found ++ after) := by
  obtain ⟨first, inside, last, rfl, hinside, houtside⟩ := h
  refine ⟨before ++ first, inside, last ++ after, by simp, hinside, ?_⟩
  intro names hnames
  simp only [List.mem_append] at hnames houtside
  rcases hnames with (h | h) | h | h
  · exact hbefore names h
  · exact houtside names (.inl h)
  · exact houtside names (.inr h)
  · exact hafter names h

/-- **The files of a directory are found together**, before or after all others. -/
theorem isTogether_commandFiles (hdiffer : e.NamesDiffer) (below : List String) :
    IsTogether (trail ++ below) (commandFiles f trail e) := by
  induction below generalizing trail e with
  | nil =>
    refine ⟨[], commandFiles f trail e, [], by simp, ?_, nofun⟩
    intro names hnames
    rw [List.append_nil]
    exact prefix_of_mem_commandFiles hnames
  | cons name rest ih =>
    cases e with
    | file content =>
      refine isTogether_of_forall_not fun names hnames hlead => ?_
      have hlong := hlead.length_le
      rw [eq_trail_of_mem_file hnames, List.length_append, List.length_cons] at hlong
      omega
    | directory entries =>
      rw [NamesDiffer] at hdiffer
      cases hlookup : entries.lookup name with
      | none =>
        refine isTogether_of_forall_not fun names hnames hlead => ?_
        obtain ⟨⟨other, found⟩, hm, hplaced⟩ := mem_commandFiles_directory.mp hnames
        obtain rfl : other = name := name_eq_of_mem_placed hplaced hlead
        rw [Record.lookup_of_mem hdiffer.1 hm] at hlookup
        cases hlookup
      | some found =>
        have hmem : (name, found) ∈ Text.sortOn (fun m => searchName m.1) entries :=
          Text.mem_sortOn.mpr (Record.mem_of_lookup hlookup)
        obtain ⟨before, after, hsorted⟩ := List.append_of_mem hmem
        have hpairwise := pairwise_sortOn_searchName hdiffer.1
        rw [hsorted, List.pairwise_append, List.pairwise_cons] at hpairwise
        obtain ⟨-, ⟨hafter, -⟩, hbefore⟩ := hpairwise
        have houtside : ∀ others : List (String × Entry), (∀ m ∈ others, m.1 ≠ name) →
            ∀ names ∈ others.flatMap fun m => (placed f trail m).2,
              ¬ trail ++ name :: rest <+: names := by
          intro others hne names hnames hlead
          obtain ⟨m, hm, hplaced⟩ := List.mem_flatMap.mp hnames
          exact hne m hm (name_eq_of_mem_placed hplaced hlead)
        have hinside : IsTogether (trail ++ name :: rest) (placed f trail (name, found)).2 := by
          unfold placed
          cases isSkipped f trail name with
          | true => exact isTogether_of_forall_not nofun
          | false =>
            have htogether := @ih (trail ++ [name]) found (namesDiffer_of_lookup hdiffer.2 hlookup)
            simpa using htogether
        rw [commandFiles_directory, hsorted, List.flatMap_append, List.flatMap_cons,
          ← List.append_assoc]
        exact hinside.between (houtside before fun m hm => (hbefore m hm _ List.mem_cons_self).1)
          (houtside after fun m hm => (hafter m hm).1.symm)

end Entry

/-! ## Filters of settings -/

namespace FileFilter

open CommandLine (except_bind_eq_ok exists_of_except_mapM exists_of_mem_except_mapM)

variable {extensions patterns : List String} {f : FileFilter}

/-- Whether a path is excluded by one of some patterns, or by those that always exclude. -/
def IsExcluded (patterns : List String) (path : String) : Prop :=
  ∃ pattern ∈ always ++ patterns, ∃ g, Glob.ofText pattern = .ok g ∧ g.matches path = true

theorem exclusion_eq_ok {pattern : String} {g : Glob} :
    exclusion pattern = .ok g ↔ Glob.ofText pattern = .ok g := by
  unfold exclusion
  cases Glob.ofText pattern <;> simp [Except.mapError]

theorem endings_of_ofSettings (h : ofSettings extensions patterns = .ok f) :
    f.endings = extensions.map ending := by
  obtain ⟨globs, -, hf⟩ := except_bind_eq_ok.mp h
  cases hf
  rfl

theorem excludes_of_ofSettings (h : ofSettings extensions patterns = .ok f) (path : String) :
    f.excludes path = true ↔ IsExcluded patterns path := by
  obtain ⟨globs, hglobs, hf⟩ := except_bind_eq_ok.mp h
  cases hf
  rw [excludes, List.any_eq_true, IsExcluded]
  constructor
  · intro h
    obtain ⟨g, hg, hmatches⟩ := h
    obtain ⟨pattern, hpattern, hread⟩ := exists_of_except_mapM hglobs hg
    exact ⟨pattern, hpattern, g, exclusion_eq_ok.mp hread, hmatches⟩
  · intro h
    obtain ⟨pattern, hpattern, g, hread, hmatches⟩ := h
    obtain ⟨g', hg', hread'⟩ := exists_of_mem_except_mapM hglobs hpattern
    cases (exclusion_eq_ok.mp hread').symm.trans hread
    exact ⟨g, hg', hmatches⟩

end FileFilter

namespace Path

/-- A path has the extension of its last name. -/
theorem extension?_under (root : String) {before : List String} {name : String}
    (h : ∀ n ∈ before ++ [name], IsName n) :
    extension? (under root (Entry.pathOf (before ++ [name]))) = extension? name := by
  rw [extension?, extension?, fileName?_under root h,
    fileName?_of_isName (h name (List.mem_append_right before (List.mem_singleton_self name)))]

end Path

namespace Entry

/-! ## Command files -/

mutual

/-- Whether all that lies in an entry has a proper name. -/
def NamesProper : Entry → Prop
  | file _ => True
  | directory entries => namesProperIn entries

/-- The same of the entries of a directory, and of their own names. -/
def namesProperIn : List (String × Entry) → Prop
  | [] => True
  | (name, e) :: rest => Path.IsName name ∧ e.NamesProper ∧ namesProperIn rest

end

/-- Whether names lead from a directory to a command file: a file with one of the extensions, with
no hidden name and nothing excluded on the way to it. -/
structure IsCommandFile (extensions patterns : List String) (directory : String) (e : Entry)
    (names : List String) : Prop where
  file : ∃ content, e.at? names = some (.file content)
  extension : ∃ extension, Path.extension? (Path.under directory (pathOf names)) = some extension ∧
    Text.toLowerCase extension ∈ extensions.map FileFilter.ending
  shown : ∀ name ∈ names, name.toList.head? ≠ some '.'
  kept : ∀ way, way ≠ [] → way <+: names → ¬ FileFilter.IsExcluded patterns (pathOf way)

variable {extensions patterns : List String} {f : FileFilter} {directory name : String}
  {e found : Entry} {entries : List (String × Entry)} {names : List String}

theorem isName_of_lookup (h : namesProperIn entries) (hfound : entries.lookup name = some found) :
    Path.IsName name ∧ found.NamesProper := by
  induction entries with
  | nil => cases hfound
  | cons m rest ih =>
    rw [namesProperIn] at h
    rw [Record.lookup_entry] at hfound
    split at hfound
    · next heq =>
      cases hfound
      exact ⟨heq ▸ h.1, h.2.1⟩
    · exact ih h.2.2 hfound

theorem isName_of_at? (h : e.NamesProper) (hat : e.at? names = some found) :
    ∀ name ∈ names, Path.IsName name := by
  induction names generalizing e with
  | nil => nofun
  | cons name rest ih =>
    cases e with
    | file content => cases hat
    | directory entries =>
      rw [at?] at hat
      cases hlookup : entries.lookup name with
      | none => rw [hlookup] at hat; cases hat
      | some below =>
        rw [hlookup] at hat
        obtain ⟨hname, hbelow⟩ := isName_of_lookup h hlookup
        exact List.forall_mem_cons.mpr ⟨hname, ih hbelow hat⟩

/-- Nothing on a way is passed over just if no name on it is hidden and no part of it excluded. -/
theorem forall_isSkipped_iff (hf : FileFilter.ofSettings extensions patterns = .ok f) :
    (∀ above name, above ++ [name] <+: names → isSkipped f above name = false) ↔
      (∀ name ∈ names, name.toList.head? ≠ some '.') ∧
        ∀ way, way ≠ [] → way <+: names → ¬ FileFilter.IsExcluded patterns (pathOf way) := by
  have hskipped : ∀ above name, isSkipped f above name = false ↔
      name.toList.head? ≠ some '.' ∧
        ¬ FileFilter.IsExcluded patterns (pathOf (above ++ [name])) := by
    intro above name
    rw [← FileFilter.excludes_of_ofSettings hf, isSkipped, isHidden]
    simp
  constructor
  · intro h
    refine ⟨fun name hname => ?_, fun way hne hway => ?_⟩
    · obtain ⟨above, rest, rfl⟩ := List.append_of_mem hname
      exact ((hskipped above name).mp (h above name (by simp))).1
    · obtain ⟨above, name, rfl⟩ := (List.eq_nil_or_concat' way).resolve_left hne
      exact ((hskipped above name).mp (h above name hway)).2
  · intro h above name hway
    obtain ⟨hshown, hkept⟩ := h
    exact (hskipped above name).mpr ⟨hshown name (hway.subset (by simp)),
      hkept (above ++ [name]) (by simp) hway⟩

theorem hasEnding_iff (hf : FileFilter.ofSettings extensions patterns = .ok f) :
    f.hasEnding name = true ↔ ∃ extension, Path.extension? name = some extension ∧
      Text.toLowerCase extension ∈ extensions.map FileFilter.ending := by
  rw [FileFilter.hasEnding, FileFilter.endings_of_ofSettings hf]
  cases Path.extension? name <;> simp

/-- The files that a search takes are the command files. -/
theorem taken_iff (hf : FileFilter.ofSettings extensions patterns = .ok f)
    (hproper : (Entry.directory entries).NamesProper) :
    Taken f [] (.directory entries) names ↔
      IsCommandFile extensions patterns directory (.directory entries) names := by
  have hending : ∀ content, (Entry.directory entries).at? names = some (.file content) →
      (((([] ++ names).getLast?.map f.hasEnding).getD false = true) ↔ ∃ extension,
        Path.extension? (Path.under directory (pathOf names)) = some extension ∧
          Text.toLowerCase extension ∈ extensions.map FileFilter.ending) := by
    intro content hat
    have hnames := isName_of_at? hproper hat
    rcases List.eq_nil_or_concat' names with rfl | ⟨before, name, rfl⟩
    · cases hat
    · rw [Path.extension?_under directory hnames, ← hasEnding_iff hf]
      simp
  constructor
  · intro htaken
    obtain ⟨⟨content, hfile⟩, hends, hkept⟩ := htaken
    obtain ⟨hshown, hways⟩ := (forall_isSkipped_iff hf).mp hkept
    exact ⟨⟨content, hfile⟩, (hending content hfile).mp hends, hshown, hways⟩
  · intro hcommand
    obtain ⟨⟨content, hfile⟩, hends, hshown, hways⟩ := hcommand
    exact ⟨⟨content, hfile⟩, (hending content hfile).mpr hends,
      (forall_isSkipped_iff hf).mpr ⟨hshown, hways⟩⟩

/-- Whether a list names the command files of a directory, each once and in the order of a
search. -/
structure IsListing (extensions patterns : List String) (directory : String) (e : Entry)
    (found : List (List String)) : Prop where
  distinct : (found.map fun names => Path.under directory (pathOf names)).Nodup
  files : ∀ names, names ∈ found ↔ IsCommandFile extensions patterns directory e names
  ordered : found.Pairwise Precedes
  together : ∀ place, IsTogether place found

/-- The path of a file below a directory tells its names. -/
theorem names_eq_of_under {others : List String} (hproper : (Entry.directory entries).NamesProper)
    {content content' : Content} (hat : (Entry.directory entries).at? names = some (.file content))
    (hat' : (Entry.directory entries).at? others = some (.file content'))
    (h : Path.under directory (pathOf names) = Path.under directory (pathOf others)) :
    names = others := by
  have hne : names ≠ [] := by
    intro hnil
    rw [hnil] at hat
    cases hat
  have hne' : others ≠ [] := by
    intro hnil
    rw [hnil] at hat'
    cases hat'
  rw [← Path.segmentsBelow_under directory hne (isName_of_at? hproper hat), h,
    Path.segmentsBelow_under directory hne' (isName_of_at? hproper hat')]

theorem isListing_commandFiles (hf : FileFilter.ofSettings extensions patterns = .ok f)
    (hdiffer : (Entry.directory entries).NamesDiffer)
    (hproper : (Entry.directory entries).NamesProper) :
    IsListing extensions patterns directory (.directory entries)
      (commandFiles f [] (.directory entries)) := by
  have hordered := @pairwise_commandFiles f [] _ hdiffer
  have hfiles : ∀ names, names ∈ commandFiles f [] (.directory entries) ↔
      IsCommandFile extensions patterns directory (.directory entries) names := by
    intro names
    rw [← taken_iff hf hproper, ← mem_commandFiles hdiffer, List.nil_append]
  refine ⟨?_, hfiles, hordered, fun place => isTogether_commandFiles hdiffer place⟩
  refine List.Nodup.map_on ?_ (hordered.imp Precedes.ne)
  intro names hnames others hothers heq
  obtain ⟨content, hat⟩ := ((hfiles names).mp hnames).file
  obtain ⟨content', hat'⟩ := ((hfiles others).mp hothers).file
  exact names_eq_of_under hproper hat hat' heq

end Entry

namespace Discovery

open Entry

/-- **A search finds just the command files of a directory.** It lists the path of every one of them
once and no other path, the files of a directory together, and in the order of the first names where
their ways part, in lower case. -/
theorem search_lists_command_files {fs : FileSystem} {directory : String}
    {entries : List (String × Entry)} {extensions patterns : List String} {f : FileFilter}
    (hentry : fs.entry directory = .ok (.directory entries))
    (hdiffer : (Entry.directory entries).NamesDiffer)
    (hproper : (Entry.directory entries).NamesProper)
    (hf : FileFilter.ofSettings extensions patterns = .ok f) :
    ∃ found, search fs f directory =
        .ok (found.map fun names => Path.under directory (pathOf names)) ∧
      IsListing extensions patterns directory (.directory entries) found := by
  refine ⟨Entry.commandFiles f [] (.directory entries), ?_,
    isListing_commandFiles hf hdiffer hproper⟩
  rw [search, hentry]
  rfl

/-! A directory with hidden and excluded files, files with other extensions, and nested ones. -/

def emptyFile : Entry := .file (.text "")

def scatteredEntries : List (String × Entry) :=
  [("sub", .directory [("notes.md", emptyFile), ("index.js", emptyFile)]),
    ("index.js", emptyFile), ("Deploy.mjs", emptyFile),
    (".hidden", .directory [("secret.js", emptyFile)]),
    ("node_modules", .directory [("pkg", .directory [("index.js", emptyFile)])]),
    ("fixtures", .directory [("skip.js", emptyFile)])]

def scattered : FileSystem := ⟨.directory [("c", .directory scatteredEntries)], []⟩

theorem search_lists_command_files_of_scattered :
    ∃ f, scattered.entry "/c" = .ok (.directory scatteredEntries) ∧
      (Entry.directory scatteredEntries).NamesDiffer ∧
      (Entry.directory scatteredEntries).NamesProper ∧
      FileFilter.ofSettings ["js", "mjs"] ["fixtures/**"] = .ok f ∧
      (search scattered f "/c").toOption =
        some ["/c/Deploy.mjs", "/c/index.js", "/c/sub/index.js"] ∧
      ∃ found, search scattered f "/c" =
          .ok (found.map fun names => Path.under "/c" (pathOf names)) ∧
        IsListing ["js", "mjs"] ["fixtures/**"] "/c" (.directory scatteredEntries) found := by
  have hentry : scattered.entry "/c" = .ok (.directory scatteredEntries) := rfl
  have hdiffer : (Entry.directory scatteredEntries).NamesDiffer := by
    simp [scatteredEntries, emptyFile, NamesDiffer, namesDifferIn]
  have hproper : (Entry.directory scatteredEntries).NamesProper := by
    simp only [scatteredEntries, emptyFile, NamesProper, namesProperIn, and_true]
    decide
  have hfound : ((FileFilter.ofSettings ["js", "mjs"] ["fixtures/**"]).toOption.bind fun f =>
      (search scattered f "/c").toOption) =
        some ["/c/Deploy.mjs", "/c/index.js", "/c/sub/index.js"] := by
    decide +kernel
  cases hsettings : FileFilter.ofSettings ["js", "mjs"] ["fixtures/**"] with
  | error fault => rw [hsettings] at hfound; cases hfound
  | ok f =>
    rw [hsettings] at hfound
    exact ⟨f, hentry, hdiffer, hproper, rfl, hfound,
      search_lists_command_files hentry hdiffer hproper hsettings⟩

end Discovery

end CommandFiles
