import Mathlib.Data.List.Induction
import CommandFiles.Proofs.PathWalks
import CommandFiles.Proofs.SearchOrder

/-! # What writing changes

A change of files adds directories and writes files, and takes nothing away: all directories stay,
every path that led somewhere leads to the same place, and the names in a directory still differ.
Only the file that is written holds something else than before. -/
namespace CommandFiles

open CommandLine (except_bind_eq_ok except_pure_eq_ok)

namespace Entry

variable {new e : Entry} {entries : List (String × Entry)} {name : String}
  {trail names other : List String} {content : Content}

/-! ## Entries after one was put -/

/-- What the file at names below an entry holds. -/
def fileAt? (e : Entry) (names : List String) : Option Content :=
  match e.at? names with
  | some (.file content) => some content
  | _ => none

theorem fileAt?_eq_some : e.fileAt? names = some content ↔ e.at? names = some (.file content) := by
  unfold fileAt?
  split
  · next h => rw [h]; simp
  · next h => exact ⟨nofun, fun hat => absurd hat (h content)⟩

theorem at?_append (e : Entry) (first rest : List String) :
    e.at? (first ++ rest) = (e.at? first).bind fun found => found.at? rest := by
  induction first generalizing e with
  | nil => rfl
  | cons name first ih =>
    cases e with
    | file content => rfl
    | directory entries =>
      rw [List.cons_append, at?, at?]
      cases entries.lookup name with
      | none => rfl
      | some found => exact ih found

/-- The directory that an entry is put into holds it under its name. -/
theorem at?_put_parent (new : Entry) (h : e.at? trail = some (directory entries)) :
    (put new (trail ++ [name]) e).at? trail =
      some (directory (Record.insertInto name new entries)) := by
  induction trail generalizing e with
  | nil =>
    cases h
    rw [List.nil_append, put]
    rfl
  | cons first rest ih =>
    cases e with
    | file content => cases h
    | directory es =>
      cases hlookup : es.lookup first with
      | none => rw [at?, hlookup] at h; cases h
      | some old =>
        rw [at?_cons hlookup] at h
        obtain ⟨next, more, hnext⟩ := List.exists_cons_of_ne_nil
          (List.append_ne_nil_of_right_ne_nil rest (List.cons_ne_nil name []))
        rw [List.cons_append, hnext, put_cons hlookup, at?_cons (by
          rw [Record.lookup_insertInto, if_pos rfl]), ← hnext]
        exact ih h

/-- Names that do not lead through the place of an entry lead to what they led to before, or to a
directory that is on the way to the place. -/
theorem at?_put_cases (new : Entry) (h : ¬ names <+: other) :
    (put new names e).at? other = e.at? other ∨
      ∃ es es', e.at? other = some (directory es) ∧
        (put new names e).at? other = some (directory es') := by
  induction names generalizing e other with
  | nil => exact absurd List.nil_prefix h
  | cons name rest ih =>
    cases e with
    | file content => exact .inl (by rw [put])
    | directory es =>
      cases other with
      | nil =>
        cases rest with
        | nil => exact .inr ⟨es, _, rfl, by rw [put]; rfl⟩
        | cons next rest =>
          cases hlookup : es.lookup name with
          | none => exact .inl (by rw [put, hlookup])
          | some old => exact .inr ⟨es, _, rfl, by rw [put_cons hlookup]; rfl⟩
      | cons first more =>
        by_cases hfirst : first = name
        case neg => exact .inl (at?_put_other new rest more es hfirst)
        subst hfirst
        cases rest with
        | nil => exact absurd ⟨more, rfl⟩ h
        | cons next rest =>
          cases hlookup : es.lookup first with
          | none => exact .inl (by rw [put, hlookup])
          | some old =>
            have hmore : ¬ next :: rest <+: more := fun hprefix => h (by simpa using hprefix)
            rw [put_cons hlookup, at?_cons (by rw [Record.lookup_insertInto, if_pos rfl]),
              at?_cons hlookup]
            exact ih hmore

theorem fileAt?_put_other (new : Entry) (h : ¬ names <+: other) :
    (put new names e).fileAt? other = e.fileAt? other := by
  rcases at?_put_cases (e := e) new h with hsame | ⟨es, es', hold, hnew⟩
  · rw [fileAt?, hsame, fileAt?]
  · rw [fileAt?, hnew, fileAt?, hold]

/-- Where nothing was, a new directory has no files. -/
theorem fileAt?_put_directory (hparent : e.at? trail = some (directory entries))
    (hnone : e.at? (trail ++ [name]) = none) (other : List String) :
    (put (directory []) (trail ++ [name]) e).fileAt? other = e.fileAt? other := by
  by_cases h : trail ++ [name] <+: other
  case neg => exact fileAt?_put_other _ h
  obtain ⟨more, rfl⟩ := h
  rw [fileAt?, fileAt?, at?_append _ (trail ++ [name]), at?_append _ (trail ++ [name]),
    at?_put_of_parent _ hparent, hnone]
  cases more <;> rfl

/-- A new file is the only one that is not as it was. -/
theorem fileAt?_put_file (hparent : e.at? trail = some (directory entries))
    (hold : ∀ es, e.at? (trail ++ [name]) ≠ some (directory es)) (content : Content)
    (other : List String) : (put (file content) (trail ++ [name]) e).fileAt? other =
      if other = trail ++ [name] then some content else e.fileAt? other := by
  split
  · next h => rw [h, fileAt?, at?_put_of_parent _ hparent]
  next hother =>
  by_cases h : trail ++ [name] <+: other
  case neg => exact fileAt?_put_other _ h
  obtain ⟨more, rfl⟩ := h
  cases more with
  | nil => exact absurd (List.append_nil _) hother
  | cons next more =>
    rw [fileAt?, fileAt?, at?_append _ (trail ++ [name]), at?_append _ (trail ++ [name]),
      at?_put_of_parent _ hparent]
    cases hat : e.at? (trail ++ [name]) with
    | none => rfl
    | some found =>
      cases found with
      | file content => rfl
      | directory es => exact absurd hat (hold es)

/-! ## Names that differ -/

theorem namesDifferIn_insertInto (hentries : namesDifferIn entries) (hnew : new.NamesDiffer)
    (name : String) : namesDifferIn (Record.insertInto name new entries) := by
  induction entries with
  | nil => exact ⟨hnew, trivial⟩
  | cons m rest ih =>
    obtain ⟨k, old⟩ := m
    rw [namesDifferIn] at hentries
    rw [Record.insertInto]
    split
    · exact ⟨hnew, hentries.2⟩
    · exact ⟨hentries.1, ih hentries.2⟩

theorem namesDiffer_insertInto (h : (directory entries).NamesDiffer) (hnew : new.NamesDiffer)
    (name : String) : (directory (Record.insertInto name new entries)).NamesDiffer := by
  rw [NamesDiffer] at h ⊢
  refine ⟨?_, namesDifferIn_insertInto h.2 hnew name⟩
  rw [Record.map_fst_insertInto]
  split
  · exact h.1
  · next hname => exact List.nodup_append.mpr ⟨h.1, List.nodup_singleton name, by
      intro a ha b hb heq
      exact hname (List.mem_singleton.mp hb ▸ heq ▸ ha)⟩

theorem namesDiffer_put (hnew : new.NamesDiffer) (h : e.NamesDiffer) :
    (put new names e).NamesDiffer := by
  induction names generalizing e with
  | nil => rwa [put]
  | cons name rest ih =>
    cases e with
    | file content => rwa [put]
    | directory es =>
      cases rest with
      | nil => rw [put]; exact namesDiffer_insertInto h hnew name
      | cons next rest =>
        cases hlookup : es.lookup name with
        | none => rw [put, hlookup]; exact h
        | some old =>
          rw [put_cons hlookup]
          have hold := h
          rw [NamesDiffer] at hold
          exact namesDiffer_insertInto h (ih (namesDiffer_of_lookup hold.2 hlookup)) name

end Entry

namespace FileSystem

variable {fs fs' : FileSystem} {path text : String} {trail names : List String} {new : Entry}

/-! ## Changes that take nothing away -/

/-- Whether a file system comes of another one without taking anything away. -/
structure Grows (fs fs' : FileSystem) : Prop where
  keeps : Keeps fs fs'
  cwd : fs'.cwd = fs.cwd
  namesDiffer : fs.root.NamesDiffer → fs'.root.NamesDiffer

theorem Grows.refl (fs : FileSystem) : Grows fs fs :=
  ⟨fun _ entries h => ⟨entries, h, fun _ => id⟩, rfl, id⟩

theorem Grows.trans {fs₁ fs₂ : FileSystem} (h : Grows fs fs₁) (h' : Grows fs₁ fs₂) :
    Grows fs fs₂ where
  keeps trail entries hentries := by
    obtain ⟨between, hbetween, hnames⟩ := h.keeps trail entries hentries
    obtain ⟨more, hmore, hnames'⟩ := h'.keeps trail between hbetween
    exact ⟨more, hmore, fun name hname => hnames' name (hnames name hname)⟩
  cwd := h'.cwd.trans h.cwd
  namesDiffer hnames := h'.namesDiffer (h.namesDiffer hnames)

/-- A path that leads somewhere leads there later too. -/
theorem Grows.resolve (h : Grows fs fs') (hresolve : fs.resolve path = .ok names) :
    fs'.resolve path = .ok names := by
  obtain ⟨hzero, hempty, hwalk⟩ := resolve_eq_ok.mp hresolve
  refine resolve_eq_ok.mpr ⟨hzero, hempty, ?_⟩
  rw [walk, start, h.cwd]
  exact foldlM_follow_of_keeps h.keeps hwalk

theorem grows_put (hnew : new.NamesDiffer)
    (hold : ∀ es, fs.root.at? names ≠ some (.directory es)) : Grows fs (fs.put names new) where
  keeps _ _ h := Entry.at?_put_of_directory new hold h
  cwd := rfl
  namesDiffer h := Entry.namesDiffer_put hnew h

/-! ## Making directories -/

theorem grows_makeDirectory (h : fs.makeDirectory path = .ok fs') :
    Grows fs fs' ∧ ∀ other, fs'.root.fileAt? other = fs.root.fileAt? other := by
  unfold makeDirectory at h
  obtain ⟨p, hplace, h⟩ := except_bind_eq_ok.mp h
  obtain ⟨before, last, hsegments⟩ := exists_properSegments_eq path.toList
  obtain ⟨-, -, ⟨entries, hentries⟩, -⟩ := (place_eq_ok hsegments).mp hplace
  split at h
  · cases h
  dsimp only at h
  split at h
  · cases h
  · next hnone =>
    cases h
    rw [List.reverse_cons] at hnone ⊢
    exact ⟨grows_put ⟨List.nodup_nil, trivial⟩ (by simp [hnone]),
      Entry.fileAt?_put_directory hentries hnone⟩

theorem grows_makeDirectories (paths : List String) {result : Except OsError Unit}
    (h : makeDirectories paths fs = (result, fs')) :
    Grows fs fs' ∧ ∀ other, fs'.root.fileAt? other = fs.root.fileAt? other := by
  have hsame : ∀ fs : FileSystem,
      Grows fs fs ∧ ∀ other, fs.root.fileAt? other = fs.root.fileAt? other :=
    fun fs => ⟨.refl fs, fun _ => rfl⟩
  induction paths generalizing fs fs' result with
  | nil => cases h; exact hsame _
  | cons path outer ih =>
    rw [makeDirectories] at h
    split at h
    · cases h; exact hsame _
    split at h
    · next hmake => cases h; exact grows_makeDirectory hmake
    · -- the directories around it are made first
      split at h
      · next houter => cases h; exact ih houter
      next fs₁ houter =>
      obtain ⟨hgrows, hfiles⟩ := ih houter
      split at h
      · next hmake =>
        cases h
        obtain ⟨hgrows', hfiles'⟩ := grows_makeDirectory hmake
        exact ⟨hgrows.trans hgrows', fun other => (hfiles' other).trans (hfiles other)⟩
      · cases h; exact ⟨hgrows, hfiles⟩
    · cases h; exact hsame _

/-! ## Files and directories that are there -/

/-- What a file holds is read under every path that leads to it. -/
theorem read_of_resolve (h : fs.resolve path = .ok names)
    (hfile : fs.root.fileAt? names = some (.text text)) : fs.read path = .ok text := by
  have hentry := entry_of_resolve h
  rw [Entry.fileAt?_eq_some.mp hfile] at hentry
  rw [read, hentry]
  rfl

theorem exists_properSegments (cs : List Char) :
    ∃ k, Path.splitSlash cs = properSegments cs ++ List.replicate k [] := by
  induction cs using List.reverseRecOn with
  | nil => exact ⟨0, rfl⟩
  | append_singleton before c ih =>
    by_cases hc : c = '/'
    · subst hc
      obtain ⟨k, hk⟩ := ih
      have htrim : properSegments (before ++ ['/']) = properSegments before := by
        simp [properSegments, Path.trimSlashes]
      refine ⟨k + 1, ?_⟩
      rw [Path.splitSlash_append, hk, htrim, List.append_assoc, List.replicate_succ']
      rfl
    · refine ⟨0, ?_⟩
      rw [properSegments_of_last (by simpa using hc), List.replicate_zero, List.append_nil]

theorem walkFrom_replicate {k : Nat} {next : List String}
    (h : fs.walkFrom trail (List.replicate k []) = .ok next) : next = trail := by
  induction k with
  | zero => exact (Except.ok.inj h).symm
  | succ k ih =>
    rw [List.replicate_succ, ← List.singleton_append, walkFrom_append] at h
    obtain ⟨between, hfirst, hrest⟩ := except_bind_eq_ok.mp h
    obtain ⟨-, rfl⟩ := (walkFrom_stays (.inl rfl)).mp hfirst
    exact ih hrest

/-- The place that the path of something names is where it is. -/
theorem exists_place_of_resolve (h : fs.resolve path = .ok names) :
    ∃ p, fs.place path = .ok p ∧
      ∀ name, p.name = some name → (name :: p.trail).reverse = names := by
  obtain ⟨hzero, hempty, hwalk⟩ := resolve_eq_ok.mp h
  obtain ⟨k, hk⟩ := exists_properSegments path.toList
  obtain ⟨before, last, hsegments⟩ := exists_properSegments_eq path.toList
  rw [walk, hk, hsegments, walkFrom_append, walkFrom_append] at hwalk
  obtain ⟨next, hnext, hrest⟩ := except_bind_eq_ok.mp hwalk
  obtain ⟨trail, htrail, hlast⟩ := except_bind_eq_ok.mp hnext
  have hnames : names.reverse = next := walkFrom_replicate hrest
  rw [walkFrom, List.foldlM_cons] at hlast
  obtain ⟨_, hfollow, hlast⟩ := except_bind_eq_ok.mp hlast
  cases hlast
  have hcheck := checkPath_eq_ok.mpr ⟨hzero, hempty⟩
  have hdirectory := isDirectoryAt_of_follow hfollow
  by_cases hname : NamesEntry last
  · obtain ⟨rfl, hshort⟩ := follow_name hname hfollow
    refine ⟨⟨trail, some (String.ofList last), _⟩, (place_eq_ok hsegments).mpr
      ⟨hcheck, htrail, hdirectory, .inl ⟨hname, hshort, rfl⟩, rfl⟩, ?_⟩
    rintro _ ⟨⟩
    rw [← hnames, List.reverse_reverse]
  · exact ⟨⟨trail, none, _⟩, (place_eq_ok hsegments).mpr
      ⟨hcheck, htrail, hdirectory, .inr ⟨hname, rfl⟩, rfl⟩, by simp⟩

/-- Nothing is made where a directory is. -/
theorem makeDirectories_of_directory {entries : List (String × Entry)}
    (h : fs.resolve path = .ok names) (hdirectory : fs.root.at? names = some (.directory entries))
    (outer : List String) : makeDirectories (path :: outer) fs = (.ok (), fs) := by
  obtain ⟨p, hplace, hp⟩ := exists_place_of_resolve h
  have hmake : fs.makeDirectory path = .error .alreadyExists := by
    simp only [makeDirectory, hplace, bind, Except.bind]
    cases hname : p.name with
    | none => rfl
    | some name =>
      dsimp only
      rw [hp name hname, hdirectory]
      rfl
  have hisDirectory : fs.isDirectory path = true := by
    rw [isDirectory, entry_of_resolve h, hdirectory]
  rw [makeDirectories, if_neg (ne_empty_of_resolve h), hmake, hisDirectory]
  rfl

/-! ## Writing files -/

/-- **What writing a file changes**: its path leads to it, all other files are as they were, and
nothing is taken away. -/
theorem exists_of_writeDeep (h : writeDeep path text fs = (.ok (), fs')) :
    ∃ names, fs'.resolve path = .ok names ∧ Grows fs fs' ∧ ∀ other, fs'.root.fileAt? other =
      if other = names then some (.text text) else fs.root.fileAt? other := by
  unfold writeDeep at h
  dsimp only at h
  split at h
  · cases h
  next fs₁ hmade =>
  obtain ⟨hgrows, hfiles⟩ := grows_makeDirectories _ hmade
  split at h
  · next hwrite =>
    cases h
    obtain ⟨trail, name, entries, rfl, hentries, hold, hresolve⟩ := exists_of_write hwrite
    refine ⟨trail ++ [name], hresolve, hgrows.trans (grows_put trivial hold), fun other => ?_⟩
    rw [← hfiles other]
    exact Entry.fileAt?_put_file hentries hold _ other
  · cases h

/-- A file that cannot be written leaves all files as they were; some directories for it may have
been made. -/
theorem grows_of_unwritten {cause : OsError} (h : writeDeep path text fs = (.error cause, fs')) :
    Grows fs fs' ∧ ∀ other, fs'.root.fileAt? other = fs.root.fileAt? other := by
  unfold writeDeep at h
  dsimp only at h
  split at h
  · next hmade => cases h; exact grows_makeDirectories _ hmade
  · next hmade =>
    split at h
    · cases h
    · cases h; exact grows_makeDirectories _ hmade

/-- In a directory that is there a file is written at once. -/
theorem write_of_writeDeep {directory : String} {entries : List (String × Entry)}
    (hparent : Path.parent? path = some directory) (hresolve : fs.resolve directory = .ok names)
    (hdirectory : fs.root.at? names = some (.directory entries))
    (h : writeDeep path text fs = (.ok (), fs')) : fs.write path text = .ok fs' := by
  obtain ⟨above, habove⟩ : ∃ above,
      ((Path.parent? path).map Path.ancestors).getD [] = directory :: above := by
    rw [hparent]
    exact ⟨_, rfl⟩
  rw [writeDeep, habove, makeDirectories_of_directory hresolve hdirectory] at h
  dsimp only at h
  split at h
  · next hwrite => cases h; exact hwrite
  · cases h

end FileSystem

end CommandFiles
