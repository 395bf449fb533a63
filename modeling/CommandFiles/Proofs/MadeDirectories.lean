import CommandFiles.Proofs.GroundedPaths

/-! # Directories that were made

Making a directory adds one at the place that its path leads to, and writing a file adds none. So all
directories that are new after a change of files are at places of paths that the written files lie
in. -/
namespace CommandFiles

open CommandLine (except_bind_eq_ok)

namespace Entry

variable {new e found : Entry} {entries : List (String × Entry)} {name : String}
  {trail names : List String}

/-- What is new after an entry was put is a part of that entry. -/
theorem exists_of_at?_put (hparent : e.at? trail = some (directory entries))
    (hnone : e.at? names = none) (h : (put new (trail ++ [name]) e).at? names = some found) :
    ∃ below, names = trail ++ [name] ++ below ∧ new.at? below = some found := by
  by_cases hprefix : trail ++ [name] <+: names
  · obtain ⟨below, rfl⟩ := hprefix
    rw [at?_append, at?_put_of_parent _ hparent] at h
    exact ⟨below, rfl, h⟩
  · rcases at?_put_cases (e := e) new hprefix with hsame | ⟨es, es', hold, -⟩
    · rw [hsame, hnone] at h
      cases h
    · rw [hnone] at hold
      cases hold

end Entry

namespace FileSystem

variable {fs fs₁ fs' : FileSystem} {path text name : String} {trail names : List String}
  {paths more : List String} {p : Place}

/-! ## Making a directory -/

theorem walkFrom_of_replicate (h : fs.IsDirectoryAt trail) (k : Nat) :
    fs.walkFrom trail (List.replicate k []) = .ok trail := by
  induction k with
  | zero => rfl
  | succ k ih =>
    rw [List.replicate_succ, ← List.singleton_append, walkFrom_append]
    exact except_bind_eq_ok.mpr ⟨trail, (walkFrom_stays (.inl rfl)).mpr ⟨h, rfl⟩, ih⟩

/-- **Where a directory is made**: it is put into a directory that does not hold its name, and its
path leads there. -/
theorem exists_of_makeDirectory (h : fs.makeDirectory path = .ok fs') :
    ∃ trail name entries, fs' = fs.put (trail ++ [name]) (.directory []) ∧
      fs.root.at? trail = some (.directory entries) ∧ fs.root.at? (trail ++ [name]) = none ∧
      fs'.resolve path = .ok (trail ++ [name]) := by
  unfold makeDirectory at h
  obtain ⟨p, hplace, h⟩ := except_bind_eq_ok.mp h
  split at h
  · cases h
  next name hname =>
  dsimp only at h
  split at h
  · cases h
  next hnone =>
  cases h
  rw [List.reverse_cons] at hnone ⊢
  obtain ⟨hcheck, -, entries, hentries, hleads⟩ := exists_of_place hplace hname
  refine ⟨p.trail.reverse, name, entries, rfl, hentries, hnone, ?_⟩
  obtain ⟨hzero, hempty⟩ := checkPath_eq_ok.mp hcheck
  have hdirectory : (fs.put (p.trail.reverse ++ [name]) (.directory [])).IsDirectoryAt
      (name :: p.trail) :=
    ⟨[], by rw [List.reverse_cons]; exact Entry.at?_put_of_parent _ hentries⟩
  -- the path of a directory may end in slashes
  obtain ⟨k, hk⟩ := exists_properSegments path.toList
  refine resolve_eq_ok.mpr ⟨hzero, hempty, ?_⟩
  rw [walk, hk, walkFrom_append, List.reverse_append, List.reverse_reverse]
  exact except_bind_eq_ok.mpr
    ⟨_, hleads _ (by simp [hnone]), walkFrom_of_replicate hdirectory k⟩

/-! ## New directories -/

/-- Whether all directories that are new in a file system are at places of some paths. -/
def MadeAt (paths : List String) (fs fs' : FileSystem) : Prop :=
  ∀ names entries, fs.root.at? names = none → fs'.root.at? names = some (.directory entries) →
    ∃ path ∈ paths, fs'.resolve path = .ok names

theorem MadeAt.refl (paths : List String) (fs : FileSystem) : MadeAt paths fs fs := by
  intro names entries hnone hentries
  rw [hnone] at hentries
  cases hentries

theorem MadeAt.mono (h : MadeAt paths fs fs') (hsub : ∀ path ∈ paths, path ∈ more) :
    MadeAt more fs fs' := by
  intro names entries hnone hentries
  obtain ⟨path, hpath, hresolve⟩ := h names entries hnone hentries
  exact ⟨path, hsub path hpath, hresolve⟩

theorem MadeAt.trans (h : MadeAt paths fs fs₁) (h' : MadeAt paths fs₁ fs')
    (hlasts : Lasts fs₁ fs') : MadeAt paths fs fs' := by
  intro names entries hnone hentries
  cases hbetween : fs₁.root.at? names with
  | none => exact h' names entries hbetween hentries
  | some e =>
    have hdirectory : fs₁.IsDirectoryAt names.reverse :=
      hlasts.isDirectoryAt (by rw [List.reverse_reverse, hbetween]; rfl)
        ⟨entries, by rwa [List.reverse_reverse]⟩
    obtain ⟨es, hes⟩ := hdirectory
    rw [List.reverse_reverse] at hes
    obtain ⟨path, hpath, hresolve⟩ := h names es hnone hes
    exact ⟨path, hpath, hlasts.resolve hresolve⟩

theorem madeAt_makeDirectory (h : fs.makeDirectory path = .ok fs') : MadeAt [path] fs fs' := by
  obtain ⟨trail, name, es, rfl, hes, -, hresolve⟩ := exists_of_makeDirectory h
  intro names entries hnone hentries
  refine ⟨path, List.mem_singleton_self path, ?_⟩
  obtain ⟨below, rfl, hbelow⟩ := Entry.exists_of_at?_put hes hnone hentries
  cases below with
  | nil => rw [hresolve, List.append_nil]
  | cons next below => cases hbelow

theorem madeAt_makeDirectories (paths : List String) {result : Except OsError Unit}
    (h : makeDirectories paths fs = (result, fs')) : MadeAt paths fs fs' := by
  induction paths generalizing fs fs' result with
  | nil => cases h; exact .refl [] _
  | cons path outer ih =>
    have hfirst : ∀ {fs fs' : FileSystem}, fs.makeDirectory path = .ok fs' →
        MadeAt (path :: outer) fs fs' := by
      intro fs fs' hmake
      exact (madeAt_makeDirectory hmake).mono (by simp)
    rw [makeDirectories] at h
    split at h
    · cases h; exact .refl _ _
    split at h
    · next hmake => cases h; exact hfirst hmake
    · -- the directories around it are made first
      split at h
      · next houter => cases h; exact (ih houter).mono fun _ => List.mem_cons_of_mem _
      next fs₁ houter =>
      have hmade : MadeAt (path :: outer) fs fs₁ :=
        (ih houter).mono fun _ => List.mem_cons_of_mem _
      split at h
      · next hmake =>
        cases h
        obtain ⟨hgrows, hfiles⟩ := grows_makeDirectory hmake
        exact hmade.trans (hfirst hmake) (lasts_of_fileAt?_eq hgrows hfiles)
      · cases h; exact hmade
    · cases h; exact .refl _ _

/-- Writing a file makes no directory at its place. -/
theorem madeAt_write (h : fs.write path text = .ok fs') : MadeAt paths fs fs' := by
  obtain ⟨trail, name, es, rfl, hes, -, -⟩ := exists_of_write h
  intro names entries hnone hentries
  obtain ⟨below, -, hbelow⟩ := Entry.exists_of_at?_put hes hnone hentries
  cases below <;> cases hbelow

/-- **The directories that are made for a file** are at places of paths that its path lies in,
whether it is written in the end or not. -/
theorem madeAt_writeDeep {result : Except OsError Unit}
    (h : writeDeep path text fs = (result, fs')) : MadeAt (Path.above path) fs fs' := by
  unfold writeDeep at h
  dsimp only at h
  split at h
  · next hmade => cases h; exact madeAt_makeDirectories _ hmade
  next fs₁ hmade =>
  have hfirst : MadeAt (Path.above path) fs fs₁ := madeAt_makeDirectories _ hmade
  split at h
  · next hwrite =>
    cases h
    exact hfirst.trans (madeAt_write hwrite) (lasts_write hwrite)
  · cases h; exact hfirst

end FileSystem

end CommandFiles
