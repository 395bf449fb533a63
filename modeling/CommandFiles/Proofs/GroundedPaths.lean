import CommandFiles.Proofs.MadeFiles

/-! # Paths that step up from what is there

A path with two points behind a directory that is not there leads nowhere, until the directory is
made: then it leads to a place that may have been there all the time. A path without such a step up
leads nowhere just if there is nothing at its place, and the paths it lies in are on the way to it. -/
namespace CommandFiles

open CommandLine (except_bind_eq_ok)

namespace Path

variable {p q : String}

/-! ## The paths that a path lies in -/

theorem dropTail_cases (cs : List Char) : dropTail cs = cs ∨ dropTail cs = ['/'] ∨
    ∃ dropped, cs = dropped ++ '/' :: dropTail cs := by
  fun_induction dropTail cs with
  | case1 => exact .inl rfl
  | case2 => exact .inr (.inl rfl)
  | case3 rest _ ih =>
    rcases ih with h | h | ⟨dropped, h⟩
    · exact .inr (.inr ⟨[], by rw [h]; rfl⟩)
    · exact .inr (.inl h)
    · exact .inr (.inr ⟨'/' :: dropped, congrArg ('/' :: ·) h⟩)
  | case4 => exact .inr (.inl rfl)
  | case5 rest _ ih =>
    rcases ih with h | h | ⟨dropped, h⟩
    · exact .inr (.inr ⟨['.'], by rw [h]; rfl⟩)
    · exact .inr (.inl h)
    · exact .inr (.inr ⟨'.' :: '/' :: dropped, congrArg ('.' :: '/' :: ·) h⟩)
  | case6 => exact .inl rfl

/-- Whether a path is the beginning of another one, up to a slash. The empty path and that of the
root count as beginnings of all paths. -/
def Begins (q p : String) : Prop :=
  q.toList = [] ∨ q.toList = ['/'] ∨ ∃ rest, p.toList = q.toList ++ '/' :: rest

theorem begins_parent? (h : parent? p = some q) : Begins q p := by
  obtain ⟨dropped, hdropped⟩ := FileSystem.dropTail_suffix p.toList.reverse
  unfold parent? at h
  split at h
  · cases h
  · cases h
  dsimp only at h
  cases h
  rw [Begins, String.toList_ofList]
  cases hrest : (dropTail p.toList.reverse).dropWhile (· != '/') with
  | nil => exact .inl rfl
  | cons c rest =>
    obtain ⟨name, hname⟩ := List.dropWhile_suffix (l := dropTail p.toList.reverse) (· != '/')
    obtain rfl : c = '/' := by
      have hhead := List.head_dropWhile_not (l := dropTail p.toList.reverse) (· != '/')
        (by rw [hrest]; simp)
      simpa [hrest] using hhead
    have hp : p.toList = rest.reverse ++ '/' :: (dropped ++ name).reverse := by
      rw [← List.reverse_reverse p.toList, ← hdropped, ← hname, hrest]
      simp
    by_cases hroot : rest = []
    · rw [hroot]
      exact .inr (.inl rfl)
    rw [dropTail, if_neg (by simpa using hroot)]
    rcases dropTail_cases rest with h | h | ⟨more, h⟩
    · exact .inr (.inr ⟨_, by rw [h]; exact hp⟩)
    · exact .inr (.inl (by rw [h]; rfl))
    · refine .inr (.inr ⟨more.reverse ++ '/' :: (dropped ++ name).reverse, ?_⟩)
      rw [hp]
      conv_lhs => rw [h]
      simp

theorem Begins.trans {o : String} (h : Begins o q) (h' : Begins q p) : Begins o p := by
  rcases h with h | h | ⟨rest, h⟩
  · exact .inl h
  · exact .inr (.inl h)
  rcases h' with h' | h' | ⟨more, h'⟩
  · rw [h'] at h
    simp at h
  · rw [h'] at h
    cases ho : o.toList with
    | nil => exact .inl ho
    | cons c cs => rw [ho] at h; simp at h
  · exact .inr (.inr ⟨rest ++ '/' :: more, by rw [h', h]; simp⟩)

theorem begins_ancestorsUpTo {n : Nat} (h : q ∈ ancestorsUpTo n p) : q = p ∨ Begins q p := by
  induction n generalizing p with
  | zero => cases h
  | succ n ih =>
    rw [ancestorsUpTo] at h
    rcases List.mem_cons.mp h with rfl | h
    · exact .inl rfl
    split at h
    · next parent hparent =>
      have hbegins := begins_parent? hparent
      rcases ih h with rfl | h
      · exact .inr hbegins
      · exact .inr (h.trans hbegins)
    · cases h

/-- The paths that a path lies in, the innermost first. -/
def above (p : String) : List String := ((parent? p).map ancestors).getD []

theorem begins_of_mem_above (h : q ∈ above p) : Begins q p := by
  unfold above at h
  cases hparent : parent? p with
  | none => rw [hparent] at h; cases h
  | some parent =>
    rw [hparent] at h
    rcases begins_ancestorsUpTo h with rfl | h
    · exact begins_parent? hparent
    · exact h.trans (begins_parent? hparent)

end Path

namespace FileSystem

variable {fs fs₁ fs' : FileSystem} {path q d name last text : String}
  {trail next names within : List String} {segment : List Char} {segments : List (List Char)}

/-! ## What is there -/

/-- What a segment leads to is there. -/
theorem isSome_at?_of_follow (h : fs.follow trail segment = .ok next) :
    (fs.root.at? next.reverse).isSome := by
  obtain ⟨entries, hentries, hleads⟩ := follow_eq_ok.mp h
  cases hleads with
  | stays => rw [hentries]; rfl
  | up =>
    cases trail with
    | nil => rw [List.tail_nil, hentries]; rfl
    | cons name trail =>
      rw [List.reverse_cons] at hentries
      obtain ⟨es, hes, -⟩ := Entry.exists_lookup_of_at? hentries
      rw [List.tail_cons, hes]
      rfl
  | down _ _ hthere =>
    obtain ⟨e, he⟩ := Option.isSome_iff_exists.mp hthere
    rw [List.reverse_cons, Entry.at?_append, hentries, Option.bind_some, Entry.at?_cons he]
    rfl

theorem isSome_at?_of_resolve (h : fs.resolve path = .ok names) :
    (fs.root.at? names).isSome := by
  obtain ⟨-, -, hwalk⟩ := resolve_eq_ok.mp h
  obtain ⟨before, last, hsegments⟩ :=
    (List.eq_nil_or_concat (Path.splitSlash path.toList)).resolve_left (Path.splitSlash_ne_nil _)
  rw [walk, hsegments, List.concat_eq_append, walkFrom_append] at hwalk
  obtain ⟨trail, -, hlast⟩ := except_bind_eq_ok.mp hwalk
  rw [walkFrom, List.foldlM_cons] at hlast
  obtain ⟨next, hfollow, hlast⟩ := except_bind_eq_ok.mp hlast
  cases hlast
  simpa using isSome_at?_of_follow hfollow

/-- There is something at a path just if it leads somewhere. -/
theorem hasPath_iff : fs.hasPath path = true ↔ ∃ names, fs.resolve path = .ok names := by
  constructor
  · intro h
    cases hresolve : fs.resolve path with
    | error fault =>
      rw [hasPath, entry_of_resolve_error hresolve] at h
      cases h
    | ok names => exact ⟨names, rfl⟩
  · rintro ⟨names, h⟩
    obtain ⟨e, he⟩ := Option.isSome_iff_exists.mp (isSome_at?_of_resolve h)
    rw [hasPath, entry_of_resolve h, he]
    rfl

theorem Grows.hasPath (hgrows : Grows fs fs') (h : fs.hasPath path = true) :
    fs'.hasPath path = true := by
  obtain ⟨names, hresolve⟩ := hasPath_iff.mp h
  exact hasPath_iff.mpr ⟨names, hgrows.resolve hresolve⟩

theorem Grows.hasPath_eq_false (hgrows : Grows fs fs') (h : fs'.hasPath path = false) :
    fs.hasPath path = false := by
  rw [← Bool.not_eq_true] at h ⊢
  exact fun hthere => h (hgrows.hasPath hthere)

/-! ## What lasts -/

/-- Whether a file system comes of another one without taking anything away, and the files are files
still. -/
structure Lasts (fs fs' : FileSystem) : Prop extends Grows fs fs' where
  stays : ∀ names, (fs.root.fileAt? names).isSome → (fs'.root.fileAt? names).isSome

theorem Lasts.refl (fs : FileSystem) : Lasts fs fs := ⟨.refl fs, fun _ => id⟩

theorem Lasts.trans (h : Lasts fs fs₁) (h' : Lasts fs₁ fs') : Lasts fs fs' where
  toGrows := h.toGrows.trans h'.toGrows
  stays names hnames := h'.stays names (h.stays names hnames)

theorem lasts_of_fileAt?_eq (hgrows : Grows fs fs')
    (hfiles : ∀ other, fs'.root.fileAt? other = fs.root.fileAt? other) : Lasts fs fs' where
  toGrows := hgrows
  stays names hnames := by rwa [hfiles]

theorem lasts_write (h : fs.write path text = .ok fs') : Lasts fs fs' := by
  obtain ⟨trail, name, entries, rfl, hentries, hold, -⟩ := exists_of_write h
  refine ⟨grows_put trivial hold, ?_⟩
  intro other hother
  change ((Entry.put _ _ fs.root).fileAt? other).isSome
  rw [Entry.fileAt?_put_file hentries hold]
  split
  · rfl
  · exact hother

/-- Writing a file takes nothing away, not even if it fails halfway. -/
theorem lasts_writeDeep {result : Except OsError Unit}
    (h : writeDeep path text fs = (result, fs')) : Lasts fs fs' := by
  cases result with
  | error cause =>
    obtain ⟨hgrows, hfiles⟩ := grows_of_unwritten h
    exact lasts_of_fileAt?_eq hgrows hfiles
  | ok =>
    obtain ⟨written, -, hgrows, hfiles⟩ := exists_of_writeDeep h
    refine ⟨hgrows, ?_⟩
    intro other hother
    rw [hfiles]
    split
    · rfl
    · exact hother

/-- What is a directory later was one before, if it was there. -/
theorem Lasts.isDirectoryAt (hlasts : Lasts fs fs') (hthere : (fs.root.at? trail.reverse).isSome)
    (h : fs'.IsDirectoryAt trail) : fs.IsDirectoryAt trail := by
  obtain ⟨e, he⟩ := Option.isSome_iff_exists.mp hthere
  cases e with
  | directory entries => exact ⟨entries, he⟩
  | file content =>
    have hfile := hlasts.stays trail.reverse (by rw [Entry.fileAt?, he]; rfl)
    obtain ⟨entries, hentries⟩ := h
    rw [Entry.fileAt?, hentries] at hfile
    cases hfile

/-! ## Steps up -/

/-- Whether every step up in a path is taken from a directory that is there: up to the two points
the path leads somewhere. -/
def IsGrounded (fs : FileSystem) (path : String) : Prop :=
  ∀ before after, Path.splitSlash path.toList = before ++ ['.', '.'] :: after →
    ∃ trail, fs.walkFrom (fs.start path.toList) (before ++ [['.', '.']]) = .ok trail

theorem isGrounded_of_resolve (h : fs.resolve path = .ok names) : fs.IsGrounded path := by
  intro before after hsegments
  obtain ⟨-, -, hwalk⟩ := resolve_eq_ok.mp h
  rw [walk, hsegments, ← List.singleton_append, ← List.append_assoc, walkFrom_append] at hwalk
  obtain ⟨trail, htrail, -⟩ := except_bind_eq_ok.mp hwalk
  exact ⟨trail, htrail⟩

/-- A name is no step up. -/
theorem exists_of_append_name {first before after : List (List Char)} (hn : Path.IsName name)
    (h : first ++ [name.toList] = before ++ ['.', '.'] :: after) :
    ∃ rest, first = before ++ ['.', '.'] :: rest := by
  rcases List.eq_nil_or_concat after with rfl | ⟨rest, last, rfl⟩
  · obtain ⟨-, hlast⟩ := List.append_inj' h rfl
    exact absurd (List.singleton_inj.mp hlast) hn.notParent
  · rw [List.concat_eq_append, ← List.cons_append, ← List.append_assoc] at h
    obtain ⟨hfirst, -⟩ := List.append_inj' h rfl
    exact ⟨rest, hfirst⟩

theorem isGrounded_under (hn : Path.IsName name) (h : fs.IsGrounded d) :
    fs.IsGrounded (Path.under d name) := by
  intro before after hsegments
  by_cases hd : d = ""
  · have hunder : Path.under d name = name := by
      rw [Path.under, hd]
      simp
    rw [hunder, Path.splitSlash_of_noSlash hn.noSlash, ← List.nil_append [name.toList]]
      at hsegments
    obtain ⟨rest, hrest⟩ := exists_of_append_name hn hsegments
    simp at hrest
  · obtain ⟨front, hunder, hfront⟩ :=
      exists_toList_under_slash hd (Path.isAbsolute_of_noSlash hn.noSlash)
    rw [hunder, Path.splitSlash_append, Path.splitSlash_of_noSlash hn.noSlash] at hsegments
    obtain ⟨rest, hrest⟩ := exists_of_append_name hn hsegments
    rw [hunder]
    rcases hfront with hslash | ⟨hfront, hne⟩
    · have hstart := start_append fs (by simp : front ++ ['/'] ≠ []) name.toList
      rw [List.append_assoc, List.singleton_append] at hstart
      rw [hstart, ← hslash]
      refine h before (rest ++ [[]]) ?_
      rw [hslash, Path.splitSlash_append, hrest, List.append_assoc]
      rfl
    · rw [start_append fs hne, ← hfront]
      refine h before rest ?_
      rw [hfront, hrest]

/-! ## Where grounded paths lead -/

/-- Segments that lead to something that was there before led there before, if every step up was
taken from what was there. The induction is from the end: what a name leads to was there only if
the directory around it was. -/
theorem walkFrom_of_lasts (hlasts : Lasts fs fs')
    (hup : ∀ before after, segments = before ++ ['.', '.'] :: after →
      ∃ t, fs.walkFrom trail (before ++ [['.', '.']]) = .ok t)
    (h : fs'.walkFrom trail segments = .ok next) (hthere : (fs.root.at? next.reverse).isSome) :
    fs.walkFrom trail segments = .ok next := by
  induction segments using List.reverseRecOn generalizing next with
  | nil => exact h
  | append_singleton first last ih =>
    have hup' : ∀ before after, first = before ++ ['.', '.'] :: after →
        ∃ t, fs.walkFrom trail (before ++ [['.', '.']]) = .ok t := by
      intro before after hfirst
      exact hup before (after ++ [last]) (by rw [hfirst, List.append_assoc]; rfl)
    rw [walkFrom_append] at h
    obtain ⟨between, hfirst, hlast⟩ := except_bind_eq_ok.mp h
    rw [walkFrom, List.foldlM_cons] at hlast
    obtain ⟨_, hfollow, hlast⟩ := except_bind_eq_ok.mp hlast
    cases hlast
    obtain ⟨entries, hentries, hleads⟩ := follow_eq_ok.mp hfollow
    cases hleads with
    | up =>
      obtain ⟨t, ht⟩ := hup first [] rfl
      have hlater : fs'.walkFrom trail (first ++ [['.', '.']]) = .ok t :=
        foldlM_follow_of_keeps hlasts.keeps ht
      rw [walkFrom_append] at hlater
      cases h.symm.trans hlater
      exact ht
    | stays hstays =>
      rw [walkFrom_append, ih hup' hfirst hthere]
      exact (walkFrom_stays hstays).mpr ⟨hlasts.isDirectoryAt hthere ⟨entries, hentries⟩, rfl⟩
    | down hname hshort =>
      obtain ⟨found, hfound⟩ := Option.isSome_iff_exists.mp hthere
      rw [List.reverse_cons] at hfound
      obtain ⟨es, hes, hlookup⟩ := Entry.exists_lookup_of_at? hfound
      have hnext : fs.follow between last = .ok (String.ofList last :: between) :=
        follow_eq_ok.mpr ⟨es, hes, .down hname hshort (by rw [hlookup]; rfl)⟩
      rw [walkFrom_append, ih hup' hfirst (by rw [hes]; rfl)]
      exact except_bind_eq_ok.mpr ⟨between, rfl, except_bind_eq_ok.mpr ⟨_, hnext, rfl⟩⟩

/-- **Where a grounded path led nowhere, there was nothing at the place that it leads to later.** -/
theorem IsGrounded.at?_eq_none (hgrounded : fs.IsGrounded path) (hlasts : Lasts fs fs')
    (hnew : fs.hasPath path = false) (h : fs'.resolve path = .ok names) :
    fs.root.at? names = none := by
  rw [← Option.not_isSome_iff_eq_none]
  intro hthere
  obtain ⟨hzero, hempty, hwalk⟩ := resolve_eq_ok.mp h
  rw [walk, start, hlasts.cwd] at hwalk
  have hwalked := walkFrom_of_lasts hlasts hgrounded hwalk (by rwa [List.reverse_reverse])
  have hpath := hasPath_iff.mpr ⟨names, resolve_eq_ok.mpr ⟨hzero, hempty, hwalked⟩⟩
  rw [hnew] at hpath
  cases hpath

theorem staysBelow_of_not_mem (depth : Nat) (h : ['.', '.'] ∉ segments) :
    staysBelow depth segments = true := by
  induction segments generalizing depth with
  | nil => rfl
  | cons segment rest ih =>
    obtain ⟨hne, hrest⟩ := not_or.mp (mt List.mem_cons.mpr h)
    rw [staysBelow, if_neg (Ne.symm hne)]
    split
    · exact ih depth hrest
    · exact ih (depth + 1) hrest

/-- The last segment of a path that ends in a name is the name. -/
theorem exists_splitSlash_under (hn : Path.IsName name) (d : String) :
    ∃ before, Path.splitSlash (Path.under d name).toList = before ++ [name.toList] := by
  by_cases hd : d = ""
  · refine ⟨[], ?_⟩
    have hunder : Path.under d name = name := by
      rw [Path.under, hd]
      simp
    rw [hunder, Path.splitSlash_of_noSlash hn.noSlash, List.nil_append]
  · obtain ⟨front, hunder, -⟩ :=
      exists_toList_under_slash hd (Path.isAbsolute_of_noSlash hn.noSlash)
    exact ⟨_, by rw [hunder, Path.splitSlash_append, Path.splitSlash_of_noSlash hn.noSlash]⟩

/-- Segments with a name at the end lead to something of that name. -/
theorem exists_of_walkFrom_name (hn : Path.IsName name)
    (h : fs.walkFrom trail (segments ++ [name.toList]) = .ok next) :
    ∃ between, fs.walkFrom trail segments = .ok between ∧ next = name :: between := by
  rw [walkFrom_append] at h
  obtain ⟨between, hbetween, hlast⟩ := except_bind_eq_ok.mp h
  rw [walkFrom, List.foldlM_cons] at hlast
  obtain ⟨_, hfollow, hlast⟩ := except_bind_eq_ok.mp hlast
  cases hlast
  obtain ⟨hnext, -⟩ := follow_name (namesEntry_of_isName hn) hfollow
  rw [String.ofList_toList] at hnext
  exact ⟨between, hbetween, hnext⟩

theorem getLast?_of_resolve_under (hn : Path.IsName name)
    (h : fs.resolve (Path.under d name) = .ok names) : names.getLast? = some name := by
  obtain ⟨-, -, hwalk⟩ := resolve_eq_ok.mp h
  obtain ⟨before, hsegments⟩ := exists_splitSlash_under hn d
  rw [walk, hsegments] at hwalk
  obtain ⟨between, -, hreverse⟩ := exists_of_walkFrom_name hn hwalk
  rw [← List.head?_reverse, hreverse, List.head?_cons]

/-- **What is new and lies around a grounded path is on the way to its directory.** -/
theorem IsGrounded.isPrefix_of_above (hgrounded : fs.IsGrounded (Path.under d name))
    (hn : Path.IsName name) (hgrows : Grows fs fs') (hq : q ∈ Path.above (Path.under d name))
    (hnames : fs'.resolve q = .ok names) (hnew : fs.root.at? names = none)
    (htarget : fs'.resolve (Path.under d name) = .ok (within ++ [last])) :
    names <+: within := by
  obtain ⟨hzero, hempty, hwalk⟩ := resolve_eq_ok.mp hnames
  obtain ⟨-, -, hwalk'⟩ := resolve_eq_ok.mp htarget
  rcases Path.begins_of_mem_above hq with h | h | ⟨rest, h⟩
  · exact absurd h hempty
  · rw [h] at hwalk
    have hroot : names.reverse = [] := walkFrom_replicate (k := 2) hwalk
    rw [List.reverse_eq_nil_iff.mp hroot]
    exact List.nil_prefix
  by_cases hup : ['.', '.'] ∈ Path.splitSlash rest
  · -- what stands before a step up was there
    obtain ⟨before, after, hrest⟩ := List.append_of_mem hup
    obtain ⟨t, ht⟩ := hgrounded (Path.splitSlash q.toList ++ before) after
      (by rw [h, Path.splitSlash_append, hrest, List.append_assoc])
    rw [h, start_append fs hempty, List.append_assoc, walkFrom_append] at ht
    obtain ⟨first, hfirst, -⟩ := except_bind_eq_ok.mp ht
    have hthere : fs.resolve q = .ok first.reverse :=
      resolve_eq_ok.mpr ⟨hzero, hempty, by rwa [List.reverse_reverse]⟩
    cases hnames.symm.trans (hgrows.resolve hthere)
    have hold := isSome_at?_of_resolve hthere
    rw [hnew] at hold
    cases hold
  · obtain ⟨before, hsegments⟩ := exists_splitSlash_under hn d
    rw [h, Path.splitSlash_append] at hsegments
    obtain ⟨more, hmore⟩ : ∃ more, Path.splitSlash rest = more ++ [name.toList] := by
      obtain ⟨more, final, hfinal⟩ :=
        (List.eq_nil_or_concat (Path.splitSlash rest)).resolve_left (Path.splitSlash_ne_nil _)
      rw [List.concat_eq_append] at hfinal
      rw [hfinal, ← List.append_assoc] at hsegments
      obtain ⟨-, hname⟩ := List.append_inj' hsegments rfl
      exact ⟨more, by rw [hfinal, hname]⟩
    rw [hmore] at hup
    rw [h, walk_append_slash hempty, hwalk, hmore] at hwalk'
    obtain ⟨between, hbetween, hreverse⟩ := exists_of_walkFrom_name hn hwalk'
    rw [List.reverse_append, List.reverse_singleton, List.singleton_append] at hreverse
    obtain ⟨-, rfl⟩ := List.cons.inj hreverse
    have hup' : ['.', '.'] ∉ more := fun hmem => hup (List.mem_append_left _ hmem)
    exact List.reverse_suffix.mp
      (suffix_of_staysBelow [] (staysBelow_of_not_mem _ hup') hbetween)

end FileSystem

end CommandFiles
