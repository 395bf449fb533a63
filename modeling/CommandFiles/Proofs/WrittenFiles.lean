import CommandFiles.FileSystem
import CommandFiles.Proofs.MatchRun
import CommandFiles.Proofs.PathNames

/-! # Files that were written

What is read back after a file was written is the text that was written. Writing replaces no
directory, so all directories on the way stay, and each holds at least the names it held before. -/
namespace CommandFiles

open CommandLine (except_bind_eq_ok except_pure_eq_ok)

namespace Entry

/-- Whether one directory holds all names of another one. -/
def HoldsNames (entries more : List (String × Entry)) : Prop :=
  ∀ name, (entries.lookup name).isSome → (more.lookup name).isSome

theorem holdsNames_insertInto (entries : List (String × Entry)) (name : String) (e : Entry) :
    HoldsNames entries (Record.insertInto name e entries) := by
  intro other h
  rw [Record.lookup_insertInto]
  split
  · rfl
  · exact h

theorem at?_cons {entries : List (String × Entry)} {name : String} {e : Entry}
    (h : entries.lookup name = some e) (rest : List String) :
    (directory entries).at? (name :: rest) = e.at? rest := by
  rw [at?, h]

theorem put_cons {entries : List (String × Entry)} {name next : String} {old : Entry}
    (h : entries.lookup name = some old) (new : Entry) (rest : List String) :
    put new (name :: next :: rest) (directory entries) =
      directory (Record.insertInto name (put new (next :: rest) old) entries) := by
  rw [put, h]

/-- Where no directory is replaced, all directories stay and hold the names they held. -/
theorem at?_put_of_directory (new : Entry) {names trail : List String} {e : Entry}
    {entries : List (String × Entry)} (hold : ∀ es, e.at? names ≠ some (directory es))
    (h : e.at? trail = some (directory entries)) :
    ∃ more, (put new names e).at? trail = some (directory more) ∧ HoldsNames entries more := by
  induction names generalizing e trail with
  | nil =>
    cases e with
    | file content => cases trail <;> cases h
    | directory es => exact absurd rfl (hold es)
  | cons name rest ih =>
    cases e with
    | file content => cases trail <;> cases h
    | directory es =>
      cases trail with
      | nil =>
        cases h
        cases rest with
        | nil => exact ⟨_, by rw [put]; rfl, holdsNames_insertInto entries name new⟩
        | cons next rest =>
          cases hlookup : entries.lookup name with
          | none => exact ⟨entries, by rw [put, hlookup]; rfl, fun _ => id⟩
          | some old =>
            exact ⟨_, by rw [put_cons hlookup]; rfl, holdsNames_insertInto entries name _⟩
      | cons other more =>
        by_cases hother : other = name
        case neg => exact ⟨entries, (at?_put_other new rest more es hother).trans h, fun _ => id⟩
        subst hother
        cases hlookup : es.lookup other with
        | none => rw [at?, hlookup] at h; cases h
        | some old =>
          rw [at?_cons hlookup] at h
          cases rest with
          | nil =>
            -- A directory below the place of the new entry would be replaced.
            cases old with
            | file content => cases more <;> cases h
            | directory es' => exact absurd (at?_cons hlookup []) (hold es')
          | cons next rest =>
            rw [put_cons hlookup, at?_cons (by rw [Record.lookup_insertInto, if_pos rfl])]
            exact ih (fun es' => at?_cons hlookup (next :: rest) ▸ hold es') h

theorem at?_put_of_parent (new : Entry) {trail : List String} {name : String} {e : Entry}
    {entries : List (String × Entry)} (h : e.at? trail = some (directory entries)) :
    (put new (trail ++ [name]) e).at? (trail ++ [name]) = some new := by
  induction trail generalizing e with
  | nil =>
    cases h
    exact at?_put_self new name entries
  | cons first rest ih =>
    cases e with
    | file content => cases h
    | directory es =>
      cases hlookup : es.lookup first with
      | none => rw [at?, hlookup] at h; cases h
      | some old =>
        rw [at?_cons hlookup] at h
        obtain ⟨next, more, hnext⟩ := List.exists_cons_of_ne_nil
          (List.append_ne_nil_of_right_ne_nil rest (List.cons_ne_nil name []))
        rw [List.cons_append, hnext, put_cons hlookup, at?_cons (by
          rw [Record.lookup_insertInto, if_pos rfl]), ← hnext]
        exact ih h

/-- What has a name lies in a directory that holds the name. -/
theorem exists_lookup_of_at? {trail : List String} {name : String} {e found : Entry}
    (h : e.at? (trail ++ [name]) = some found) :
    ∃ entries, e.at? trail = some (directory entries) ∧ entries.lookup name = some found := by
  induction trail generalizing e with
  | nil =>
    cases e with
    | file content => cases h
    | directory es =>
      cases hlookup : es.lookup name with
      | none => rw [List.nil_append, at?, hlookup] at h; cases h
      | some old =>
        rw [List.nil_append, at?_cons hlookup] at h
        cases h
        exact ⟨es, rfl, hlookup⟩
  | cons first rest ih =>
    cases e with
    | file content => cases h
    | directory es =>
      cases hlookup : es.lookup first with
      | none => rw [List.cons_append, at?, hlookup] at h; cases h
      | some old =>
        rw [List.cons_append, at?_cons hlookup] at h
        rw [at?_cons hlookup]
        exact ih h

end Entry

namespace FileSystem

variable {fs fs' : FileSystem} {path text : String}

/-- Whether all directories of a file system are there in another one and hold their names. -/
def Keeps (fs fs' : FileSystem) : Prop :=
  ∀ trail entries, fs.root.at? trail = some (.directory entries) →
    ∃ more, fs'.root.at? trail = some (.directory more) ∧ Entry.HoldsNames entries more

/-- Whether there is a directory at a trail. -/
def IsDirectoryAt (fs : FileSystem) (trail : List String) : Prop :=
  ∃ entries, fs.root.at? trail.reverse = some (.directory entries)

/-- Whether a segment names something in a directory. -/
structure NamesEntry (segment : List Char) : Prop where
  nonempty : segment ≠ []
  notCurrent : segment ≠ ['.']
  notParent : segment ≠ ['.', '.']

/-- A segment leads nowhere else, to the directory around, or to what it names. -/
inductive Leads (entries : List (String × Entry)) (trail : List String) :
    List Char → List String → Prop
  | stays {segment : List Char} (h : segment = [] ∨ segment = ['.']) :
      Leads entries trail segment trail
  | up : Leads entries trail ['.', '.'] trail.tail
  | down {segment : List Char} (hname : NamesEntry segment)
      (hshort : ¬ (String.ofList segment).utf8ByteSize > maxName)
      (hthere : (entries.lookup (String.ofList segment)).isSome) :
      Leads entries trail segment (String.ofList segment :: trail)

/-- **Where a segment is followed to.** -/
theorem follow_eq_ok {trail next : List String} {segment : List Char} :
    fs.follow trail segment = .ok next ↔
      ∃ entries, fs.root.at? trail.reverse = some (.directory entries) ∧
        Leads entries trail segment next := by
  constructor
  · intro h
    unfold follow at h
    split at h
    · cases h
    · cases h
    next entries hentries =>
    refine ⟨entries, hentries, ?_⟩
    split at h
    · next hstays =>
      cases h
      exact .stays (by simpa using hstays)
    next hmoves =>
    simp only [Bool.or_eq_true, decide_eq_true_eq, not_or] at hmoves
    split at h
    · next hparent =>
      cases h
      exact hparent ▸ .up
    next hdown =>
    dsimp only at h
    split at h
    · cases h
    next hshort =>
    split at h
    · next hthere =>
      cases h
      exact .down ⟨hmoves.1, hmoves.2, hdown⟩ hshort hthere
    · cases h
  · rintro ⟨entries, hentries, hleads⟩
    rw [follow, hentries]
    cases hleads with
    | stays h => rcases h with rfl | rfl <;> rfl
    | up => rfl
    | down hname hshort hthere =>
      simp [hname.nonempty, hname.notCurrent, hname.notParent, hshort, hthere]

theorem follow_of_keeps (h : Keeps fs fs') {trail next : List String} {segment : List Char}
    (hfollow : fs.follow trail segment = .ok next) : fs'.follow trail segment = .ok next := by
  obtain ⟨entries, hentries, hleads⟩ := follow_eq_ok.mp hfollow
  obtain ⟨more, hmore, hnames⟩ := h _ _ hentries
  refine follow_eq_ok.mpr ⟨more, hmore, ?_⟩
  cases hleads with
  | stays h => exact .stays h
  | up => exact .up
  | down hname hshort hthere => exact .down hname hshort (hnames _ hthere)

theorem foldlM_follow_of_keeps (h : Keeps fs fs') {segments : List (List Char)}
    {trail next : List String} (hfollow : segments.foldlM fs.follow trail = .ok next) :
    segments.foldlM fs'.follow trail = .ok next := by
  induction segments generalizing trail with
  | nil => exact hfollow
  | cons segment rest ih =>
    rw [List.foldlM_cons] at hfollow ⊢
    obtain ⟨between, hbetween, hrest⟩ := except_bind_eq_ok.mp hfollow
    exact except_bind_eq_ok.mpr ⟨between, follow_of_keeps h hbetween, ih hrest⟩

/-- Empty segments and single points lead nowhere else. -/
theorem follow_stays {trail next : List String} {segment : List Char}
    (hsegment : segment = [] ∨ segment = ['.']) :
    fs.follow trail segment = .ok next ↔ fs.IsDirectoryAt trail ∧ next = trail := by
  rw [follow_eq_ok]
  constructor
  · rintro ⟨entries, hentries, hleads⟩
    refine ⟨⟨entries, hentries⟩, ?_⟩
    cases hleads with
    | stays => rfl
    | up => simp at hsegment
    | down hname => exact absurd hsegment (not_or.mpr ⟨hname.nonempty, hname.notCurrent⟩)
  · rintro ⟨⟨entries, hentries⟩, rfl⟩
    exact ⟨entries, hentries, .stays hsegment⟩

theorem properSegments_of_last {cs : List Char} (h : cs.getLast? ≠ some '/') :
    properSegments cs = Path.splitSlash cs := by
  rw [properSegments, Path.trimSlashes]
  cases hreverse : cs.reverse with
  | nil => rw [List.reverse_eq_nil_iff.mp hreverse]; rfl
  | cons c rest =>
    have hcs : cs = (c :: rest).reverse := by rw [← hreverse, List.reverse_reverse]
    have hc : c ≠ '/' := by
      rintro rfl
      exact h (by rw [hcs, List.getLast?_reverse]; rfl)
    rw [List.dropWhile_cons_of_neg (by simpa using hc), ← hcs]

theorem exists_properSegments_eq (cs : List Char) :
    ∃ before last, properSegments cs = before ++ [last] := by
  obtain ⟨before, last, h⟩ :=
    (List.eq_nil_or_concat (properSegments cs)).resolve_left (Path.splitSlash_ne_nil _)
  exact ⟨before, last, by rw [h, List.concat_eq_append]⟩

/-- **The place that a path names**: all its segments but the last one lead to the directory, and
the last one is the name, unless it is empty or made of points. -/
theorem place_eq_ok {p : Place} {before : List (List Char)} {last : List Char}
    (hsegments : properSegments path.toList = before ++ [last]) :
    fs.place path = .ok p ↔ checkPath path.toList = .ok () ∧
      before.foldlM fs.follow (fs.start path.toList) = .ok p.trail ∧ fs.IsDirectoryAt p.trail ∧
      (NamesEntry last ∧ ¬ (String.ofList last).utf8ByteSize > maxName ∧
          p.name = some (String.ofList last) ∨
        ¬ NamesEntry last ∧ p.name = none) ∧
      p.endsInSlash = decide (path.toList.getLast? = some '/') := by
  have hname : (last != [] && last != ['.'] && last != ['.', '.']) = true ↔ NamesEntry last := by
    simp only [bne_iff_ne, Bool.and_eq_true]
    exact ⟨fun h => ⟨h.1.1, h.1.2, h.2⟩, fun h => ⟨⟨h.nonempty, h.notCurrent⟩, h.notParent⟩⟩
  unfold place
  simp only [hsegments, List.dropLast_concat, List.getLast?_concat, Option.getD_some]
  constructor
  · intro h
    obtain ⟨⟨⟩, hcheck, h⟩ := except_bind_eq_ok.mp h
    obtain ⟨trail, htrail, h⟩ := except_bind_eq_ok.mp h
    obtain ⟨trail', hdirectory, hplace⟩ := except_bind_eq_ok.mp h
    obtain ⟨hdirectory, rfl⟩ := (follow_stays (.inl rfl)).mp hdirectory
    by_cases hnames : NamesEntry last
    · rw [hname.mpr hnames, Bool.true_and] at hplace
      split at hplace
      · cases hplace
      · next hshort =>
        cases hplace
        exact ⟨hcheck, htrail, hdirectory, .inl ⟨hnames, by simpa using hshort, rfl⟩, rfl⟩
    · rw [Bool.eq_false_iff.mpr (mt hname.mp hnames)] at hplace
      cases hplace
      exact ⟨hcheck, htrail, hdirectory, .inr ⟨hnames, rfl⟩, rfl⟩
  · rintro ⟨hcheck, htrail, hdirectory, hp, hslash⟩
    obtain ⟨trail, name, endsInSlash⟩ := p
    dsimp only at htrail hdirectory hp hslash
    refine except_bind_eq_ok.mpr ⟨(), hcheck, except_bind_eq_ok.mpr ⟨trail, htrail,
      except_bind_eq_ok.mpr ⟨trail, (follow_stays (.inl rfl)).mpr ⟨hdirectory, rfl⟩, ?_⟩⟩⟩
    rcases hp with ⟨hnames, hshort, rfl⟩ | ⟨hnames, rfl⟩
    · rw [hname.mpr hnames, Bool.true_and, if_neg (by simpa using hshort), hslash]
      rfl
    · rw [Bool.eq_false_iff.mpr (mt hname.mp hnames), hslash]
      rfl

/-- **What is put at the place of a path** goes into a directory, and the segments of the path lead
to it, unless a directory was replaced. -/
theorem exists_of_place {p : Place} {name : String} (hplace : fs.place path = .ok p)
    (hname : p.name = some name) :
    checkPath path.toList = .ok () ∧ p.endsInSlash = decide (path.toList.getLast? = some '/') ∧
    ∃ entries, fs.root.at? p.trail.reverse = some (.directory entries) ∧
      ∀ new : Entry, (∀ es, fs.root.at? (p.trail.reverse ++ [name]) ≠ some (.directory es)) →
        (properSegments path.toList).foldlM (fs.put (p.trail.reverse ++ [name]) new).follow
          (fs.start path.toList) = .ok (name :: p.trail) := by
  obtain ⟨before, last, hsegments⟩ := exists_properSegments_eq path.toList
  obtain ⟨hcheck, htrail, ⟨entries, hentries⟩, hplaced, hend⟩ := (place_eq_ok hsegments).mp hplace
  rw [hname] at hplaced
  obtain ⟨hnames, hshort, heq⟩ := hplaced.resolve_right (by simp)
  refine ⟨hcheck, hend, entries, hentries, ?_⟩
  intro new hfree
  have hkeeps : Keeps fs (fs.put (p.trail.reverse ++ [name]) new) :=
    fun trail entries h => Entry.at?_put_of_directory _ hfree h
  have hnew : (fs.put (p.trail.reverse ++ [name]) new).root.at? (p.trail.reverse ++ [name]) =
      some new := Entry.at?_put_of_parent _ hentries
  obtain ⟨held, hheld, hlookup⟩ := Entry.exists_lookup_of_at? hnew
  have hlast : (fs.put (p.trail.reverse ++ [name]) new).follow p.trail last =
      .ok (name :: p.trail) := by
    rw [Option.some.inj heq] at hlookup hheld ⊢
    exact follow_eq_ok.mpr ⟨held, hheld, .down hnames hshort (by rw [hlookup]; rfl)⟩
  rw [hsegments, List.foldlM_append]
  refine except_bind_eq_ok.mpr ⟨p.trail, foldlM_follow_of_keeps hkeeps htrail, ?_⟩
  rw [List.foldlM_cons, hlast]
  rfl

/-- **Where a file is written**: it is put into a directory under a name that no directory has, and
its path leads there. -/
theorem exists_of_write (h : fs.write path text = .ok fs') :
    ∃ trail name entries, fs' = fs.put (trail ++ [name]) (.file (.text text)) ∧
      fs.root.at? trail = some (.directory entries) ∧
      (∀ es, fs.root.at? (trail ++ [name]) ≠ some (.directory es)) ∧
      fs'.resolve path = .ok (trail ++ [name]) := by
  unfold write at h
  obtain ⟨p, hplace, h⟩ := except_bind_eq_ok.mp h
  split at h
  · cases h
  next name hname =>
  split at h
  · cases h
  next hslash =>
  obtain ⟨hcheck, hend, entries, hentries, hleads⟩ := exists_of_place hplace hname
  obtain ⟨hnew, rfl⟩ : (∀ es, fs.root.at? (p.trail.reverse ++ [name]) ≠ some (.directory es)) ∧
      fs' = fs.put (p.trail.reverse ++ [name]) (.file (.text text)) := by
    rw [← List.reverse_cons]
    dsimp only at h
    split at h
    · cases h
    · next hother => exact ⟨hother, (Except.ok.inj h).symm⟩
  refine ⟨p.trail.reverse, name, entries, rfl, hentries, hnew, ?_⟩
  -- the path of a file does not end in a slash
  have hsegments : properSegments path.toList = Path.splitSlash path.toList :=
    properSegments_of_last (by simpa [hend] using hslash)
  refine except_bind_eq_ok.mpr ⟨(), hcheck, except_bind_eq_ok.mpr ⟨name :: p.trail, ?_, ?_⟩⟩
  · rw [← hsegments]
    exact hleads _ hnew
  · rw [List.reverse_cons]
    rfl

theorem read_of_write (h : fs.write path text = .ok fs') : fs'.read path = .ok text := by
  obtain ⟨trail, name, entries, hput, hentries, -, hresolve⟩ := exists_of_write h
  have hfile : fs'.root.at? (trail ++ [name]) = some (.file (.text text)) :=
    hput ▸ Entry.at?_put_of_parent _ hentries
  have hentry : fs'.entry path = .ok (.file (.text text)) := by
    refine except_bind_eq_ok.mpr ⟨_, hresolve, ?_⟩
    rw [hfile]
    rfl
  exact except_bind_eq_ok.mpr ⟨_, hentry, rfl⟩

/-- **What is read after a file was written is what was written.** -/
theorem read_of_writeDeep (h : writeDeep path text fs = (.ok (), fs')) :
    fs'.read path = .ok text := by
  unfold writeDeep at h
  dsimp only at h
  split at h
  · cases h
  · split at h
    · next hwrite =>
      cases h
      exact read_of_write hwrite
    · cases h

end FileSystem

end CommandFiles
