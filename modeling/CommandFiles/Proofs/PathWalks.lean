import CommandFiles.Proofs.WrittenFiles

/-! # Where paths below a directory lead

A path is followed segment by segment, so a path below a directory leads where its own segments lead
from that directory. The directory that a path lies in, without slashes and single points at its
end, leads to the same place as it is written. -/
namespace CommandFiles

open CommandLine (except_bind_eq_ok except_pure_eq_ok)

namespace FileSystem

variable {fs : FileSystem} {trail next names : List String} {segment as bs : List Char}
  {d name p : String}

/-! ## Walks -/

/-- Where segments lead from the directory at a trail, the last name first. -/
def walkFrom (fs : FileSystem) (trail : List String) (segments : List (List Char)) :
    Except OsError (List String) :=
  segments.foldlM fs.follow trail

/-- Where the segments of a path lead. -/
def walk (fs : FileSystem) (cs : List Char) : Except OsError (List String) :=
  fs.walkFrom (fs.start cs) (Path.splitSlash cs)

theorem checkPath_eq_ok {cs : List Char} : checkPath cs = .ok () ↔ '\x00' ∉ cs ∧ cs ≠ [] := by
  unfold checkPath
  by_cases hzero : '\x00' ∈ cs
  · simp [hzero]
  · by_cases hempty : cs = [] <;> simp [hzero, hempty]

theorem resolve_eq_ok : fs.resolve p = .ok names ↔
    '\x00' ∉ p.toList ∧ p.toList ≠ [] ∧ fs.walk p.toList = .ok names.reverse := by
  constructor
  · intro h
    obtain ⟨⟨⟩, hcheck, h⟩ := except_bind_eq_ok.mp h
    obtain ⟨trail, htrail, h⟩ := except_bind_eq_ok.mp h
    cases h
    obtain ⟨hzero, hempty⟩ := checkPath_eq_ok.mp hcheck
    rw [List.reverse_reverse]
    exact ⟨hzero, hempty, htrail⟩
  · rintro ⟨hzero, hempty, hwalk⟩
    refine except_bind_eq_ok.mpr ⟨(), checkPath_eq_ok.mpr ⟨hzero, hempty⟩, ?_⟩
    refine except_bind_eq_ok.mpr ⟨names.reverse, hwalk, ?_⟩
    rw [List.reverse_reverse]
    rfl

theorem ne_empty_of_resolve (h : fs.resolve p = .ok names) : p ≠ "" := by
  rintro rfl
  exact (resolve_eq_ok.mp h).2.1 rfl

theorem isDirectoryAt_of_follow (h : fs.follow trail segment = .ok next) :
    fs.IsDirectoryAt trail := by
  obtain ⟨entries, hentries, -⟩ := follow_eq_ok.mp h
  exact ⟨entries, hentries⟩

/-- A proper name leads to what has the name in the directory. -/
theorem follow_name (hname : NamesEntry segment) (h : fs.follow trail segment = .ok next) :
    next = String.ofList segment :: trail ∧ ¬ (String.ofList segment).utf8ByteSize > maxName := by
  obtain ⟨entries, -, hleads⟩ := follow_eq_ok.mp h
  cases hleads with
  | stays hsegment => exact absurd hsegment (not_or.mpr ⟨hname.nonempty, hname.notCurrent⟩)
  | up => exact absurd rfl hname.notParent
  | down _ hshort => exact ⟨rfl, hshort⟩

theorem namesEntry_of_isName (hn : Path.IsName name) : NamesEntry name.toList :=
  ⟨hn.nonempty, hn.notCurrent, hn.notParent⟩

theorem walkFrom_append (first rest : List (List Char)) : fs.walkFrom trail (first ++ rest) =
    fs.walkFrom trail first >>= fun t => fs.walkFrom t rest :=
  List.foldlM_append

theorem isDirectoryAt_of_walkFrom (h : fs.walkFrom trail (Path.splitSlash bs) = .ok next) :
    fs.IsDirectoryAt trail := by
  obtain ⟨first, rest, hsegments⟩ := List.exists_cons_of_ne_nil (Path.splitSlash_ne_nil bs)
  rw [hsegments, walkFrom, List.foldlM_cons] at h
  obtain ⟨_, hfollow, -⟩ := except_bind_eq_ok.mp h
  exact isDirectoryAt_of_follow hfollow

/-- Empty segments and single points lead nowhere else. -/
theorem walkFrom_stays (hsegment : segment = [] ∨ segment = ['.']) :
    fs.walkFrom trail [segment] = .ok next ↔ fs.IsDirectoryAt trail ∧ next = trail := by
  rw [← follow_stays hsegment, walkFrom, List.foldlM_cons]
  constructor
  · intro h
    obtain ⟨_, hfollow, h⟩ := except_bind_eq_ok.mp h
    cases h
    exact hfollow
  · intro h
    exact except_bind_eq_ok.mpr ⟨next, h, rfl⟩

theorem start_append (fs : FileSystem) (h : as ≠ []) (bs : List Char) :
    fs.start (as ++ bs) = fs.start as := by
  rw [start, start, Path.isAbsolute_append h]

/-- What stands behind a slash is followed from where the text before the slash leads. -/
theorem walk_slash (as bs : List Char) : fs.walk (as ++ '/' :: bs) =
    fs.walkFrom (fs.start (as ++ ['/'])) (Path.splitSlash as) >>= fun t =>
      fs.walkFrom t (Path.splitSlash bs) := by
  have hstart : fs.start (as ++ '/' :: bs) = fs.start (as ++ ['/']) := by
    have happend := start_append fs (by simp : as ++ ['/'] ≠ []) bs
    rwa [List.append_assoc, List.singleton_append] at happend
  rw [walk, Path.splitSlash_append, walkFrom_append, hstart]

theorem walk_append_slash (h : as ≠ []) (bs : List Char) : fs.walk (as ++ '/' :: bs) =
    fs.walk as >>= fun t => fs.walkFrom t (Path.splitSlash bs) := by
  rw [walk_slash, start_append fs h, walk]

/-! ## Paths below a directory -/

/-- The text of a path below a directory, with one slash between the two. -/
theorem exists_toList_under_slash (hd : d ≠ "") (hp : Path.isAbsolute p.toList = false) :
    ∃ before, (Path.under d p).toList = before ++ '/' :: p.toList ∧
      (d.toList = before ++ ['/'] ∨ d.toList = before ∧ before ≠ []) := by
  have hempty : d.isEmpty = false := by simpa using hd
  rw [Path.under, hp, hempty, Bool.or_self, if_neg Bool.false_ne_true]
  split
  · next hlast =>
    obtain ⟨before, hbefore⟩ := List.getLast?_eq_some_iff.mp hlast
    refine ⟨before, ?_, .inl hbefore⟩
    rw [String.toList_append, hbefore, List.append_assoc, List.singleton_append]
  · refine ⟨d.toList, ?_, .inr ⟨rfl, by simpa using hd⟩⟩
    rw [String.toList_append, String.toList_append, List.append_assoc]
    rfl

/-- **A path below a directory leads where its own segments lead from that directory.** -/
theorem resolve_under (hd : d ≠ "") (hp : Path.isAbsolute p.toList = false) :
    fs.resolve (Path.under d p) = .ok names ↔ '\x00' ∉ p.toList ∧
      ∃ base, fs.resolve d = .ok base ∧
        fs.walkFrom base.reverse (Path.splitSlash p.toList) = .ok names.reverse := by
  obtain ⟨before, hunder, hbefore⟩ := exists_toList_under_slash hd hp
  have hdzero : '\x00' ∉ d.toList ↔ '\x00' ∉ before := by
    rcases hbefore with h | ⟨h, -⟩
    · simp [h]
    · rw [h]
  have hdempty : d.toList ≠ [] := by simpa using hd
  have hbase : ∀ base, fs.walk d.toList = .ok base ∧ fs.IsDirectoryAt base ↔
      fs.walkFrom (fs.start (before ++ ['/'])) (Path.splitSlash before) = .ok base ∧
        fs.IsDirectoryAt base := by
    intro base
    rcases hbefore with h | ⟨h, hne⟩
    · rw [h, walk_slash]
      constructor
      · rintro ⟨hwalk, hdirectory⟩
        obtain ⟨_, hfirst, hlast⟩ := except_bind_eq_ok.mp hwalk
        obtain ⟨-, rfl⟩ := (walkFrom_stays (.inl rfl)).mp hlast
        exact ⟨hfirst, hdirectory⟩
      · rintro ⟨hwalk, hdirectory⟩
        exact ⟨except_bind_eq_ok.mpr ⟨base, hwalk,
          (walkFrom_stays (.inl rfl)).mpr ⟨hdirectory, rfl⟩⟩, hdirectory⟩
    · rw [h, start_append fs hne, walk]
  rw [resolve_eq_ok, hunder, walk_slash, except_bind_eq_ok]
  constructor
  · rintro ⟨hzero, -, base, hfirst, hrest⟩
    simp only [List.mem_append, List.mem_cons, not_or] at hzero
    obtain ⟨hwalk, -⟩ := (hbase base).mpr ⟨hfirst, isDirectoryAt_of_walkFrom hrest⟩
    refine ⟨hzero.2.2, base.reverse, ?_, ?_⟩
    · exact resolve_eq_ok.mpr ⟨hdzero.mpr hzero.1, hdempty, by rwa [List.reverse_reverse]⟩
    · rwa [List.reverse_reverse]
  · rintro ⟨hzero, base, hresolve, hrest⟩
    obtain ⟨hzero', -, hwalk⟩ := resolve_eq_ok.mp hresolve
    refine ⟨?_, by simp, base.reverse,
      ((hbase base.reverse).mp ⟨hwalk, isDirectoryAt_of_walkFrom hrest⟩).1, hrest⟩
    simp only [List.mem_append, List.mem_cons, not_or]
    exact ⟨hdzero.mp hzero', by decide, hzero⟩

/-- Two paths to one directory make paths to one place below it. -/
theorem resolve_under_of_resolve {d' : String} {base : List String} (hd : fs.resolve d = .ok base)
    (hd' : fs.resolve d' = .ok base) (h : fs.resolve (Path.under d p) = .ok names) :
    fs.resolve (Path.under d' p) = .ok names := by
  have hne := ne_empty_of_resolve hd
  have hne' := ne_empty_of_resolve hd'
  cases hp : Path.isAbsolute p.toList with
  | true =>
    have hunder : ∀ e, Path.under e p = p := fun e => by rw [Path.under, hp]; rfl
    rw [hunder] at h ⊢
    exact h
  | false =>
    obtain ⟨hzero, base', hbase, hwalk⟩ := (resolve_under hne hp).mp h
    cases hd.symm.trans hbase
    exact (resolve_under hne' hp).mpr ⟨hzero, base, hd', hwalk⟩

/-- The name of something in a directory leads to it. -/
theorem resolve_under_name {base : List String} {e : Entry} (hd : fs.resolve d = .ok base)
    (he : fs.root.at? (base ++ [name]) = some e) (hn : Path.IsName name)
    (hzero : '\x00' ∉ name.toList) (hshort : ¬ name.utf8ByteSize > maxName) :
    fs.resolve (Path.under d name) = .ok (base ++ [name]) := by
  refine (resolve_under (ne_empty_of_resolve hd) (Path.isAbsolute_of_noSlash hn.noSlash)).mpr
    ⟨hzero, base, hd, ?_⟩
  obtain ⟨entries, hentries, hlookup⟩ := Entry.exists_lookup_of_at? he
  have hfollow : fs.follow base.reverse name.toList = .ok (name :: base.reverse) := by
    have hleads : Leads entries base.reverse name.toList
        (String.ofList name.toList :: base.reverse) :=
      .down (namesEntry_of_isName hn) (by rwa [String.ofList_toList])
        (by rw [String.ofList_toList, hlookup]; rfl)
    rw [String.ofList_toList] at hleads
    exact follow_eq_ok.mpr ⟨entries, by rwa [List.reverse_reverse], hleads⟩
  rw [Path.splitSlash_of_noSlash hn.noSlash, walkFrom, List.foldlM_cons, hfollow,
    List.reverse_append]
  rfl

/-- What a name in a directory leads to lies in that directory. -/
theorem exists_of_resolve_under_name (hd : d ≠ "") (hn : Path.IsName name)
    (h : fs.resolve (Path.under d name) = .ok names) :
    ∃ base, fs.resolve d = .ok base ∧ names = base ++ [name] := by
  obtain ⟨-, base, hbase, hwalk⟩ := (resolve_under hd (Path.isAbsolute_of_noSlash hn.noSlash)).mp h
  refine ⟨base, hbase, ?_⟩
  rw [Path.splitSlash_of_noSlash hn.noSlash, walkFrom, List.foldlM_cons] at hwalk
  obtain ⟨trail, hfollow, hwalk⟩ := except_bind_eq_ok.mp hwalk
  cases hwalk
  obtain ⟨hnames, -⟩ := follow_name (namesEntry_of_isName hn) hfollow
  have hreverse := congrArg List.reverse hnames
  rwa [List.reverse_reverse, List.reverse_cons, List.reverse_reverse, String.ofList_toList]
    at hreverse

theorem eq_of_resolve_under_name {base : List String} (hn : Path.IsName name)
    (hd : fs.resolve d = .ok base) (h : fs.resolve (Path.under d name) = .ok names) :
    names = base ++ [name] := by
  obtain ⟨base', hbase', rfl⟩ := exists_of_resolve_under_name (ne_empty_of_resolve hd) hn h
  cases hd.symm.trans hbase'
  rfl

/-- Whether segments never lead above the directory that they start from, if they start that many
levels below it. -/
def staysBelow : Nat → List (List Char) → Bool
  | _, [] => true
  | depth, segment :: rest =>
    if segment = [] ∨ segment = ['.'] then staysBelow depth rest
    else if segment = ['.', '.'] then 0 < depth && staysBelow (depth - 1) rest
    else staysBelow (depth + 1) rest

theorem suffix_of_staysBelow {bottom : List String} {segments : List (List Char)} :
    ∀ (above : List String) {trail : List String}, staysBelow above.length segments = true →
      fs.walkFrom (above ++ bottom) segments = .ok trail → bottom <:+ trail := by
  induction segments with
  | nil =>
    intro above trail _ h
    cases h
    exact List.suffix_append above bottom
  | cons segment rest ih =>
    intro above trail hbelow h
    rw [walkFrom, List.foldlM_cons] at h
    obtain ⟨next, hfollow, h⟩ := except_bind_eq_ok.mp h
    rw [staysBelow] at hbelow
    obtain ⟨entries, -, hleads⟩ := follow_eq_ok.mp hfollow
    cases hleads with
    | stays hsegment =>
      rw [if_pos hsegment] at hbelow
      exact ih above hbelow h
    | up =>
      simp only [List.cons_ne_nil, List.cons.injEq, and_false, or_self, if_false, if_true,
        Bool.and_eq_true, decide_eq_true_eq] at hbelow
      obtain ⟨name, more, rfl⟩ := List.exists_cons_of_length_pos hbelow.1
      exact ih more hbelow.2 h
    | down hname =>
      rw [if_neg (not_or.mpr ⟨hname.nonempty, hname.notCurrent⟩), if_neg hname.notParent] at hbelow
      exact ih (String.ofList segment :: above) hbelow h

/-- **A relative path that never leads above the directory it starts from leads to a place
there.** -/
theorem prefix_of_staysBelow {base : List String} (hd : fs.resolve d = .ok base)
    (hp : Path.isAbsolute p.toList = false)
    (hbelow : staysBelow 0 (Path.splitSlash p.toList) = true)
    (h : fs.resolve (Path.under d p) = .ok names) : base <+: names := by
  obtain ⟨-, base', hbase, hwalk⟩ := (resolve_under (ne_empty_of_resolve hd) hp).mp h
  cases hd.symm.trans hbase
  exact List.reverse_suffix.mp (suffix_of_staysBelow [] hbelow hwalk)

/-! ## The directory of a path -/

theorem dropTail_suffix (cs : List Char) : Path.dropTail cs <:+ cs := by
  fun_induction Path.dropTail cs with
  | case1 => exact List.suffix_refl _
  | case2 rest h => obtain rfl := List.isEmpty_iff.mp h; exact List.suffix_refl _
  | case3 rest _ ih => exact ih.trans (List.suffix_cons _ _)
  | case4 rest h => obtain rfl := List.isEmpty_iff.mp h; exact List.suffix_cons _ _
  | case5 rest _ ih => exact ih.trans ((List.suffix_cons _ _).trans (List.suffix_cons _ _))
  | case6 => exact List.suffix_refl _

theorem dropTail_ne_nil {cs : List Char} (h : cs ≠ []) : Path.dropTail cs ≠ [] := by
  fun_induction Path.dropTail cs with
  | case1 => exact absurd rfl h
  | case2 => simp
  | case3 rest hrest ih => exact ih (by simpa using hrest)
  | case4 => simp
  | case5 rest hrest ih => exact ih (by simpa using hrest)
  | case6 => exact h

/-- Slashes and single points at the end of a path lead nowhere else. -/
theorem walk_dropTail {cs : List Char} (h : fs.walk cs.reverse = .ok trail) :
    fs.walk (Path.dropTail cs).reverse = .ok trail := by
  fun_induction Path.dropTail cs with
  | case1 => exact h
  | case2 rest hrest =>
    rw [List.isEmpty_iff.mp hrest] at h
    exact h
  | case3 rest hrest ih =>
    rw [List.reverse_cons, walk_append_slash (by simpa using hrest)] at h
    obtain ⟨t, hfirst, hlast⟩ := except_bind_eq_ok.mp h
    obtain ⟨-, rfl⟩ := (walkFrom_stays (.inl rfl)).mp hlast
    exact ih hfirst
  | case4 rest hrest =>
    rw [List.isEmpty_iff.mp hrest] at h
    change fs.walk ([] ++ '/' :: ['.']) = _ at h
    change fs.walk ([] ++ '/' :: []) = _
    rw [walk_slash] at h ⊢
    obtain ⟨t, hfirst, hlast⟩ := except_bind_eq_ok.mp h
    exact except_bind_eq_ok.mpr ⟨t, hfirst,
      (walkFrom_stays (.inl rfl)).mpr ((walkFrom_stays (.inr rfl)).mp hlast)⟩
  | case5 rest hrest ih =>
    rw [List.reverse_cons, List.reverse_cons, List.append_assoc, List.singleton_append,
      walk_append_slash (by simpa using hrest)] at h
    obtain ⟨t, hfirst, hlast⟩ := except_bind_eq_ok.mp h
    obtain ⟨-, rfl⟩ := (walkFrom_stays (.inr rfl)).mp hlast
    exact ih hfirst
  | case6 => exact h

theorem parent?_under_name (hd : d ≠ "") (hn : Path.IsName name) :
    Path.parent? (Path.under d name) =
      some (String.ofList (Path.dropTail d.toList.reverse).reverse) := by
  have hlast : (Path.components (Path.under d name)).getLast? = some (.normal name) := by
    have h := Path.fileName?_under_name d hn
    rw [Path.fileName?] at h
    split at h
    · next heq => rw [heq, Option.some.inj h]
    · cases h
  have hslash : ∀ c ∈ name.toList.reverse, (c != '/') = true := by
    intro c hc
    rw [bne_iff_ne]
    rintro rfl
    exact hn.noSlash (by simpa using hc)
  obtain ⟨before, hunder, hbefore⟩ := exists_toList_under_slash hd (Path.isAbsolute_of_noSlash hn.noSlash)
  rw [Path.parent?, hlast]
  dsimp only
  rw [hunder, List.reverse_append, List.reverse_cons, List.append_assoc, Path.dropTail_of_isName hn,
    List.dropWhile_append_of_pos hslash, List.singleton_append,
    List.dropWhile_cons_of_neg (by simp)]
  rcases hbefore with h | ⟨h, hne⟩
  · rw [h, List.reverse_append, List.reverse_singleton, List.singleton_append]
  · rw [h, Path.dropTail, if_neg (by simpa using hne)]

/-- **The directory of a file leads to the directory that the path of the file was made with.** -/
theorem exists_parent?_under (hn : Path.IsName name) (hd : d ≠ "") :
    ∃ d', Path.parent? (Path.under d name) = some d' ∧
      ∀ (fs : FileSystem) (names : List String), fs.resolve d = .ok names →
        fs.resolve d' = .ok names := by
  refine ⟨_, parent?_under_name hd hn, fun fs names h => ?_⟩
  obtain ⟨hzero, hempty, hwalk⟩ := resolve_eq_ok.mp h
  rw [resolve_eq_ok, String.toList_ofList]
  refine ⟨fun hmem => hzero ?_, ?_, walk_dropTail (by rwa [List.reverse_reverse])⟩
  · rw [List.mem_reverse] at hmem
    simpa using (dropTail_suffix _).subset hmem
  · simpa using dropTail_ne_nil (by simpa using hempty)

end FileSystem

end CommandFiles
