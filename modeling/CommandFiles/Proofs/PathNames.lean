import CommandFiles.Command
import CommandFiles.Discovery.Search

/-! # Paths made of names

A proper name has no slash in it and is neither empty nor made of points that stand for a directory.
A path made of such names below a directory is taken apart again into the same names: its last
component, the directory it lies in, and its components below the directory. -/
namespace CommandFiles.Path

/-- Whether a text is the name of something in a directory. -/
structure IsName (name : String) : Prop where
  nonempty : name.toList ≠ []
  noSlash : '/' ∉ name.toList
  notCurrent : name.toList ≠ ['.']
  notParent : name.toList ≠ ['.', '.']

instance (name : String) : Decidable (IsName name) :=
  decidable_of_iff (name.toList ≠ [] ∧ '/' ∉ name.toList ∧ name.toList ≠ ['.'] ∧
      name.toList ≠ ['.', '.'])
    ⟨fun ⟨h, hs, hc, hp⟩ => ⟨h, hs, hc, hp⟩,
      fun h => ⟨h.nonempty, h.noSlash, h.notCurrent, h.notParent⟩⟩

/-! ## Segments -/

theorem splitSlash_ne_nil (cs : List Char) : splitSlash cs ≠ [] := by
  cases cs with
  | nil => simp [splitSlash]
  | cons c rest =>
    unfold splitSlash
    split
    · simp
    · split <;> simp

theorem splitSlash_of_noSlash {cs : List Char} (h : '/' ∉ cs) : splitSlash cs = [cs] := by
  induction cs with
  | nil => rfl
  | cons c rest ih =>
    simp only [List.mem_cons, not_or] at h
    rw [splitSlash, if_neg (Ne.symm h.1), ih h.2]

theorem splitSlash_append (as bs : List Char) :
    splitSlash (as ++ '/' :: bs) = splitSlash as ++ splitSlash bs := by
  induction as with
  | nil => simp [splitSlash]
  | cons a rest ih =>
    rw [List.cons_append, splitSlash, splitSlash]
    split
    · simp [ih]
    · rw [ih]
      cases h : splitSlash rest with
      | nil => exact absurd h (splitSlash_ne_nil rest)
      | cons s more => simp

theorem splitSlash_pathOf {names : List String} (hne : names ≠ []) (hn : ∀ n ∈ names, IsName n) :
    splitSlash (Entry.pathOf names).toList = names.map String.toList := by
  induction names with
  | nil => exact absurd rfl hne
  | cons n rest ih =>
    have hslash := (hn n List.mem_cons_self).noSlash
    cases rest with
    | nil => rw [Entry.pathOf, String.intercalate_singleton, splitSlash_of_noSlash hslash]; rfl
    | cons m rest =>
      have ih := ih (by simp) fun k hk => hn k (List.mem_cons_of_mem _ hk)
      rw [Entry.pathOf, String.intercalate_cons_cons, String.toList_append, String.toList_append,
        List.append_assoc, ← Entry.pathOf]
      change splitSlash (n.toList ++ '/' :: (Entry.pathOf (m :: rest)).toList) = _
      rw [splitSlash_append, splitSlash_of_noSlash hslash, ih]
      rfl

/-! ## Components -/

/-- What stands before the segments of a path: its root, or the point that begins it. -/
def lead (cs : List Char) : List Component :=
  if isAbsolute cs then [.root]
  else if (splitSlash cs).head? = some ['.'] then [.current]
  else []

theorem components_eq (p : String) :
    components p = lead p.toList ++ (splitSlash p.toList).filterMap componentOf? := by
  unfold components lead
  dsimp only
  split
  · rfl
  · split <;> rfl

theorem isAbsolute_cons (c : Char) (cs : List Char) : isAbsolute (c :: cs) = decide (c = '/') := by
  unfold isAbsolute
  split
  · rename_i h; simp [(List.cons.inj h).1]
  · rename_i h
    have hc : c ≠ '/' := by rintro rfl; exact h cs rfl
    simp [hc]

/-- Whether a path is absolute is told by its first character. -/
theorem isAbsolute_append {p : List Char} (h : p ≠ []) (next : List Char) :
    isAbsolute (p ++ next) = isAbsolute p := by
  obtain ⟨c, rest, rfl⟩ := List.exists_cons_of_ne_nil h
  rw [List.cons_append, isAbsolute_cons, isAbsolute_cons]

theorem isAbsolute_of_noSlash {p : List Char} (h : '/' ∉ p) : isAbsolute p = false := by
  cases p with
  | nil => rfl
  | cons c rest =>
    rw [isAbsolute_cons, decide_eq_false_iff_not]
    intro hc
    exact h (hc ▸ List.mem_cons_self)

theorem isAbsolute_of_splitSlash {p : List Char} (h : [] ∉ splitSlash p) :
    isAbsolute p = false := by
  cases p with
  | nil => rfl
  | cons c rest =>
    rw [isAbsolute_cons, decide_eq_false_iff_not]
    intro hc
    rw [splitSlash, if_pos hc] at h
    exact h List.mem_cons_self

theorem head?_splitSlash_append (before rest : List Char) :
    (splitSlash (before ++ '/' :: rest)).head? = (splitSlash before).head? := by
  obtain ⟨s, more, h⟩ := List.exists_cons_of_ne_nil (splitSlash_ne_nil before)
  rw [splitSlash_append, h]
  rfl

theorem lead_slash (before rest : List Char) :
    lead (before ++ '/' :: rest) = lead (before ++ ['/']) := by
  have habsolute : isAbsolute (before ++ '/' :: rest) = isAbsolute (before ++ ['/']) := by
    cases before <;> simp only [List.nil_append, List.cons_append, isAbsolute_cons]
  rw [lead, lead, head?_splitSlash_append, head?_splitSlash_append, habsolute]

theorem lead_append_slash {before : List Char} (h : before ≠ []) :
    lead (before ++ ['/']) = lead before := by
  rw [lead, lead, head?_splitSlash_append, isAbsolute_append h]

theorem componentOf?_of_isName {name : String} (h : IsName name) :
    componentOf? name.toList = some (.normal name) := by
  simp [componentOf?, h.nonempty, h.notCurrent, h.notParent]

theorem filterMap_componentOf? {names : List String} (hn : ∀ n ∈ names, IsName n) :
    (names.map String.toList).filterMap componentOf? = names.map Component.normal := by
  induction names with
  | nil => rfl
  | cons n rest ih =>
    rw [List.map_cons, List.filterMap_cons_some (componentOf?_of_isName (hn n List.mem_cons_self)),
      ih fun k hk => hn k (List.mem_cons_of_mem _ hk), List.map_cons]

theorem isAbsolute_pathOf {names : List String} (hne : names ≠ [])
    (hn : ∀ n ∈ names, IsName n) : isAbsolute (Entry.pathOf names).toList = false := by
  refine isAbsolute_of_splitSlash ?_
  rw [splitSlash_pathOf hne hn]
  intro hempty
  obtain ⟨n, hmem, hnil⟩ := List.mem_map.mp hempty
  exact (hn n hmem).nonempty hnil

theorem lead_pathOf {names : List String} (hne : names ≠ []) (hn : ∀ n ∈ names, IsName n) :
    lead (Entry.pathOf names).toList = [] := by
  rw [lead, isAbsolute_pathOf hne hn, splitSlash_pathOf hne hn]
  obtain ⟨n, rest, rfl⟩ := List.exists_cons_of_ne_nil hne
  simp [(hn n List.mem_cons_self).notCurrent]

/-- **A path below a directory has the components of the directory, and then its own names.** -/
theorem components_under (root : String) {names : List String} (hne : names ≠ [])
    (hn : ∀ n ∈ names, IsName n) :
    components (under root (Entry.pathOf names)) =
      components root ++ names.map Component.normal := by
  have hsplit := splitSlash_pathOf hne hn
  have hown := filterMap_componentOf? hn
  unfold under
  rw [isAbsolute_pathOf hne hn, Bool.false_or]
  split
  · rename_i h
    have hroot : root = "" := by simpa using h
    subst hroot
    rw [components_eq, lead_pathOf hne hn, hsplit, hown]
    rfl
  · rename_i hroot
    have hroot : root.toList ≠ [] := by simpa using hroot
    split
    · rename_i hlast
      obtain ⟨before, hbefore⟩ := List.getLast?_eq_some_iff.1 hlast
      rw [components_eq, components_eq, String.toList_append, hbefore, List.append_assoc,
        List.singleton_append, lead_slash, splitSlash_append, splitSlash_append, hsplit]
      simp [List.filterMap_append, hown, splitSlash, componentOf?]
    · rw [components_eq, components_eq, String.toList_append, String.toList_append,
        List.append_assoc]
      change lead (root.toList ++ '/' :: (Entry.pathOf names).toList) ++
        (splitSlash (root.toList ++ '/' :: (Entry.pathOf names).toList)).filterMap _ = _
      rw [lead_slash, lead_append_slash hroot, splitSlash_append, hsplit, List.filterMap_append,
        hown, List.append_assoc]

theorem dropBase?_append (base cs : List Component) : dropBase? base (base ++ cs) = some cs := by
  induction base with
  | nil => cases cs <;> rfl
  | cons b rest ih => rw [List.cons_append, dropBase?, if_pos rfl, ih]

theorem segmentsBelow_under (root : String) {names : List String} (hne : names ≠ [])
    (hn : ∀ n ∈ names, IsName n) :
    segmentsBelow root (under root (Entry.pathOf names)) = names := by
  rw [segmentsBelow, components_under root hne hn, dropBase?_append, Option.getD_some,
    List.map_map]
  exact List.map_id names

/-! ## The last component and the directory -/

theorem fileName?_under (root : String) {before : List String} {name : String}
    (hn : ∀ n ∈ before ++ [name], IsName n) :
    fileName? (under root (Entry.pathOf (before ++ [name]))) = some name := by
  have hlast : (components (under root (Entry.pathOf (before ++ [name])))).getLast? =
      some (.normal name) := by
    rw [components_under root (by simp) hn]
    simp
  rw [fileName?, hlast]

theorem fileName?_under_name (root : String) {name : String} (hn : IsName name) :
    fileName? (under root name) = some name := by
  have hnames : ∀ n ∈ [] ++ [name], IsName n := by simpa using hn
  have hunder := fileName?_under root hnames
  rwa [List.nil_append, Entry.pathOf, String.intercalate_singleton] at hunder

theorem fileName?_of_isName {name : String} (hn : IsName name) : fileName? name = some name := by
  simpa [under] using fileName?_under_name "" hn

/-- Nothing is dropped behind a proper name. -/
theorem dropTail_of_isName {name : String} (hn : IsName name) (rest : List Char) :
    dropTail (name.toList.reverse ++ rest) = name.toList.reverse ++ rest := by
  have hslash : '/' ∉ name.toList.reverse := by simpa using hn.noSlash
  have hcurrent : name.toList.reverse ≠ ['.'] := by
    intro h
    exact hn.notCurrent (by simpa using congrArg List.reverse h)
  cases hr : name.toList.reverse with
  | nil => exact absurd (by simpa using hr) hn.nonempty
  | cons c more =>
    rw [hr] at hslash hcurrent
    simp only [List.mem_cons, not_or] at hslash
    unfold dropTail
    split
    · rename_i h; simp at h
    · rename_i h
      simp only [List.cons_append, List.cons.injEq] at h
      exact absurd h.1.symm hslash.1
    · rename_i h
      simp only [List.cons_append, List.cons.injEq] at h
      cases more with
      | nil => exact absurd (by rw [h.1]) hcurrent
      | cons d more =>
        simp only [List.cons_append, List.cons.injEq] at h
        exact absurd (by simp [h.2.1]) hslash.2
    · rfl

theorem parent?_of_isName {p : String} {before : List Char} {directory name : String}
    (hp : p.toList = before ++ directory.toList ++ '/' :: name.toList)
    (hd : IsName directory) (hn : IsName name) (hname : fileName? p = some name) :
    parent? p = some (String.ofList (before ++ directory.toList)) := by
  have hlast : (components p).getLast? = some (.normal name) := by
    unfold fileName? at hname
    split at hname
    · rename_i heq; rw [heq, Option.some.inj hname]
    · cases hname
  have hreverse : p.toList.reverse =
      name.toList.reverse ++ '/' :: (directory.toList.reverse ++ before.reverse) := by
    rw [hp]; simp
  have hslash : ∀ c ∈ name.toList.reverse, (c != '/') = true := by
    intro c hc
    rw [bne_iff_ne]
    rintro rfl
    exact hn.noSlash (by simpa using hc)
  have hdropped : (name.toList.reverse ++
      '/' :: (directory.toList.reverse ++ before.reverse)).dropWhile (· != '/') =
        '/' :: (directory.toList.reverse ++ before.reverse) := by
    rw [List.dropWhile_append_of_pos hslash]
    simp
  have hne : (directory.toList.reverse ++ before.reverse).isEmpty = false := by
    simp [hd.nonempty]
  unfold parent?
  rw [hlast]
  dsimp only
  rw [hreverse, dropTail_of_isName hn, hdropped, dropTail, hne, if_neg Bool.false_ne_true,
    dropTail_of_isName hd]
  simp

theorem toList_pathOf_concat {names : List String} (hne : names ≠ []) (name : String) :
    (Entry.pathOf (names ++ [name])).toList =
      (Entry.pathOf names).toList ++ '/' :: name.toList := by
  rw [Entry.pathOf, String.intercalate_append_of_ne_nil hne (by simp),
    String.intercalate_singleton, String.toList_append, String.toList_append, List.append_assoc]
  rfl

/-- Every relative path is put behind the same text. -/
theorem exists_toList_under (root : String) :
    ∃ base, ∀ p : String, isAbsolute p.toList = false →
      (under root p).toList = base ++ p.toList := by
  by_cases hroot : root.isEmpty = true
  · refine ⟨[], fun p hp => ?_⟩
    rw [under, hp, hroot]
    rfl
  · by_cases hlast : root.toList.getLast? = some '/'
    · refine ⟨root.toList, fun p hp => ?_⟩
      rw [under, hp, Bool.false_or, if_neg hroot, if_pos hlast, String.toList_append]
    · refine ⟨root.toList ++ ['/'], fun p hp => ?_⟩
      rw [under, hp, Bool.false_or, if_neg hroot, if_neg hlast, String.toList_append,
        String.toList_append]
      rfl

/-- The path of a file in a directory lies in a path that ends with the directory. -/
theorem parent?_under (root : String) {before : List String} {directory name : String}
    (hn : ∀ n ∈ before ++ [directory, name], IsName n) :
    parent? (under root (Entry.pathOf (before ++ [directory, name]))) =
      some (under root (Entry.pathOf (before ++ [directory]))) := by
  have hsplit : before ++ [directory, name] = (before ++ [directory]) ++ [name] := by simp
  rw [hsplit] at hn ⊢
  have hdirectory : ∀ n ∈ before ++ [directory], IsName n :=
    fun n h => hn n (List.mem_append_left _ h)
  obtain ⟨base, hbase⟩ := exists_toList_under root
  have hin := hbase _ (isAbsolute_pathOf (by simp) hdirectory)
  obtain ⟨front, hfront⟩ : ∃ front, (Entry.pathOf (before ++ [directory])).toList =
      front ++ directory.toList := by
    by_cases hb : before = []
    · exact ⟨[], by rw [hb]; simp [Entry.pathOf]⟩
    · exact ⟨(Entry.pathOf before).toList ++ ['/'], by
        rw [toList_pathOf_concat hb, List.append_assoc]; rfl⟩
  rw [hfront, ← List.append_assoc] at hin
  have hp := hbase _ (isAbsolute_pathOf (by simp) hn)
  rw [toList_pathOf_concat (by simp), hfront, ← List.append_assoc, ← List.append_assoc] at hp
  rw [parent?_of_isName hp (hdirectory _ (by simp)) (hn _ (by simp)) (fileName?_under root hn),
    ← hin, String.ofList_toList]

end CommandFiles.Path
