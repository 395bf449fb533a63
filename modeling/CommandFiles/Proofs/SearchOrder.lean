import Mathlib.Data.List.Nodup
import Mathlib.Data.Option.Basic
import CommandFiles.Discovery

/-! # Which searches do not depend on the order of directories

The names in a directory differ, but their places in a search may not: case does not count there.
Entries with one place are taken in the order of the directory. So what a search finds does not
depend on that order just if there is at most one entry with command files at each place. -/
namespace CommandFiles

/-! ## Sorting -/

namespace Text

variable {α : Type} {name : α → String}

/-- Sorting permuted items comes to the same, as far as their names differ. -/
theorem filter_sortOn_of_perm {items more : List α} {keep : α → Bool} (h : items.Perm more)
    (hnodup : ((items.filter keep).map name).Nodup) :
    (sortOn name more).filter keep = (sortOn name items).filter keep := by
  have hitems : ((sortOn name items).filter keep).Perm (items.filter keep) :=
    (perm_sortOn name items).filter keep
  have hmore : ((sortOn name more).filter keep).Perm (items.filter keep) :=
    ((perm_sortOn name more).trans h.symm).filter keep
  refine List.Perm.eq_of_pairwise ?_ ((pairwise_sortOn name more).filter keep)
    ((pairwise_sortOn name items).filter keep) (hmore.trans hitems.symm)
  intro a b ha hb hab hba
  exact List.inj_on_of_nodup_map hnodup (hmore.subset ha) (hitems.subset hb)
    (String.le_antisymm hab hba)

/-- Where an item goes depends on its name only, and a second item of that name goes before it. -/
theorem exists_insertOn_pair (items : List α) (n : String) :
    ∃ before after, ∀ a, name a = n → insertOn name a items = before ++ a :: after ∧
      ∀ b, name b = n → insertOn name b (before ++ a :: after) = before ++ b :: a :: after := by
  induction items with
  | nil =>
    refine ⟨[], [], fun a ha => ⟨rfl, fun b hb => if_neg ?_⟩⟩
    rw [ha, hb]
    exact String.lt_irrefl n
  | cons x rest ih =>
    by_cases h : name x < n
    · obtain ⟨before, after, ih⟩ := ih
      refine ⟨x :: before, after, fun a ha => ?_⟩
      obtain ⟨hfirst, hsecond⟩ := ih a ha
      exact ⟨(if_pos (ha ▸ h)).trans (congrArg (x :: ·) hfirst),
        fun b hb => (if_pos (hb ▸ h)).trans (congrArg (x :: ·) (hsecond b hb))⟩
    · refine ⟨[], x :: rest, fun a ha => ⟨if_neg (ha ▸ h), fun b hb => if_neg ?_⟩⟩
      rw [ha, hb]
      exact String.lt_irrefl n

/-- Two items with one name keep their order. -/
theorem exists_sortOn_pair {a b : α} (h : name a = name b) (rest : List α) :
    ∃ before after, sortOn name (a :: b :: rest) = before ++ a :: b :: after ∧
      sortOn name (b :: a :: rest) = before ++ b :: a :: after := by
  obtain ⟨before, after, hpair⟩ := exists_insertOn_pair (sortOn name rest) (name b)
  have hsort : ∀ c d : α, name c = name b → name d = name b →
      sortOn name (c :: d :: rest) = before ++ c :: d :: after := by
    intro c d hc hd
    change insertOn name c (insertOn name d (sortOn name rest)) = _
    rw [(hpair d hd).1, (hpair d hd).2 c hc]
  exact ⟨before, after, hsort a b h rfl, hsort b a rfl h⟩

variable {β : Type}

theorem exists_insertOn (p : String × β) (before after : List (String × β)) (n : String) :
    ∃ before' after', ∀ b : β, insertOn Prod.fst p (before ++ (n, b) :: after) =
      before' ++ (n, b) :: after' := by
  induction before with
  | nil =>
    by_cases h : n < p.1
    · exact ⟨[], insertOn Prod.fst p after, fun b => if_pos h⟩
    · exact ⟨[p], after, fun b => if_neg h⟩
  | cons x rest ih =>
    by_cases h : x.1 < p.1
    · obtain ⟨before', after', ih⟩ := ih
      exact ⟨x :: before', after', fun b => (if_pos h).trans (congrArg (x :: ·) (ih b))⟩
    · exact ⟨p :: x :: rest, after, fun b => if_neg h⟩

/-- The place of an item in the order depends on its name only. -/
theorem exists_sortOn_append (before after : List (String × β)) (n : String) :
    ∃ before' after', ∀ b : β, sortOn Prod.fst (before ++ (n, b) :: after) =
      before' ++ (n, b) :: after' := by
  induction before with
  | nil =>
    obtain ⟨before', after', h⟩ := exists_insertOn_pair (sortOn Prod.fst after) n
    exact ⟨before', after', fun b => (h (n, b) rfl).1⟩
  | cons p rest ih =>
    obtain ⟨before, after, ih⟩ := ih
    obtain ⟨before', after', h⟩ := exists_insertOn p before after n
    refine ⟨before', after', fun b => ?_⟩
    rw [← h, ← ih]
    rfl

end Text

namespace Entry

/-! ## Directories in another order -/

mutual

/-- Whether an entry holds the same as another one, up to the order of directories. -/
inductive Reordered : Entry → Entry → Prop where
  | file (content : Content) : Reordered (.file content) (.file content)
  | directory {entries within entries'} : ReorderedIn entries within → within.Perm entries' →
      Reordered (.directory entries) (.directory entries')

/-- The same of the entries of a directory one by one. -/
inductive ReorderedIn : List (String × Entry) → List (String × Entry) → Prop where
  | nil : ReorderedIn [] []
  | cons {name e e' rest rest'} : Reordered e e' → ReorderedIn rest rest' →
      ReorderedIn ((name, e) :: rest) ((name, e') :: rest')

end

mutual

/-- Whether the names in every directory of an entry differ. -/
def NamesDiffer : Entry → Prop
  | file _ => True
  | directory entries => (entries.map Prod.fst).Nodup ∧ namesDifferIn entries

/-- The same of several entries. -/
def namesDifferIn : List (String × Entry) → Prop
  | [] => True
  | (_, e) :: rest => e.NamesDiffer ∧ namesDifferIn rest

end

mutual

theorem Reordered.refl : ∀ e : Entry, Reordered e e
  | .file content => .file content
  | .directory entries => .directory (ReorderedIn.refl entries) (.refl entries)

theorem ReorderedIn.refl : ∀ entries : List (String × Entry), ReorderedIn entries entries
  | [] => .nil
  | (_, e) :: rest => .cons (Reordered.refl e) (ReorderedIn.refl rest)

end

theorem ReorderedIn.map_fst {entries within : List (String × Entry)}
    (h : ReorderedIn entries within) : within.map Prod.fst = entries.map Prod.fst := by
  induction entries generalizing within with
  | nil => cases h; rfl
  | cons m rest ih =>
    cases h with
    | cons he hrest => rw [List.map_cons, List.map_cons, ih hrest]

theorem ReorderedIn.append {before after : List (String × Entry)} {name : String} {e e' : Entry}
    (h : Reordered e e') :
    ReorderedIn (before ++ (name, e) :: after) (before ++ (name, e') :: after) := by
  induction before with
  | nil => exact .cons h (.refl after)
  | cons m rest ih => exact .cons (.refl m.2) ih

theorem ReorderedIn.lookup {entries within : List (String × Entry)}
    (h : ReorderedIn entries within) (name : String) :
    Option.Rel Reordered (entries.lookup name) (within.lookup name) := by
  induction entries generalizing within with
  | nil => cases h; exact .none
  | cons m rest ih =>
    cases h with
    | cons he hrest =>
      rw [Record.lookup_entry, Record.lookup_entry]
      split
      · exact .some he
      · exact ih hrest

theorem ReorderedIn.lookup_of_perm {entries within entries' : List (String × Entry)}
    (h : ReorderedIn entries within) (hperm : within.Perm entries')
    (hnodup : (entries.map Prod.fst).Nodup) (name : String) :
    Option.Rel Reordered (entries.lookup name) (entries'.lookup name) := by
  rw [← Record.lookup_of_perm hperm (h.map_fst ▸ hnodup)]
  exact h.lookup name

theorem rel_cases {α β : Type} {r : α → β → Prop} {a : Option α} {b : Option β}
    (h : Option.Rel r a b) :
    (a = none ∧ b = none) ∨ ∃ x y, a = some x ∧ b = some y ∧ r x y := by
  cases h with
  | none => exact .inl ⟨rfl, rfl⟩
  | some hr => exact .inr ⟨_, _, rfl, rfl, hr⟩

theorem namesDiffer_of_lookup {entries : List (String × Entry)} (h : namesDifferIn entries)
    {name : String} {e : Entry} (he : entries.lookup name = some e) : e.NamesDiffer := by
  induction entries with
  | nil => cases he
  | cons m rest ih =>
    rw [namesDifferIn] at h
    rw [Record.lookup_entry] at he
    split at he
    · cases he
      exact h.1
    · exact ih h.2 he

/-- The same names lead to the same, up to the order of directories. -/
theorem Reordered.at? {e e' : Entry} (h : Reordered e e') (hnames : e.NamesDiffer)
    (names : List String) : Option.Rel Reordered (e.at? names) (e'.at? names) := by
  induction names generalizing e e' with
  | nil => exact .some h
  | cons name rest ih =>
    cases h with
    | file content => exact .none
    | @directory entries within entries' hin hperm =>
      rw [NamesDiffer] at hnames
      rw [Entry.at?, Entry.at?]
      rcases rel_cases (hin.lookup_of_perm hperm hnames.1 name) with ⟨hold, hnew⟩ | ⟨e, e', hold, hnew, he⟩
      · rw [hold, hnew]
        exact .none
      · rw [hold, hnew]
        exact ih he (namesDiffer_of_lookup hnames.2 hold)

theorem namesDiffer_of_at? {e found : Entry} (h : e.NamesDiffer) {names : List String}
    (hat : e.at? names = some found) : found.NamesDiffer := by
  induction names generalizing e with
  | nil =>
    cases hat
    exact h
  | cons name rest ih =>
    cases e with
    | file content => cases hat
    | directory entries =>
      rw [NamesDiffer] at h
      rw [Entry.at?] at hat
      cases hlookup : entries.lookup name with
      | none => rw [hlookup] at hat; cases hat
      | some below =>
        rw [hlookup] at hat
        exact ih (namesDiffer_of_lookup h.2 hlookup) hat

/-! ## What a search finds -/

section Search

variable {f : FileFilter} {trail : List String} {entries : List (String × Entry)}

/-- What a search finds in an entry of a directory, behind the place of its name. -/
def placed (f : FileFilter) (trail : List String) (m : String × Entry) :
    String × List (List String) :=
  (searchName m.1, if isSkipped f trail m.1 then [] else commandFiles f (trail ++ [m.1]) m.2)

theorem commandFilesIn_eq : commandFilesIn f trail entries = entries.map (placed f trail) := by
  induction entries with
  | nil => rfl
  | cons m rest ih =>
    rw [commandFilesIn, ih]
    rfl

/-- Whether there is something behind a place. -/
def holdsFiles (p : String × List (List String)) : Bool := !p.2.isEmpty

theorem flatMap_filter_holdsFiles (found : List (String × List (List String))) :
    (found.filter holdsFiles).flatMap Prod.snd = found.flatMap Prod.snd := by
  induction found with
  | nil => rfl
  | cons p rest ih =>
    obtain ⟨place, files⟩ := p
    cases files with
    | nil => exact ih
    | cons file more => exact congrArg ((file :: more) ++ ·) ih

mutual

/-- Whether the places of entries with command files differ, in every directory that is searched. -/
def Settled (f : FileFilter) (trail : List String) : Entry → Prop
  | file _ => True
  | directory entries =>
    (((commandFilesIn f trail entries).filter holdsFiles).map Prod.fst).Nodup ∧
      settledIn f trail entries

/-- The same of the entries that are not passed over. -/
def settledIn (f : FileFilter) (trail : List String) : List (String × Entry) → Prop
  | [] => True
  | (name, e) :: rest =>
    (isSkipped f trail name = false → e.Settled f (trail ++ [name])) ∧ settledIn f trail rest

end

mutual

theorem Reordered.commandFiles_eq {trail : List String} : ∀ {e e' : Entry}, Reordered e e' →
    e.Settled f trail → commandFiles f trail e' = commandFiles f trail e
  | _, _, .file _, _ => rfl
  | _, _, .directory hin hperm, h => by
    rw [Settled] at h
    have hfound := (hperm.map (placed f trail))
    rw [← commandFilesIn_eq, ← commandFilesIn_eq, hin.commandFilesIn_eq h.2] at hfound
    rw [commandFiles, commandFiles, ← flatMap_filter_holdsFiles,
      Text.filter_sortOn_of_perm hfound h.1, flatMap_filter_holdsFiles]

theorem ReorderedIn.commandFilesIn_eq {trail : List String} : ∀ {entries within},
    ReorderedIn entries within → settledIn f trail entries →
    commandFilesIn f trail within = commandFilesIn f trail entries
  | _, _, .nil, _ => rfl
  | _, _, @ReorderedIn.cons name _ _ _ _ he hrest, h => by
    rw [settledIn] at h
    rw [commandFilesIn, commandFilesIn, hrest.commandFilesIn_eq h.2]
    cases hskipped : isSkipped f trail name with
    | true => rfl
    | false => rw [he.commandFiles_eq (h.1 hskipped)]

end

/-! ## Searches that do depend on the order -/

mutual

theorem prefix_of_mem_commandFiles {names : List String} : ∀ {trail : List String} {e : Entry},
    names ∈ commandFiles f trail e → trail <+: names
  | trail, .file _, h => by
    rw [commandFiles] at h
    split at h
    · exact List.mem_singleton.mp h ▸ List.prefix_refl _
    · cases h
  | trail, .directory entries, h => by
    rw [commandFiles] at h
    obtain ⟨p, hp, hnames⟩ := List.mem_flatMap.mp h
    exact prefix_of_mem_commandFilesIn (Text.mem_sortOn.mp hp) hnames

theorem prefix_of_mem_commandFilesIn {names : List String} {p : String × List (List String)} :
    ∀ {trail : List String} {entries : List (String × Entry)}, p ∈ commandFilesIn f trail entries →
      names ∈ p.2 → trail <+: names
  | trail, [], h, _ => by cases h
  | trail, (name, e) :: rest, h, hnames => by
    rw [commandFilesIn] at h
    rcases List.mem_cons.mp h with rfl | h
    · dsimp only at hnames
      split at hnames
      · cases hnames
      · exact (List.prefix_append trail [name]).trans (prefix_of_mem_commandFiles hnames)
    · exact prefix_of_mem_commandFilesIn h hnames

end

theorem prefix_of_mem_placed {names : List String} {m : String × Entry}
    (h : names ∈ (placed f trail m).2) : trail ++ [m.1] <+: names := by
  rw [placed] at h
  dsimp only at h
  split at h
  · cases h
  · exact prefix_of_mem_commandFiles h

/-- Of two entries with command files at one place, the order of the directory decides which one
comes first. -/
theorem commandFiles_ne_of_swap {a b : String × Entry} (hne : a.1 ≠ b.1)
    (hplace : searchName a.1 = searchName b.1) (ha : holdsFiles (placed f trail a) = true)
    (hb : holdsFiles (placed f trail b) = true) (rest : List (String × Entry)) :
    commandFiles f trail (.directory (a :: b :: rest)) ≠
      commandFiles f trail (.directory (b :: a :: rest)) := by
  obtain ⟨before, after, hab, hba⟩ := @Text.exists_sortOn_pair _ Prod.fst (placed f trail a)
    (placed f trail b) hplace (rest.map (placed f trail))
  intro heq
  simp only [commandFiles, commandFilesIn_eq, List.map_cons, hab, hba, List.flatMap_append,
    List.flatMap_cons] at heq
  have hfiles := List.append_cancel_left heq
  obtain ⟨x, xs, hx⟩ := List.exists_cons_of_ne_nil (fun h => by simp [holdsFiles, h] at ha :
    (placed f trail a).2 ≠ [])
  obtain ⟨y, ys, hy⟩ := List.exists_cons_of_ne_nil (fun h => by simp [holdsFiles, h] at hb :
    (placed f trail b).2 ≠ [])
  rw [hx, hy] at hfiles
  obtain rfl : x = y := (List.cons.inj hfiles).1
  have hxa := prefix_of_mem_placed (hx ▸ List.mem_cons_self)
  have hxb := prefix_of_mem_placed (hy ▸ List.mem_cons_self)
  have hnames := (List.prefix_of_prefix_length_le hxa hxb (by simp)).eq_of_length (by simp)
  exact hne (List.singleton_inj.mp (List.append_cancel_left hnames))

theorem exists_pair_of_not_nodup {α : Type} {name : α → String} {keep : α → Bool} {items : List α}
    (h : ¬ ((items.filter keep).map name).Nodup) :
    ∃ a b rest, items.Perm (a :: b :: rest) ∧ name a = name b ∧ keep a = true ∧ keep b = true := by
  induction items with
  | nil => exact absurd List.nodup_nil h
  | cons c rest ih =>
    have hrest : ¬ ((rest.filter keep).map name).Nodup → ∃ a b more, (c :: rest).Perm
        (a :: b :: more) ∧ name a = name b ∧ keep a = true ∧ keep b = true := by
      intro h
      obtain ⟨a, b, more, hperm, hab⟩ := ih h
      have hbehind : (c :: a :: b :: more).Perm (a :: b :: c :: more) :=
        (List.Perm.swap a c (b :: more)).trans ((List.Perm.swap b c more).cons a)
      exact ⟨a, b, c :: more, (hperm.cons c).trans hbehind, hab⟩
    cases hc : keep c with
    | false =>
      rw [List.filter_cons_of_neg (by simp [hc])] at h
      exact hrest h
    | true =>
      rw [List.filter_cons_of_pos hc, List.map_cons, List.nodup_cons, not_and_or, not_not] at h
      rcases h with hmem | h
      · obtain ⟨b, hb, hname⟩ := List.mem_map.mp hmem
        obtain ⟨hb, hkeep⟩ := List.mem_filter.mp hb
        obtain ⟨before, after, rfl⟩ := List.append_of_mem hb
        exact ⟨c, b, before ++ after, List.perm_middle.cons c, hname.symm, hc, hkeep⟩
      · exact hrest h

mutual

/-- Where two entries with command files have one place, some order of the directories changes what
is found. -/
theorem exists_changed : ∀ {trail : List String} {e : Entry}, e.NamesDiffer →
    ¬ e.Settled f trail → ∃ e', Reordered e e' ∧ commandFiles f trail e' ≠ commandFiles f trail e
  | trail, .file _, _, h => absurd trivial h
  | trail, .directory entries, hnames, h => by
    rw [NamesDiffer] at hnames
    rw [Settled, not_and_or] at h
    rcases h with hplaces | hbelow
    · rw [commandFilesIn_eq, List.filter_map, List.map_map] at hplaces
      obtain ⟨a, b, rest, hperm, hplace, ha, hb⟩ := exists_pair_of_not_nodup hplaces
      have hne : a.1 ≠ b.1 := by
        have hnodup := (hperm.map Prod.fst).nodup hnames.1
        exact fun heq => (List.nodup_cons.mp hnodup).1 (heq ▸ List.mem_cons_self)
      by_contra hall
      push Not at hall
      have hab := hall _ (.directory (.refl entries) hperm)
      have hba := hall _ (.directory (.refl entries) (hperm.trans (.swap b a rest)))
      exact commandFiles_ne_of_swap hne hplace ha hb rest (hab.trans hba.symm)
    · obtain ⟨before, name, e, e', after, rfl, hskipped, he, hne⟩ :=
        exists_changedIn hnames.2 hbelow
      refine ⟨.directory (before ++ (name, e') :: after), .directory (.append he) (.refl _), ?_⟩
      intro heq
      obtain ⟨before', after', hsort⟩ := Text.exists_sortOn_append
        (before.map (placed f trail)) (after.map (placed f trail)) (searchName name)
      simp only [commandFiles, commandFilesIn_eq, List.map_append, List.map_cons, placed, hskipped,
        hsort, List.flatMap_append, List.flatMap_cons] at heq
      exact hne (List.append_cancel_right (List.append_cancel_left heq))

theorem exists_changedIn : ∀ {trail : List String} {entries : List (String × Entry)},
    namesDifferIn entries → ¬ settledIn f trail entries →
    ∃ before name e e' after, entries = before ++ (name, e) :: after ∧
      isSkipped f trail name = false ∧ Reordered e e' ∧
      commandFiles f (trail ++ [name]) e' ≠ commandFiles f (trail ++ [name]) e
  | trail, [], _, h => absurd trivial h
  | trail, (name, e) :: rest, hnames, h => by
    rw [namesDifferIn] at hnames
    rw [settledIn, not_and_or] at h
    rcases h with h | h
    · obtain ⟨hskipped, h⟩ := Classical.not_imp.mp h
      obtain ⟨e', he, hne⟩ := exists_changed hnames.1 h
      exact ⟨[], name, e, e', rest, rfl, hskipped, he, hne⟩
    · obtain ⟨before, other, e₁, e', after, rfl, hfound⟩ := exists_changedIn hnames.2 h
      exact ⟨(name, e) :: before, other, e₁, e', after, rfl, hfound⟩

end

end Search

end Entry

/-! ## Searches of a file system -/

namespace FileSystem

variable {fs fs' : FileSystem}

/-- Whether a file system holds the same as another one, up to the order of directories. -/
structure Reordered (fs fs' : FileSystem) : Prop where
  root : fs.root.Reordered fs'.root
  cwd : fs'.cwd = fs.cwd

theorem Reordered.follow_eq (h : Reordered fs fs') (hnames : fs.root.NamesDiffer) :
    fs'.follow = fs.follow := by
  funext trail segment
  unfold follow
  rcases Entry.rel_cases (h.root.at? hnames trail.reverse) with
    ⟨hold, hnew⟩ | ⟨e, e', hold, hnew, he⟩
  · rw [hold, hnew]
  · rw [hold, hnew]
    have hdiffer := Entry.namesDiffer_of_at? hnames hold
    cases he with
    | file content => rfl
    | @directory entries within entries' hin hperm =>
      rw [Entry.NamesDiffer] at hdiffer
      have hlookup : ∀ name, (entries'.lookup name).isSome = (entries.lookup name).isSome := by
        intro name
        rcases Entry.rel_cases (hin.lookup_of_perm hperm hdiffer.1 name) with
          ⟨hold, hnew⟩ | ⟨e, e', hold, hnew, -⟩
        · rw [hold, hnew]
        · rw [hold, hnew]; rfl
      simp only [hlookup]

theorem entry_of_resolve {path : String} {names : List String} (h : fs.resolve path = .ok names) :
    fs.entry path = match fs.root.at? names with
      | some e => .ok e
      | none => .error .notFound := by
  rw [FileSystem.entry, h]
  change (match fs.root.at? names with | some e => _ | none => _) = _
  cases fs.root.at? names <;> rfl

theorem entry_of_resolve_error {path : String} {fault : OsError}
    (h : fs.resolve path = .error fault) : fs.entry path = .error fault := by
  rw [FileSystem.entry, h]
  rfl

theorem namesDiffer_of_entry (hnames : fs.root.NamesDiffer) {path : String} {e : Entry}
    (h : fs.entry path = .ok e) : e.NamesDiffer := by
  cases hresolve : fs.resolve path with
  | error fault => rw [entry_of_resolve_error hresolve] at h; cases h
  | ok names =>
    rw [entry_of_resolve hresolve] at h
    split at h
    · next hat =>
      cases h
      exact Entry.namesDiffer_of_at? hnames hat
    · cases h

theorem Reordered.resolve_eq (h : Reordered fs fs') (hnames : fs.root.NamesDiffer)
    (path : String) : fs'.resolve path = fs.resolve path := by
  rw [resolve, resolve, h.follow_eq hnames, start, start, h.cwd]

/-- A path leads to the same, up to the order of directories, or the same is wrong with it. -/
theorem Reordered.entry (h : Reordered fs fs') (hnames : fs.root.NamesDiffer) (path : String) :
    (∃ e, fs.entry path = .error e ∧ fs'.entry path = .error e) ∨
      ∃ e e', fs.entry path = .ok e ∧ fs'.entry path = .ok e' ∧ e.Reordered e' := by
  have hsame := h.resolve_eq hnames path
  cases hresolve : fs.resolve path with
  | error fault =>
    rw [hresolve] at hsame
    exact .inl ⟨fault, entry_of_resolve_error hresolve, entry_of_resolve_error hsame⟩
  | ok names =>
    rw [hresolve] at hsame
    rw [entry_of_resolve hresolve, entry_of_resolve hsame]
    rcases Entry.rel_cases (h.root.at? hnames names) with ⟨hold, hnew⟩ | ⟨e, e', hold, hnew, he⟩
    · rw [hold, hnew]
      exact .inl ⟨_, rfl, rfl⟩
    · rw [hold, hnew]
      exact .inr ⟨e, e', rfl, rfl, he⟩

theorem Reordered.read_eq (h : Reordered fs fs') (hnames : fs.root.NamesDiffer) (path : String) :
    fs'.read path = fs.read path := by
  rw [read, read]
  rcases h.entry hnames path with ⟨e, hold, hnew⟩ | ⟨e, e', hold, hnew, he⟩
  · rw [hold, hnew]
  · rw [hold, hnew]
    cases he with
    | file content => rfl
    | directory hin hperm => rfl

end FileSystem

namespace Discovery

variable {fs fs' : FileSystem}

theorem search_eq_of_settled (h : fs.Reordered fs') (hnames : fs.root.NamesDiffer)
    {filter : FileFilter} {directory : String}
    (hsettled : ∀ e, fs.entry directory = .ok e → e.Settled filter []) :
    search fs' filter directory = search fs filter directory := by
  rw [search, search]
  rcases h.entry hnames directory with ⟨e, hold, hnew⟩ | ⟨e, e', hold, hnew, he⟩
  · rw [hold, hnew]
  · rw [hold, hnew]
    have hfiles := he.commandFiles_eq (hsettled e hold)
    cases he with
    | file content => rfl
    | directory hin hperm =>
      exact congrArg (fun files : List (List String) => Except.ok
        (files.map fun names => Path.under directory (Entry.pathOf names))) hfiles

/-- **What a search finds does not depend on the order of directories just if there is at most one
entry with command files at each place.** Otherwise some order changes what is found. -/
theorem search_of_reordered (hnames : fs.root.NamesDiffer) (filter : FileFilter)
    (directory : String) :
    ((∀ e, fs.entry directory = .ok e → e.Settled filter []) →
      ∀ fs', fs.Reordered fs' → search fs' filter directory = search fs filter directory) ∧
    ∀ e, fs.entry directory = .ok e → ¬ e.Settled filter [] →
      ∃ e', e.Reordered e' ∧ e'.commandFiles filter [] ≠ e.commandFiles filter [] :=
  ⟨fun hsettled _ h => search_eq_of_settled h hnames hsettled, fun _ hentry hsettled =>
    Entry.exists_changed (FileSystem.namesDiffer_of_entry hnames hentry) hsettled⟩

/-! A directory with two files, enumerated in either order. -/

def jsFilter : FileFilter := ⟨["js"], []⟩

def twoFiles (first second : String) : Entry :=
  .directory [(first, .file (.text "")), (second, .file (.text ""))]

def withFiles (first second : String) : FileSystem :=
  ⟨.directory [("w", twoFiles first second)], []⟩

theorem reordered_withFiles (first second : String) :
    (withFiles first second).Reordered (withFiles second first) :=
  have hfiles : (twoFiles first second).Reordered (twoFiles second first) :=
    .directory (.refl _) (.swap _ _ _)
  ⟨.directory (.cons hfiles .nil) (.refl _), rfl⟩

theorem search_of_reordered_two_files :
    (withFiles "b.js" "A.js").root.NamesDiffer ∧
    (∀ e, (withFiles "b.js" "A.js").entry "/w" = .ok e → e.Settled jsFilter []) ∧
    (withFiles "b.js" "A.js").Reordered (withFiles "A.js" "b.js") ∧
    search (withFiles "A.js" "b.js") jsFilter "/w" =
      search (withFiles "b.js" "A.js") jsFilter "/w" := by
  have hnames : (withFiles "b.js" "A.js").root.NamesDiffer :=
    ⟨by decide, ⟨by decide, trivial, trivial, trivial⟩, trivial⟩
  have hsettled : ∀ e, (withFiles "b.js" "A.js").entry "/w" = .ok e → e.Settled jsFilter [] := by
    intro e he
    have hentry : (withFiles "b.js" "A.js").entry "/w" = .ok (twoFiles "b.js" "A.js") := rfl
    obtain rfl := Except.ok.inj (hentry.symm.trans he)
    exact ⟨by decide +kernel, fun _ => trivial, fun _ => trivial, trivial⟩
  have h := search_of_reordered hnames jsFilter "/w"
  exact ⟨hnames, hsettled, reordered_withFiles _ _, h.1 hsettled _ (reordered_withFiles _ _)⟩

/-- Two names that differ in case only are taken in the order of the directory. -/
theorem search_differs_by_case :
    ¬ ∀ (fs fs' : FileSystem) (filter : FileFilter) (directory : String), fs.root.NamesDiffer →
      fs.Reordered fs' → search fs' filter directory = search fs filter directory := by
  intro h
  have hnames : (withFiles "A.js" "a.js").root.NamesDiffer :=
    ⟨by decide, ⟨by decide, trivial, trivial, trivial⟩, trivial⟩
  have heq := congrArg Except.toOption (h _ _ jsFilter "/w" hnames (reordered_withFiles _ _))
  revert heq
  decide +kernel

/-! ## Trees of discovered commands -/

theorem addFiles_eq_of_reordered (h : fs.Reordered fs') (hnames : fs.root.NamesDiffer) (c : Context)
    (files : List String) (tree : Command) : addFiles fs' c tree files = addFiles fs c tree files := by
  have houtline : outline fs' = outline fs := by
    funext looked path
    rw [outline, outline, h.read_eq hnames]
  have hadd : ∀ tree path, addFile fs' c tree path = addFile fs c tree path := by
    intro tree path
    rw [addFile, addFile, load, load, houtline]
  induction files generalizing tree with
  | nil => rfl
  | cons path rest ih => rw [addFiles_cons, addFiles_cons, hadd, funext ih]

/-- The discovered tree does not depend on the order of directories either. -/
theorem discover_eq_of_reordered (h : fs.Reordered fs') (hnames : fs.root.NamesDiffer) {c : Context}
    (hsettled : ∀ filter e, FileFilter.ofConfig c.config = .ok filter →
      fs.entry c.commandsRoot = .ok e → e.Settled filter []) :
    discover fs' c = discover fs c := by
  have hfiles : commandFiles fs' c = commandFiles fs c := by
    rw [commandFiles, commandFiles]
    cases hfilter : FileFilter.ofConfig c.config with
    | error fault => rfl
    | ok filter =>
      have hsearch := search_eq_of_settled h hnames fun e he => hsettled filter e hfilter he
      exact congrArg (Except.mapError _) hsearch
  rw [discover, discover, hfiles, funext fun files => addFiles_eq_of_reordered h hnames c files _]

end Discovery

end CommandFiles
