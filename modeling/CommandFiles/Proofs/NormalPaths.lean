import CommandFiles.Proofs.PosixPaths

/-! # Paths in normal form

A path in normal form leads above its start some times, if it is relative, and then along names.
The paths in normal form are just those that normalizing leaves alone. What follows a path may be
read from its normal form, so paths can be joined and resolved in steps. -/
namespace CommandFiles.Path

/-! ## Segments -/

/-- The segments that a path is written with, behind its root. A point that stands for an empty path
is none. -/
def segments (p : List Char) : List (List Char) :=
  if p = ['/'] ∨ p = ['.'] then []
  else if isAbsolute p then splitSlash p.tail
  else splitSlash p

/-- A path written with segments. -/
def written (absolute : Bool) (segments : List (List Char)) : List Char :=
  if absolute then '/' :: joinSlash segments
  else if segments = [] then ['.']
  else joinSlash segments

/-- Whether segments lead above some times and then along names; from the root nothing leads
above. -/
def IsDirect (absolute : Bool) (segments : List (List Char)) : Prop :=
  ∃ (n : Nat) (names : List String),
    segments = List.replicate n ['.', '.'] ++ names.map String.toList ∧
      (∀ name ∈ names, IsName name) ∧ (absolute = true → n = 0)

/-- Whether a path is in normal form. -/
def IsNormal (p : List Char) : Prop := IsDirect (isAbsolute p) (segments p)

theorem joinSlash_ne_nil {segments : List (List Char)} (hne : segments ≠ [])
    (h : ∀ s ∈ segments, s ≠ []) : joinSlash segments ≠ [] := by
  obtain ⟨s, rest, rfl⟩ := List.exists_cons_of_ne_nil hne
  by_cases hrest : rest = []
  · simpa [hrest, joinSlash] using h s List.mem_cons_self
  · simp [joinSlash_cons s hrest]

theorem joinSlash_splitSlash (cs : List Char) : joinSlash (splitSlash cs) = cs := by
  induction cs with
  | nil => rfl
  | cons c rest ih =>
    rw [splitSlash]
    split
    · next hc => rw [joinSlash_cons [] (splitSlash_ne_nil rest), ih, hc, List.nil_append]
    · cases hrest : splitSlash rest with
      | nil => exact absurd hrest (splitSlash_ne_nil rest)
      | cons s more =>
        rw [hrest] at ih
        by_cases hmore : more = []
        · subst hmore
          simpa [joinSlash] using ih
        · rw [joinSlash_cons s hmore] at ih
          simp [joinSlash_cons (c :: s) hmore, ih]

theorem splitSlash_joinSlash {segments : List (List Char)} (hne : segments ≠ [])
    (h : ∀ s ∈ segments, '/' ∉ s) : splitSlash (joinSlash segments) = segments := by
  induction segments with
  | nil => exact absurd rfl hne
  | cons s rest ih =>
    have hs := h s List.mem_cons_self
    by_cases hrest : rest = []
    · simp [hrest, joinSlash, splitSlash_of_noSlash hs]
    · rw [joinSlash_cons s hrest, splitSlash_append, splitSlash_of_noSlash hs,
        ih hrest fun t ht => h t (List.mem_cons_of_mem s ht), List.singleton_append]

/-! ## The stack of segments -/

section Stack

variable {absolute : Bool} {stack : List (List Char)} {segment : List Char}

theorem push_name {name : String} (h : IsName name) (absolute : Bool)
    (stack : List (List Char)) : push absolute stack name.toList = name.toList :: stack := by
  simp [push, h.nonempty, h.notCurrent, h.notParent]

theorem foldl_push_names {names : List String} (h : ∀ name ∈ names, IsName name)
    (absolute : Bool) (stack : List (List Char)) :
    (names.map String.toList).foldl (push absolute) stack =
      (names.map String.toList).reverse ++ stack := by
  induction names generalizing stack with
  | nil => rfl
  | cons name rest ih =>
    have hrest := ih (fun n hn => h n (List.mem_cons_of_mem name hn)) (name.toList :: stack)
    simpa [push_name (h name List.mem_cons_self)] using hrest

/-- Two points take a name away. -/
theorem push_parent_name {name : String} (h : IsName name) (absolute : Bool)
    (stack : List (List Char)) : push absolute (name.toList :: stack) ['.', '.'] = stack := by
  simp [push, h.notParent]

/-- Where there is no name left, two points lead above. -/
theorem push_parent_parents (n : Nat) : push false (List.replicate n ['.', '.']) ['.', '.'] =
    List.replicate (n + 1) ['.', '.'] := by
  cases n with
  | zero => rfl
  | succ n => simp [push, List.replicate_succ]

theorem foldl_push_parents (n : Nat) :
    (List.replicate n ['.', '.']).foldl (push false) [] = List.replicate n ['.', '.'] := by
  induction n with
  | zero => rfl
  | succ n ih =>
    rw [List.replicate_succ', List.foldl_append, ih, ← List.replicate_succ']
    exact push_parent_parents n

/-- Direct segments are left as they are. -/
theorem IsDirect.resolved_eq {segments : List (List Char)} (h : IsDirect absolute segments) :
    resolved absolute segments = segments := by
  obtain ⟨n, names, rfl, hnames, hroot⟩ := h
  have hparents : (List.replicate n ['.', '.']).foldl (push absolute) [] =
      List.replicate n ['.', '.'] := by
    cases absolute with
    | false => exact foldl_push_parents n
    | true => rw [hroot rfl]; rfl
  rw [resolved, List.foldl_append, hparents, foldl_push_names hnames, List.reverse_append,
    List.reverse_reverse, List.reverse_replicate]

/-- **The segments on the stack stay direct**, whatever is pushed on it. -/
theorem isDirect_push (h : IsDirect absolute stack.reverse) (hs : '/' ∉ segment) :
    IsDirect absolute (push absolute stack segment).reverse := by
  obtain ⟨n, names, hstack, hnames, hroot⟩ := h
  by_cases hnone : segment = [] ∨ segment = ['.']
  · have hpush : push absolute stack segment = stack := by
      rcases hnone with rfl | rfl <;> rfl
    rw [hpush]
    exact ⟨n, names, hstack, hnames, hroot⟩
  by_cases hparent : segment = ['.', '.']
  · subst hparent
    rcases names.eq_nil_or_concat with rfl | ⟨before, last, rfl⟩
    · have hparents : stack = List.replicate n ['.', '.'] := by
        simpa using congrArg List.reverse hstack
      rw [hparents]
      cases absolute with
      | false =>
        rw [push_parent_parents, List.reverse_replicate]
        exact ⟨n + 1, [], by simp, nofun, nofun⟩
      | true =>
        rw [hroot rfl]
        exact ⟨0, [], rfl, nofun, fun _ => rfl⟩
    · have hlast : stack = last.toList ::
          (List.replicate n ['.', '.'] ++ before.map String.toList).reverse := by
        simpa using congrArg List.reverse hstack
      rw [hlast, push_parent_name (hnames last (by simp)), List.reverse_reverse]
      exact ⟨n, before, rfl, fun name hmem => hnames name (by simp [hmem]), hroot⟩
  · have hname : IsName (String.ofList segment) := by
      refine ⟨?_, ?_, ?_, ?_⟩ <;> simp_all
    have hpush := push_name hname absolute stack
    rw [String.toList_ofList] at hpush
    refine ⟨n, names ++ [String.ofList segment], ?_, ?_, hroot⟩
    · simp [hpush, hstack]
    · intro name hmem
      rcases List.mem_append.mp hmem with hmem | hmem
      · exact hnames name hmem
      · rw [List.mem_singleton.mp hmem]
        exact hname

theorem isDirect_foldl_push {segments : List (List Char)} (hs : ∀ s ∈ segments, '/' ∉ s)
    (h : IsDirect absolute stack.reverse) :
    IsDirect absolute (segments.foldl (push absolute) stack).reverse := by
  induction segments generalizing stack with
  | nil => exact h
  | cons s rest ih =>
    exact ih (fun t ht => hs t (List.mem_cons_of_mem s ht))
      (isDirect_push h (hs s List.mem_cons_self))

theorem isDirect_resolved (absolute : Bool) (p : List Char) :
    IsDirect absolute (resolved absolute (splitSlash p)) := by
  have hempty : IsDirect absolute (List.reverse []) := ⟨0, [], rfl, nofun, fun _ => rfl⟩
  exact isDirect_foldl_push (fun _ => noSlash_of_mem_splitSlash) hempty

end Stack

/-! ## Paths as they are written -/

section Written

variable {absolute : Bool} {direct : List (List Char)}

theorem IsDirect.mem (h : IsDirect absolute direct) {s : List Char} (hs : s ∈ direct) :
    s ≠ [] ∧ s ≠ ['.'] ∧ '/' ∉ s := by
  obtain ⟨n, names, rfl, hnames, -⟩ := h
  rcases List.mem_append.mp hs with hs | hs
  · rw [List.eq_of_mem_replicate hs]
    decide
  · obtain ⟨name, hname, rfl⟩ := List.mem_map.mp hs
    have hn := hnames name hname
    exact ⟨hn.nonempty, hn.notCurrent, hn.noSlash⟩

/-- Splitting the text of a relative path gives the segments it was written with. -/
theorem IsDirect.splitSlash_eq (h : IsDirect absolute direct) (hne : direct ≠ []) :
    splitSlash (joinSlash direct) = direct :=
  splitSlash_joinSlash hne fun _ hs => (h.mem hs).2.2

/-- Segments are written as no text that has an empty segment or a point in it. -/
theorem IsDirect.joinSlash_ne (h : IsDirect absolute direct) (hne : direct ≠ [])
    {text s : List Char} (hs : s ∈ splitSlash text) (hbad : s = [] ∨ s = ['.']) :
    joinSlash direct ≠ text := by
  intro heq
  rw [← heq, h.splitSlash_eq hne] at hs
  exact hbad.elim (h.mem hs).1 (h.mem hs).2.1

theorem IsDirect.isAbsolute_joinSlash (h : IsDirect absolute direct) :
    isAbsolute (joinSlash direct) = false := by
  by_cases hne : direct = []
  · rw [hne]; rfl
  refine isAbsolute_of_splitSlash ?_
  rw [h.splitSlash_eq hne]
  intro hempty
  exact (h.mem hempty).1 rfl

theorem isAbsolute_written (h : IsDirect absolute direct) :
    isAbsolute (written absolute direct) = absolute := by
  cases absolute with
  | true => rfl
  | false =>
    unfold written
    split
    · contradiction
    split
    · rfl
    · exact h.isAbsolute_joinSlash

theorem segments_written (h : IsDirect absolute direct) :
    segments (written absolute direct) = direct := by
  have habsolute := isAbsolute_written h
  by_cases hne : direct = []
  · subst hne
    cases absolute <;> rfl
  have hempty : joinSlash direct ≠ [] := joinSlash_ne_nil hne fun s hs => (h.mem hs).1
  have hslash : joinSlash direct ≠ ['/'] :=
    h.joinSlash_ne hne (List.mem_cons_self : [] ∈ splitSlash ['/']) (.inl rfl)
  have hpoint : joinSlash direct ≠ ['.'] :=
    h.joinSlash_ne hne (List.mem_singleton_self ['.'] : ['.'] ∈ splitSlash ['.']) (.inr rfl)
  have hsplit := h.splitSlash_eq hne
  unfold segments
  rw [habsolute]
  cases absolute <;> simp [written, hne, hempty, hslash, hpoint, hsplit]

theorem written_segments (p : List Char) : written (isAbsolute p) (segments p) = p := by
  unfold segments
  split
  · next h =>
    rcases h with rfl | rfl <;> rfl
  cases p with
  | nil => rfl
  | cons c rest =>
    rw [isAbsolute_cons]
    by_cases hc : c = '/'
    · simp [written, hc, joinSlash_splitSlash]
    · simp [written, hc, joinSlash_splitSlash, splitSlash_ne_nil]

/-- Only the segments behind the root count. -/
theorem resolved_segments (absolute : Bool) (p : List Char) :
    resolved absolute (segments p) = resolved absolute (splitSlash p) := by
  unfold segments
  split
  · next h =>
    rcases h with rfl | rfl <;> rfl
  split
  · next h =>
    cases p with
    | nil => cases h
    | cons c rest =>
      rw [isAbsolute_cons, decide_eq_true_eq] at h
      rw [h]
      rfl
  · rfl

theorem normalizeChars_eq (p : List Char) :
    normalizeChars p = written (isAbsolute p) (resolved (isAbsolute p) (splitSlash p)) := by
  have hdirect := isDirect_resolved (isAbsolute p) p
  unfold normalizeChars written
  by_cases hne : resolved (isAbsolute p) (splitSlash p) = []
  · simp [hne, joinSlash]
  · simp [hne, joinSlash_ne_nil hne fun s hs => (hdirect.mem hs).1]

end Written

/-! ## Normal forms -/

theorem isAbsolute_normalizeChars (p : List Char) :
    isAbsolute (normalizeChars p) = isAbsolute p := by
  rw [normalizeChars_eq, isAbsolute_written (isDirect_resolved _ p)]

theorem segments_normalizeChars (p : List Char) :
    segments (normalizeChars p) = resolved (isAbsolute p) (splitSlash p) := by
  rw [normalizeChars_eq, segments_written (isDirect_resolved _ p)]

theorem isNormal_normalizeChars (p : List Char) : IsNormal (normalizeChars p) := by
  rw [IsNormal, isAbsolute_normalizeChars, segments_normalizeChars]
  exact isDirect_resolved _ p

theorem IsNormal.normalizeChars_eq_self {p : List Char} (h : IsNormal p) :
    normalizeChars p = p := by
  rw [normalizeChars_eq, ← resolved_segments, h.resolved_eq, written_segments]

/-- **Normalizing leaves just the paths in normal form alone.** -/
theorem normalizeChars_eq_self_iff {p : List Char} : normalizeChars p = p ↔ IsNormal p :=
  ⟨fun h => h ▸ isNormal_normalizeChars p, IsNormal.normalizeChars_eq_self⟩

theorem normalizeChars_ne_nil (p : List Char) : normalizeChars p ≠ [] := by
  intro hnil
  have h := isNormal_normalizeChars p
  rw [hnil] at h
  exact (h.mem List.mem_cons_self).1 rfl

/-! ## What follows a path -/

theorem resolved_normalizeChars (p : List Char) :
    resolved (isAbsolute p) (splitSlash (normalizeChars p)) =
      resolved (isAbsolute p) (splitSlash p) := by
  rw [← resolved_segments, segments_normalizeChars, (isDirect_resolved _ p).resolved_eq]

/-- What is resolved behind a path may be resolved behind its normal form. -/
theorem normalizeChars_slash {p : List Char} (hp : p ≠ []) (next : List Char) :
    normalizeChars (normalizeChars p ++ '/' :: next) = normalizeChars (p ++ '/' :: next) := by
  have hstack : (splitSlash (normalizeChars p)).foldl (push (isAbsolute p)) [] =
      (splitSlash p).foldl (push (isAbsolute p)) [] :=
    List.reverse_injective (resolved_normalizeChars p)
  have hresolved : resolved (isAbsolute p) (splitSlash (normalizeChars p ++ '/' :: next)) =
      resolved (isAbsolute p) (splitSlash (p ++ '/' :: next)) := by
    rw [resolved, resolved, splitSlash_append, splitSlash_append, List.foldl_append,
      List.foldl_append, hstack]
  rw [normalizeChars_eq, normalizeChars_eq (p ++ '/' :: next), isAbsolute_append hp,
    isAbsolute_append (normalizeChars_ne_nil p), isAbsolute_normalizeChars, hresolved]

theorem normalizeChars_step {p q : List Char} (hp : p ≠ []) (hq : q ≠ [])
    (h : normalizeChars p = normalizeChars q) (next : List Char) :
    normalizeChars (step p next) = normalizeChars (step q next) := by
  unfold step
  split
  · rfl
  split
  · exact h
  · rw [← normalizeChars_slash hp, h, normalizeChars_slash hq]

theorem step_ne_nil {p : List Char} (hp : p ≠ []) (next : List Char) : step p next ≠ [] :=
  foldl_step_ne_nil hp [next]

/-- Paths with one normal form lead to one normal form along the same paths. -/
theorem normalizeChars_foldl_step {p q : List Char} (hp : p ≠ []) (hq : q ≠ [])
    (h : normalizeChars p = normalizeChars q) (paths : List (List Char)) :
    normalizeChars (paths.foldl step p) = normalizeChars (paths.foldl step q) := by
  induction paths generalizing p q with
  | nil => exact h
  | cons next rest ih =>
    exact ih (step_ne_nil hp next) (step_ne_nil hq next) (normalizeChars_step hp hq h next)

/-! ## Joining and resolving in steps -/

theorem joinSlash_append {as bs : List (List Char)} (ha : as ≠ []) (hb : bs ≠ []) :
    joinSlash (as ++ bs) = joinSlash as ++ '/' :: joinSlash bs := by
  induction as with
  | nil => exact absurd rfl ha
  | cons s rest ih =>
    by_cases hrest : rest = []
    · subst hrest
      rw [List.singleton_append, joinSlash_cons s hb]
      simp [joinSlash]
    · rw [List.cons_append, joinSlash_cons s (by simp [hrest]), ih hrest, joinSlash_cons s hrest,
        List.append_assoc, List.cons_append]

theorem joinChars_eq {paths : List (List Char)} (h : ∃ p ∈ paths, p ≠ []) :
    joinChars paths = normalizeChars (joinSlash (paths.filter (· ≠ []))) := by
  obtain ⟨p, hp, hne⟩ := h
  have hmem : p ∈ paths.filter (· ≠ []) := List.mem_filter.mpr ⟨hp, by simpa using hne⟩
  unfold joinChars
  split
  · next hnil =>
    rw [hnil] at hmem
    cases hmem
  · rfl

/-- **Joining what was joined before with more paths is joining them all.** -/
theorem joinChars_joinChars {first : List (List Char)} (h : ∃ p ∈ first, p ≠ [])
    (more : List (List Char)) :
    joinChars (joinChars first :: more) = joinChars (first ++ more) := by
  have hjoined := joinChars_eq h
  have hfirst : first.filter (· ≠ []) ≠ [] := by
    obtain ⟨p, hp, hne⟩ := h
    exact List.ne_nil_of_mem (List.mem_filter.mpr ⟨hp, by simpa using hne⟩)
  have hne : joinChars first ≠ [] := hjoined ▸ normalizeChars_ne_nil _
  have htext : joinSlash (first.filter (· ≠ [])) ≠ [] :=
    joinSlash_ne_nil hfirst fun s hs => by simpa using (List.mem_filter.mp hs).2
  rw [joinChars_eq ⟨_, List.mem_cons_self, hne⟩,
    joinChars_eq (h.imp fun p hp => ⟨List.mem_append_left more hp.1, hp.2⟩),
    List.filter_cons_of_pos (by simpa using hne), List.filter_append]
  by_cases hmore : more.filter (· ≠ []) = []
  · rw [hmore, List.append_nil, hjoined, joinSlash, List.intercalate_singleton,
      (isNormal_normalizeChars _).normalizeChars_eq_self]
  · rw [joinSlash_cons _ hmore, joinSlash_append hfirst hmore, hjoined,
      normalizeChars_slash htext]

theorem ne_nil_of_isAbsolute {p : List Char} (h : isAbsolute p = true) : p ≠ [] := by
  intro hnil
  rw [hnil] at h
  cases h

theorem isAbsolute_resolveChars {directory : List Char} (h : isAbsolute directory = true)
    (paths : List (List Char)) : isAbsolute (resolveChars directory paths) = true := by
  rw [resolveChars, isAbsolute_normalizeChars]
  induction paths generalizing directory with
  | nil => exact h
  | cons next rest ih =>
    refine ih ?_
    unfold step
    split
    · assumption
    split
    · exact h
    · rwa [isAbsolute_append (ne_nil_of_isAbsolute h)]

/-- **Resolving more paths from where the first ones led is resolving them all.** -/
theorem resolveChars_resolveChars {directory : List Char} (h : isAbsolute directory = true)
    (first more : List (List Char)) :
    resolveChars directory (resolveChars directory first :: more) =
      resolveChars directory (first ++ more) := by
  have hreached := foldl_step_ne_nil (ne_nil_of_isAbsolute h) first
  have hstep : step directory (resolveChars directory first) = resolveChars directory first := by
    rw [step, isAbsolute_resolveChars h, if_pos rfl]
  rw [resolveChars, List.foldl_cons, hstep, resolveChars, resolveChars, List.foldl_append]
  exact normalizeChars_foldl_step (normalizeChars_ne_nil _) hreached
    (isNormal_normalizeChars _).normalizeChars_eq_self more

/-- A path from an absolute directory is absolute, and it has no points left in it. -/
theorem segments_resolveChars {directory : List Char} (h : isAbsolute directory = true)
    (paths : List (List Char)) :
    ∀ s ∈ segments (resolveChars directory paths), s ≠ [] ∧ s ≠ ['.'] ∧ s ≠ ['.', '.'] := by
  intro s hs
  obtain ⟨n, names, hsegments, hnames, hroot⟩ :=
    isNormal_normalizeChars (paths.foldl step directory)
  rw [resolveChars, hsegments, hroot (isAbsolute_resolveChars h paths)] at hs
  obtain ⟨name, hname, rfl⟩ := List.mem_map.mp hs
  have hn := hnames name hname
  exact ⟨hn.nonempty, hn.notCurrent, hn.notParent⟩

end CommandFiles.Path

namespace CommandFiles.Literal

open CommandFiles.Path

theorem applyHelper_join (directory : String) (paths : List String) :
    applyHelper directory .join (paths.map Value.string) =
      .ok (.string (String.ofList (joinChars (paths.map String.toList)))) := by
  simp only [applyHelper, pathArguments_strings]
  rfl

theorem applyHelper_resolve (directory : String) (paths : List String) :
    applyHelper directory .resolve (paths.map Value.string) =
      .ok (.string (String.ofList (resolveChars directory.toList (paths.map String.toList)))) := by
  simp only [applyHelper, pathArguments_strings]
  rfl

/-- **Paths may be built in steps.** Normalizing a path gives one that leads above its start some
times, if it is relative, and then along names, and that stays the same when it is normalized again.
Joining or resolving paths and then more paths gives what joining or resolving all of them gives; a
path that is resolved from an absolute directory is absolute and has no points in it. -/
theorem paths_built_in_steps :
    (∀ p : String, IsNormal (normalizeChars p.toList) ∧
      isAbsolute (normalizeChars p.toList) = isAbsolute p.toList ∧
      normalizeChars (normalizeChars p.toList) = normalizeChars p.toList) ∧
    (∀ (directory : String) (first more : List String), (∃ p ∈ first, p ≠ "") →
      ∃ joined, applyHelper directory .join (first.map Value.string) = .ok (.string joined) ∧
        applyHelper directory .join ((joined :: more).map Value.string) =
          applyHelper directory .join ((first ++ more).map Value.string)) ∧
    ∀ (directory : String) (first more : List String), isAbsolute directory.toList = true →
      ∃ reached path,
        applyHelper directory .resolve (first.map Value.string) = .ok (.string reached) ∧
        applyHelper directory .resolve ((reached :: more).map Value.string) =
          .ok (.string path) ∧
        applyHelper directory .resolve ((first ++ more).map Value.string) = .ok (.string path) ∧
        isAbsolute path.toList = true ∧
        ∀ s ∈ segments path.toList, s ≠ [] ∧ s ≠ ['.'] ∧ s ≠ ['.', '.'] := by
  refine ⟨fun p => ⟨isNormal_normalizeChars _, isAbsolute_normalizeChars _,
    (isNormal_normalizeChars _).normalizeChars_eq_self⟩, ?_, ?_⟩
  · intro directory first more h
    obtain ⟨p, hp, hne⟩ := h
    have hfirst : ∃ cs ∈ first.map String.toList, cs ≠ [] :=
      ⟨p.toList, List.mem_map_of_mem hp, by simpa using hne⟩
    refine ⟨_, applyHelper_join directory first, ?_⟩
    rw [applyHelper_join, applyHelper_join, List.map_cons, String.toList_ofList, List.map_append,
      joinChars_joinChars hfirst]
  · intro directory first more h
    refine ⟨_, _, applyHelper_resolve directory first, ?_, applyHelper_resolve directory _, ?_⟩
    · rw [applyHelper_resolve, List.map_cons, String.toList_ofList, List.map_append,
        resolveChars_resolveChars h]
    · rw [String.toList_ofList]
      exact ⟨isAbsolute_resolveChars h _, segments_resolveChars h _⟩

theorem paths_built_in_steps_of_parents :
    (∃ p ∈ ["", "a/../.."], p ≠ "") ∧ isAbsolute "/work".toList = true ∧
    (∃ joined,
      applyHelper "/work" .join (["", "a/../.."].map Value.string) = .ok (.string joined) ∧
      applyHelper "/work" .join ((joined :: ["/b", "../../c"]).map Value.string) =
        applyHelper "/work" .join ((["", "a/../.."] ++ ["/b", "../../c"]).map Value.string)) ∧
    ∃ reached path,
      applyHelper "/work" .resolve (["", "a/../.."].map Value.string) = .ok (.string reached) ∧
      applyHelper "/work" .resolve ((reached :: ["/b", "../../c"]).map Value.string) =
        .ok (.string path) ∧
      applyHelper "/work" .resolve ((["", "a/../.."] ++ ["/b", "../../c"]).map Value.string) =
        .ok (.string path) ∧
      isAbsolute path.toList = true ∧
      ∀ s ∈ segments path.toList, s ≠ [] ∧ s ≠ ['.'] ∧ s ≠ ['.', '.'] := by
  have hfirst : ∃ p ∈ ["", "a/../.."], p ≠ "" := ⟨"a/../..", by decide, by decide⟩
  have hdirectory : isAbsolute "/work".toList = true := by decide
  exact ⟨hfirst, hdirectory, paths_built_in_steps.2.1 "/work" _ ["/b", "../../c"] hfirst,
    paths_built_in_steps.2.2 "/work" _ ["/b", "../../c"] hdirectory⟩

example : applyHelper "/work" .join (["a/../..", "/b", "../../c"].map Value.string) =
    .ok (.string "../../c") := rfl

end CommandFiles.Literal
