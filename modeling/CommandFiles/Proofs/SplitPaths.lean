import CommandFiles.Proofs.NormalPaths

/-! # Paths taken apart and put together

The directory of a path and its last segment, joined again, are the path in normal form: the slashes
that get lost count for nothing. A name without its ending and the ending behind it are the name. -/
namespace CommandFiles.Path

/-! ## Slashes that count for nothing -/

theorem normalizeChars_append_slashes {p : List Char} (h : p ≠ []) (n : Nat) :
    normalizeChars (p ++ List.replicate n '/') = normalizeChars p := by
  induction n with
  | zero => rw [List.replicate_zero, List.append_nil]
  | succ n ih =>
    rw [List.replicate_succ', ← List.append_assoc, normalizeChars_append_slash (by simp [h]), ih]

theorem exists_eq_trimSlashes_append (p : List Char) :
    ∃ n, p = trimSlashes p ++ List.replicate n '/' := by
  have hsplit := List.takeWhile_append_dropWhile (p := (· == '/')) (l := p.reverse)
  obtain ⟨n, hslashes⟩ : ∃ n, p.reverse.takeWhile (· == '/') = List.replicate n '/' :=
    ⟨_, List.eq_replicate_iff.mpr ⟨rfl, fun c hc => by simpa using List.mem_takeWhile_imp hc⟩⟩
  refine ⟨n, ?_⟩
  rw [hslashes] at hsplit
  simpa [trimSlashes] using (congrArg List.reverse hsplit).symm

/-- The slashes at the end of a path count for nothing, unless they are all of it. -/
theorem normalizeChars_trimSlashes {p : List Char} (h : trimSlashes p ≠ []) :
    normalizeChars (trimSlashes p) = normalizeChars p := by
  obtain ⟨n, hp⟩ := exists_eq_trimSlashes_append p
  calc normalizeChars (trimSlashes p)
    _ = normalizeChars (trimSlashes p ++ List.replicate n '/') :=
      (normalizeChars_append_slashes h n).symm
    _ = normalizeChars p := by rw [← hp]

/-- A path of nothing but slashes is the root. -/
theorem normalizeChars_of_trimSlashes {p : List Char} (h : trimSlashes p = []) :
    normalizeChars p = if isAbsolute p then ['/'] else ['.'] := by
  obtain ⟨n, hp⟩ := exists_eq_trimSlashes_append p
  rw [h, List.nil_append] at hp
  cases n with
  | zero => rw [hp]; rfl
  | succ n =>
    rw [hp, List.replicate_succ]
    exact normalizeChars_append_slashes (List.cons_ne_nil '/' []) n

theorem normalizeChars_slash_slash (name : List Char) :
    normalizeChars ('/' :: '/' :: name) = normalizeChars ('/' :: name) := rfl

theorem normalizeChars_point_slash {name : List Char} (h : isAbsolute name = false) :
    normalizeChars ('.' :: '/' :: name) = normalizeChars name := by
  unfold normalizeChars
  rw [h]
  rfl

/-! ## Directories and names -/

theorem afterSlash_of_noSlash {p : List Char} (h : '/' ∉ p) : afterSlash p = p := by
  rw [afterSlash, List.takeWhile_eq_self_iff.mpr (ne_slash_of_mem h), List.reverse_reverse]

theorem joinChars_pair {directory : List Char} (h : directory ≠ []) (name : List Char) :
    joinChars [directory, name] = normalizeChars (directory ++ '/' :: name) := by
  rw [joinChars_eq ⟨directory, List.mem_cons_self, h⟩]
  by_cases hname : name = []
  · subst hname
    rw [normalizeChars_append_slash h]
    simp [h, joinSlash]
  · simp [h, hname, joinSlash, List.intercalate_cons_cons]

/-- **The directory and the last segment of a path make the path again**, in normal form. -/
theorem joinChars_dirname_basename (p : List Char) :
    joinChars [dirnameChars p, basenameChars p] = normalizeChars p := by
  unfold dirnameChars basenameChars
  by_cases htrim : trimSlashes p = []
  · rw [normalizeChars_of_trimSlashes htrim, if_pos htrim, htrim]
    split <;> rfl
  rw [if_neg htrim, ← normalizeChars_trimSlashes htrim]
  generalize trimSlashes p = trimmed
  cases hbefore : beforeSlash? trimmed with
  | none =>
    have hslash := noSlash_of_beforeSlash? hbefore
    dsimp only
    rw [joinChars_pair (List.cons_ne_nil '.' []), afterSlash_of_noSlash hslash]
    exact normalizeChars_point_slash (isAbsolute_of_noSlash hslash)
  | some before =>
    have hsplit := beforeSlash?_eq_some hbefore
    cases before with
    | nil =>
      dsimp only
      rw [joinChars_pair (List.cons_ne_nil '/' [])]
      conv_rhs => rw [hsplit]
      exact normalizeChars_slash_slash _
    | cons c rest =>
      dsimp only
      rw [joinChars_pair (List.cons_ne_nil c rest), ← hsplit]

/-! ## Names and endings -/

theorem withoutEnding_append {front ending : List Char} (hfront : front ≠ [])
    (hending : ending ≠ []) : withoutEnding (front ++ ending) ending = front := by
  simp [withoutEnding, hfront, hending]

/-- A path has no ending, or its last segment has something before it. -/
theorem extnameChars_cases (p : List Char) : extnameChars p = [] ∨
    extnameChars p ≠ [] ∧ ∃ front, front ≠ [] ∧ basenameChars p = front ++ extnameChars p := by
  unfold extnameChars
  generalize basenameChars p = name
  dsimp only
  split
  · next c b before hpoint =>
    exact .inr ⟨List.cons_ne_nil _ _, (b :: before).reverse, by simp,
      eq_of_dropWhile_reverse hpoint⟩
  · exact .inl rfl

/-- **A name without its ending, and then the ending, are the name.** -/
theorem withoutEnding_extname (p : List Char) :
    withoutEnding (basenameChars p) (extnameChars p) ++ extnameChars p = basenameChars p := by
  rcases extnameChars_cases p with hnone | ⟨hending, front, hfront, hname⟩
  · rw [hnone, withoutEnding_nil, List.append_nil]
  · rw [hname, withoutEnding_append hfront hending]

end CommandFiles.Path

namespace CommandFiles.Literal

open CommandFiles.Path

theorem applyHelper_basename (directory p : String) (rest : List String) :
    applyHelper directory .basename ((p :: rest).map Value.string) =
      .ok (.string (String.ofList
        (withoutEnding (basenameChars p.toList) ((rest.map String.toList).head?.getD [])))) := by
  simp only [applyHelper, firstPath, pathArguments_strings]
  rfl

/-- **Taking a path apart and putting it together again loses nothing.** Its directory and its last
segment join to the path in normal form, and the last segment without its ending goes on with the
ending. -/
theorem path_parts_rejoin (directory p : String) :
    ∃ parent name ending stem,
      applyHelper directory .dirname [.string p] = .ok (.string parent) ∧
      applyHelper directory .basename [.string p] = .ok (.string name) ∧
      applyHelper directory .join [.string parent, .string name] =
        .ok (.string (String.ofList (normalizeChars p.toList))) ∧
      applyHelper directory .extname [.string p] = .ok (.string ending) ∧
      applyHelper directory .basename [.string p, .string ending] = .ok (.string stem) ∧
      stem ++ ending = name := by
  refine ⟨String.ofList (dirnameChars p.toList), String.ofList (basenameChars p.toList),
    String.ofList (extnameChars p.toList),
    String.ofList (withoutEnding (basenameChars p.toList) (extnameChars p.toList)),
    rfl, ?_, ?_, rfl, ?_, ?_⟩
  · have hname := applyHelper_basename directory p []
    simpa [withoutEnding_nil] using hname
  · have hjoin := applyHelper_join directory
      [String.ofList (dirnameChars p.toList), String.ofList (basenameChars p.toList)]
    simpa [joinChars_dirname_basename] using hjoin
  · have hstem := applyHelper_basename directory p [String.ofList (extnameChars p.toList)]
    simpa using hstem
  · rw [← String.ofList_append, withoutEnding_extname]

end CommandFiles.Literal
