import CommandFiles.Path.Lexical
import CommandFiles.Proofs.PathNames
import Mathlib.Data.List.TakeWhile

/-! # Paths taken apart as text

The segments of a path are free of slashes, and those that its points leave are not empty either.
The last segment stands behind the last slash, once the slashes at the end of the path are gone. -/
namespace CommandFiles.Path

/-! ## Segments -/

theorem noSlash_of_mem_splitSlash {cs segment : List Char} (h : segment ∈ splitSlash cs) :
    '/' ∉ segment := by
  induction cs generalizing segment with
  | nil =>
    rw [splitSlash, List.mem_singleton] at h
    simp [h]
  | cons c rest ih =>
    rw [splitSlash] at h
    split at h
    · obtain rfl | h := List.mem_cons.1 h
      · simp
      · exact ih h
    · rename_i hc
      cases hrest : splitSlash rest with
      | nil => exact absurd hrest (splitSlash_ne_nil rest)
      | cons s more =>
        rw [hrest] at h ih
        obtain rfl | h := List.mem_cons.1 h
        · rw [List.mem_cons, not_or]
          exact ⟨Ne.symm hc, ih List.mem_cons_self⟩
        · exact ih (List.mem_cons_of_mem _ h)

theorem ne_slash_of_mem {cs : List Char} (h : '/' ∉ cs) : ∀ c ∈ cs.reverse, (c != '/') = true := by
  intro c hc
  rw [bne_iff_ne]
  rintro rfl
  exact h (List.mem_reverse.1 hc)

theorem joinSlash_cons (s : List Char) {rest : List (List Char)} (h : rest ≠ []) :
    joinSlash (s :: rest) = s ++ '/' :: joinSlash rest := by
  obtain ⟨t, more, rfl⟩ := List.exists_cons_of_ne_nil h
  rw [joinSlash, List.intercalate_cons_cons, List.append_assoc, List.singleton_append, joinSlash]

/-- Whether every part of a stack can stand between slashes. -/
def Segments (stack : List (List Char)) : Prop := ∀ s ∈ stack, s ≠ [] ∧ '/' ∉ s

theorem segments_push {stack : List (List Char)} (hn : Segments stack) {segment : List Char}
    (hs : '/' ∉ segment) (absolute : Bool) : Segments (push absolute stack segment) := by
  by_cases hempty : segment = []
  · simpa [push, hempty] using hn
  have hcons : Segments (segment :: stack) := List.forall_mem_cons.2 ⟨⟨hempty, hs⟩, hn⟩
  have hdrop : Segments stack.tail := fun s h => hn s (List.mem_of_mem_tail h)
  unfold push
  split
  · exact hn
  split
  · cases stack with
    | nil => cases absolute <;> assumption
    | cons top rest =>
      dsimp only
      split
      · exact hdrop
      · cases absolute <;> assumption
  · exact hcons

theorem segments_foldl_push {segments stack : List (List Char)} (hs : ∀ s ∈ segments, '/' ∉ s)
    (hn : Segments stack) (absolute : Bool) : Segments (segments.foldl (push absolute) stack) := by
  induction segments generalizing stack with
  | nil => exact hn
  | cons s rest ih =>
    obtain ⟨hs, hrest⟩ := List.forall_mem_cons.1 hs
    exact ih hrest (segments_push hn hs absolute)

theorem segments_resolved (absolute : Bool) (p : List Char) :
    Segments (resolved absolute (splitSlash p)) := by
  intro s h
  exact segments_foldl_push (fun s h => noSlash_of_mem_splitSlash h)
    (fun s h => absurd h List.not_mem_nil) absolute s (List.mem_reverse.1 h)

theorem joinSlash_ne_slash {segments : List (List Char)} (hn : Segments segments) :
    joinSlash segments ≠ ['/'] := by
  cases segments with
  | nil => decide
  | cons s rest =>
    obtain ⟨hne, hs⟩ := hn s List.mem_cons_self
    obtain ⟨c, more, rfl⟩ := List.exists_cons_of_ne_nil hne
    have hc : c ≠ '/' := fun h => hs (h ▸ List.mem_cons_self)
    by_cases hrest : rest = []
    · simp [hrest, joinSlash, hc]
    · simp [joinSlash_cons, hrest]

theorem normalizeChars_append_slash {p : List Char} (h : p ≠ []) :
    normalizeChars (p ++ ['/']) = normalizeChars p := by
  have hresolved (absolute : Bool) :
      resolved absolute (splitSlash (p ++ ['/'])) = resolved absolute (splitSlash p) := by
    rw [resolved, splitSlash_append, List.foldl_append]
    rfl
  rw [normalizeChars, isAbsolute_append h, hresolved, normalizeChars]

theorem foldl_step_ne_nil {directory : List Char} (h : directory ≠ []) (paths : List (List Char)) :
    paths.foldl step directory ≠ [] := by
  induction paths generalizing directory with
  | nil => exact h
  | cons p rest ih =>
    refine ih ?_
    unfold step
    split
    · rename_i habsolute
      rintro rfl
      cases habsolute
    · split
      · exact h
      · simp

/-! ## Last segments -/

/-- A text that has a mark in it, taken apart at the last one. -/
theorem eq_of_dropWhile_reverse {cs before : List Char} {mark c : Char}
    (h : cs.reverse.dropWhile (· != mark) = c :: before) :
    cs = before.reverse ++ mark :: (cs.reverse.takeWhile (· != mark)).reverse := by
  have hsplit := List.takeWhile_append_dropWhile (p := (· != mark)) (l := cs.reverse)
  have hc : c = mark := by
    simpa [h] using List.head_dropWhile_not (· != mark) (l := cs.reverse) (by simp [h])
  rw [h, hc] at hsplit
  simpa using (congrArg List.reverse hsplit).symm

theorem afterSlash_slash (before : List Char) {name : List Char} (h : '/' ∉ name) :
    afterSlash (before ++ '/' :: name) = name := by
  rw [afterSlash, List.reverse_append, List.reverse_cons, List.append_assoc,
    List.takeWhile_append_of_pos (ne_slash_of_mem h)]
  simp

theorem noSlash_afterSlash (cs : List Char) : '/' ∉ afterSlash cs := by
  intro h
  simpa using List.mem_takeWhile_imp (List.mem_reverse.1 h)

theorem beforeSlash?_eq_some {cs before : List Char} (h : beforeSlash? cs = some before) :
    cs = before ++ '/' :: afterSlash cs := by
  unfold beforeSlash? at h
  split at h
  · cases h
  · rename_i hrest
    cases h
    exact eq_of_dropWhile_reverse hrest

theorem noSlash_of_beforeSlash? {cs : List Char} (h : beforeSlash? cs = none) : '/' ∉ cs := by
  unfold beforeSlash? at h
  split at h
  · rename_i hrest
    intro hslash
    simpa using List.dropWhile_eq_nil_iff.1 hrest '/' (List.mem_reverse.2 hslash)
  · cases h

theorem beforeSlash?_cons (c : Char) (cs : List Char) :
    beforeSlash? (c :: cs) =
      match beforeSlash? cs with
      | some before => some (c :: before)
      | none => if c = '/' then some [] else none := by
  unfold beforeSlash?
  rw [List.reverse_cons, List.dropWhile_append]
  cases cs.reverse.dropWhile (· != '/') with
  | nil => by_cases hc : c = '/' <;> simp [hc]
  | cons d before => simp

theorem trimSlashes_cons (c : Char) (rest : List Char) :
    trimSlashes (c :: rest) =
      if trimSlashes rest = [] then if c = '/' then [] else [c] else c :: trimSlashes rest := by
  unfold trimSlashes
  rw [List.reverse_cons, List.dropWhile_append]
  cases rest.reverse.dropWhile (· == '/') with
  | nil => by_cases hc : c = '/' <;> simp [hc]
  | cons d before => simp

theorem basenameChars_sublist (p : List Char) : (basenameChars p).Sublist p := by
  have hafter : (basenameChars p).Sublist (trimSlashes p) := by
    rw [← List.reverse_sublist, basenameChars, afterSlash, List.reverse_reverse]
    exact List.takeWhile_sublist _
  have htrim : (trimSlashes p).Sublist p := by
    rw [← List.reverse_sublist, trimSlashes, List.reverse_reverse]
    exact List.dropWhile_sublist _
  exact hafter.trans htrim

theorem withoutEnding_nil (name : List Char) : withoutEnding name [] = name := by
  simp [withoutEnding]

theorem withoutEnding_of_not_suffix {name ending : List Char} (h : ¬ ending <:+ name) :
    withoutEnding name ending = name := by
  simp [withoutEnding, h]

end CommandFiles.Path
