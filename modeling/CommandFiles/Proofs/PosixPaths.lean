import CommandFiles.Literal.Evaluate
import CommandFiles.Proofs.PathText
import Mathlib.Data.List.Basic

/-! # Paths at run time

Command files find path helpers under the same names when they run: those of their runtime, whose
documented algorithms walk over the characters of a path and build the result as text. They are
written down here as walks, and the helpers of option literals are compared with them: the result is
the same for all arguments outside a few shapes, and in each of those it is another one. -/
namespace CommandFiles.Path.Posix

/-! ## The helpers of the runtime -/

/-- A segment behind a path that is built as text. -/
def below (path segment : List Char) : List Char :=
  if path = [] then segment else path ++ '/' :: segment

/-- Goes from a path that is built as text along a segment. Two points take the last segment away,
unless there is none or it is two points itself; then they stay, if the path may lead above. -/
def enter (above : Bool) (path segment : List Char) : List Char :=
  if segment = [] || segment = ['.'] then path
  else if segment = ['.', '.'] then
    if path ≠ [] && afterSlash path ≠ ['.', '.'] then (beforeSlash? path).getD []
    else if above then below path segment else path
  else below path segment

/-- Walks over the rest of a path: the path that was built, and the segment that was begun. -/
def scan (above : Bool) (path segment : List Char) : List Char → List Char
  | [] => enter above path segment
  | c :: rest =>
    if c = '/' then scan above (enter above path segment) [] rest
    else scan above path (segment ++ [c]) rest

/-- A path with its points resolved; a slash at its end stays. -/
def normalize (p : List Char) : List Char :=
  if p = [] then ['.']
  else
    let body := scan (!isAbsolute p) [] [] p
    let trailing := p.getLast? = some '/'
    if body = [] then if isAbsolute p then ['/'] else if trailing then ['.', '/'] else ['.']
    else
      let path := if trailing then body ++ ['/'] else body
      if isAbsolute p then '/' :: path else path

/-- Paths one behind the other. -/
def join (paths : List (List Char)) : List Char :=
  match paths.filter (· ≠ []) with
  | [] => ['.']
  | parts => normalize (joinSlash parts)

/-- Puts paths before a text, the last of them first, as far as the first absolute one; the
directory stands before relative ones. -/
def gather (directory : List Char) : List (List Char) → List Char → List Char
  | [], text => directory ++ '/' :: text
  | p :: before, text =>
    if p = [] then gather directory before text
    else if isAbsolute p then p ++ '/' :: text
    else gather directory before (p ++ '/' :: text)

/-- The path reached from a directory along several paths. -/
def resolve (directory : List Char) (paths : List (List Char)) : List Char :=
  let text := gather directory paths.reverse []
  let body := scan (!isAbsolute text) [] [] text
  if isAbsolute text then '/' :: body else if body = [] then ['.'] else body

/-- The directory a path lies in. The search for the slash before the last segment never looks at
the first character. -/
def dirname : List Char → List Char
  | [] => ['.']
  | c :: rest =>
    match (rest.reverse.dropWhile (· == '/')).dropWhile (· != '/') with
    | [] => if c = '/' then ['/'] else ['.']
    | _ :: before => if c = '/' && before = [] then ['/', '/'] else c :: before.reverse

/-- Walks back from the end of a path to the slash before its last segment. -/
def lastPart (name : List Char) : List Char → List Char
  | [] => name
  | c :: before =>
    if c = '/' then if name = [] then lastPart [] before else name
    else lastPart (c :: name) before

/-- Walks back over an ending and a name together. The name is left alone where they differ and
where both end; where only the name ends, what stands behind it is not cut off. -/
def strip (name behind : List Char) : List Char → List Char → List Char
  | [], [] => name
  | [], before => before.reverse
  | _ :: _, [] => name ++ behind
  | e :: ending, c :: before => if c = e then strip name behind ending before else name

/-- The length of a text in UTF-16 units. -/
def units : List Char → Nat
  | [] => 0
  | c :: rest => (if c.toNat < 0x10000 then 1 else 2) + units rest

/-- The last segment of a path without an ending. -/
def basename (p ending : List Char) : List Char :=
  let name := lastPart [] p.reverse
  if ending = [] || units p < units ending then name
  else if ending = p then []
  else strip name (p.reverse.takeWhile (· == '/')) ending.reverse name.reverse

/-- The last segment of a path from its last point on, unless that is its first character or the
segment is two points. -/
def extname (p : List Char) : List Char :=
  let name := lastPart [] p.reverse
  match name.reverse.dropWhile (· != '.') with
  | [] => []
  | _ :: before => if before = [] || name = ['.', '.'] then [] else name.drop before.length

/-- What a helper returns for texts when the file runs. Without the path it needs, it throws. -/
def call (directory : List Char) : Helper → List (List Char) → Option (List Char)
  | .string, args => some (args.head?.getD [])
  | .join, args => some (join args)
  | .resolve, args => some (resolve directory args)
  | .dirname, p :: _ => some (dirname p)
  | .basename, p :: rest => some (basename p (rest.head?.getD []))
  | .extname, p :: _ => some (extname p)
  | _, [] => none

/-- The arguments for which a helper of option literals returns something else: a joined path that
ends with a slash and is not the root; a path of two slashes and a name; a name that is all of the
path and the ending, or an ending of the ending with slashes behind it; two points. -/
def Deviates : Helper → List (List Char) → Prop
  | .join, args =>
    (joinSlash (args.filter (· ≠ []))).getLast? = some '/' ∧ joinChars args ≠ ['/']
  | .dirname, p :: _ => trimSlashes p = '/' :: '/' :: basenameChars p
  | .basename, p :: ending :: _ =>
    (ending = p ∧ basenameChars p ≠ []) ∨
      (ending ≠ p ∧ units ending ≤ units p ∧ p.getLast? = some '/' ∧
        basenameChars p ≠ ending ∧ basenameChars p <:+ ending)
  | .extname, p :: _ => basenameChars p = ['.', '.']
  | _, _ => False

/-! ## Walks over segments -/

theorem afterSlash_below (path : List Char) {segment : List Char} (h : '/' ∉ segment) :
    afterSlash (below path segment) = segment := by
  unfold below
  split
  · rw [afterSlash, List.takeWhile_eq_self_iff.2 (ne_slash_of_mem h), List.reverse_reverse]
  · exact afterSlash_slash _ h

theorem beforeSlash?_below (path : List Char) {segment : List Char} (h : '/' ∉ segment) :
    (beforeSlash? (below path segment)).getD [] = path := by
  unfold below beforeSlash?
  by_cases hpath : path = []
  · rw [if_pos hpath, List.dropWhile_eq_nil_iff.2 (ne_slash_of_mem h), hpath]
    rfl
  · rw [if_neg hpath, List.reverse_append, List.reverse_cons, List.append_assoc,
      List.dropWhile_append_of_pos (ne_slash_of_mem h)]
    simp

theorem below_ne_nil (path : List Char) {segment : List Char} (h : segment ≠ []) :
    below path segment ≠ [] := by
  unfold below
  split
  · exact h
  · simp

theorem joinSlash_concat {segments : List (List Char)} (h : ∀ s ∈ segments, s ≠ [])
    (segment : List Char) :
    joinSlash (segments ++ [segment]) = below (joinSlash segments) segment := by
  induction segments with
  | nil => simp [joinSlash, below]
  | cons s rest ih =>
    have hs := h s List.mem_cons_self
    rw [List.cons_append, joinSlash_cons s (by simp), ih fun t ht => h t (List.mem_cons_of_mem _ ht)]
    cases rest with
    | nil => simp [joinSlash, below, hs]
    | cons t rest =>
      have ht : joinSlash (t :: rest) ≠ [] := by
        by_cases hrest : rest = []
        · simpa [hrest, joinSlash] using h t (by simp)
        · simp [joinSlash_cons t hrest]
      simp [joinSlash_cons s, below, ht]

theorem enter_parent (above : Bool) (path : List Char) {top : List Char} (hne : top ≠ [])
    (hs : '/' ∉ top) :
    enter above (below path top) ['.', '.'] =
      if top ≠ ['.', '.'] then path
      else if above then below (below path top) ['.', '.'] else below path top := by
  rw [enter, if_neg (by decide), if_pos rfl, afterSlash_below path hs, beforeSlash?_below path hs]
  simp [below_ne_nil path hne]

theorem joinSlash_reverse_cons {stack : List (List Char)} (hn : Segments stack)
    (segment : List Char) :
    joinSlash (segment :: stack).reverse = below (joinSlash stack.reverse) segment := by
  rw [List.reverse_cons]
  exact joinSlash_concat (fun s h => (hn s (List.mem_reverse.1 h)).1) segment

/-- Going along a segment in the text is pushing it on the stack. -/
theorem enter_joinSlash {stack : List (List Char)} (hn : Segments stack) (segment : List Char)
    (absolute : Bool) :
    enter (!absolute) (joinSlash stack.reverse) segment =
      joinSlash (push absolute stack segment).reverse := by
  rw [push.eq_def]
  by_cases hnone : (segment = [] || segment = ['.']) = true
  · rw [enter, if_pos hnone, if_pos hnone]
  by_cases hparent : segment = ['.', '.']
  · subst hparent
    rw [if_neg hnone, if_pos rfl]
    cases stack with
    | nil => cases absolute <;> rfl
    | cons top rest =>
      have htop := hn top List.mem_cons_self
      have htext := joinSlash_reverse_cons (fun s h => hn s (List.mem_cons_of_mem _ h)) top
      rw [htext, enter_parent _ _ htop.1 htop.2, ← htext, ← joinSlash_reverse_cons hn]
      cases absolute <;> exact (apply_ite (joinSlash ∘ List.reverse) ..).symm
  · rw [enter, if_neg hnone, if_neg hnone, if_neg hparent, if_neg hparent,
      joinSlash_reverse_cons hn]

theorem foldl_enter {stack : List (List Char)} (hn : Segments stack) {segments : List (List Char)}
    (hs : ∀ s ∈ segments, '/' ∉ s) (absolute : Bool) :
    segments.foldl (enter !absolute) (joinSlash stack.reverse) =
      joinSlash (segments.foldl (push absolute) stack).reverse := by
  induction segments generalizing stack with
  | nil => rfl
  | cons s rest ih =>
    rw [List.foldl_cons, List.foldl_cons, enter_joinSlash hn]
    exact ih (segments_push hn (hs s List.mem_cons_self) absolute)
      fun t h => hs t (List.mem_cons_of_mem _ h)

theorem scan_eq_foldl (above : Bool) (path : List Char) {segment : List Char} (h : '/' ∉ segment)
    (cs : List Char) :
    scan above path segment cs = (splitSlash (segment ++ cs)).foldl (enter above) path := by
  induction cs generalizing path segment with
  | nil => rw [scan, List.append_nil, splitSlash_of_noSlash h]; rfl
  | cons c rest ih =>
    rw [scan]
    split
    · rename_i hc
      rw [ih _ List.not_mem_nil, hc, splitSlash_append, splitSlash_of_noSlash h]
      rfl
    · rename_i hc
      rw [ih path (by simp [h, Ne.symm hc]), List.append_assoc]
      rfl

/-- **The walk over a path builds the text of its resolved segments.** -/
theorem scan_eq (absolute : Bool) (p : List Char) :
    scan (!absolute) [] [] p = joinSlash (resolved absolute (splitSlash p)) := by
  rw [scan_eq_foldl _ _ List.not_mem_nil, List.nil_append]
  exact foldl_enter (fun s h => absurd h List.not_mem_nil)
    (fun s h => noSlash_of_mem_splitSlash h) absolute

/-! ## Joining and resolving -/

theorem normalize_eq (p : List Char) :
    normalize p = if p.getLast? = some '/' ∧ normalizeChars p ≠ ['/'] then normalizeChars p ++ ['/']
      else normalizeChars p := by
  by_cases hp : p = []
  · subst hp; decide
  have hbody := joinSlash_ne_slash (segments_resolved (isAbsolute p) p)
  unfold normalize normalizeChars
  rw [if_neg hp, scan_eq]
  dsimp only
  generalize joinSlash (resolved (isAbsolute p) (splitSlash p)) = body at hbody
  by_cases hlast : p.getLast? = some '/' <;> by_cases hempty : body = [] <;>
    cases isAbsolute p <;> simp [hlast, hempty, hbody]

/-- What `joinChars` makes of paths, with the slash that they end with. -/
theorem join_eq (paths : List (List Char)) :
    join paths = if (joinSlash (paths.filter (· ≠ []))).getLast? = some '/' ∧
        joinChars paths ≠ ['/'] then joinChars paths ++ ['/'] else joinChars paths := by
  unfold join joinChars
  cases paths.filter (· ≠ []) with
  | nil => rfl
  | cons s rest => exact normalize_eq _

theorem gather_eq (directory : List Char) (before : List (List Char)) (text : List Char) :
    gather directory before text = before.reverse.foldl step directory ++ '/' :: text := by
  induction before generalizing text with
  | nil => rfl
  | cons p before ih =>
    rw [gather, List.reverse_cons, List.foldl_append, List.foldl_cons, List.foldl_nil, step]
    by_cases hp : p = []
    · subst hp
      rw [if_pos rfl, ih]
      rfl
    · cases isAbsolute p <;> simp [hp, ih]

/-- **Going from a directory along paths is the same walk from either end.** -/
theorem resolve_eq {directory : List Char} (h : directory ≠ []) (paths : List (List Char)) :
    resolve directory paths = resolveChars directory paths := by
  rw [resolve, gather_eq, List.reverse_reverse, scan_eq, resolveChars,
    ← normalizeChars_append_slash (foldl_step_ne_nil h paths)]
  rfl

/-! ## Names -/

theorem lastPart_cons (c : Char) (name before : List Char) :
    lastPart (c :: name) before = (before.takeWhile (· != '/')).reverse ++ c :: name := by
  induction before generalizing c name with
  | nil => rfl
  | cons d before ih =>
    rw [lastPart]
    by_cases hd : d = '/'
    · simp [hd]
    · simp [hd, ih]

theorem lastPart_reverse (p : List Char) : lastPart [] p.reverse = basenameChars p := by
  rw [basenameChars, afterSlash, trimSlashes, List.reverse_reverse]
  induction p.reverse with
  | nil => rfl
  | cons c before ih =>
    rw [lastPart]
    by_cases hc : c = '/'
    · simpa [hc] using ih
    · simp [hc, lastPart_cons]

theorem extname_eq (p : List Char) :
    extname p = if basenameChars p = ['.', '.'] then [] else extnameChars p := by
  rw [extname, lastPart_reverse, extnameChars]
  generalize basenameChars p = name
  cases hpoint : name.reverse.dropWhile (· != '.') with
  | nil => exact (ite_self []).symm
  | cons c before =>
    have hdrop : name.drop before.length =
        '.' :: (name.reverse.takeWhile (· != '.')).reverse := by
      have hname := congrArg (List.drop before.reverse.length) (eq_of_dropWhile_reverse hpoint)
      rwa [List.drop_left, List.length_reverse] at hname
    cases before with
    | nil => exact (ite_self []).symm
    | cons b before =>
      dsimp only
      by_cases htwo : name = ['.', '.']
      · simp [htwo]
      · rw [if_neg (by simp [htwo]), if_neg htwo, hdrop]

/-! ## Endings -/

/-- Walking back over both, an ending is cut off, and a name is left alone unless the ending goes on
before it. -/
theorem strip_eq (name behind ending before : List Char) :
    strip name behind ending before =
      if ending <+: before then if ending = before then name else (before.drop ending.length).reverse
      else if before <+: ending then name ++ behind else name := by
  induction ending generalizing before with
  | nil => cases before <;> simp [strip]
  | cons e ending ih =>
    cases before with
    | nil => simp [strip]
    | cons c before =>
      rw [strip]
      by_cases hc : c = e
      · simp [hc, ih]
      · simp [hc, Ne.symm hc]

theorem units_le_of_sublist {as bs : List Char} (h : as.Sublist bs) : units as ≤ units bs := by
  induction h with
  | slnil => exact Nat.le_refl _
  | cons c _ ih => exact Nat.le_trans ih (Nat.le_add_left ..)
  | cons_cons c _ ih => exact Nat.add_le_add_left ih _

theorem takeWhile_slash_eq_nil (p : List Char) :
    p.reverse.takeWhile (· == '/') = [] ↔ p.getLast? ≠ some '/' := by
  rw [← List.head?_reverse]
  cases p.reverse <;> simp

theorem strip_reverse (name behind ending : List Char) :
    strip name behind ending.reverse name.reverse =
      if name ≠ ending ∧ name <:+ ending then name ++ behind else withoutEnding name ending := by
  rw [strip_eq, List.reverse_drop, List.reverse_reverse, List.length_reverse, List.length_reverse,
    withoutEnding]
  simp only [List.reverse_prefix, List.reverse_inj]
  by_cases heq : ending = name
  · simp [heq]
  by_cases hsuffix : ending <:+ name
  · have hnot : ¬ name <:+ ending := fun h =>
      heq (hsuffix.eq_of_length (Nat.le_antisymm hsuffix.length_le h.length_le))
    have hnil : ending = [] → name.take (name.length - ending.length) = name := by
      rintro rfl
      simp
    rw [if_pos hsuffix, if_neg heq, if_neg fun h => hnot h.2]
    split
    · rfl
    · rename_i h
      exact hnil (by simpa [hsuffix, Ne.symm heq] using h)
  · simp [hsuffix, Ne.symm heq]

theorem basename_nil (p : List Char) : basename p [] = basenameChars p := by
  simp [basename, lastPart_reverse]

/-- **A name loses the same ending, but for the whole path and for what ends before its slashes.** -/
theorem basename_eq_iff (p ending : List Char) :
    basename p ending = withoutEnding (basenameChars p) ending ↔
      ¬ Deviates .basename [p, ending] := by
  have hsublist := basenameChars_sublist p
  by_cases hnil : ending = []
  · subst hnil
    refine iff_of_true (by rw [basename_nil, withoutEnding_nil]) ?_
    rintro (⟨rfl, hne⟩ | ⟨-, -, -, hne, hsuffix⟩)
    · exact hne (List.sublist_nil.1 hsublist)
    · exact hne (List.suffix_nil.1 hsuffix)
  rw [basename, lastPart_reverse, strip_reverse, Deviates, ← not_not (a := p.getLast? = some '/'),
    ← ne_eq, ← takeWhile_slash_eq_nil]
  generalize basenameChars p = name at hsublist ⊢
  generalize p.reverse.takeWhile (· == '/') = slashes
  by_cases hlong : units p < units ending
  · have hnot : ¬ ending <:+ name := fun h =>
      Nat.not_le.2 hlong (units_le_of_sublist (h.sublist.trans hsublist))
    refine iff_of_true (by simp [hlong, withoutEnding_of_not_suffix hnot]) ?_
    rintro (⟨rfl, -⟩ | ⟨-, hle, -⟩)
    · exact lt_irrefl _ hlong
    · exact Nat.not_le.2 hlong hle
  by_cases hwhole : ending = p
  · subst hwhole
    have hself : withoutEnding name ending = name := by
      by_cases hsuffix : ending <:+ name
      · simp [withoutEnding, hsublist.antisymm hsuffix.sublist]
      · exact withoutEnding_of_not_suffix hsuffix
    simp [hnil, hself, eq_comm]
  · by_cases hrest : name ≠ ending ∧ name <:+ ending
    · have hnot : ¬ ending <:+ name := fun h =>
        hrest.1 (hrest.2.sublist.antisymm h.sublist)
      simp [hnil, hlong, hwhole, hrest, withoutEnding_of_not_suffix hnot, Nat.not_lt.1 hlong]
    · simp [hnil, hlong, hwhole, hrest]

/-! ## Directories -/

/-- The search for the slash before a name, without the first character. -/
theorem dirname_cons (c : Char) (rest : List Char) :
    dirname (c :: rest) =
      match beforeSlash? (trimSlashes rest) with
      | none => if c = '/' then ['/'] else ['.']
      | some before => if c = '/' && before = [] then ['/', '/'] else c :: before := by
  rw [dirname, beforeSlash?, trimSlashes, List.reverse_reverse]
  cases (rest.reverse.dropWhile (· == '/')).dropWhile (· != '/') with
  | nil => rfl
  | cons d before => simp

/-- **The directory of a path is the same, but for a path of two slashes and a name.** -/
theorem dirname_eq_iff (p : List Char) :
    dirname p = dirnameChars p ↔ ¬ trimSlashes p = '/' :: '/' :: basenameChars p := by
  cases p with
  | nil => decide
  | cons c rest =>
    rw [dirname_cons, dirnameChars, basenameChars, trimSlashes_cons, isAbsolute_cons]
    generalize trimSlashes rest = trimmed
    by_cases hempty : trimmed = []
    · subst hempty
      by_cases hc : c = '/' <;> simp [hc, beforeSlash?]
    rw [if_neg hempty, if_neg (List.cons_ne_nil c trimmed), beforeSlash?_cons]
    cases hbefore : beforeSlash? trimmed with
    | none =>
      have hslash := noSlash_of_beforeSlash? hbefore
      have hnot : c :: trimmed ≠ '/' :: '/' :: afterSlash (c :: trimmed) := fun h =>
        hslash ((List.cons.inj h).2 ▸ List.mem_cons_self)
      refine iff_of_true ?_ hnot
      by_cases hc : c = '/' <;> simp [hc]
    | some before =>
      have hafter := beforeSlash?_eq_some hbefore
      have hname := noSlash_afterSlash trimmed
      generalize afterSlash trimmed = name at hafter hname
      subst hafter
      have hlast := afterSlash_slash (c :: before) hname
      rw [List.cons_append] at hlast
      rw [hlast]
      by_cases hdouble : c = '/' ∧ before = []
      · obtain ⟨rfl, rfl⟩ := hdouble
        simp
      · simp [hdouble]

/-! ## Agreement -/

/-- What a helper of option literals makes of texts. -/
def readCall (directory : List Char) : Helper → List (List Char) → Option (List Char)
  | .string, args => some (args.head?.getD [])
  | .join, args => some (joinChars args)
  | .resolve, args => some (resolveChars directory args)
  | .dirname, p :: _ => some (dirnameChars p)
  | .basename, p :: rest => some (withoutEnding (basenameChars p) (rest.head?.getD []))
  | .extname, p :: _ => some (extnameChars p)
  | _, [] => none

theorem join_eq_iff (paths : List (List Char)) :
    join paths = joinChars paths ↔ ¬ Deviates .join paths := by
  rw [join_eq, Deviates]
  split
  · rename_i h
    exact iff_of_false (by simp) (not_not.2 h)
  · rename_i h
    exact iff_of_true rfl h

theorem extname_eq_iff (p : List Char) (rest : List (List Char)) :
    extname p = extnameChars p ↔ ¬ Deviates .extname (p :: rest) := by
  rw [extname_eq, Deviates]
  split
  · rename_i h
    rw [extnameChars, h]
    decide
  · rename_i h
    exact iff_of_true rfl h

theorem call_eq_iff {directory : List Char} (hd : directory ≠ []) (h : Helper)
    (args : List (List Char)) :
    readCall directory h args = call directory h args ↔ ¬ Deviates h args := by
  cases h with
  | string => exact iff_of_true rfl id
  | join => rw [readCall, call, Option.some_inj, eq_comm, join_eq_iff]
  | resolve => exact iff_of_true (congrArg some (resolve_eq hd args).symm) id
  | dirname =>
    cases args with
    | nil => exact iff_of_true rfl id
    | cons p rest =>
      rw [readCall, call, Option.some_inj, eq_comm, dirname_eq_iff, Deviates]
  | basename =>
    match args with
    | [] => exact iff_of_true rfl id
    | [p] =>
      refine iff_of_true ?_ id
      rw [readCall, call, List.head?_nil, Option.getD_none, basename_nil, withoutEnding_nil]
    | p :: ending :: rest =>
      rw [readCall, call, Option.some_inj, eq_comm]
      exact basename_eq_iff p ending
  | extname =>
    cases args with
    | nil => exact iff_of_true rfl id
    | cons p rest => rw [readCall, call, Option.some_inj, eq_comm, extname_eq_iff]

end CommandFiles.Path.Posix

namespace CommandFiles.Literal

theorem pathArguments_strings (h : Helper) (args : List String) :
    pathArguments h (args.map Value.string) = .ok (args.map String.toList) := by
  induction args with
  | nil => rfl
  | cons a rest ih =>
    rw [List.map_cons, pathArguments, ih]
    rfl

theorem applyHelper_strings (directory : String) (h : Helper) (args : List String) :
    (applyHelper directory h (args.map Value.string)).toOption =
      (Path.Posix.readCall directory.toList h (args.map String.toList)).map fun cs =>
        .string (String.ofList cs) := by
  unfold applyHelper
  simp only [firstPath, pathArguments_strings]
  cases h <;> cases args <;>
    simp [Path.Posix.readCall, Except.toOption, Except.map, Except.bind, Value.text]

/-- **A path helper means the same while a literal is read and while the file runs**, exactly for
the arguments that are not of the shapes listed in `Deviates`. -/
theorem applyHelper_eq_call_iff {directory : String} (hd : Path.isAbsolute directory.toList = true)
    (h : Helper) (args : List String) :
    (applyHelper directory h (args.map Value.string)).toOption =
        (Path.Posix.call directory.toList h (args.map String.toList)).map
          (fun cs => .string (String.ofList cs)) ↔
      ¬ Path.Posix.Deviates h (args.map String.toList) := by
  have hne : directory.toList ≠ [] := by
    intro hnil
    rw [hnil] at hd
    cases hd
  have hinj : Function.Injective fun cs => Value.string (String.ofList cs) := by
    intro as bs hab
    exact String.ofList_injective (Value.string.inj hab)
  rw [applyHelper_strings, (Option.map_injective hinj).eq_iff, Path.Posix.call_eq_iff hne]

theorem applyHelper_eq_call_of_dots :
    Path.isAbsolute "/work".toList = true ∧
      (applyHelper "/work" .resolve ([".", "../lib/"].map Value.string)).toOption =
        (Path.Posix.call "/work".toList .resolve ([".", "../lib/"].map String.toList)).map
          (fun cs => .string (String.ofList cs)) :=
  ⟨by decide, (applyHelper_eq_call_iff (by decide) .resolve [".", "../lib/"]).2 id⟩

theorem applyHelper_join_slash :
    applyHelper "/work" .join [.string "a/"] = .ok (.string "a") ∧
      Path.Posix.call "/work".toList .join ["a/".toList] = some "a/".toList :=
  ⟨rfl, by decide⟩

end CommandFiles.Literal
