import CommandFiles.Proofs.MarkedDocuments
import CommandFiles.Proofs.TokenText

/-! # What a hook hands back

A hook prints what it likes, and behind a marker its result as a document on one line. Both are told
apart at the last marker, which is the one in front of the result unless the result holds a marker
itself. No marker overlaps with the next one, so the last marker behind the one in front is the last
marker of the result. Where the result holds none, it comes back and what was printed is passed on;
otherwise a part of the result is printed too. A result that is a text can hold anything: every text
reads back. -/
namespace CommandFiles

/-! ## Splitting at the last mark -/

namespace Hook

variable {mark text before after : List Char}

/-- Whether no end of a mark is the beginning of the mark again. -/
def StandsApart (mark : List Char) : Prop :=
  mark ≠ [] ∧ ∀ part ∈ mark.tail.tails, part <+: mark → part = []

theorem splitAtLast_eq_none (hne : mark ≠ []) :
    splitAtLast mark text = none ↔ ¬ mark <:+: text := by
  induction text with
  | nil => simp [splitAtLast, hne]
  | cons c rest ih =>
    rw [splitAtLast, List.infix_cons_iff, not_or]
    cases hrest : splitAtLast mark rest with
    | none =>
      rw [hrest] at ih
      by_cases hbegins : mark.isPrefixOf (c :: rest) = true
      · simp [hbegins, List.isPrefixOf_iff_prefix.mp hbegins]
      · have hnot := mt List.isPrefixOf_iff_prefix.mpr hbegins
        simp [hbegins, hnot, ih.mp rfl]
    | some parts =>
      rw [hrest] at ih
      have hrest : mark <:+: rest := by simpa using ih
      simp [hrest]

/-- No mark stands behind the last one. -/
theorem not_infix_of_splitAtLast (hne : mark ≠ [])
    (h : splitAtLast mark text = some (before, after)) : ¬ mark <:+: after := by
  induction text generalizing before with
  | nil => cases h
  | cons c rest ih =>
    rw [splitAtLast] at h
    cases hrest : splitAtLast mark rest with
    | some parts =>
      rw [hrest] at h
      cases h
      exact ih hrest
    | none =>
      have hnot := (splitAtLast_eq_none hne).mp hrest
      obtain ⟨m, more, rfl⟩ := List.exists_cons_of_ne_nil hne
      rw [hrest] at h
      dsimp only at h
      split at h
      · cases h
        rw [List.length_cons, List.drop_succ_cons]
        exact fun hm => hnot (hm.trans (List.drop_suffix _ _).isInfix)
      · cases h

/-- What stands in front of a text that has a mark is in front of the mark. -/
theorem splitAtLast_append_of_some (front : List Char)
    (h : splitAtLast mark text = some (before, after)) :
    splitAtLast mark (front ++ text) = some (front ++ before, after) := by
  induction front with
  | nil => exact h
  | cons c rest ih => rw [List.cons_append, splitAtLast, ih, List.cons_append]

/-- Behind the first character of a mark that stands apart, the next mark is one behind the mark. -/
theorem StandsApart.infix_tail_append (h : StandsApart mark) :
    mark <:+: mark.tail ++ after ↔ mark <:+: after := by
  refine ⟨fun hm => ?_, fun hm => hm.trans (List.suffix_append _ _).isInfix⟩
  rcases List.infix_append_iff.mp hm with hm | hm | ⟨part, rest, heq, hpart, hrest⟩
  · -- the rest of the mark is too short
    have hlength := hm.length_le
    have hpos := List.length_pos_iff.mpr h.1
    rw [List.length_tail] at hlength
    omega
  · exact hm
  · obtain rfl := h.2 part ((List.mem_tails _ _).mpr hpart) ⟨rest, heq.symm⟩
    rw [heq]
    exact hrest.isInfix

/-- **A text splits at its last mark**: at the one that is known, or at the last one behind it. -/
theorem splitAtLast_append (h : StandsApart mark) (before after : List Char) :
    splitAtLast mark (before ++ (mark ++ after)) =
      some (((splitAtLast mark after).map fun (more, rest) => (before ++ mark ++ more, rest)).getD
        (before, after)) := by
  cases hafter : splitAtLast mark after with
  | some parts =>
    have hsplit := splitAtLast_append_of_some (before ++ mark) hafter
    rw [List.append_assoc] at hsplit
    exact hsplit
  | none =>
    obtain ⟨c, rest, rfl⟩ := List.exists_cons_of_ne_nil h.1
    have hnot := (splitAtLast_eq_none h.1).mp hafter
    have htail : splitAtLast (c :: rest) (rest ++ after) = none :=
      (splitAtLast_eq_none h.1).mpr (mt h.infix_tail_append.mp hnot)
    have hbegins : (c :: rest).isPrefixOf (c :: (rest ++ after)) = true :=
      List.isPrefixOf_iff_prefix.mpr (List.prefix_append (c :: rest) after)
    have hfirst : splitAtLast (c :: rest) (c :: rest ++ after) = some ([], after) := by
      rw [List.cons_append, splitAtLast, htail]
      simp [hbegins]
    rw [splitAtLast_append_of_some before hfirst, List.append_nil]
    rfl

theorem standsApart_marker : StandsApart marker.toList := by
  unfold StandsApart
  decide

/-! ## The output of a hook -/

/-- What is read of the output of a hook with a result that has no marker in it. -/
theorem splitOutput_of_unmarked {p : String} {v : Json} (h : ¬ IsMarked v.compact) :
    splitOutput (p ++ marker ++ v.compact) = some (p, v.compact) := by
  have hnone := (splitAtLast_eq_none standsApart_marker.1).mpr h
  have hsplit := splitAtLast_append standsApart_marker p.toList v.compact.toList
  rw [hnone] at hsplit
  rw [splitOutput, String.toList_append, String.toList_append, List.append_assoc, hsplit]
  simp [Json.trim_compact]

/-- A marker in the result is taken for the one in front of it. -/
theorem splitOutput_of_marked {p : String} {v : Json} (h : IsMarked v.compact) :
    ∃ more behind, v.compact = more ++ marker ++ behind ∧ ¬ IsMarked behind ∧
      splitOutput (p ++ marker ++ v.compact) =
        some (p ++ marker ++ more, Text.trim behind) := by
  have hsplit := splitAtLast_append standsApart_marker p.toList v.compact.toList
  cases hafter : splitAtLast marker.toList v.compact.toList with
  | none => exact absurd h ((splitAtLast_eq_none standsApart_marker.1).mp hafter)
  | some parts =>
    obtain ⟨more, behind⟩ := parts
    have htext := append_of_splitAtLast hafter
    refine ⟨String.ofList more, String.ofList behind, ?_, ?_, ?_⟩
    · rw [← String.toList_inj, htext]
      simp [String.toList_append]
    · rw [IsMarked, String.toList_ofList]
      exact not_infix_of_splitAtLast standsApart_marker.1 hafter
    · rw [hafter] at hsplit
      rw [splitOutput, String.toList_append, String.toList_append, List.append_assoc, hsplit]
      simp [← String.toList_inj, String.toList_append]

end Hook

/-! ## Texts that read back -/

namespace Json

/-- The escape of a character below `0x20` is read as that character. -/
theorem readUnicode_control {code : Nat} (h : code < 32) (rest : List Char) :
    readUnicode ('0' :: '0' :: Nat.digitChar (code / 16) :: Nat.digitChar (code % 16) :: rest) =
      .ok (Char.ofNat code, rest) := by
  have hall : ∀ n < 32, ['0', '0', Nat.digitChar (n / 16), Nat.digitChar (n % 16)].all
      Number.isHexDigit = true ∧
      Number.ofDigits 16 ['0', '0', Nat.digitChar (n / 16), Nat.digitChar (n % 16)] = n := by
    decide
  obtain ⟨hhex, hvalue⟩ := hall code h
  have hread : readHex
      ('0' :: '0' :: Nat.digitChar (code / 16) :: Nat.digitChar (code % 16) :: rest) =
        .ok (code, rest) := by
    rw [readHex, if_pos hhex, hvalue]
  have hlow : ¬ 0xDC00 ≤ code := by omega
  have hhigh : ¬ 0xD800 ≤ code := by omega
  rw [readUnicode, hread]
  simp only [bind, Except.bind, hlow, hhigh, decide_false, Bool.false_and, Bool.false_eq_true,
    if_false]
  rfl

theorem readChars_escapeChar (c : Char) (n : Nat) (rest : List Char) :
    readChars (n + 1) (escapeChar c ++ rest) =
      (readChars n rest).map fun (more, r) => (c :: more, r) := by
  have hmap : ∀ x : Except ReadFault (List Char × List Char),
      (do let (more, r) ← x; return (c :: more, r)) =
        x.map fun (more, r) => (c :: more, r) := by
    rintro (fault | ⟨more, r⟩) <;> rfl
  have hescaped := escapedAs c
  generalize escapeChar c = text at hescaped
  rw [← hmap]
  cases hescaped with
  | plain hquote hslash hcontrol => simp [readChars, hquote, hslash, hcontrol]
  | letter hread _ =>
    simp only [List.cons_append, List.nil_append, readChars, hread]
    rfl
  | code hcontrol =>
    have hread := readUnicode_control hcontrol rest
    rw [Char.ofNat_toNat] at hread
    simp only [List.cons_append, List.nil_append, readChars, readEscape, hread]
    rfl

theorem readChars_quoted {cs rest : List Char} {n : Nat} (h : cs.length < n) :
    readChars n (cs.flatMap escapeChar ++ '"' :: rest) = .ok (cs, rest) := by
  induction cs generalizing n with
  | nil =>
    obtain ⟨m, rfl⟩ := Nat.exists_eq_succ_of_ne_zero (Nat.ne_of_gt h)
    rfl
  | cons c more ih =>
    obtain ⟨m, rfl⟩ := Nat.exists_eq_succ_of_ne_zero (Nat.ne_of_gt (Nat.zero_lt_of_lt h))
    rw [List.flatMap_cons, List.append_assoc, readChars_escapeChar, ih (Nat.lt_of_succ_lt_succ h)]
    rfl

/-- **Every text reads back** from what is written for it. -/
theorem ofText_quote (s : String) : ofText (quote s) = .ok (.string s) := by
  have hlength := Script.length_le_flatMap_escapeChar s.toList
  have hread : readString (s.toList.flatMap escapeChar ++ ['"']) = .ok (s, []) := by
    rw [readString, readChars_quoted (by rw [List.length_append]; omega)]
    simp [Except.map]
  have hvalue : readValue 128 (quote s).toList = .ok (.string s, []) := by
    rw [quote, String.toList_ofList, List.cons_append, readValue]
    simp [skipBlanks, hread, Except.map]
  rw [ofText, hvalue]
  rfl

end Json

/-! ## Runs of hooks -/

variable {m : Type → Type} [Monad m]

/-- Passes on what a hook printed. -/
def Host.passOn (host : Host m) (text : String) : m Unit :=
  if text ≠ "" then host.print text else pure ()

namespace Interpreter

variable [LawfulMonad m] {n : Interpreter} {host : Host m} {hook : Hook} {i : Invocation}
  {started : m Unit} {output printed result : String}

theorem runHook_of_splitOutput
    (hexit : host.capture (n.launch i (Driver.ofHook hook)) =
      (do started; return .ok ⟨.code 0, output⟩))
    (hsplit : Hook.splitOutput output = some (printed, result)) :
    n.runHook host hook i = (do
      started
      host.passOn printed
      return (Json.ofText result).mapError fun reason =>
        ["hook result is not valid JSON", reason]) := by
  have hsuccess : (ExitStatus.code 0).isSuccess = true := rfl
  simp only [runHook, hexit, bind_assoc, pure_bind, hsuccess, Bool.not_true, Bool.false_eq_true,
    if_false, hsplit, Host.passOn]
  by_cases hprinted : printed = "" <;> simp [hprinted]

/-- **What a hook printed and its result come through**, whatever was printed, unless the marker
stands in one of the texts of the result or in the name of a member. Then the result is cut off at
the last one in it: what stands before that is passed on as if it had been printed, with the marker
that was really in front. -/
theorem runHook_of_result {p : String} {v : Json} (hread : Json.ofText v.compact = .ok v)
    (hexit : host.capture (n.launch i (Driver.ofHook hook)) =
      (do started; return .ok ⟨.code 0, p ++ Hook.marker ++ v.compact⟩)) :
    ((∀ s ∈ v.texts, ¬ Hook.IsMarked s) →
      n.runHook host hook i = (do started; host.passOn p; return .ok v)) ∧
    ((∃ s ∈ v.texts, Hook.IsMarked s) →
      ∃ more behind, v.compact = more ++ Hook.marker ++ behind ∧ ¬ Hook.IsMarked behind ∧
        n.runHook host hook i = (do
          started
          host.passOn (p ++ Hook.marker ++ more)
          return (Json.ofText (Text.trim behind)).mapError fun reason =>
            ["hook result is not valid JSON", reason])) := by
  constructor
  · intro hfree
    have hmark : ¬ Hook.IsMarked v.compact := by
      rw [Json.isMarked_compact]
      simpa using hfree
    rw [runHook_of_splitOutput hexit (Hook.splitOutput_of_unmarked hmark), hread]
    rfl
  · intro hmarked
    obtain ⟨more, behind, htext, hlast, hsplit⟩ :=
      Hook.splitOutput_of_marked (p := p) ((Json.isMarked_compact v).mpr hmarked)
    exact ⟨more, behind, htext, hlast, runHook_of_splitOutput hexit hsplit⟩

/-- An interpreter. -/
def sampleInterpreter : Interpreter := ⟨"node", "/c", .null⟩

/-- Surroundings in which every program prints the same text, and what is passed on is noted. -/
def printing (output : String) : Host (StateM (List String)) where
  absolute path := return .ok path
  capture _ := return .ok ⟨.code 0, output⟩
  start _ := return .ok (.code 0)
  print text := modify (· ++ [text])

theorem capture_printing (output : String) (launch : Launch) :
    (printing output).capture launch = pure () >>= fun _ => pure (.ok ⟨.code 0, output⟩) := rfl

/-- What is seen of a hook that prints a text. -/
def seenOf (output : String) : Except Causes Json × List String :=
  (sampleInterpreter.runHook (printing output) ⟨"(args) => args"⟩ default).run []

/-- A marker in what was printed does no harm. -/
theorem runHook_of_result_behind_marker :
    Json.ofText (Json.array [.string "x"]).compact = .ok (.array [.string "x"]) ∧
      seenOf ("1" ++ Hook.marker ++ "2" ++ Hook.marker ++ (Json.array [.string "x"]).compact) =
        (.ok (.array [.string "x"]), ["1" ++ Hook.marker ++ "2"]) := by
  have hread : Json.ofText (Json.array [.string "x"]).compact = .ok (.array [.string "x"]) := rfl
  refine ⟨hread, ?_⟩
  rw [seenOf, (runHook_of_result hread (capture_printing _ _)).1 (by decide)]
  rfl

/-- A marker in the result is passed on with what stands before it, and the result is lost. -/
theorem result_cut_at_marker :
    Json.ofText (Json.string Hook.marker).compact = .ok (.string Hook.marker) ∧
      seenOf ("1" ++ Hook.marker ++ (Json.string Hook.marker).compact) =
        (.error ["hook result is not valid JSON", "EOF while parsing a string at line 1 column 1"],
          ["1" ++ Hook.marker ++ "\""]) := by
  have hsplit : Hook.splitOutput ("1" ++ Hook.marker ++ (Json.string Hook.marker).compact) =
      some ("1" ++ Hook.marker ++ "\"", "\"") := by decide +kernel
  refine ⟨Json.ofText_quote Hook.marker, ?_⟩
  rw [seenOf, runHook_of_splitOutput (capture_printing _ _) hsplit]
  rfl

end Interpreter

end CommandFiles
