import CommandFiles.Action.Interpreter
import Mathlib.Data.List.Infix

/-! # Documents with a marker

The marker in front of the result of a hook begins and ends with characters that keep it apart from
what is written around the texts of a document: escapes, quotes, separators and numbers. So it
stands in a document exactly if it stands in one of its texts or in the name of a member. Neither
end of a document is blank, so nothing is lost where the blanks around it are dropped. -/
namespace CommandFiles

namespace Hook

variable {front text : List Char}

/-! ## Texts with a marker -/

/-- Whether the marker stands in a text. -/
def IsMarked (text : String) : Prop := marker.toList <:+: text.toList

instance (text : String) : Decidable (IsMarked text) :=
  inferInstanceAs (Decidable (marker.toList <:+: text.toList))

theorem not_infix_of_not_mem (h : '_' ∉ text) : ¬ marker.toList <:+: text :=
  fun hm => h (hm.subset (by decide))

/-- The marker does not begin where it cannot begin. -/
theorem infix_append_iff_right (h : '_' ∉ front) :
    marker.toList <:+: front ++ text ↔ marker.toList <:+: text := by
  refine ⟨fun hm => ?_, fun hm => hm.trans (List.suffix_append _ _).isInfix⟩
  rcases List.infix_append_iff.mp hm with hm | hm | ⟨part, rest, heq, hpart, hrest⟩
  · exact absurd hm (not_infix_of_not_mem h)
  · exact hm
  · cases part with
    | nil =>
      rw [heq]
      exact hrest.isInfix
    | cons c more =>
      have hc : '_' = c := (List.cons.inj heq).1
      exact absurd (hpart.subset (hc ▸ List.mem_cons_self)) h

/-- A character that is not in the marker keeps apart what stands around it. -/
theorem infix_append_cons_iff {c : Char} (h : c ∉ marker.toList) :
    marker.toList <:+: front ++ c :: text ↔
      marker.toList <:+: front ∨ marker.toList <:+: text := by
  constructor
  · intro hm
    rcases List.infix_append_iff.mp hm with hm | hm | ⟨part, rest, heq, hpart, hrest⟩
    · exact .inl hm
    · rcases List.infix_cons_iff.mp hm with hm | hm
      · exact absurd ((List.cons_prefix_cons.mp hm).1 ▸ by decide) h
      · exact .inr hm
    · cases rest with
      | nil =>
        rw [heq, List.append_nil]
        exact .inl hpart.isInfix
      | cons d more =>
        have hd : d = c := (List.cons_prefix_cons.mp hrest).1
        exact absurd (heq ▸ by simp [hd]) h
  · rintro (hm | hm)
    · exact hm.trans (List.prefix_append _ _).isInfix
    · exact hm.trans ((List.suffix_cons _ _).trans (List.suffix_append _ _)).isInfix

end Hook

/-! ## Texts in documents -/

namespace Json

open Hook (marker IsMarked)

mutual

/-- The texts of a document and the names of its members, at any depth. -/
def texts : Json → List String
  | .string s => [s]
  | .array items => textsOfItems items
  | .object members => textsOfMembers members
  | _ => []

/-- The texts of items. -/
def textsOfItems : List Json → List String
  | [] => []
  | j :: rest => texts j ++ textsOfItems rest

/-- The names and the texts of members. -/
def textsOfMembers : List (String × Json) → List String
  | [] => []
  | (k, j) :: rest => k :: texts j ++ textsOfMembers rest

end

/-- How a character is written: as it is, or as an escape by a letter or by its code. -/
inductive EscapedAs (c : Char) : List Char → Prop where
  | plain : c ≠ '"' → c ≠ '\\' → ¬ c.toNat < 32 → EscapedAs c [c]
  | letter {e : Char} : (∀ rest, readEscape (e :: rest) = .ok (c, rest)) → '_' ≠ e →
      EscapedAs c ['\\', e]
  | code : c.toNat < 32 → EscapedAs c
      ['\\', 'u', '0', '0', Nat.digitChar (c.toNat / 16), Nat.digitChar (c.toNat % 16)]

theorem escapedAs (c : Char) : EscapedAs c (escapeChar c) := by
  have hletter : ∀ d e : Char, (∀ rest, readEscape (e :: rest) = .ok (d, rest)) → '_' ≠ e →
      (c == d) = true → EscapedAs c ['\\', e] := by
    intro d e hread hmark hd
    obtain rfl := eq_of_beq hd
    exact .letter hread hmark
  unfold escapeChar
  split_ifs with hquote hslash hfeed hreturn htab hback hform hcontrol
  · exact hletter '"' '"' (fun _ => rfl) (by decide) hquote
  · exact hletter '\\' '\\' (fun _ => rfl) (by decide) hslash
  · exact hletter '\n' 'n' (fun _ => rfl) (by decide) hfeed
  · exact hletter '\r' 'r' (fun _ => rfl) (by decide) hreturn
  · exact hletter '\t' 't' (fun _ => rfl) (by decide) htab
  · exact hletter '\x08' 'b' (fun _ => rfl) (by decide) hback
  · exact hletter '\x0c' 'f' (fun _ => rfl) (by decide) hform
  · exact .code hcontrol
  · exact .plain (by simpa using hquote) (by simpa using hslash) hcontrol

/-- No marker begins in an escape. -/
theorem escapeChar_cases (c : Char) :
    escapeChar c = [c] ∨ ∃ more, escapeChar c = '\\' :: more ∧ '_' ∉ more := by
  have hdigit : ∀ n < 16, '_' ≠ Nat.digitChar n := by decide
  have hescaped := escapedAs c
  generalize escapeChar c = text at hescaped
  cases hescaped with
  | plain _ _ _ => exact .inl rfl
  | letter _ hmark => exact .inr ⟨_, rfl, by simpa using hmark⟩
  | code hcontrol =>
    refine .inr ⟨_, rfl, ?_⟩
    simp only [List.mem_cons, List.not_mem_nil, or_false, not_or]
    exact ⟨by decide, by decide, by decide, hdigit _ (by omega), hdigit _ (by omega)⟩

theorem prefix_of_prefix_escaped {part cs : List Char} (hslash : '\\' ∉ part)
    (h : part <+: cs.flatMap escapeChar) : part <+: cs := by
  induction cs generalizing part with
  | nil => exact h
  | cons c rest ih =>
    cases part with
    | nil => exact List.nil_prefix
    | cons p more =>
      rw [List.mem_cons, not_or] at hslash
      rw [List.flatMap_cons] at h
      rcases escapeChar_cases c with hc | ⟨escape, hc, -⟩
      · rw [hc, List.singleton_append, List.cons_prefix_cons] at h
        exact List.cons_prefix_cons.mpr ⟨h.1, ih hslash.2 h.2⟩
      · rw [hc, List.cons_append, List.cons_prefix_cons] at h
        exact absurd h.1.symm hslash.1

/-- Escapes neither make a marker nor break one. -/
theorem infix_escaped_iff (cs : List Char) :
    marker.toList <:+: cs.flatMap escapeChar ↔ marker.toList <:+: cs := by
  constructor
  · intro h
    induction cs with
    | nil => exact h
    | cons c rest ih =>
      rw [List.flatMap_cons] at h
      rcases escapeChar_cases c with hc | ⟨escape, hc, hfree⟩
      · rw [hc, List.singleton_append] at h
        rcases List.infix_cons_iff.mp h with hbegins | hrest
        · rw [← List.singleton_append, ← hc, ← List.flatMap_cons] at hbegins
          exact (prefix_of_prefix_escaped (by decide) hbegins).isInfix
        · exact List.infix_cons (ih hrest)
      · have hnone : '_' ∉ '\\' :: escape := by simp [hfree]
        rw [hc, Hook.infix_append_iff_right hnone] at h
        exact List.infix_cons (ih h)
  · rintro ⟨before, after, rfl⟩
    have hsame : marker.toList.flatMap escapeChar = marker.toList := by decide
    rw [List.flatMap_append, List.flatMap_append, hsame]
    exact List.infix_append _ _ _

/-- The quotes around a text keep it apart from what is written behind it. -/
theorem infix_quote_append_iff {s : String} (behind : List Char) :
    marker.toList <:+: (quote s).toList ++ behind ↔
      IsMarked s ∨ marker.toList <:+: behind := by
  have htext : (quote s).toList ++ behind =
      ['"'] ++ (s.toList.flatMap escapeChar ++ '"' :: behind) := by
    simp [quote]
  rw [htext, Hook.infix_append_iff_right (by decide), Hook.infix_append_cons_iff (by decide),
    infix_escaped_iff, IsMarked]

theorem isMarked_quote (s : String) : IsMarked (quote s) ↔ IsMarked s := by
  have hquote := infix_quote_append_iff (s := s) []
  have hnil : ¬ marker.toList <:+: [] := by decide
  rwa [List.append_nil, or_iff_left hnil] at hquote

theorem isMarked_member (key text : String) :
    IsMarked (quote key ++ ":" ++ text) ↔ IsMarked key ∨ IsMarked text := by
  -- The colon could be the last character of a marker, but not behind a quote.
  have htext : (quote key ++ ":" ++ text).toList =
      (quote key).toList ++ ([':'] ++ text.toList) := by
    simp [String.toList_append]
  rw [IsMarked, htext, infix_quote_append_iff, Hook.infix_append_iff_right (by decide), IsMarked,
    IsMarked]

/-- A marker does not begin in a separator and does not go across it. -/
theorem isMarked_intercalate (texts : List String) :
    IsMarked (",".intercalate texts) ↔ ∃ t ∈ texts, IsMarked t := by
  induction texts with
  | nil => simp [IsMarked, marker]
  | cons t rest ih =>
    cases rest with
    | nil => simp
    | cons u more =>
      have htext : (t ++ "," ++ ",".intercalate (u :: more)).toList =
          t.toList ++ ',' :: (",".intercalate (u :: more)).toList := by
        simp [String.toList_append]
      rw [String.intercalate_cons_cons, IsMarked, htext, Hook.infix_append_cons_iff (by decide),
        List.exists_mem_cons_iff]
      exact or_congr_right ih

theorem toList_bracketed (left right : Char) (text : String) :
    (left.toString ++ text ++ right.toString).toList = left :: text.toList ++ [right] := by
  simp [String.toList_append]

/-- Brackets around a text neither make a marker nor break one. -/
theorem isMarked_bracketed (left right : Char) (text : String) (hleft : '_' ≠ left)
    (hright : right ∉ marker.toList) :
    IsMarked (left.toString ++ text ++ right.toString) ↔ IsMarked text := by
  have hnil : ¬ marker.toList <:+: [] := by decide
  have hfront : '_' ∉ [left] := by simpa using hleft
  rw [IsMarked, toList_bracketed, List.cons_append, ← List.singleton_append,
    Hook.infix_append_iff_right hfront, Hook.infix_append_cons_iff hright, or_iff_left hnil,
    IsMarked]

/-! ## Numbers -/

/-- What numbers are written with apart from digits. -/
def numeralMarks : List Char := ['+', '-', '.', 'e', 'i', 'n', 'f', 'N', 'a']

/-- Whether a character is one that numbers are written with. -/
def isNumeric (c : Char) : Bool := c.isDigit || numeralMarks.contains c

/-- Whether a text has only characters that numbers are written with. -/
def IsNumeral (text : String) : Prop := text.toList.all isNumeric = true

variable {text : String}

theorem isNumeric_of_isDigit {c : Char} (h : c.isDigit = true) : isNumeric c = true := by
  simp [isNumeric, h]

theorem IsNumeral.append {other : String} (h : IsNumeral text) (hother : IsNumeral other) :
    IsNumeral (text ++ other) := by
  rw [IsNumeral, String.toList_append, List.all_append, Bool.and_eq_true]
  exact ⟨h, hother⟩

theorem isNumeral_ofList {cs : List Char} (h : ∀ c ∈ cs, isNumeric c = true) :
    IsNumeral (String.ofList cs) := by
  rw [IsNumeral, String.toList_ofList]
  exact List.all_eq_true.mpr h

theorem isNumeric_of_mem_toDigits {n : Nat} {c : Char} (h : c ∈ Nat.toDigits 10 n) :
    isNumeric c = true :=
  isNumeric_of_isDigit (Nat.isDigit_of_mem_toDigits (by decide) (by decide) h)

theorem isNumeral_nat (n : Nat) : IsNumeral (toString n) := by
  rw [Nat.toString_eq_ofList_toDigits]
  exact isNumeral_ofList fun _ => isNumeric_of_mem_toDigits

theorem isNumeral_int (n : Int) : IsNumeral (toString n) := by
  rw [Int.toString_eq_repr, Int.repr_eq_if]
  split
  · exact isNumeral_nat _
  · exact IsNumeral.append rfl (isNumeral_nat _)

/-- The places of a number are digits, with a point between them or zeros around them. -/
theorem isNumeral_write {l : Number.Layout} (h : IsNumeral l.wholeSuffix) (d : Number.Decimal) :
    IsNumeral (l.write d) := by
  have hdigits : ∀ c ∈ Nat.toDigits 10 d.digits, isNumeric c = true :=
    fun _ => isNumeric_of_mem_toDigits
  have hzeros : ∀ n, ∀ c ∈ List.replicate n '0', isNumeric c = true := by
    intro n c hc
    rw [List.eq_of_mem_replicate hc]
    rfl
  unfold Number.Layout.write
  generalize Nat.toDigits 10 d.digits = ds at hdigits
  dsimp only
  split
  · split
    · refine (isNumeral_ofList fun c hc => ?_).append h
      exact (List.mem_append.mp hc).elim (hdigits c) (hzeros _ c)
    · split
      · refine isNumeral_ofList fun c hc => ?_
        rcases List.mem_append.mp hc with hc | hc
        · exact hdigits c (List.mem_of_mem_take hc)
        · rcases List.mem_cons.mp hc with rfl | hc
          · rfl
          · exact hdigits c (List.mem_of_mem_drop hc)
      · refine isNumeral_ofList fun c hc => ?_
        rcases List.mem_append.mp hc with hc | hc
        · rcases List.mem_cons.mp hc with rfl | hc
          · rfl
          rcases List.mem_cons.mp hc with rfl | hc
          · rfl
          · exact hzeros _ c hc
        · exact hdigits c hc
  · refine ((isNumeral_ofList fun c hc => ?_).append ?_).append (isNumeral_nat _)
    · rcases ds with _ | ⟨first, _ | ⟨second, rest⟩⟩
      · cases hc
      · exact hdigits c hc
      · rcases List.mem_cons.mp hc with rfl | hc
        · exact hdigits _ List.mem_cons_self
        rcases List.mem_cons.mp hc with rfl | hc
        · rfl
        · exact hdigits c (List.mem_cons_of_mem _ hc)
    · split <;> rfl

theorem isNumeral_float (x : Float) : IsNumeral (Number.Layout.data.writeFloat x) := by
  have hzero : IsNumeral "0" := rfl
  have hsuffix : IsNumeral Number.Layout.data.wholeSuffix := rfl
  have hsign : ∀ negative : Bool, IsNumeral (if negative then "-" else "") := by
    intro negative
    cases negative <;> rfl
  unfold Number.Layout.writeFloat
  split
  · dsimp only
    split
    · exact ((hsign _).append hzero).append hsuffix
    · exact (hsign _).append (isNumeral_write hsuffix _)
  · split <;> rfl
  · rfl

theorem IsNumeral.not_isMarked (h : IsNumeral text) : ¬ IsMarked text := by
  refine Hook.not_infix_of_not_mem fun hmem => ?_
  have hmark : isNumeric '_' = true := List.all_eq_true.mp h '_' hmem
  revert hmark
  decide

theorem IsNumeral.not_isBlank (h : IsNumeral text) {c : Char} (hc : c ∈ text.toList) :
    Text.isBlank c = false := by
  rcases Bool.or_eq_true_iff.mp (List.all_eq_true.mp h c hc) with hdigit | hmark
  · have hcode : 48 ≤ c.toNat ∧ c.toNat ≤ 57 := by
      rw [Char.isDigit, Bool.and_eq_true, decide_eq_true_eq, decide_eq_true_eq] at hdigit
      exact hdigit
    unfold Text.isBlank
    simp only [Bool.or_eq_false_iff, Bool.and_eq_false_iff, decide_eq_false_iff_not,
      beq_eq_false_iff_ne]
    omega
  · have hmarks : numeralMarks.all (fun c => !Text.isBlank c) = true := rfl
    simpa using List.all_eq_true.mp hmarks c (List.contains_iff_mem.mp hmark)

/-! ## Documents -/

mutual

/-- **The marker stands in a document exactly if it stands in one of its texts.** -/
theorem isMarked_compact : ∀ j : Json, IsMarked j.compact ↔ ∃ s ∈ j.texts, IsMarked s
  | .null => iff_of_false (by rw [compact]; decide) nofun
  | .bool b => iff_of_false (by rw [compact]; revert b; decide) nofun
  | .int n => iff_of_false (isNumeral_int n).not_isMarked nofun
  | .float x => iff_of_false (isNumeral_float x).not_isMarked nofun
  | .string s => by simp [compact, texts, isMarked_quote]
  | .array items => by
    have hbracketed := isMarked_bracketed '[' ']' (",".intercalate (compactItems items))
      (by decide) (by decide)
    rw [compact, texts, ← isMarked_items items, ← isMarked_intercalate]
    exact hbracketed
  | .object members => by
    have hbracketed := isMarked_bracketed '\x7b' '\x7d' (",".intercalate (compactMembers members))
      (by decide) (by decide)
    rw [compact, texts, ← isMarked_members members, ← isMarked_intercalate]
    exact hbracketed

theorem isMarked_items : ∀ items : List Json,
    (∃ t ∈ compactItems items, IsMarked t) ↔ ∃ s ∈ textsOfItems items, IsMarked s
  | [] => by simp [compactItems, textsOfItems]
  | j :: rest => by
    rw [compactItems, textsOfItems, List.exists_mem_cons_iff, isMarked_compact j,
      isMarked_items rest]
    simp only [List.mem_append, or_and_right, exists_or]

theorem isMarked_members : ∀ members : List (String × Json),
    (∃ t ∈ compactMembers members, IsMarked t) ↔ ∃ s ∈ textsOfMembers members, IsMarked s
  | [] => by simp [compactMembers, textsOfMembers]
  | (k, j) :: rest => by
    rw [compactMembers, textsOfMembers, List.exists_mem_cons_iff, isMarked_member,
      isMarked_compact j, isMarked_members rest]
    simp only [List.cons_append, List.exists_mem_cons_iff, List.mem_append, or_and_right, exists_or,
      or_assoc]

end

/-! ## Ends of documents -/

theorem dropWhile_isBlank {cs : List Char} (h : ∀ c ∈ cs.head?, Text.isBlank c = false) :
    cs.dropWhile Text.isBlank = cs := by
  cases cs with
  | nil => rfl
  | cons c rest => exact List.dropWhile_cons_of_neg (by simp [h c rfl])

theorem trim_eq_self (hfirst : ∀ c ∈ text.toList.head?, Text.isBlank c = false)
    (hlast : ∀ c ∈ text.toList.getLast?, Text.isBlank c = false) : Text.trim text = text := by
  rw [← List.head?_reverse] at hlast
  rw [Text.trim, Text.trimList, dropWhile_isBlank hfirst, dropWhile_isBlank hlast,
    List.reverse_reverse, String.ofList_toList]

theorem IsNumeral.trim (h : IsNumeral text) : Text.trim text = text :=
  trim_eq_self (fun _ hc => h.not_isBlank (List.mem_of_mem_head? hc))
    (fun _ hc => h.not_isBlank (List.mem_of_getLast? hc))

theorem trim_bracketed (left right : Char) (text : String) (hleft : Text.isBlank left = false)
    (hright : Text.isBlank right = false) :
    Text.trim (left.toString ++ text ++ right.toString) =
      left.toString ++ text ++ right.toString := by
  apply trim_eq_self
  · simp [hleft]
  · simp [hright, List.getLast?_cons]

/-- No end of a document is blank. -/
theorem trim_compact (j : Json) : Text.trim j.compact = j.compact := by
  cases j with
  | null => decide
  | bool b => revert b; decide
  | int n => exact (isNumeral_int n).trim
  | float x => exact (isNumeral_float x).trim
  | string s =>
    have hquote : quote s =
        '"'.toString ++ String.ofList (s.toList.flatMap escapeChar) ++ '"'.toString := by
      rw [← String.toList_inj, toList_bracketed, String.toList_ofList, quote, String.toList_ofList]
    rw [compact, hquote]
    exact trim_bracketed _ _ _ (by decide) (by decide)
  | array items => exact trim_bracketed '[' ']' _ (by decide) (by decide)
  | object members => exact trim_bracketed '\x7b' '\x7d' _ (by decide) (by decide)

end Json

end CommandFiles
