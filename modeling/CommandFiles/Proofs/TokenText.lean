import CommandFiles.Script.Token.Scan
import CommandFiles.Value.Source
import Mathlib.Data.List.TakeWhile

/-! # Texts of tokens

Words, marks, quoted texts and numbers are scanned as what they are, whatever follows them, as long
as it does not run into them. Blanks between two tokens are skipped. -/
namespace CommandFiles.Script

open CommandFiles.Text CommandFiles.Number

/-! ## Digits -/

theorem toNat_of_isDigit {c : Char} (h : c.isDigit = true) : 48 ≤ c.toNat ∧ c.toNat < 58 := by
  simp only [Char.isDigit, Bool.and_eq_true, decide_eq_true_eq, ge_iff_le, UInt32.le_iff_toNat_le]
    at h
  change 48 ≤ c.val.toNat ∧ c.val.toNat < 58
  have h1 : '0'.val.toNat = 48 := rfl
  have h2 : '9'.val.toNat = 57 := rfl
  omega

theorem isIdentifierStart_of_isDigit {c : Char} (h : c.isDigit = true) :
    isIdentifierStart c = false := by
  have hall : ∀ n < 58, 48 ≤ n → isIdentifierStart (Char.ofNat n) = false := by decide
  obtain ⟨hlow, hhigh⟩ := toNat_of_isDigit h
  simpa using hall c.toNat hhigh hlow

theorem isDigit_of_isIdentifierStart {c : Char} (h : isIdentifierStart c = true) :
    c.isDigit = false := by
  cases hd : c.isDigit with
  | false => rfl
  | true => rw [isIdentifierStart_of_isDigit hd] at h; cases h

/-! ## First characters -/

/-- A character that begins no template, private name or member tells by its class what is
scanned. -/
theorem scanToken_cons {c : Char} (hc : c ∉ ['`', '#', '.']) (rest : List Char) :
    scanToken (c :: rest) =
      if c == '"' || c == '\'' then
        (scanString (c :: rest) c (rest.length + 1) rest).map fun (ds, r) =>
          (.string (Decoded.text ds), r)
      else if c.isDigit then scanNumber (c :: rest)
      else if isIdentifierStart c || c == '\\' then
        (scanWord (c :: rest)).map fun ((w, escaped), r) => (.word w escaped, r)
      else scanMark (c :: rest) := by
  simp only [List.mem_cons, List.not_mem_nil, or_false, not_or] at hc
  obtain ⟨hpiece, hhash, hdot⟩ := hc
  unfold scanToken
  split
  · rename_i h; cases h
  · rename_i h; exact absurd (List.cons.inj h).1 hpiece
  · rename_i h; exact absurd (List.cons.inj h).1 hhash
  · rename_i h; exact absurd (List.cons.inj h).1 hdot
  · rename_i h
    obtain ⟨rfl, rfl⟩ := List.cons.inj h
    rfl

/-! ## Words -/

/-- Whether a character can stand in a word behind its first one. -/
def isWordPart (c : Char) : Bool := isIdentifierPart c || c == '\u200C' || c == '\u200D'

/-- Whether a text cannot continue a word before it. -/
def EndsWord (rest : List Char) : Prop :=
  ∀ c more, rest = c :: more → isWordPart c = false ∧ c ≠ '\\'

/-- Whether a text is a word without escapes. -/
structure IsWord (cs : List Char) : Prop where
  head : ∃ c more, cs = c :: more ∧ isIdentifierStart c = true
  parts : ∀ c ∈ cs, isWordPart c = true

instance (cs : List Char) : Decidable (IsWord cs) :=
  decidable_of_iff (cs.head?.any isIdentifierStart = true ∧ cs.all isWordPart = true) <| by
    constructor
    · rintro ⟨hhead, hparts⟩
      cases cs with
      | nil => cases hhead
      | cons c more => exact ⟨⟨c, more, rfl, hhead⟩, List.all_eq_true.mp hparts⟩
    · rintro ⟨⟨c, more, rfl, hhead⟩, hparts⟩
      exact ⟨hhead, List.all_eq_true.mpr hparts⟩

theorem scanWordFrom_cons {c : Char} (hc : isWordPart c = true) (n : Nat) (rest : List Char) :
    scanWordFrom (n + 1) (c :: rest) =
      (scanWordFrom n rest).map fun ((cs, escaped), r) => ((c :: cs, escaped), r) := by
  have hne : c ≠ '\\' := by rintro rfl; exact absurd hc (by decide)
  rw [scanWordFrom.eq_def]
  split
  · rename_i h; cases h
  · rename_i h; exact absurd (List.cons.inj h).1 hne
  · rename_i h hcs
    obtain ⟨rfl, rfl⟩ := List.cons.inj hcs
    cases h
    exact if_pos hc
  · rename_i h; cases h

theorem scanWordFrom_end {rest : List Char} (h : EndsWord rest) (n : Nat) :
    scanWordFrom n rest = .ok (([], false), rest) := by
  cases n with
  | zero => rfl
  | succ n =>
    cases rest with
    | nil => rfl
    | cons c more =>
      obtain ⟨hc, hne⟩ := h c more rfl
      rw [scanWordFrom.eq_def]
      split
      · rfl
      · rename_i h; exact absurd (List.cons.inj h).1 hne
      · rename_i h hcs
        obtain ⟨rfl, rfl⟩ := List.cons.inj hcs
        change isWordPart _ = false at hc
        have hpart : (isIdentifierPart c || c == '\u200C' || c == '\u200D') = false := hc
        simp [hpart, hne]
      · rename_i h; cases h

theorem scanWordFrom_append {cs rest : List Char} (hcs : ∀ c ∈ cs, isWordPart c = true)
    (hrest : EndsWord rest) (n : Nat) :
    scanWordFrom (cs.length + n) (cs ++ rest) = .ok ((cs, false), rest) := by
  induction cs with
  | nil => exact scanWordFrom_end hrest _
  | cons c more ih =>
    have hmore := ih fun d hd => hcs d (List.mem_cons_of_mem c hd)
    rw [List.length_cons, Nat.add_right_comm, List.cons_append,
      scanWordFrom_cons (hcs c List.mem_cons_self), hmore]
    rfl

theorem endsWord_dot (cs : List Char) : EndsWord ('.' :: cs) := by
  intro c more h
  obtain ⟨rfl, _⟩ := List.cons.inj h
  exact ⟨by decide, by decide⟩

theorem endsWord_blank (cs : List Char) : EndsWord (' ' :: cs) := by
  intro c more hc
  obtain ⟨rfl, _⟩ := List.cons.inj hc
  exact ⟨by decide, by decide⟩

theorem scanToken_word {cs rest : List Char} (hcs : IsWord cs) (hrest : EndsWord rest) :
    scanToken (cs ++ rest) = .ok (.word (String.ofList cs) false, rest) := by
  obtain ⟨c, more, rfl, hc⟩ := hcs.head
  have hscan : scanWord (c :: more ++ rest) = .ok ((String.ofList (c :: more), false), rest) := by
    have h := scanWordFrom_append hcs.parts hrest (rest.length + 1)
    rw [← Nat.add_assoc, ← List.length_append] at h
    rw [scanWord, h]
    simp only [Except.bind, hc, if_true]
  have hne : ∀ d : Char, isIdentifierStart d = false → c ≠ d := by
    rintro d hd rfl
    rw [hc] at hd
    cases hd
  have hquote : (c == '"' || c == '\'') = false := by
    simp [hne '"' (by decide), hne '\'' (by decide)]
  have hfirst : c ∉ ['`', '#', '.'] := by
    simp [hne '`' (by decide), hne '#' (by decide), hne '.' (by decide)]
  rw [List.cons_append] at hscan ⊢
  rw [scanToken_cons hfirst, hquote, isDigit_of_isIdentifierStart hc, hc, hscan]
  rfl

/-! ## Marks -/

/-- The marks that literals are made of, as they are written. Nothing that follows one of them makes
another mark of it. -/
def literalMarks : List (Char × Mark) :=
  [(',', .comma), (']', .bracketClose), ('}', .braceClose), (')', .parenClose), (':', .colon),
    (';', .semicolon), ('[', .bracketOpen), ('{', .braceOpen)]

/-- A character that begins no other token begins a mark. -/
theorem scanToken_eq_scanMark {c : Char} (hc : c ∉ ['`', '#', '.', '"', '\'', '\\'])
    (hdigit : c.isDigit = false) (hstart : isIdentifierStart c = false) (rest : List Char) :
    scanToken (c :: rest) = scanMark (c :: rest) := by
  simp only [List.mem_cons, List.not_mem_nil, or_false, not_or] at hc
  obtain ⟨hpiece, hhash, hdot, hdouble, hsingle, hslash⟩ := hc
  have hquote : (c == '"' || c == '\'') = false := by simp [hdouble, hsingle]
  have hword : (c == '\\') = false := by simp [hslash]
  rw [scanToken_cons (by simp [hpiece, hhash, hdot]), hquote, hdigit, hstart, hword]
  rfl

theorem scanToken_literalMark {c : Char} {m : Mark} (h : (c, m) ∈ literalMarks)
    (rest : List Char) : scanToken (c :: rest) = .ok (.mark m, rest) := by
  have hall : ∀ p ∈ literalMarks, p.1 ∉ ['`', '#', '.', '"', '\'', '\\'] ∧
      p.1.isDigit = false ∧ isIdentifierStart p.1 = false := by decide
  obtain ⟨hc, hdigit, hstart⟩ := hall _ h
  rw [scanToken_eq_scanMark hc hdigit hstart]
  simp only [literalMarks, List.mem_cons, List.not_mem_nil, or_false, Prod.mk.injEq] at h
  rcases h with ⟨rfl, rfl⟩ | ⟨rfl, rfl⟩ | ⟨rfl, rfl⟩ | ⟨rfl, rfl⟩ | ⟨rfl, rfl⟩ | ⟨rfl, rfl⟩ |
    ⟨rfl, rfl⟩ | ⟨rfl, rfl⟩ <;> simp [scanMark, Mark.spellings, dropStart?]

/-- A minus that is followed by neither a minus nor an equals sign is a mark of its own. -/
theorem scanToken_minus {rest : List Char}
    (h : ∀ c more, rest = c :: more → c ≠ '-' ∧ c ≠ '=') :
    scanToken ('-' :: rest) = .ok (.mark .minus, rest) := by
  rw [scanToken_eq_scanMark (by decide) (by decide) (by decide)]
  cases rest with
  | nil => rfl
  | cons c more =>
    obtain ⟨hminus, hequals⟩ := h c more rfl
    simp [scanMark, Mark.spellings, dropStart?, hminus.symm, hequals.symm]

/-- A point before a word is the mark of a member. -/
theorem scanToken_dot {cs : List Char} (hcs : IsWord cs) (rest : List Char) :
    scanToken ('.' :: (cs ++ rest)) = .ok (.mark .dot, cs ++ rest) := by
  obtain ⟨c, more, rfl, hc⟩ := hcs.head
  have hdigit : c.isDigit = false := isDigit_of_isIdentifierStart hc
  have hdot : ¬ '.' = c := by rintro rfl; exact absurd hc (by decide)
  simp [scanToken, hdigit, scanMark, Mark.spellings, dropStart?, hdot]

theorem scanToken_arrow (rest : List Char) :
    scanToken ('=' :: '>' :: rest) = .ok (.mark .arrow, rest) := by
  rw [scanToken_eq_scanMark (by decide) (by decide) (by decide)]
  simp [scanMark, Mark.spellings, dropStart?]

/-! ## Quoted texts -/

/-- The escape of a character below `0x20` stands for it, whatever follows. -/
theorem unicodeEscape?_control {code : Nat} (h : code < 32) (rest : List Char) :
    unicodeEscape? ('0' :: '0' :: Nat.digitChar (code / 16) :: Nat.digitChar (code % 16) :: rest) =
      some (.char (Char.ofNat code), rest) := by
  have hcode : hexCode? '0' '0' (Nat.digitChar (code / 16)) (Nat.digitChar (code % 16)) =
      some code := by
    have hall : ∀ n < 32, hexCode? '0' '0' (Nat.digitChar (n / 16)) (Nat.digitChar (n % 16)) =
        some n := by decide
    exact hall code h
  have hpair : ∀ low, pairCode? code low = none := by
    intro low
    have hlow : ¬ 0xD800 ≤ code := by omega
    simp [pairCode?, hlow]
  have hof : Decoded.ofCode code = .char (Char.ofNat code) := by
    have hlow : ¬ 0xD800 ≤ code := by omega
    simp [Decoded.ofCode, hlow]
  unfold unicodeEscape?
  split
  · rename_i h
    exact absurd (List.cons.inj h).1 (by decide)
  · rename_i h
    simp only [List.cons.injEq] at h
    obtain ⟨rfl, rfl, rfl, rfl, rfl⟩ := h
    rw [hcode, Option.bind_eq_bind, Option.bind_some]
    split
    · rename_i e f g k more
      have hnone : (hexCode? e f g k).bind (pairCode? code) = none := by
        cases hexCode? e f g k with
        | none => rfl
        | some low => exact hpair low
      rw [hnone, hof]
      rfl
    · rw [hof]
  · rename_i h
    exact absurd rfl (h _ _ _ _ _)

theorem scanString_escapeChar (opened : List Char) (c : Char) (n : Nat) (rest : List Char) :
    scanString opened '"' (n + 1) (Json.escapeChar c ++ rest) =
      (scanString opened '"' n rest).map fun (more, r) => (.char c :: more, r) := by
  by_cases hquote : c = '"'
  · subst hquote; rfl
  by_cases hslash : c = '\\'
  · subst hslash; rfl
  by_cases hfeed : c = '\n'
  · subst hfeed; rfl
  by_cases hreturn : c = '\r'
  · subst hreturn; rfl
  by_cases htab : c = '\t'
  · subst htab; rfl
  by_cases hback : c = '\x08'
  · subst hback; rfl
  by_cases hform : c = '\x0c'
  · subst hform; rfl
  by_cases hcontrol : c.toNat < 32
  · have hescape : Json.escapeChar c =
        '\\' :: 'u' :: '0' :: '0' ::
          [Nat.digitChar (c.toNat / 16), Nat.digitChar (c.toNat % 16)] := by
      simp [Json.escapeChar, hquote, hslash, hfeed, hreturn, htab, hback, hform, hcontrol]
    have hread := unicodeEscape?_control hcontrol rest
    rw [Char.ofNat_toNat] at hread
    rw [hescape]
    simp only [List.cons_append, List.nil_append, scanString, escape?, hread]
    rfl
  · have hescape : Json.escapeChar c = [c] := by
      simp [Json.escapeChar, hquote, hslash, hfeed, hreturn, htab, hback, hform, hcontrol]
    rw [hescape]
    simp [scanString, hquote, hslash, hfeed, hreturn]

theorem scanString_quote (opened cs : List Char) (n : Nat) (rest : List Char) :
    scanString opened '"' (cs.length + n + 1) (cs.flatMap Json.escapeChar ++ '"' :: rest) =
      .ok (cs.map .char, rest) := by
  induction cs with
  | nil => rfl
  | cons c more ih =>
    rw [List.length_cons, List.flatMap_cons, List.append_assoc, Nat.add_right_comm more.length 1 n,
      scanString_escapeChar, ih]
    rfl

/-- Characters that are no halves of pairs are the text they make. -/
theorem Decoded.text_map_char (cs : List Char) :
    Decoded.text (cs.map Decoded.char) = String.ofList cs := by
  simp [Decoded.text, List.flatMap_map, List.flatMap_singleton']

theorem length_le_flatMap_escapeChar (cs : List Char) :
    cs.length ≤ (cs.flatMap Json.escapeChar).length := by
  induction cs with
  | nil => exact Nat.le_refl 0
  | cons c more ih =>
    have hc : 1 ≤ (Json.escapeChar c).length := by
      unfold Json.escapeChar
      repeat' split
      all_goals simp
    calc (c :: more).length = 1 + more.length := Nat.add_comm more.length 1
      _ ≤ (Json.escapeChar c).length + (more.flatMap Json.escapeChar).length :=
        Nat.add_le_add hc ih
      _ = ((c :: more).flatMap Json.escapeChar).length := by
        rw [List.flatMap_cons, List.length_append]

/-- **A text in quotes is scanned as that text.** -/
theorem scanToken_quote (s : String) (rest : List Char) :
    scanToken ((Json.quote s).toList ++ rest) = .ok (.string s, rest) := by
  have hlength := length_le_flatMap_escapeChar s.toList
  have hfuel : ∃ n, ((s.toList.flatMap Json.escapeChar) ++ '"' :: rest).length + 1 =
      s.toList.length + n + 1 :=
    ⟨((s.toList.flatMap Json.escapeChar) ++ '"' :: rest).length - s.toList.length, by
      rw [List.length_append]; omega⟩
  obtain ⟨n, hn⟩ := hfuel
  have hscan := scanString_quote ('"' :: (s.toList.flatMap Json.escapeChar ++ '"' :: rest))
    s.toList n rest
  rw [Json.quote, String.toList_ofList, List.append_assoc, List.cons_append, List.singleton_append]
  have hdispatch : ∀ text, scanToken ('"' :: text) =
      (scanString ('"' :: text) '"' (text.length + 1) text).map fun (ds, r) =>
        (.string (Decoded.text ds), r) := fun _ => rfl
  rw [hdispatch, hn, hscan]
  change Except.ok (Token.string (Decoded.text (s.toList.map Decoded.char)), rest) = _
  rw [Decoded.text_map_char, String.ofList_toList]

/-- Whether a text stands for itself between single quotes. -/
def IsPlainText (cs : List Char) : Prop := ∀ c ∈ cs, c ∉ ['\'', '\\', '\n', '\r']

instance (cs : List Char) : Decidable (IsPlainText cs) := List.decidableBAll _ cs

theorem scanString_plain (opened : List Char) {cs : List Char} (h : IsPlainText cs) (n : Nat)
    (rest : List Char) :
    scanString opened '\'' (cs.length + n + 1) (cs ++ '\'' :: rest) = .ok (cs.map .char, rest) := by
  induction cs with
  | nil => rfl
  | cons c more ih =>
    have hc := h c List.mem_cons_self
    simp only [List.mem_cons, List.not_mem_nil, or_false, not_or] at hc
    obtain ⟨hquote, hslash, hfeed, hreturn⟩ := hc
    rw [List.length_cons, List.cons_append, Nat.add_right_comm more.length 1 n, scanString,
      ih fun d hd => h d (List.mem_cons_of_mem c hd)]
    simp [hquote, hslash, hfeed, hreturn, Except.map]

theorem scanToken_single {cs : List Char} (h : IsPlainText cs) (rest : List Char) :
    scanToken ('\'' :: (cs ++ '\'' :: rest)) = .ok (.string (String.ofList cs), rest) := by
  have hdispatch : ∀ text, scanToken ('\'' :: text) =
      (scanString ('\'' :: text) '\'' (text.length + 1) text).map fun (ds, r) =>
        (.string (Decoded.text ds), r) := fun _ => rfl
  have hlength : (cs ++ '\'' :: rest).length + 1 = cs.length + (rest.length + 1) + 1 := by
    rw [List.length_append, List.length_cons]
  rw [hdispatch, hlength, scanString_plain _ h]
  change Except.ok (Token.string (Decoded.text (cs.map Decoded.char)), rest) = _
  rw [Decoded.text_map_char]

/-! ## Numbers -/

/-- Whether a text cannot continue a number before it. -/
def EndsNumber (rest : List Char) : Prop :=
  ∀ c more, rest = c :: more →
    isIdentifierStart c = false ∧ c.isDigit = false ∧ c ≠ '\\' ∧ c ≠ '.'

/-- Whether a text cannot continue the digits before it, except perhaps with a point. -/
def EndsDigits (rest : List Char) : Prop :=
  ∀ c more, rest = c :: more → isIdentifierStart c = false ∧ c.isDigit = false ∧ c ≠ '\\'

variable {t rest r ds : List Char} {token token' : Token}

/-- Whether a text is made of digits, with underscores between them. -/
def isDigits (cs : List Char) : Bool := cs.all fun c => c.isDigit || c == '_'

theorem EndsNumber.digits (h : EndsNumber rest) : EndsDigits rest := by
  intro c more hc
  obtain ⟨hstart, hdigit, hslash, -⟩ := h c more hc
  exact ⟨hstart, hdigit, hslash⟩

theorem EndsNumber.noPoint (h : EndsNumber rest) : ∀ more, rest ≠ '.' :: more :=
  fun more hc => (h '.' more hc).2.2.2 rfl

theorem EndsWord.digits (h : EndsWord rest) : EndsDigits rest := by
  intro c more hc
  obtain ⟨hpart, hslash⟩ := h c more hc
  simp only [isWordPart, isIdentifierPart, Bool.or_eq_false_iff] at hpart
  exact ⟨hpart.1.1.1.1, hpart.1.1.1.2, hslash⟩

theorem scanDigits_cons {isDigit : Char → Bool} {between : Bool} {c : Char} (hne : c ≠ '_')
    (rest : List Char) :
    scanDigits isDigit between (c :: rest) =
      if isDigit c then (scanDigits isDigit true rest).map fun (ds, r) => (c :: ds, r)
      else .ok ([], c :: rest) :=
  scanDigits.eq_4 _ _ _ _ hne

theorem scanDigits_append {isDigit : Char → Bool} {between : Bool}
    (hrest : ∀ c more, rest = c :: more → isDigit c = false ∧ c ≠ '_')
    (h : scanDigits isDigit between t = .ok (ds, r)) :
    scanDigits isDigit between (t ++ rest) = .ok (ds, r ++ rest) := by
  induction t generalizing between ds r with
  | nil =>
    obtain ⟨rfl, rfl⟩ : [] = ds ∧ [] = r := by simpa [scanDigits] using h
    cases rest with
    | nil => rfl
    | cons c more =>
      obtain ⟨hc, hne⟩ := hrest c more rfl
      rw [List.nil_append, scanDigits_cons hne, hc]
      rfl
  | cons c cs ih =>
    by_cases hne : c = '_'
    · subst hne
      cases cs with
      | nil => cases h
      | cons d more =>
        rw [scanDigits] at h
        split at h
        · rename_i hd
          have hmore := ih h
          rw [List.cons_append, List.cons_append, scanDigits, if_pos hd]
          exact hmore
        · cases h
    · rw [scanDigits_cons hne] at h
      rw [List.cons_append, scanDigits_cons hne]
      split at h
      · rename_i hc
        cases hmore : scanDigits isDigit true cs with
        | error e => rw [hmore] at h; cases h
        | ok p =>
          rw [hmore] at h
          obtain ⟨rfl, rfl⟩ : c :: p.1 = ds ∧ p.2 = r := by simpa [Except.map] using h
          rw [if_pos hc, ih hmore]
          rfl
      · rename_i hc
        obtain ⟨rfl, rfl⟩ : [] = ds ∧ c :: cs = r := by simpa using h
        rw [if_neg hc]
        rfl

theorem closeNumber_append (hrest : EndsDigits rest) (h : closeNumber token t = .ok (token', r)) :
    closeNumber token (t ++ rest) = .ok (token', r ++ rest) := by
  cases t with
  | nil =>
    obtain ⟨rfl, rfl⟩ : token = token' ∧ [] = r := by simpa [closeNumber] using h
    cases rest with
    | nil => rfl
    | cons c more =>
      obtain ⟨hstart, hdigit, hne⟩ := hrest c more rfl
      simp [closeNumber, hstart, hdigit, hne]
  | cons c cs =>
    unfold closeNumber at h
    split at h
    · rename_i hcs
      obtain ⟨rfl, rfl⟩ := List.cons.inj hcs
      split at h
      · cases h
      · rename_i hc
        obtain ⟨rfl, rfl⟩ : token = token' ∧ c :: cs = r := by simpa using h
        rw [List.cons_append, closeNumber, if_neg hc]
    · rename_i hcs; cases hcs

theorem EndsDigits.digit (hrest : EndsDigits rest) :
    ∀ c more, rest = c :: more → c.isDigit = false ∧ c ≠ '_' := by
  intro c more h
  obtain ⟨hstart, hdigit, _⟩ := hrest c more h
  refine ⟨hdigit, ?_⟩
  rintro rfl
  exact absurd hstart (by decide)

/-- The digits of an exponent, behind its letter and its sign. -/
theorem exponentDigits_append {whole fraction : List Char} (negative : Bool)
    (hrest : EndsDigits rest)
    (h : ((scanDigits Char.isDigit false t).bind fun (ds, rest) =>
      if ds.isEmpty then .error ⟨t⟩
      else closeNumber (.number (ofParts whole fraction
        (if negative then -(ofDigits 10 ds : Int) else ofDigits 10 ds))) rest) = .ok (token, r)) :
    ((scanDigits Char.isDigit false (t ++ rest)).bind fun (ds, rest') =>
      if ds.isEmpty then .error ⟨t ++ rest⟩
      else closeNumber (.number (ofParts whole fraction
        (if negative then -(ofDigits 10 ds : Int) else ofDigits 10 ds))) rest') =
      .ok (token, r ++ rest) := by
  cases hds : scanDigits Char.isDigit false t with
  | error e => rw [hds] at h; cases h
  | ok p =>
    rw [hds] at h
    rw [scanDigits_append hrest.digit hds]
    simp only [Except.bind] at h ⊢
    split at h
    · cases h
    · rename_i hne
      rw [if_neg hne]
      exact closeNumber_append hrest h

theorem scanExponent_other {whole fraction : List Char} {e : Char}
    (he : (e == 'e' || e == 'E') = false) (cs : List Char) :
    scanExponent whole fraction (e :: cs) =
      closeNumber (.number (ofParts whole fraction 0)) (e :: cs) := by
  unfold scanExponent
  dsimp only
  rw [he]
  rfl

theorem scanExponent_append {whole fraction : List Char} (hrest : EndsDigits rest)
    (h : scanExponent whole fraction t = .ok (token, r)) :
    scanExponent whole fraction (t ++ rest) = .ok (token, r ++ rest) := by
  cases t with
  | nil =>
    have hclose : closeNumber (.number (ofParts whole fraction 0)) [] = .ok (token, r) := h
    have happend := closeNumber_append hrest hclose
    cases rest with
    | nil => exact happend
    | cons c more =>
      have hletter : (c == 'e' || c == 'E') = false := by
        obtain ⟨hstart, _⟩ := hrest c more rfl
        rw [Bool.or_eq_false_iff, beq_eq_false_iff_ne, beq_eq_false_iff_ne]
        constructor <;> (rintro rfl; exact absurd hstart (by decide))
      rw [List.nil_append, scanExponent_other hletter]
      exact happend
  | cons e cs =>
    rw [List.cons_append]
    cases he : (e == 'e' || e == 'E') with
    | false =>
      rw [scanExponent_other he] at h ⊢
      exact closeNumber_append hrest h
    | true =>
      by_cases hminus : ∃ more, cs = '-' :: more
      · obtain ⟨more, rfl⟩ := hminus
        rw [scanExponent.eq_1, if_pos he] at h
        rw [List.cons_append, scanExponent.eq_1, if_pos he]
        exact exponentDigits_append true hrest h
      by_cases hplus : ∃ more, cs = '+' :: more
      · obtain ⟨more, rfl⟩ := hplus
        rw [scanExponent.eq_2, if_pos he] at h
        rw [List.cons_append, scanExponent.eq_2, if_pos he]
        exact exponentDigits_append false hrest h
      -- Without a sign before and after, since an exponent without digits is refused.
      rw [scanExponent.eq_3 _ _ _ _ (fun r hr => hminus ⟨r, hr⟩) (fun r hr => hplus ⟨r, hr⟩),
        if_pos he] at h
      cases cs with
      | nil => cases h
      | cons d more =>
        have hm : ∀ r, d :: more ++ rest = '-' :: r → False := by
          intro r hr
          exact hminus ⟨more, by rw [(List.cons.inj hr).1]⟩
        have hp : ∀ r, d :: more ++ rest = '+' :: r → False := by
          intro r hr
          exact hplus ⟨more, by rw [(List.cons.inj hr).1]⟩
        rw [scanExponent.eq_3 _ _ _ _ hm hp, if_pos he]
        exact exponentDigits_append false hrest h

theorem decimal_append {whole : List Char} (hrest : EndsDigits rest)
    (hpoint : t = [] → ∀ more, rest ≠ '.' :: more)
    (h : scanNumber.decimal whole t = .ok (token, r)) :
    scanNumber.decimal whole (t ++ rest) = .ok (token, r ++ rest) := by
  by_cases hnopoint : ∃ cs, t = '.' :: cs
  · obtain ⟨cs, rfl⟩ := hnopoint
    rw [scanNumber.decimal.eq_1] at h
    rw [List.cons_append, scanNumber.decimal.eq_1]
    cases hds : scanDigits Char.isDigit false cs with
    | error e => rw [hds] at h; cases h
    | ok p =>
      rw [hds] at h
      rw [scanDigits_append hrest.digit hds]
      exact scanExponent_append hrest h
  · rw [scanNumber.decimal.eq_2 _ _ fun cs hcs => hnopoint ⟨cs, hcs⟩] at h
    have hnone : ∀ cs, t ++ rest = '.' :: cs → False := by
      intro cs hcs
      cases t with
      | nil => exact hpoint rfl cs hcs
      | cons c more => exact hnopoint ⟨more, by rw [(List.cons.inj hcs).1]⟩
    rw [scanNumber.decimal.eq_2 _ _ hnone]
    exact scanExponent_append hrest h

/-- Text that is scanned as digits to its end is made of them. -/
theorem isDigits_of_scanDigits {between : Bool}
    (h : scanDigits Char.isDigit between t = .ok (ds, [])) : isDigits t = true := by
  induction t generalizing between ds with
  | nil => rfl
  | cons c cs ih =>
    by_cases hne : c = '_'
    · subst hne
      cases cs with
      | nil => cases h
      | cons d more =>
        rw [scanDigits] at h
        split at h
        · exact ih h
        · cases h
    · rw [scanDigits_cons hne] at h
      split at h
      · rename_i hc
        cases hmore : scanDigits Char.isDigit true cs with
        | error e => rw [hmore] at h; cases h
        | ok p =>
          rw [hmore] at h
          obtain ⟨-, hp⟩ : c :: p.1 = ds ∧ p.2 = [] := by simpa [Except.map] using h
          rw [isDigits, List.all_cons, hc, Bool.true_or, Bool.true_and]
          exact ih (hmore.trans (by rw [← hp]))
      · cases h

theorem scanDecimal_append (hrest : EndsDigits rest)
    (hpoint : isDigits t = true → ∀ more, rest ≠ '.' :: more)
    (h : scanNumber.scanDecimal t = .ok (token, r)) :
    scanNumber.scanDecimal (t ++ rest) = .ok (token, r ++ rest) := by
  unfold scanNumber.scanDecimal at h ⊢
  cases hds : scanDigits Char.isDigit false t with
  | error e => rw [hds] at h; cases h
  | ok p =>
    obtain ⟨whole, behind⟩ := p
    rw [hds] at h
    rw [scanDigits_append hrest.digit hds]
    simp only [Except.bind] at h ⊢
    split at h
    · exact closeNumber_append hrest h
    · rename_i hne
      split
      · rename_i cs hcs
        cases behind with
        | nil => exact absurd (hrest _ _ hcs).1 (by decide)
        | cons c more => exact absurd (by rw [(List.cons.inj hcs).1]) (hne more)
      · refine decimal_append hrest (fun hbehind => ?_) h
        subst hbehind
        exact hpoint (isDigits_of_scanDigits hds)

theorem scanRadix_append {base : Nat} {isDigit : Char → Bool} (hrest : EndsDigits rest)
    (hdigit : ∀ c, isIdentifierStart c = false → c.isDigit = false → isDigit c = false)
    (h : scanRadix base isDigit t = .ok (token, r)) :
    scanRadix base isDigit (t ++ rest) = .ok (token, r ++ rest) := by
  have hstop : ∀ c more, rest = c :: more → isDigit c = false ∧ c ≠ '_' := by
    intro c more hc
    exact ⟨hdigit c (hrest c more hc).1 (hrest c more hc).2.1, (hrest.digit c more hc).2⟩
  unfold scanRadix at h ⊢
  cases hds : scanDigits isDigit false t with
  | error e => rw [hds] at h; cases h
  | ok p =>
    obtain ⟨ds, behind⟩ := p
    rw [hds] at h
    rw [scanDigits_append hstop hds]
    simp only [Except.bind] at h ⊢
    split at h
    · cases h
    · rename_i hne
      rw [if_neg hne]
      split at h
      · exact closeNumber_append hrest h
      · rename_i hn
        split
        · rename_i cs hcs
          cases behind with
          | nil => exact absurd (hrest _ _ hcs).1 (by decide)
          | cons c more => exact absurd (by rw [(List.cons.inj hcs).1]) (hn more)
        · exact closeNumber_append hrest h

theorem isHexDigit_eq_false {c : Char} (hstart : isIdentifierStart c = false)
    (hdigit : c.isDigit = false) : isHexDigit c = false := by
  have hall : ∀ n < 103, 97 ≤ n ∧ n ≤ 102 ∨ 65 ≤ n ∧ n ≤ 70 →
      isIdentifierStart (Char.ofNat n) = true := by decide
  cases h : isHexDigit c with
  | false => rfl
  | true =>
    have hcode : 97 ≤ c.toNat ∧ c.toNat ≤ 102 ∨ 65 ≤ c.toNat ∧ c.toNat ≤ 70 := by
      simpa [isHexDigit, hdigit] using h
    have hletter := hall c.toNat (by omega) hcode
    rw [Char.ofNat_toNat, hstart] at hletter
    cases hletter

theorem isOctalDigit_eq_false {c : Char} (hdigit : c.isDigit = false) : isOctalDigit c = false := by
  have hall : ∀ n < 56, 48 ≤ n → (Char.ofNat n).isDigit = true := by decide
  cases h : isOctalDigit c with
  | false => rfl
  | true =>
    have hcode : 48 ≤ c.toNat ∧ c.toNat ≤ 55 := by simpa [isOctalDigit] using h
    have hc := hall c.toNat (by omega) hcode.1
    rw [Char.ofNat_toNat, hdigit] at hc
    cases hc

theorem takeWhile_append_of_stop {p : Char → Bool}
    (hrest : ∀ c more, rest = c :: more → p c = false) (cs : List Char) :
    (cs ++ rest).takeWhile p = cs.takeWhile p ∧
      (cs ++ rest).dropWhile p = cs.dropWhile p ++ rest := by
  induction cs with
  | nil =>
    cases rest with
    | nil => exact ⟨rfl, rfl⟩
    | cons c more => simp [hrest c more rfl]
  | cons c more ih =>
    cases hc : p c with
    | true => simpa [hc] using ih
    | false => simp [hc]

/-- A number that begins with a zero and has more than one character. -/
theorem scanNumber_zero_append {x : Char} {more : List Char} (hrest : EndsDigits rest)
    (hpoint : isDigits ('0' :: x :: more) = true → ∀ more, rest ≠ '.' :: more)
    (h : scanNumber ('0' :: x :: more) = .ok (token, r)) :
    scanNumber ('0' :: x :: (more ++ rest)) = .ok (token, r ++ rest) := by
  rw [scanNumber.eq_1] at h ⊢
  rw [← List.cons_append]
  split at h
  · rename_i hx
    rw [if_pos hx]
    exact scanRadix_append hrest (fun c hs hd => isHexDigit_eq_false hs hd) h
  rename_i hx
  rw [if_neg hx]
  split at h
  · rename_i ho
    rw [if_pos ho]
    exact scanRadix_append hrest (fun c _ hd => isOctalDigit_eq_false hd) h
  rename_i ho
  rw [if_neg ho]
  split at h
  · rename_i hb
    rw [if_pos hb]
    refine scanRadix_append hrest (fun c _ hd => ?_) h
    rw [Bool.or_eq_false_iff, beq_eq_false_iff_ne, beq_eq_false_iff_ne]
    constructor <;> (rintro rfl; exact absurd hd (by decide))
  rename_i hb
  rw [if_neg hb]
  split at h
  · cases h
  rename_i hu
  rw [if_neg hu]
  split at h
  · rename_i hd
    have hstop := takeWhile_append_of_stop (p := Char.isDigit)
      (fun c more hc => (hrest.digit c more hc).1) (x :: more)
    rw [if_pos hd, hstop.1, hstop.2]
    dsimp only at h ⊢
    split at h
    · rename_i hall
      rw [if_pos hall]
      exact closeNumber_append hrest h
    · rename_i hall
      rw [if_neg hall]
      refine decimal_append hrest (fun hbehind => hpoint ?_) h
      -- nothing but digits stands behind the zero
      have hdigits := List.dropWhile_eq_nil_iff.mp hbehind
      rw [isDigits, List.all_cons, Bool.and_eq_true, List.all_eq_true]
      exact ⟨rfl, fun c hc => by rw [hdigits c hc, Bool.true_or]⟩
  · rename_i hd
    rw [if_neg hd]
    exact scanDecimal_append hrest hpoint h

/-- What cannot continue a number makes nothing but a decimal of a zero before it. -/
theorem scanNumber_zero {x : Char} {more : List Char} (hrest : EndsDigits (x :: more)) :
    scanNumber ('0' :: x :: more) = scanNumber.scanDecimal ('0' :: x :: more) := by
  obtain ⟨hstart, hdigit, _⟩ := hrest x more rfl
  have hletter : ∀ d, isIdentifierStart d = true → (x == d) = false := by
    intro d hd
    rw [beq_eq_false_iff_ne]
    rintro rfl
    rw [hd] at hstart
    cases hstart
  rw [scanNumber.eq_1]
  simp only [hletter 'x' (by decide), hletter 'X' (by decide), hletter 'o' (by decide),
    hletter 'O' (by decide), hletter 'b' (by decide), hletter 'B' (by decide),
    hletter '_' (by decide), hdigit, Bool.or_self, Bool.false_eq_true, if_false]

theorem scanNumber_append (hne : t ≠ []) (hrest : EndsDigits rest)
    (hpoint : isDigits t = true → ∀ more, rest ≠ '.' :: more)
    (h : scanNumber t = .ok (token, r)) : scanNumber (t ++ rest) = .ok (token, r ++ rest) := by
  by_cases hzero : ∃ x more, t = '0' :: x :: more
  · obtain ⟨x, more, rfl⟩ := hzero
    exact scanNumber_zero_append hrest hpoint h
  · rw [scanNumber.eq_2 _ fun x more ht => hzero ⟨x, more, ht⟩] at h
    have happend := scanDecimal_append hrest hpoint h
    by_cases hone : ∃ x more, t ++ rest = '0' :: x :: more
    · obtain ⟨x, more, ht⟩ := hone
      -- The number is a lone zero, and what follows it makes nothing else of it.
      obtain ⟨rfl, rfl⟩ : t = ['0'] ∧ rest = x :: more := by
        cases t with
        | nil => exact absurd rfl hne
        | cons c cs =>
          cases cs with
          | nil => simpa using ht
          | cons d cs =>
            simp only [List.cons_append, List.cons.injEq] at ht
            exact absurd ⟨d, cs, by rw [ht.1]⟩ hzero
      rw [List.singleton_append, scanNumber_zero hrest]
      exact happend
    · rw [scanNumber.eq_2 _ fun x more ht => hone ⟨x, more, ht⟩]
      exact happend

/-- **A text that is read as a number as a whole is read so in front of anything that does not run
into it.** A point may run into digits only. -/
theorem scanToken_number {c : Char} {cs : List Char} {x : Float} (hc : c.isDigit = true)
    (h : scanNumber (c :: cs) = .ok (.number x, [])) (hrest : EndsDigits rest)
    (hpoint : isDigits (c :: cs) = true → ∀ more, rest ≠ '.' :: more) :
    scanToken (c :: cs ++ rest) = .ok (.number x, rest) := by
  have hscan := scanNumber_append (by simp) hrest hpoint h
  rw [List.nil_append] at hscan
  have hne : ∀ d : Char, d.isDigit = false → c ≠ d := by
    rintro d hd rfl
    rw [hc] at hd
    cases hd
  have hquote : (c == '"' || c == '\'') = false := by
    simp [hne '"' (by decide), hne '\'' (by decide)]
  have hfirst : c ∉ ['`', '#', '.'] := by
    simp [hne '`' (by decide), hne '#' (by decide), hne '.' (by decide)]
  rw [List.cons_append] at hscan ⊢
  rw [scanToken_cons hfirst, hquote, hc, hscan]
  rfl

/-! ## Blanks -/

/-- Whether there is nothing but spaces and line feeds in a text. -/
def IsGap (gap : List Char) : Prop := ∀ c ∈ gap, c = ' ' ∨ c = '\n'

instance (gap : List Char) : Decidable (IsGap gap) := List.decidableBAll _ gap

/-- Whether a text begins with a token. -/
def IsSolid (text : List Char) : Prop :=
  ∃ c more, text = c :: more ∧ c ≠ '/' ∧ isLineEnd c = false ∧ isSpace c = false

theorem skipTrivia_solid {text : List Char} (h : IsSolid text) (ended : Bool) :
    skipTrivia .between ended text = .ok (ended, text) := by
  obtain ⟨c, more, rfl, hslash, hline, hspace⟩ := h
  rw [skipTrivia.eq_3 _ _ _ (fun _ h => absurd h hslash) (fun _ h => absurd h hslash), hline,
    hspace]
  rfl

theorem skipTrivia_gap {gap : List Char} (h : IsGap gap) (ended : Bool) (text : List Char) :
    ∃ ended', skipTrivia .between ended (gap ++ text) = skipTrivia .between ended' text := by
  induction gap generalizing ended with
  | nil => exact ⟨ended, rfl⟩
  | cons c more ih =>
    have hmore : IsGap more := fun d hd => h d (List.mem_cons_of_mem c hd)
    rcases h c List.mem_cons_self with rfl | rfl
    · exact ih hmore ended
    · exact ih hmore true

theorem isIdentifierStart_of_isSpace {c : Char} (h : isSpace c = true) :
    isIdentifierStart c = false := by
  have hall : ∀ n ∈ [9, 10, 11, 12, 13, 0x20, 0x85, 0xA0, 0x1680, 0x2000, 0x2001, 0x2002, 0x2003,
      0x2004, 0x2005, 0x2006, 0x2007, 0x2008, 0x2009, 0x200A, 0x2028, 0x2029, 0x202F, 0x205F,
      0x3000, 0xFEFF], isIdentifierStart (Char.ofNat n) = false := by decide +kernel
  have hcode : c.toNat ∈ [9, 10, 11, 12, 13, 0x20, 0x85, 0xA0, 0x1680, 0x2000, 0x2001, 0x2002,
      0x2003, 0x2004, 0x2005, 0x2006, 0x2007, 0x2008, 0x2009, 0x200A, 0x2028, 0x2029, 0x202F,
      0x205F, 0x3000, 0xFEFF] := by
    simp only [isSpace, isBlank, Bool.and_eq_true, Bool.or_eq_true, decide_eq_true_eq, beq_iff_eq]
      at h
    simp only [List.mem_cons, List.not_mem_nil, or_false]
    omega
  simpa using hall c.toNat hcode

theorem IsWord.solid {cs : List Char} (h : IsWord cs) : IsSolid cs := by
  obtain ⟨c, more, rfl, hc⟩ := h.head
  refine ⟨c, more, rfl, ?_, ?_, ?_⟩
  · rintro rfl; exact absurd hc (by decide)
  · cases hline : isLineEnd c with
    | false => rfl
    | true =>
      simp only [isLineEnd, Bool.or_eq_true, beq_iff_eq] at hline
      rcases hline with ((rfl | rfl) | rfl) | rfl <;> exact absurd hc (by decide +kernel)
  · cases hspace : isSpace c with
    | false => rfl
    | true => rw [isIdentifierStart_of_isSpace hspace] at hc; cases hc

end CommandFiles.Script
