import CommandFiles.Proofs.LiteralText

/-! # Texts of pieces

A piece of a template is scanned up to the mark that ends it. Only its escapes look further ahead,
for the second half of a pair or for a digit, and they look no further than to the mark. So a piece
that was scanned once is scanned in the same way wherever it ends, and comes back from its text.
Carriage returns are excepted, which are replaced in the text. -/
namespace CommandFiles.Script

variable {rest raw x y : List Char}

/-! ## Ends of pieces -/

/-- The mark that ends a piece of a template, or opens an expression behind it. -/
def pieceEnd (last : Bool) : List Char := if last then ['`'] else ['$', '{']

/-- Whether a text begins with a character that ends a piece. -/
def StopsPiece (text : List Char) : Prop := ∃ c more, text = c :: more ∧ (c = '`' ∨ c = '$')

theorem stopsPiece_pieceEnd (last : Bool) (rest : List Char) :
    StopsPiece (pieceEnd last ++ rest) := by
  cases last
  · exact ⟨_, _, rfl, .inr rfl⟩
  · exact ⟨_, _, rfl, .inl rfl⟩

/-! ## Escapes -/

/-- The second half of a pair of escapes, if it stands at the beginning of a text. -/
def secondHalf? (high : Nat) : List Char → Option (Nat × List Char)
  | '\\' :: 'u' :: e :: f :: g :: h :: rest =>
    ((hexCode? e f g h).bind (pairCode? high)).map (·, rest)
  | _ => none

/-- The second half of a pair is looked for in the piece only. -/
theorem secondHalf?_append (hx : StopsPiece x) (high : Nat) (raw : List Char) :
    secondHalf? high (raw ++ x) =
      (secondHalf? high raw).map fun (code, rest) => (code, rest ++ x) := by
  obtain ⟨c, more, rfl, hc⟩ := hx
  have hhex : Number.isHexDigit c = false := by rcases hc with rfl | rfl <;> decide
  have hslash : c ≠ '\\' := by rcases hc with rfl | rfl <;> decide
  have hu : c ≠ 'u' := by rcases hc with rfl | rfl <;> decide
  have hcode {d e f g : Char} (h : c ∈ [d, e, f, g]) : hexCode? d e f g = none :=
    if_neg fun hall => by
      have hc := List.all_eq_true.mp hall c h
      rw [hhex] at hc
      cases hc
  rcases raw with _ | ⟨a, _ | ⟨b, _ | ⟨e, _ | ⟨f, _ | ⟨g, _ | ⟨h, raw⟩⟩⟩⟩⟩⟩
  · unfold secondHalf?; split <;> simp_all
  · unfold secondHalf?; split <;> simp_all
  · unfold secondHalf?; split <;> simp_all
  · unfold secondHalf?; split <;> simp_all
  · unfold secondHalf?; split <;> simp_all
  · unfold secondHalf?; split <;> simp_all
  · by_cases h : a = '\\' ∧ b = 'u'
    · obtain ⟨rfl, rfl⟩ := h
      change ((hexCode? _ _ _ _).bind _).map _ = (((hexCode? _ _ _ _).bind _).map _).map _
      rw [Option.map_map]
      rfl
    · unfold secondHalf?
      split <;> simp_all

theorem secondHalf?_local {high code : Nat} {text : List Char}
    (h : secondHalf? high text = some (code, rest)) :
    ∃ e, text = e ++ rest ∧ ∀ more, secondHalf? high (e ++ more) = some (code, more) := by
  unfold secondHalf? at h
  split at h
  · rename_i e f g h' behind
    obtain ⟨_, hcode, h⟩ := Option.map_eq_some_iff.mp h
    cases h
    refine ⟨['\\', 'u', e, f, g, h'], rfl, fun more => ?_⟩
    change ((hexCode? e f g h').bind (pairCode? high)).map (·, more) = _
    rw [hcode]
    rfl
  · cases h

theorem unicodeEscape?_digits {a b c d : Char} {high : Nat} (h : hexCode? a b c d = some high)
    (rest : List Char) : unicodeEscape? (a :: b :: c :: d :: rest) =
      some (match secondHalf? high rest with
        | some (code, rest') => (.char (Char.ofNat code), rest')
        | none => (.ofCode high, rest)) := by
  have ha : a ≠ '{' := by
    rintro rfl
    cases h
  rw [unicodeEscape?.eq_2 a b c d rest fun h' => ha h', h]
  change (match secondHalf? high rest with
    | some (code, rest') => some (Decoded.char (Char.ofNat code), rest')
    | none => some (Decoded.ofCode high, rest)) = _
  cases secondHalf? high rest <;> rfl

theorem bracedCode?_local {text : List Char} {code : Nat}
    (h : bracedCode? text = some (code, rest)) :
    ∃ e, text = e ++ rest ∧ ∀ more, bracedCode? (e ++ more) = some (code, more) := by
  have htext := List.takeWhile_append_dropWhile (p := Number.isHexDigit) (l := text)
  have hdigits := List.all_eq_true.mp (List.all_takeWhile (p := Number.isHexDigit) (l := text))
  unfold bracedCode? at h
  dsimp only at h
  generalize text.takeWhile Number.isHexDigit = digits at h htext hdigits
  split at h
  · rename_i behind hbehind
    split at h
    · rename_i hcode
      cases h
      refine ⟨digits ++ ['}'], by rw [← htext, hbehind]; simp, fun more => ?_⟩
      have htake : (digits ++ ['}'] ++ more).takeWhile Number.isHexDigit = digits := by
        rw [List.append_assoc, List.takeWhile_append_of_pos hdigits]
        exact List.append_nil digits
      have hdrop : (digits ++ ['}'] ++ more).dropWhile Number.isHexDigit = '}' :: more := by
        rw [List.append_assoc, List.dropWhile_append_of_pos hdigits]
        rfl
      unfold bracedCode?
      dsimp only
      rw [htake, hdrop]
      exact if_pos hcode
    · cases h
  · cases h

/-- An escape behind `\\u` is the same wherever the piece that it stands in ends. -/
theorem unicodeEscape?_local {text : List Char} {d : Decoded}
    (h : unicodeEscape? text = some (d, rest)) :
    ∃ e, text = e ++ rest ∧ ∀ raw x y, StopsPiece x → StopsPiece y → rest = raw ++ x →
      unicodeEscape? (e ++ (raw ++ y)) = some (d, raw ++ y) := by
  have hescape := h
  unfold unicodeEscape? at h
  split at h
  · obtain ⟨⟨code, behind⟩, hcode, h⟩ := Option.map_eq_some_iff.mp h
    cases h
    obtain ⟨e, rfl, he⟩ := bracedCode?_local hcode
    refine ⟨'{' :: e, rfl, fun raw x y _ _ _ => ?_⟩
    rw [List.cons_append, unicodeEscape?, he]
    rfl
  · rename_i a b c d' behind _
    obtain ⟨high, hhigh, -⟩ := Option.bind_eq_some_iff.mp h
    rw [unicodeEscape?_digits hhigh] at hescape
    have hescape := Option.some.inj hescape
    split at hescape
    · -- the second half of the pair belongs to the escape
      rename_i code behind' hpair
      cases hescape
      obtain ⟨e, rfl, he⟩ := secondHalf?_local hpair
      refine ⟨a :: b :: c :: d' :: e, rfl, fun raw x y _ _ _ => ?_⟩
      change unicodeEscape? (a :: b :: c :: d' :: (e ++ (raw ++ y))) = _
      rw [unicodeEscape?_digits hhigh, he]
    · rename_i hpair
      cases hescape
      refine ⟨[a, b, c, d'], rfl, fun raw x y hx hy hrest => ?_⟩
      subst hrest
      rw [secondHalf?_append hx, Option.map_eq_none_iff] at hpair
      change unicodeEscape? (a :: b :: c :: d' :: (raw ++ y)) = _
      rw [unicodeEscape?_digits hhigh, secondHalf?_append hy, hpair]
      rfl
  · cases h

/-- What an escape of one character stands for; a digit may not stand behind a zero. -/
def singleEscape? (c : Char) (beforeDigit : Bool) : Option (List Decoded) :=
  if isLineEnd c then some []
  else if c.isDigit then if c == '0' && !beforeDigit then some [.char '\x00'] else none
  else some [.char (letterEscape c)]

theorem singleEscape?_mono {c : Char} {beforeDigit beforeDigit' : Bool} {ds : List Decoded}
    (h : singleEscape? c beforeDigit = some ds)
    (hdigit : beforeDigit' = true → beforeDigit = true) :
    singleEscape? c beforeDigit' = some ds := by
  cases beforeDigit' with
  | true => rwa [hdigit rfl] at h
  | false =>
    cases beforeDigit with
    | false => exact h
    | true =>
      -- a zero has no value in front of a digit
      unfold singleEscape? at h ⊢
      split_ifs at h ⊢ <;> simp_all

/-- An escape that has no form of its own is one character; where nothing stands behind it, it is
no digit. -/
theorem escape?_single {c : Char} (hu : c ≠ 'u') (hx : c ≠ 'x') (hreturn : c ≠ '\r')
    (behind : List Char) : escape? false (c :: behind) =
      (singleEscape? c (behind.head?.all Char.isDigit)).map (·, behind) := by
  have hoctal (h : c.isDigit = false) : isOctalDigit c = false := by
    rw [Bool.eq_false_iff] at h ⊢
    intro ho
    refine h ?_
    simp only [isOctalDigit, Bool.and_eq_true, decide_eq_true_eq] at ho
    simp only [Char.isDigit, Bool.and_eq_true, decide_eq_true_eq]
    change 48 ≤ c.toNat ∧ c.toNat ≤ 57
    omega
  have hx' : ¬ (c == 'x') = true := by simpa using hx
  cases behind with
  | nil =>
    rw [escape?.eq_5 false c hu (fun _ _ _ h _ => hx h) fun _ h _ => hreturn h, if_neg hx',
      singleEscape?]
    cases hdigit : c.isDigit with
    | true => cases isLineEnd c <;> cases (c == '0') <;> rfl
    | false =>
      rw [hoctal hdigit]
      cases isLineEnd c <;> rfl
  | cons d tail =>
    rw [escape?.eq_4 false c d tail hu (fun _ _ _ h _ => hx h) fun _ h _ => hreturn h,
      if_neg hx', singleEscape?, List.head?_cons, Option.all_some]
    cases hdigit : c.isDigit with
    | true => cases isLineEnd c <;> cases (c == '0' && !d.isDigit) <;> rfl
    | false =>
      rw [hoctal hdigit]
      cases isLineEnd c <;> rfl

/-- Where a piece ends otherwise, its first digits are the same. -/
theorem exists_cons_of_stops {d : Char} {tail : List Char} (hy : StopsPiece y)
    (h : d :: tail = raw ++ x) :
    ∃ d' tail', raw ++ y = d' :: tail' ∧ (d'.isDigit = true → d.isDigit = true) := by
  obtain ⟨c, more, rfl, hc⟩ := hy
  cases raw with
  | nil =>
    refine ⟨c, more, rfl, fun hdigit => ?_⟩
    rcases hc with rfl | rfl
    · cases hdigit
    · cases hdigit
  | cons d' raw =>
    obtain ⟨rfl, -⟩ := List.cons.inj h
    exact ⟨d, _, rfl, id⟩

/-- An escape is the same wherever the piece that it stands in ends. -/
theorem escape?_local {text : List Char} {ds : List Decoded} (hreturn : '\r' ∉ text)
    (h : escape? false text = some (ds, rest)) (hrest : rest ≠ []) :
    ∃ e, e ≠ [] ∧ text = e ++ rest ∧ ∀ raw x y, StopsPiece x → StopsPiece y → rest = raw ++ x →
      escape? false (e ++ (raw ++ y)) = some (ds, raw ++ y) := by
  have hescape := h
  unfold escape? at h
  split at h
  · obtain ⟨⟨d, behind⟩, hd, h⟩ := Option.map_eq_some_iff.mp h
    cases h
    obtain ⟨e, rfl, he⟩ := unicodeEscape?_local hd
    refine ⟨'u' :: e, List.cons_ne_nil _ _, rfl, fun raw x y hx hy hrest => ?_⟩
    rw [List.cons_append, escape?, he raw x y hx hy hrest]
    rfl
  · rename_i a b behind
    split at h
    · rename_i hhex
      cases h
      refine ⟨['x', a, b], List.cons_ne_nil _ _, rfl, fun raw x y _ _ _ => ?_⟩
      change escape? false ('x' :: a :: b :: (raw ++ y)) = _
      rw [escape?, if_pos hhex]
    · cases h
  · exact absurd List.mem_cons_self hreturn
  · rename_i c behind hu hx hr
    have hreturn' : c ≠ '\r' := fun h => hreturn (h ▸ List.mem_cons_self)
    have hx' : c ≠ 'x' := by
      rintro rfl
      cases h
    rw [escape?_single hu hx' hreturn'] at hescape
    obtain ⟨_, hsingle, hescape⟩ := Option.map_eq_some_iff.mp hescape
    cases hescape
    cases rest with
    | nil => exact absurd rfl hrest
    | cons d tail =>
      rw [List.head?_cons, Option.all_some] at hsingle
      refine ⟨[c], List.cons_ne_nil _ _, rfl, fun raw x y _ hy hraw => ?_⟩
      obtain ⟨d', tail', hnew, hdigit⟩ := exists_cons_of_stops hy hraw
      rw [hnew]
      change escape? false (c :: d' :: tail') = _
      rw [escape?_single hu hx' hreturn', List.head?_cons, Option.all_some,
        singleEscape?_mono hsingle hdigit]
      rfl
  · cases h

/-! ## Pieces that were scanned -/

theorem scanPieceFrom_end (opened : List Char) (n : Nat) (last : Bool) (rest : List Char) :
    scanPieceFrom opened (n + 1) (pieceEnd last ++ rest) = .ok (⟨[], [], true, last⟩, rest) := by
  cases last <;> rfl

theorem scanPieceFrom_char {c : Char} {text : List Char} (hquote : c ≠ '`') (hslash : c ≠ '\\')
    (hreturn : c ≠ '\r') (hdollar : c = '$' → ∀ more, text ≠ '{' :: more) (opened : List Char)
    (n : Nat) : scanPieceFrom opened (n + 1) (c :: text) =
      (scanPieceFrom opened n text).map fun (p, rest) =>
        (⟨.char c :: p.decoded, c :: p.raw, p.wellFormed, p.last⟩, rest) := by
  rw [scanPieceFrom.eq_8 opened n c text hquote (fun more hc htext => hdollar hc more htext) hslash
    fun _ hc _ => hreturn hc, if_neg (by simpa using hreturn)]

theorem scanPieceFrom_escape {e rest : List Char} {ds : List Decoded}
    (h : escape? false (e ++ rest) = some (ds, rest)) (opened : List Char) (n : Nat) :
    scanPieceFrom opened (n + 1) ('\\' :: (e ++ rest)) =
      (scanPieceFrom opened n rest).map fun (p, rest) =>
        (⟨ds ++ p.decoded, '\\' :: e ++ p.raw, p.wellFormed, p.last⟩, rest) := by
  have htake : (e ++ rest).take ((e ++ rest).length - rest.length) = e := by
    rw [List.length_append, Nat.add_sub_cancel, List.take_left]
  cases hcs : e ++ rest with
  | nil =>
    rw [hcs] at h
    cases h
  | cons c more =>
    rw [hcs] at h htake
    rw [scanPieceFrom, h]
    dsimp only
    rw [htake]

/-- Whether a piece stands at the beginning of a text and is scanned in the same way wherever it
ends. -/
structure PieceScan.StandsIn (p : PieceScan) (text rest : List Char) : Prop where
  eq : text = p.raw ++ (pieceEnd p.last ++ rest)
  again : ∀ (opened : List Char) (n : Nat) (last : Bool) (more : List Char), p.raw.length < n →
    scanPieceFrom opened n (p.raw ++ (pieceEnd last ++ more)) =
      .ok (⟨p.decoded, p.raw, true, last⟩, more)

namespace PieceScan.StandsIn

variable {p : PieceScan} {text : List Char}

theorem nil (last : Bool) (rest : List Char) :
    StandsIn ⟨[], [], true, last⟩ (pieceEnd last ++ rest) rest where
  eq := rfl
  again opened n last more hn := by
    obtain ⟨k, rfl⟩ : ∃ k, n = k + 1 := ⟨n - 1, by rw [List.length_nil] at hn; omega⟩
    exact scanPieceFrom_end opened k last more

theorem char (h : p.StandsIn text rest) {c : Char} (hquote : c ≠ '`') (hslash : c ≠ '\\')
    (hreturn : c ≠ '\r') (hdollar : c = '$' → ∀ more, text ≠ '{' :: more) :
    StandsIn ⟨.char c :: p.decoded, c :: p.raw, true, p.last⟩ (c :: text) rest where
  eq := congrArg (c :: ·) h.eq
  again opened n last more hn := by
    rw [List.length_cons] at hn
    obtain ⟨k, rfl⟩ : ∃ k, n = k + 1 := ⟨n - 1, by omega⟩
    have hdollar' : c = '$' → ∀ tail, p.raw ++ (pieceEnd last ++ more) ≠ '{' :: tail := by
      intro hc tail htail
      cases hraw : p.raw with
      | nil =>
        rw [hraw] at htail
        cases last <;> cases htail
      | cons d raw =>
        rw [hraw] at htail
        obtain ⟨rfl, -⟩ := List.cons.inj htail
        exact hdollar hc _ (h.eq.trans (by rw [hraw]; rfl))
    rw [List.cons_append, scanPieceFrom_char hquote hslash hreturn hdollar',
      h.again opened k last more (by omega)]
    rfl

theorem escape (h : p.StandsIn text rest) {behind : List Char} {ds : List Decoded}
    (hreturn : '\r' ∉ behind) (hescape : escape? false behind = some (ds, text)) :
    StandsIn ⟨ds ++ p.decoded, '\\' :: behind.take (behind.length - text.length) ++ p.raw, true,
      p.last⟩ ('\\' :: behind) rest := by
  have hstops := stopsPiece_pieceEnd p.last rest
  have htext : text ≠ [] := by
    obtain ⟨c, more, hc, -⟩ := hstops
    rw [h.eq, hc]
    simp
  obtain ⟨e, hne, rfl, he⟩ := escape?_local hreturn hescape htext
  have htake : (e ++ text).take ((e ++ text).length - text.length) = e := by
    rw [List.length_append, Nat.add_sub_cancel, List.take_left]
  have hpositive : 0 < e.length := List.length_pos_iff.mpr hne
  rw [htake]
  refine ⟨?_, fun opened n last more hn => ?_⟩
  · refine (congrArg (fun text => '\\' :: (e ++ text)) h.eq).trans ?_
    simp
  · simp only [List.cons_append, List.length_cons, List.length_append] at hn
    obtain ⟨k, rfl⟩ : ∃ k, n = k + 1 := ⟨n - 1, by omega⟩
    have hagain := he p.raw _ _ hstops (stopsPiece_pieceEnd last more) h.eq
    dsimp only
    rw [List.cons_append, List.cons_append, List.append_assoc, scanPieceFrom_escape hagain,
      h.again opened k last more (by omega)]
    rfl

end PieceScan.StandsIn

theorem exists_of_map_eq_ok {α β : Type} {r : Scan α} {f : α × List Char → β × List Char}
    {b : β × List Char} (h : r.map f = .ok b) : ∃ a, r = .ok a ∧ f a = b := by
  cases r with
  | error fault => cases h
  | ok a => exact ⟨a, rfl, Except.ok.inj h⟩

/-- A piece of a text without carriage returns is scanned in the same way wherever it ends. -/
theorem standsIn_of_scanPieceFrom {opened : List Char} {n : Nat} {text : List Char} {p : PieceScan}
    (hreturn : '\r' ∉ text) (h : scanPieceFrom opened n text = .ok (p, rest))
    (hformed : p.wellFormed = true) : p.StandsIn text rest := by
  fun_induction scanPieceFrom opened n text generalizing p with
  | case1 | case2 | case6 => cases h
  | case3 n rest =>
    cases h
    exact .nil true _
  | case4 n rest =>
    cases h
    exact .nil false _
  | case5 n behind ds text hescape ih =>
    obtain ⟨⟨p', rest'⟩, hp', h⟩ := exists_of_map_eq_ok h
    cases h
    have hbehind : '\r' ∉ behind := fun hmem => hreturn (List.mem_cons_of_mem _ hmem)
    have htext : '\r' ∉ text := by
      cases text with
      | nil => exact List.not_mem_nil
      | cons c more =>
        obtain ⟨e, -, rfl, -⟩ := escape?_local hbehind hescape nofun
        exact fun hmem => hbehind (List.mem_append_right e hmem)
    obtain ⟨ds', raw, wellFormed, last⟩ := p'
    cases hformed
    exact (ih htext hp' rfl).escape hbehind hescape
  | case7 =>
    -- what is no escape makes the piece one without a text
    obtain ⟨⟨p', rest'⟩, -, h⟩ := exists_of_map_eq_ok h
    cases h
    cases hformed
  | case8 => exact absurd List.mem_cons_self hreturn
  | case9 n c text hquote hdollar hslash _ ih =>
    obtain ⟨⟨p', rest'⟩, hp', h⟩ := exists_of_map_eq_ok h
    cases h
    have htext : '\r' ∉ text := fun hmem => hreturn (List.mem_cons_of_mem _ hmem)
    have hc : c ≠ '\r' := fun hc => hreturn (hc ▸ List.mem_cons_self)
    obtain ⟨ds, raw, wellFormed, last⟩ := p'
    cases hformed
    dsimp only
    rw [if_neg (by simpa using hc)]
    exact (ih htext hp' rfl).char hquote hslash hc fun h more => hdollar more h

theorem unifyLineEnds_of_not_mem {text : List Char} (h : '\r' ∉ text) :
    unifyLineEnds text = text := by
  fun_induction unifyLineEnds text with
  | case1 => exact absurd List.mem_cons_self h
  | case2 c rest _ ih =>
    have hc : c ≠ '\r' := fun hc => h (hc ▸ List.mem_cons_self)
    rw [ih fun hmem => h (List.mem_cons_of_mem c hmem), if_neg (by simpa using hc)]
  | case3 => rfl

/-- Whether a piece of a template was scanned from a text without carriage returns, and its escapes
have a meaning. -/
def IsPiece (q : Quasi) : Prop :=
  ∃ (text rest : List Char) (last : Bool), '\r' ∉ text ∧
    scanPiece text = .ok (.piece ⟨some q.cooked, q.raw⟩ last, rest)

/-- **A piece of a template comes back from its text, whatever follows.** -/
theorem IsPiece.scanPiece {q : Quasi} (h : IsPiece q) (opener : Char) (last : Bool)
    (rest : List Char) : scanPiece (opener :: (q.raw.toList ++ (pieceEnd last ++ rest))) =
      .ok (.piece ⟨some q.cooked, q.raw⟩ last, rest) := by
  obtain ⟨text, behind, last', hreturn, hscan⟩ := h
  obtain ⟨⟨p, rest'⟩, hp, hscan⟩ := exists_of_map_eq_ok hscan
  obtain ⟨ds, raw, wellFormed, ended⟩ := p
  have hdrop : '\r' ∉ text.drop 1 := fun hmem => hreturn (List.mem_of_mem_drop hmem)
  cases wellFormed with
  | false => cases hscan
  | true =>
    have hstands := standsIn_of_scanPieceFrom hdrop hp rfl
    have hraw : '\r' ∉ raw := fun hmem => hdrop (hstands.eq ▸ List.mem_append_left _ hmem)
    obtain ⟨hpiece, -⟩ := Prod.mk.inj hscan
    obtain ⟨hquasi, -⟩ := Token.piece.inj hpiece
    have hcooked := (Option.some.inj (congrArg Piece.cooked hquasi)).symm
    have hraw' := (congrArg Piece.raw hquasi).symm
    dsimp only at hraw'
    rw [unifyLineEnds_of_not_mem hraw] at hraw'
    have hagain := hstands.again (opener :: (raw ++ (pieceEnd last ++ rest)))
      (opener :: (raw ++ (pieceEnd last ++ rest))).length last rest
      (by rw [List.length_cons, List.length_append]; exact Nat.lt_succ_of_le (Nat.le_add_right _ _))
    rw [hcooked, hraw', String.toList_ofList, Script.scanPiece, List.drop_one, List.tail_cons]
    dsimp only at hagain
    rw [hagain, Except.map]
    dsimp only
    rw [if_pos rfl, unifyLineEnds_of_not_mem hraw]

end CommandFiles.Script
