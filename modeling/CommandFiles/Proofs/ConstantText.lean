import CommandFiles.Proofs.ListText
import CommandFiles.Proofs.ModuleText

/-! # Texts of exported constants

A file that exports an object literal under a name, and holds nothing else but blanks, is read as a
module with that export, and with what the functions in the literal hold behind it. -/
namespace CommandFiles.Script

theorem State.Reaches.names {s s' : State} {rest : List Char} (h : s.Reaches rest s') :
    s'.blockNames = s.blockNames ∧ s'.functionNames = s.functionNames := by
  obtain ⟨_, _, _, _, _, _, rfl⟩ := h
  exact ⟨rfl, rfl⟩

/-- An equals sign before a blank is the mark of an assignment. -/
theorem scanToken_assign (rest : List Char) :
    scanToken ('=' :: ' ' :: rest) = .ok (.mark .assign, ' ' :: rest) := by
  rw [scanToken_eq_scanMark (by decide) (by decide) (by decide)]
  simp [scanMark, Mark.spellings, dropStart?]

namespace Reader

variable {lineFeeds fuel n : Nat} {s : State} {text gap : List Char} {p : Expr → Prop} {w : String}
  {quiet : Item → Prop}

/-- What stands behind the name of a constant. -/
def behindName (literal gap : List Char) : List Char :=
  ' ' :: '=' :: ' ' :: (literal ++ ';' :: gap)

/-- The module that exports an object literal under a name. -/
def exportedConstant (w : String) (literal gap : List Char) : List Char :=
  "export".toList ++ ' ' :: ("const".toList ++ ' ' :: (w.toList ++ behindName literal gap))

theorem exportedConstant_eq (w : String) (literal gap : List Char) : exportedConstant w literal gap =
    "export".toList ++ ' ' :: ("const".toList ++ ' ' :: (w.toList ++ behindName literal gap)) := rfl

theorem isWord_const : IsWord "const".toList := by decide

theorem scanToken_exportedConstant (w : String) (literal gap : List Char) :
    scanToken (exportedConstant w literal gap) = .ok (.word "export" false,
      ' ' :: ("const".toList ++ ' ' :: (w.toList ++ behindName literal gap))) := by
  rw [exportedConstant_eq, scanToken_word isWord_export (endsWord_blank _), String.ofList_toList]

/-- The name of a constant with its initial value. -/
theorem run_declaration (lineFeeds : Nat) (hw : IsPlainWord w)
    (h : ReadsBy (State.Meets quiet) true assignment ('{' :: text) p)
    (hn : 8 * ('{' :: text).length ≤ n) (hf : ('{' :: text).length < fuel)
    (ht : s.token = .word w false) (hafter : s.after = behindName ('{' :: text) gap) :
    ∃ e s', declaration (Grammar.upTo (n + 1)) .const false (.plain lineFeeds fuel true true) s =
        .ok (⟨[w], [⟨some w, some e⟩]⟩, s') ∧ p e ∧
      State.Meets quiet { s with blockNames := w :: s.blockNames } (';' :: gap) s' := by
  have hmark : (';', Mark.semicolon) ∈ closers := by decide
  -- the equals sign, and the literal behind it
  have hsolid : IsSolid ('=' :: ' ' :: ('{' :: text ++ ';' :: gap)) :=
    ⟨'=', _, rfl, by decide, by decide, by decide⟩
  have hbrace : ('{', Mark.braceOpen) ∈ literalMarks := by decide
  obtain ⟨s₁, h₁, -, ht₁, hafter₁⟩ := exists_reaches isGap_blank hsolid (scanToken_assign _) s
  obtain ⟨s₂, h₂, hs₂, -, -⟩ := exists_reaches isGap_blank
    (solid_literalMark hbrace (text ++ ';' :: gap)) (scanToken_literalMark hbrace _)
    { s₁ with blockNames := w :: s₁.blockNames }
  obtain ⟨e, s₃, he, h₃, hp⟩ :=
    h.reads n lineFeeds fuel s₂ _ hn hf hs₂ (isEnd_closer hmark isGap_nil gap)
  obtain ⟨ht₃, -⟩ := IsMove.closer hmark isGap_nil h₃
  have hname : atIdentifier (.plain lineFeeds fuel true true) s = .ok (true, s) :=
    run_atIdentifier hw rfl ht
  have hother : ∀ m, s.token ≠ .mark m := by simp [ht]
  have hidentifier : identifier (.plain lineFeeds fuel true true) s = .ok (w, s₁) :=
    run_identifier hw rfl ht hafter h₁
  have hpattern : (Grammar.upTo (n + 1)).pattern (.plain lineFeeds fuel true true) s =
      .ok ([w], s₁) := by
    change pattern (Grammar.upTo n) (.plain lineFeeds fuel true true) s = _
    unfold pattern
    simp only [run_bind, run_skipMark_other (hother _), bind_ok, Bool.false_eq_true, if_false,
      hidentifier, run_pure]
  have hbind : bindVariables .const [w] (.plain lineFeeds fuel true true) s₁ =
      .ok ((), { s₁ with blockNames := w :: s₁.blockNames }) := rfl
  have hassign : skipMark .assign (.plain lineFeeds fuel true true)
      { s₁ with blockNames := w :: s₁.blockNames } = .ok (true, s₂) :=
    run_skipMark ht₁ hafter₁ h₂
  have hassignment : (Grammar.upTo (n + 1)).assignment (.plain lineFeeds fuel true true) s₂ =
      .ok (e, s₃) := he
  have htyped : (Setting.plain lineFeeds fuel true true).typed = false := rfl
  have hcomma : s₃.token ≠ .mark .comma := by simp [ht₃]
  obtain ⟨k, hk⟩ : ∃ k, (Setting.plain lineFeeds fuel true true).fuel = k + 1 :=
    ⟨fuel - 1, by change fuel = _; omega⟩
  refine ⟨e, s₃, ?_, hp, ?_⟩
  · unfold declaration
    simp only [run_bind, run_loop, hk, repeatUpTo, run_get, bind_ok, hname, hpattern, hbind,
      run_read, htyped, Bool.false_eq_true, if_false, hassign, if_true, hassignment, run_pure,
      Option.isNone_some, Bool.false_and, run_skipMark_other hcomma]
    rfl
  · obtain ⟨_, _, _, _, _, _, rfl⟩ := h₁
    exact h₂.meets.trans h₃

/-- The word `const` begins a declaration, up to and with the semicolon behind it. -/
theorem run_declaration? (lineFeeds : Nat) (hw : IsPlainWord w)
    (h : ReadsBy (State.Meets quiet) true assignment ('{' :: text) p)
    (hn : 8 * ('{' :: text).length ≤ n) (hf : ('{' :: text).length < fuel) (hgap : IsGap gap)
    (ht : s.token = .word "const" false)
    (hafter : s.after = ' ' :: (w.toList ++ behindName ('{' :: text) gap)) :
    ∃ e s', declaration? (Grammar.upTo (n + 1)) .listed fuel (.plain lineFeeds fuel true true) s =
        .ok (some ⟨[w], [⟨some w, some e⟩]⟩, s') ∧ s'.token = .endOfText ∧ p e ∧
      State.Meets quiet { s with blockNames := w :: s.blockNames } gap s' := by
  obtain ⟨s₁, h₁, -, ht₁, hafter₁⟩ := exists_reaches isGap_blank (hw.word.solid.append _)
    (scanToken_word hw.word (endsWord_blank _)) s
  rw [String.ofList_toList] at ht₁
  obtain ⟨e, s₂, hdeclaration, hp, h₂⟩ := run_declaration lineFeeds hw h hn hf ht₁ hafter₁
  obtain ⟨ht₂, hafter₂⟩ := IsMove.closer (p := (';', .semicolon)) (by decide) isGap_nil h₂
  obtain ⟨s₃, h₃, ht₃⟩ := exists_end hgap s₂
  refine ⟨e, s₃, ?_, ht₃, hp, ?_⟩
  · have hother : ∀ m, s.token ≠ .mark m := by simp [ht]
    have hword : ∀ v, v ≠ "const" → s.token ≠ .word v false := by
      rintro v hv hs
      rw [ht] at hs
      cases hs
      exact hv rfl
    have hadvance : advance (.plain lineFeeds fuel true true) s = .ok ((), s₁) :=
      run_advance hafter h₁
    have hwords : variableWords (.plain lineFeeds fuel true true) s = .ok ((), s₁) := by
      unfold variableWords
      simp only [run_bind, run_skipWord_other (hword "await" (by decide)), bind_ok,
        Bool.false_eq_true, if_false, hadvance]
    have hsemicolon : semicolon (.plain lineFeeds fuel true true) s₂ = .ok ((), s₃) := by
      unfold semicolon
      simp only [run_bind, run_skipMark ht₂ hafter₂ h₃, bind_ok, if_true, run_pure]
    have hkind : variableKind? (.plain lineFeeds fuel true true) s = .ok (some .const, s) := by
      unfold variableKind?
      simp only [run_bind, run_peek, run_get, bind_ok, ht, run_pure]
    have htyped : atTypedDeclaration (.plain lineFeeds fuel true true) s = .ok (false, s) := rfl
    have hread : (Setting.plain lineFeeds fuel true true).typed = false := rfl
    have hat :=
      run_atFunction_other (c := .plain lineFeeds fuel true true) ht (by decide) (by decide)
    have hclass : atClass (.plain lineFeeds fuel true true) s = .ok (false, s) := by
      unfold atClass
      simp only [run_bind, run_atWord_other (hword "class" (by decide)),
        run_atMark_other (hother .decorator), bind_ok, run_pure, Bool.or_self]
    obtain ⟨b, hb⟩ : ∃ b, letIsName (.plain lineFeeds fuel true true) s = .ok (b, s) := ⟨_, rfl⟩
    obtain ⟨b', hb'⟩ : ∃ b, atWord "const" (.plain lineFeeds fuel true true) s = .ok (b, s) :=
      ⟨_, rfl⟩
    obtain ⟨k, rfl⟩ : ∃ k, fuel = k + 1 := ⟨fuel - 1, by omega⟩
    unfold declaration?
    simp only [run_bind, htyped, bind_ok, Bool.false_eq_true, if_false, run_read, hread, hb',
      Bool.false_and, run_peek, hat, hclass, run_atWord_other (hword "let" (by decide)), hkind, hb,
      hwords, hdeclaration, hsemicolon, run_pure, run_ite]
    exact if_neg (by decide)
  · obtain ⟨_, _, _, _, _, _, rfl⟩ := h₁
    exact h₂.trans h₃.meets

theorem stands_exportedConstant {literal : List Char}
    (hs : s.Stands (exportedConstant w literal gap)) :
    s.token = .word "export" false ∧
      s.after = ' ' :: ("const".toList ++ ' ' :: (w.toList ++ behindName literal gap)) := by
  have hscanned := hs.scanned
  rw [scanToken_exportedConstant] at hscanned
  obtain ⟨ht, hafter⟩ := Prod.mk.inj (Except.ok.inj hscanned)
  exact ⟨ht.symm, hafter.symm⟩

/-- The words of an exported constant, with the object literal that is its initial value. -/
theorem run_exportConstant (lineFeeds : Nat) (hw : IsPlainWord w)
    (h : ReadsBy (State.Meets quiet) true assignment ('{' :: text) p)
    (hn : 8 * ('{' :: text).length ≤ n) (hf : ('{' :: text).length < fuel) (hgap : IsGap gap)
    (hs : s.Stands (exportedConstant w ('{' :: text) gap)) :
    ∃ l e items places s', exportStatement (Grammar.upTo (n + 1)) .top
        (.plain lineFeeds fuel true true) s = .ok ((), s') ∧ s'.token = .endOfText ∧ p e ∧
      (∀ i ∈ items, quiet i) ∧ State.Reaches
        { s with
          items := items ++ .exported ⟨l, [⟨some w, some e⟩]⟩ :: s.items, restCommas := places,
          blockNames := w :: s.blockNames, exports := s.exports ++ [(w, s.start)] } gap s' := by
  obtain ⟨ht, hafter⟩ := stands_exportedConstant hs
  obtain ⟨s₁, h₁, -, ht₁, hafter₁⟩ := exists_reaches isGap_blank (isWord_const.solid.append _)
    (scanToken_word isWord_const (endsWord_blank _)) s
  rw [String.ofList_toList] at ht₁
  obtain ⟨e, s₂, hdeclaration, ht₂, hp, h₂⟩ := run_declaration? (s := { s₁ with items := [] })
    lineFeeds hw h hn hf hgap ht₁ hafter₁
  obtain ⟨l, hl⟩ : ∃ l, line (.plain lineFeeds fuel true true) s = .ok (l, s) := ⟨_, rfl⟩
  have hunder : under (fun c => { c with inOperator := true, returnTypes := true })
      (declaration? (Grammar.upTo (n + 1)) .listed fuel) (.plain lineFeeds fuel true true)
        { s₁ with items := [] } = .ok (some ⟨[w], [⟨some w, some e⟩]⟩, s₂) := hdeclaration
  have hrecorded := run_recording (s := s₁)
    (fun vs : Option Variables => .exported ⟨l, vs.elim [] Variables.declarators⟩) hunder
  have hother : ∀ m, s₁.token ≠ .mark m := by simp [ht₁]
  have hword : ∀ v, v ≠ "const" → s₁.token ≠ .word v false := by
    rintro v hv hs₁
    rw [ht₁] at hs₁
    cases hs₁
    exact hv rfl
  obtain ⟨items, places, hitems, hreaches⟩ := h₂
  refine ⟨l, e, items, places,
    { s₂ with
      items := s₂.items ++ .exported ⟨l, [⟨some w, some e⟩]⟩ :: s₁.items
      exports := s₂.exports ++ [(w, s.start)] }, ?_, ht₂, hp, hitems, ?_⟩
  · have htyped : (Setting.plain lineFeeds fuel true true).typed = false := rfl
    have hfuel : (Setting.plain lineFeeds fuel true true).fuel = fuel := rfl
    unfold exportStatement
    simp only [run_bind, hl, run_get, bind_ok, run_expectWord ht hafter h₁, run_read,
      run_skipWord_other (hword "default" (by decide)), run_skipMark_other (hother _),
      run_atMark_other (hother _), run_atWord_other (hword "type" (by decide)),
      run_atWord_other (hword "as" (by decide)), run_atWord_other (hword "import" (by decide)),
      run_peek, htyped, hfuel, Bool.false_and, Bool.false_eq_true, if_false, hrecorded, run_ite]
    rfl
  · obtain ⟨_, _, _, _, _, _, rfl⟩ := h₁
    obtain ⟨ended, start, token, after, hskip, hscan, rfl⟩ := hreaches
    exact ⟨ended, start, token, after, hskip, hscan, by simp only [List.append_nil]⟩

/-- **A file that begins, perhaps behind comments, with the export of an object literal under a name
and ends with it is read as a module that declares that name and exports the literal,** and behind
it has what was collected while the literal was read. -/
theorem read_exportedLiteral {source : String} {ended : Bool} (hw : IsPlainWord w)
    (h : ReadsBy (State.Meets quiet) true assignment ('{' :: text) p) (hgap : IsGap gap)
    (hsource : skipTrivia .between false (skipInterpreterLine source.toList) =
      .ok (ended, exportedConstant w ('{' :: text) gap))
    (hlength : ('{' :: text).length ≤ source.toList.length) :
    ∃ l e items, p e ∧ (∀ i ∈ items, quiet i) ∧ Outline.read ⟨false, false⟩ source =
      .ok ⟨1, [w], .exported ⟨l, [⟨some w, some e⟩]⟩ :: items⟩ := by
  obtain ⟨s', hread, l, e, items, hp, hquiet, hitems, hblock, hfunction⟩ := exists_outline hsource
    (scanToken_exportedConstant w ('{' :: text) gap)
    (P := fun s' => ∃ l e items, p e ∧ (∀ i ∈ items, quiet i) ∧
      s'.items = items ++ [.exported ⟨l, [⟨some w, some e⟩]⟩] ∧
      s'.blockNames = [w] ∧ s'.functionNames = [])
    fun s₁ hs₁ hfresh => by
      have hfuel : ('{' :: text).length < source.toList.length + 2 := by omega
      obtain ⟨l, e, items, places, s', hexport, ht', hp, hquiet, hreaches⟩ :=
        run_exportConstant (source.toList.count '\n') hw h (n := 8 * source.toList.length + 14)
          (by omega) hfuel hgap hs₁
      obtain ⟨hitems, hdefaults, hexports⟩ := hreaches.collected
      obtain ⟨hblock, hfunction⟩ := hreaches.names
      dsimp only at hitems hdefaults hexports hblock hfunction
      rw [hfresh.items] at hitems
      rw [hfresh.defaults] at hdefaults
      rw [hfresh.exports] at hexports
      rw [hfresh.blockNames] at hblock
      rw [hfresh.functionNames] at hfunction
      exact ⟨s', _, moduleStatements_of_export (by omega) (stands_exportedConstant hs₁).1 hexport
        ht', hdefaults, hexports, l, e, items, hp, hquiet, hitems, hblock, hfunction⟩
  refine ⟨l, e, items.reverse, hp, fun i hi => hquiet i (List.mem_reverse.mp hi), ?_⟩
  rw [hread, hitems, hblock, hfunction, List.reverse_append]
  rfl

/-- **A literal in which nothing is collected is the one thing that its module exports.** -/
theorem read_exportedConstant {source : String} {ended : Bool} (hw : IsPlainWord w)
    (h : ReadsBy State.Reaches true assignment ('{' :: text) p) (hgap : IsGap gap)
    (hsource : skipTrivia .between false (skipInterpreterLine source.toList) =
      .ok (ended, exportedConstant w ('{' :: text) gap))
    (hlength : ('{' :: text).length ≤ source.toList.length) :
    ∃ l e, p e ∧ Outline.read ⟨false, false⟩ source =
      .ok ⟨1, [w], [.exported ⟨l, [⟨some w, some e⟩]⟩]⟩ := by
  have hmeets : ReadsBy (State.Meets fun _ => False) true assignment ('{' :: text) p := by
    refine ⟨h.solid, h.scans, fun n lineFeeds fuel s rest hn hf hs hrest => ?_⟩
    obtain ⟨e, s', he, hs', hp⟩ := h.reads n lineFeeds fuel s rest hn hf hs hrest
    exact ⟨e, s', he, hs'.meets, hp⟩
  obtain ⟨l, e, items, hp, hnone, hread⟩ := read_exportedLiteral hw hmeets hgap hsource hlength
  obtain rfl : items = [] := List.eq_nil_iff_forall_not_mem.mpr fun i hi => hnone i hi
  exact ⟨l, e, hp, hread⟩

end Reader

end CommandFiles.Script
