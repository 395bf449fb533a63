import CommandFiles.Proofs.LiteralText

/-! # Texts of modules

A file with an object literal as its default export, and nothing else but blanks and comments, is
read as a module with that one export. -/
namespace CommandFiles.Script

namespace Reader

variable {lineFeeds fuel n : Nat} {s : State} {text gap : List Char} {p : Expr → Prop}

/-- Behind blanks the text ends. -/
theorem exists_end (hgap : IsGap gap) (s : State) :
    ∃ s', s.Reaches gap s' ∧ s'.token = .endOfText := by
  obtain ⟨ended, hskip⟩ := skipTrivia_gap hgap false []
  rw [List.append_nil] at hskip
  exact ⟨_, ⟨ended, [], .endOfText, [], hskip, rfl, rfl⟩, rfl⟩

/-- An object literal with a semicolon behind it is read as what is exported. -/
theorem run_exportDefault (lineFeeds : Nat) (h : Reads true assignment ('{' :: text) p)
    (hn : 8 * ('{' :: text).length ≤ n) (hf : ('{' :: text).length < fuel) (hgap : IsGap gap)
    (hs : s.Stands ('{' :: text ++ ';' :: gap)) :
    ∃ e s', exportDefault (Grammar.upTo (n + 1)) (.plain lineFeeds fuel true true) s =
      .ok (some e, s') ∧ s.Passes gap s' ∧ s'.token = .endOfText ∧ p e := by
  have hmark : (';', Mark.semicolon) ∈ closers := by decide
  obtain ⟨e, s₁, he, hs₁, hp⟩ :=
    h.reads n lineFeeds fuel s _ hn hf hs (isEnd_closer hmark isGap_nil gap)
  obtain ⟨ht₁, hafter₁⟩ := hs₁.closer hmark isGap_nil
  obtain ⟨s₂, h₂, ht₂⟩ := exists_end hgap s₁
  refine ⟨e, s₂, ?_, hs₁.trans h₂.passes, ht₂, hp⟩
  have ht : s.token = .mark .braceOpen := by
    have hscanned := hs.scanned
    rw [List.cons_append, scanToken_literalMark (c := '{') (m := .braceOpen) (by decide)]
      at hscanned
    obtain ⟨ht, -⟩ : .mark .braceOpen = s.token ∧ text ++ ';' :: gap = s.after := by
      simpa using hscanned
    exact ht.symm
  have hword : ∀ w, s.token ≠ .word w false := by simp [ht]
  have hdecorator : s.token ≠ .mark .decorator := by simp [ht]
  have hassignment : under (fun c => { c with inOperator := true, returnTypes := true })
      (Grammar.upTo (n + 1)).assignment (.plain lineFeeds fuel true true) s = .ok (e, s₁) := he
  have hsemicolon : semicolon (.plain lineFeeds fuel true true) s₁ = .ok ((), s₂) := by
    unfold semicolon
    simp only [run_bind, run_skipMark ht₁ hafter₁ h₂, bind_ok, if_true, run_pure]
  have htyped : (Setting.plain lineFeeds fuel true true).typed = false := rfl
  unfold exportDefault atFunction atClass
  simp only [run_bind, run_atWord_other (hword _), bind_ok, run_peek, Bool.false_and, run_ite,
    Bool.false_eq_true, if_false, run_pure, run_atMark_other hdecorator, Bool.or_self, run_read,
    htyped, hassignment, hsemicolon]

theorem run_recording {α : Type} {c : Setting} {s s' : State} {a : α} (item : α → Item)
    {r : Reader α} (h : r c { s with items := [] } = .ok (a, s')) :
    recording item r c s = .ok (a, { s' with items := s'.items ++ item a :: s.items }) := by
  unfold recording
  simp only [run_bind, run_get, bind_ok, run_modify, h, run_pure]

/-- The module that has an object literal as its default export. -/
def defaultExport (literal gap : List Char) : List Char :=
  "export".toList ++ ' ' :: ("default".toList ++ ' ' :: (literal ++ ';' :: gap))

theorem defaultExport_eq (literal gap : List Char) : defaultExport literal gap =
    "export".toList ++ ' ' :: ("default".toList ++ ' ' :: (literal ++ ';' :: gap)) := rfl

theorem isWord_export : IsWord "export".toList := by decide

theorem scanToken_defaultExport (literal gap : List Char) :
    scanToken (defaultExport literal gap) = .ok (.word "export" false,
      ' ' :: ("default".toList ++ ' ' :: (literal ++ ';' :: gap))) := by
  rw [defaultExport_eq, scanToken_word isWord_export (endsWord_blank _), String.ofList_toList]

theorem stands_export {literal : List Char} (hs : s.Stands (defaultExport literal gap)) :
    s.token = .word "export" false ∧
      s.after = ' ' :: ("default".toList ++ ' ' :: (literal ++ ';' :: gap)) := by
  have hscanned := hs.scanned
  rw [scanToken_defaultExport] at hscanned
  obtain ⟨ht, hafter⟩ := Prod.mk.inj (Except.ok.inj hscanned)
  exact ⟨ht.symm, hafter.symm⟩

/-- The words of a default export, with the object literal that is exported. -/
theorem run_exportStatement (lineFeeds : Nat) (h : Reads true assignment ('{' :: text) p)
    (hn : 8 * ('{' :: text).length ≤ n) (hf : ('{' :: text).length < fuel) (hgap : IsGap gap)
    (hs : s.Stands (defaultExport ('{' :: text) gap)) :
    ∃ l e items places s', exportStatement (Grammar.upTo (n + 1)) .top
        (.plain lineFeeds fuel true true) s = .ok ((), s') ∧ s'.token = .endOfText ∧ p e ∧
      (∀ i ∈ items, Item.Quiet i) ∧ State.Reaches
        { s with
          items := items ++ .exportedDefault ⟨l, some e⟩ :: s.items, restCommas := places,
          exports := s.exports ++ [("default", s.start)] } gap s' := by
  have hdefault : IsWord "default".toList := by decide
  obtain ⟨ht, hafter⟩ := stands_export hs
  obtain ⟨s₁, h₁, -, ht₁, hafter₁⟩ := exists_reaches isGap_blank (hdefault.solid.append _)
    (scanToken_word hdefault (endsWord_blank ('{' :: text ++ ';' :: gap))) s
  rw [String.ofList_toList] at ht₁
  obtain ⟨s₂, h₂, hs₂, -, -⟩ := exists_reaches isGap_blank
    (solid_literalMark (p := ('{', .braceOpen)) (by decide) (text ++ ';' :: gap))
    (scanToken_literalMark (m := .braceOpen) (by decide) _) s₁
  obtain ⟨e, s₃, he, hs₃, ht₃, hp⟩ := run_exportDefault lineFeeds h hn hf hgap
    (s := { s₂ with exports := s₂.exports ++ [("default", s.start)], items := [] })
    ⟨hs₂.start, hs₂.scanned⟩
  obtain ⟨l, hl⟩ : ∃ l, line (.plain lineFeeds fuel true true) s = .ok (l, s) := ⟨_, rfl⟩
  have hrecorded := run_recording (s := { s₂ with
    exports := s₂.exports ++ [("default", s.start)] }) (fun e => .exportedDefault ⟨l, e⟩) he
  obtain ⟨items, places, hitems, hreaches⟩ := hs₃
  refine ⟨l, e, items, places,
    { s₃ with items := s₃.items ++ .exportedDefault ⟨l, some e⟩ :: s₂.items }, ?_, ht₃, hp,
    hitems, ?_⟩
  · unfold exportStatement
    have htyped : (Setting.plain lineFeeds fuel true true).typed = false := rfl
    have hnote : noteExports .top ["default"] s.start (.plain lineFeeds fuel true true) s₂ =
        .ok ((), { s₂ with exports := s₂.exports ++ [("default", s.start)] }) := rfl
    simp only [run_bind, hl, run_get, bind_ok, run_expectWord ht hafter h₁,
      run_read, run_skipWord ht₁ hafter₁ h₂, if_true, hnote, run_discard, hrecorded]
  · obtain ⟨_, _, _, _, _, _, rfl⟩ := h₁
    obtain ⟨_, _, _, _, _, _, rfl⟩ := h₂
    obtain ⟨ended, start, token, after, hskip, hscan, rfl⟩ := hreaches
    refine ⟨ended, start, token, after, hskip, hscan, ?_⟩
    simp only [List.append_nil]

/-- Behind an export the text of a module may end. -/
theorem moduleStatements_of_export {s' : State} (hf : 1 < fuel)
    (ht : s.token = .word "export" false)
    (he : exportStatement (Grammar.upTo (n + 1)) .top (.plain lineFeeds fuel true true) s =
      .ok ((), s')) (ht' : s'.token = .endOfText) :
    moduleStatements (Grammar.upTo (n + 2)) (.plain lineFeeds fuel true true) s = .ok (1, s') := by
  have himport : s.token ≠ .word "import" false := by simp [ht]
  obtain ⟨k, rfl⟩ : ∃ k, fuel = k + 2 := ⟨fuel - 2, by omega⟩
  have hstatement : (Grammar.upTo (n + 2)).statement .top (.plain lineFeeds (k + 2) true true) s =
      .ok ((), s') := by
    change statement (Grammar.upTo (n + 1)) .top (.plain lineFeeds (k + 2) true true) s = _
    unfold statement
    simp only [run_bind, run_atWord_other himport, bind_ok, Bool.false_eq_true, if_false,
      run_atWord ht, if_true, he, run_pure]
  have hfuel : (Setting.plain lineFeeds (k + 2) true true).fuel = k + 2 := rfl
  unfold moduleStatements
  simp only [run_loop, hfuel, repeatUpTo, run_bind, run_get, bind_ok, ht, if_true, atDirective,
    hstatement, ht', run_pure]
  rfl

/-- A module that is nothing but a default export of an object literal. -/
theorem run_moduleStatements (lineFeeds : Nat) (h : Reads true assignment ('{' :: text) p)
    (hn : 8 * ('{' :: text).length ≤ n) (hf : ('{' :: text).length + 1 < fuel) (hgap : IsGap gap)
    (hs : s.Stands (defaultExport ('{' :: text) gap)) :
    ∃ l e items places s', moduleStatements (Grammar.upTo (n + 2))
        (.plain lineFeeds fuel true true) s = .ok (1, s') ∧ p e ∧
      (∀ i ∈ items, Item.Quiet i) ∧ State.Reaches
        { s with
          items := items ++ .exportedDefault ⟨l, some e⟩ :: s.items, restCommas := places,
          exports := s.exports ++ [("default", s.start)] } gap s' := by
  obtain ⟨l, e, items, places, s', he, ht', hp, hitems, hreaches⟩ :=
    run_exportStatement lineFeeds h hn (Nat.lt_of_succ_lt hf) hgap hs
  exact ⟨l, e, items, places, s', moduleStatements_of_export (by omega) (stands_export hs).1 he ht',
    hp, hitems, hreaches⟩

/-- A module with one export and no default values left is an outline. -/
theorem run_moduleOutline {g : Grammar} {c : Setting} {s s' : State} {count : Nat}
    {exported : String × List Char} (h : moduleStatements g c s = .ok (count, s'))
    (hdefaults : s'.defaults = []) (hexports : s'.exports = [exported]) :
    moduleOutline g c s =
      .ok (⟨count, s'.blockNames ++ s'.functionNames, s'.items.reverse⟩, s') := by
  have hrepeated : repeatedExport? s'.exports = none := by rw [hexports]; rfl
  unfold moduleOutline
  simp only [run_bind, h, bind_ok, run_get, hdefaults, List.getLast?_nil, run_read, hrepeated,
    run_pure, ite_self]

/-- Whether nothing has been collected yet. -/
structure IsFresh (s : State) : Prop where
  items : s.items = []
  blockNames : s.blockNames = []
  functionNames : s.functionNames = []
  defaults : s.defaults = []
  exports : s.exports = []

/-- A file whose statements are read as one export is read as a module of what was collected. -/
theorem exists_outline {source : String} {ended : Bool} {text after : List Char} {token : Token}
    {P : State → Prop}
    (hsource : skipTrivia .between false (skipInterpreterLine source.toList) = .ok (ended, text))
    (hscan : scanToken text = .ok (token, after))
    (hrun : ∀ s : State, s.Stands text → IsFresh s →
      ∃ s' exported, moduleStatements (Grammar.upTo (8 * source.toList.length + 16))
          (.plain (source.toList.count '\n') (source.toList.length + 2) true true) s = .ok (1, s') ∧
        s'.defaults = [] ∧ s'.exports = [exported] ∧ P s') :
    ∃ s', Outline.read ⟨false, false⟩ source =
      .ok ⟨1, s'.blockNames ++ s'.functionNames, s'.items.reverse⟩ ∧ P s' := by
  let s₀ : State :=
    { token := .endOfText, lineEnded := false, start := source.toList, after := source.toList,
      last := source.toList }
  obtain ⟨s₁, h₁, hs₁, hfresh⟩ :
      ∃ s₁, s₀.Reaches (skipInterpreterLine source.toList) s₁ ∧ s₁.Stands text ∧ IsFresh s₁ :=
    ⟨_, ⟨ended, _, _, _, hsource, hscan, rfl⟩, ⟨rfl, hscan⟩, rfl, rfl, rfl, rfl, rfl⟩
  obtain ⟨s', exported, hstatements, hdefaults, hexports, hp⟩ := hrun s₁ hs₁ hfresh
  have houtline := run_moduleOutline hstatements hdefaults hexports
  refine ⟨s', ?_, hp⟩
  unfold Outline.read
  have hreader : (do
      Reader.resume (skipInterpreterLine source.toList)
      Reader.moduleOutline (Grammar.upTo (8 * source.toList.length + 16)))
      (.plain (source.toList.count '\n') (source.toList.length + 2) true true) s₀ =
        .ok (⟨1, s'.blockNames ++ s'.functionNames, s'.items.reverse⟩, s') := by
    rw [run_bind, run_resume h₁, bind_ok]
    exact houtline
  dsimp only
  split
  · rename_i outline s'' heq
    cases heq.symm.trans hreader
    rfl
  · rename_i fault heq
    cases heq.symm.trans hreader

/-- **A file that begins, perhaps behind comments, with the default export of an object literal and
ends with it is read as a module with that export, and without another one.** -/
theorem read_defaultExport {source : String} {ended : Bool}
    (h : Reads true assignment ('{' :: text) p) (hgap : IsGap gap)
    (hsource : skipTrivia .between false (skipInterpreterLine source.toList) =
      .ok (ended, defaultExport ('{' :: text) gap))
    (hlength : ('{' :: text).length ≤ source.toList.length) :
    ∃ o l e items, Outline.read ⟨false, false⟩ source = .ok o ∧ p e ∧
      o.items = .exportedDefault ⟨l, some e⟩ :: items ∧ ∀ i ∈ items, i.Quiet := by
  obtain ⟨s', hread, l, e, items, hp, hitems, hquiet⟩ := exists_outline hsource
    (scanToken_defaultExport ('{' :: text) gap)
    (P := fun s' => ∃ l e items, p e ∧ s'.items = items ++ [.exportedDefault ⟨l, some e⟩] ∧
      ∀ i ∈ items, i.Quiet)
    fun s₁ hs₁ hfresh => by
      have hfuel : ('{' :: text).length + 1 < source.toList.length + 2 := by omega
      obtain ⟨l, e, items, places, s', hrun, hp, hquiet, hreaches⟩ :=
        run_moduleStatements (source.toList.count '\n') h (n := 8 * source.toList.length + 14)
          (by omega) hfuel hgap hs₁
      -- what was collected on the way is what the outline is made of
      obtain ⟨hitems, hdefaults, hexports⟩ := hreaches.collected
      dsimp only at hitems hdefaults hexports
      rw [hfresh.items] at hitems
      rw [hfresh.defaults] at hdefaults
      rw [hfresh.exports] at hexports
      exact ⟨s', _, hrun, hdefaults, hexports, l, e, items, hp, hitems, hquiet⟩
  exact ⟨_, l, e, items.reverse, hread, hp, by simp [hitems],
    fun i hi => hquiet i (List.mem_reverse.mp hi)⟩

end Reader

end CommandFiles.Script
