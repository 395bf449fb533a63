import CommandFiles.Proofs.LiteralText

/-! # Texts of functions

The body of a function is read in a scope of its own, which leaves a trace only if something is
imported or exported in it. A function keeps its text. -/
namespace CommandFiles.Script

/-- Whether a scope around items of a kind is of the kind as well. -/
def KeepsScopes (quiet : Item → Prop) : Prop :=
  ∀ names items, (∀ i ∈ items, quiet i) → quiet (.scope names items)

/-- What is said about all visits of an item is kept by a scope. -/
theorem keepsScopes_visits (holds : Visit → Prop) :
    KeepsScopes fun i => ∀ scopes, ∀ v ∈ visitsOfItem scopes i, holds v := by
  intro names items h scopes v hv
  obtain ⟨i, hi, hv⟩ := mem_visitsOfItems.mp hv
  exact h i hi (names :: scopes) v hv

theorem keepsScopes_quiet : KeepsScopes Item.Quiet :=
  keepsScopes_visits fun v => ∀ d, v.node ≠ .exportedDefault d

/-- A state at the beginning of a function. -/
def State.inFunction (s : State) : State :=
  { s with items := [], blockNames := [], functionNames := [] }

namespace Reader

variable {quiet : Item → Prop} {rest : List Char} {s s' : State} {p : Expr → Prop}

/-- The text of a function with one parameter and an expression for its body. -/
def arrowText (parameter : String) (body : List Char) : List Char :=
  parameter.toList ++ ' ' :: '=' :: '>' :: ' ' :: body

/-- What is met in a function is put into a scope, and what follows is read as if it were not
there. -/
theorem run_inScope {c : Setting} {names : List String} {r : Reader (List String)}
    (hscopes : KeepsScopes quiet) (h : r c (State.inFunction s) = .ok (names, s'))
    (hs' : (State.inFunction s).Meets quiet rest s') :
    ∃ s'', inScope true r c s = .ok ((), s'') ∧ s.Meets quiet rest s'' := by
  obtain ⟨items, places, hitems, ended, start, token, after, hskip, hscan, rfl⟩ := hs'
  change r c { s with items := [], blockNames := [], functionNames := [] } = _ at h
  have hquiet : quiet (.scope names items.reverse) :=
    hscopes names _ fun i hi => hitems i (List.mem_reverse.mp hi)
  -- A scope in which nothing was met is not kept.
  cases items with
  | nil =>
    refine ⟨_, ?_, [], places, by simp, ended, start, token, after, hskip, hscan, rfl⟩
    unfold inScope
    simp only [run_bind, run_get, bind_ok, run_set, if_true, h]
    rfl
  | cons i items =>
    refine ⟨_, ?_, [.scope names (i :: items).reverse], places, ?_, ended, start, token, after,
      hskip, hscan, rfl⟩
    · unfold inScope
      simp only [run_bind, run_get, bind_ok, run_set, if_true, h]
      simp [State.inFunction]
    · intro j hj
      rw [List.mem_singleton.mp hj]
      exact hquiet

section Arrow

variable {lineFeeds fuel : Nat} {awaits returnTypes : Bool}

theorem run_arrowBody {g : Grammar} {names : List String} {e : Expr} (hscopes : KeepsScopes quiet)
    (ht : s.token ≠ .mark .braceOpen)
    (h : g.assignment (.plain lineFeeds fuel false returnTypes) (State.inFunction s) = .ok (e, s'))
    (hs' : (State.inFunction s).Meets quiet rest s') :
    ∃ s'', arrowBody g false names (.plain lineFeeds fuel awaits returnTypes) s = .ok ((), s'') ∧
      s.Meets quiet rest s'' := by
  have hmark : (State.inFunction s).token ≠ .mark .braceOpen := ht
  have hassignment : under (fun c => { c with awaits := false, yields := false }) g.assignment
      (.plain lineFeeds fuel awaits returnTypes) (State.inFunction s) = .ok (e, s') := h
  refine run_inScope hscopes (?_ : _ = Except.ok (names, s')) hs'
  simp only [run_bind, run_atMark_other hmark, bind_ok, Bool.false_eq_true, if_false, run_discard,
    hassignment, run_pure]

/-- What was read since a place is the text between it and what stands next. -/
theorem run_textSince {text : List Char} {c : Setting} (hs : s.Stands (text ++ rest))
    (hs' : s.Meets quiet rest s') :
    textSince s.start c s' = .ok (String.ofList text, s') := by
  have hlast : s'.last = rest := by
    obtain ⟨_, _, _, _, _, _, _, _, _, rfl⟩ := hs'
    rfl
  rw [textSince, hs.start, hlast, List.length_append, Nat.add_sub_cancel, List.take_left' rfl]

theorem run_arrow {c : Setting} {more : List Char} (hended : s.lineEnded = false)
    (ht : s.token = .mark .arrow) (hafter : s.after = more) (hs' : s.Reaches more s') :
    arrow c s = .ok ((), s') := by
  unfold arrow
  simp only [run_bind, run_get, bind_ok, hended, Bool.false_eq_true, if_false,
    run_expectMark ht hafter hs']

/-- A parameter and an arrow on one line begin a function. -/
theorem run_arrowFunction {g : Grammar} {w text : String}
    (hw : IsPlainWord w) {s₁ s₂ : State} (ht : s.token = .word w false)
    (hpeek : (Peek.ofText s.after).isMark .arrow = true)
    (hended : (Peek.ofText s.after).lineEnded = false) (h₁ : s.Reaches s.after s₁)
    (harrow : arrow (.plain lineFeeds fuel awaits returnTypes) s₁ = .ok ((), s₂))
    (hbody : arrowBody g false [w] (.plain lineFeeds fuel awaits returnTypes) s₂ = .ok ((), s'))
    (htext : textSince s.start (.plain lineFeeds fuel awaits returnTypes) s' = .ok (text, s')) :
    ∃ l, arrowFunction? g (.plain lineFeeds fuel awaits returnTypes) s =
      .ok (some (.function l text), s') := by
  have hyields : (Setting.plain lineFeeds fuel awaits returnTypes).yields = false := rfl
  have hparen : s.token ≠ .mark .parenOpen := by simp [ht]
  have hnamed := run_atIdentifier hw hyields ht
  have hname := run_identifier hw hyields ht rfl h₁
  refine ⟨lineFeeds - s.start.count '\n' + 1, ?_⟩
  unfold arrowFunction?
  simp only [run_bind, run_line, bind_ok, run_get, run_atMark_other hparen, run_atArrowTypes,
    Bool.or_self, Bool.false_eq_true, if_false, hnamed, if_true, run_peek, hpeek, hended,
    Bool.not_false, Bool.and_self, hname, harrow, hbody, run_pure, htext]
  rfl

theorem assignment_of_arrowFunction {g : Grammar} {e : Expr}
    (h : arrowFunction? g (.plain lineFeeds fuel awaits returnTypes) s = .ok (some e, s')) :
    assignment g (.plain lineFeeds fuel awaits returnTypes) s = .ok (e, s') := by
  have hyields : (Setting.plain lineFeeds fuel awaits returnTypes).yields = false := rfl
  obtain ⟨y, hy⟩ :=
    exists_run_atWord (c := .plain lineFeeds fuel awaits returnTypes) (s := s) "yield"
  unfold assignment
  simp only [run_bind, run_line, bind_ok, run_read, hyields, hy, Bool.false_and,
    Bool.false_eq_true, if_false, h, run_pure]

theorem isSolid_arrow (rest : List Char) : IsSolid ('=' :: '>' :: rest) :=
  ⟨_, _, rfl, by decide, by decide, by decide⟩

theorem skipTrivia_arrow (rest : List Char) :
    skipTrivia .between false (' ' :: '=' :: '>' :: rest) = .ok (false, '=' :: '>' :: rest) :=
  skipTrivia_solid (isSolid_arrow rest) false

/-- A function with one parameter begins with its name, behind which the arrow stands. -/
theorem stands_arrowText {w : String} (hw : IsPlainWord w) {body : List Char}
    (hs : s.Stands (arrowText w body ++ rest)) :
    s.token = .word w false ∧ s.after = ' ' :: '=' :: '>' :: ' ' :: (body ++ rest) ∧
      Peek.ofText s.after = ⟨.mark .arrow, false, ' ' :: (body ++ rest)⟩ := by
  have hscanned := hs.scanned
  rw [arrowText, List.append_assoc, List.cons_append, List.cons_append, List.cons_append,
    List.cons_append, scanToken_word hw.word (endsWord_blank _), String.ofList_toList] at hscanned
  obtain ⟨ht, hafter⟩ := Prod.mk.inj (Except.ok.inj hscanned)
  refine ⟨ht.symm, hafter.symm, ?_⟩
  rw [← hafter]
  exact Peek.ofText_eq (skipTrivia_arrow _) (scanToken_arrow _)

theorem scanToken_arrowText {w : String} (hw : IsPlainWord w) (body rest : List Char) :
    ∃ t after, scanToken (arrowText w body ++ rest) = .ok (t, after) := by
  rw [arrowText, List.append_assoc]
  exact ⟨_, _, scanToken_word hw.word (endsWord_blank _)⟩

theorem length_arrowText (w : String) (body : List Char) :
    (arrowText w body).length = w.toList.length + 4 + body.length := by
  simp only [arrowText, List.length_append, List.length_cons]
  omega

/-- A function is read with its text, if its body is read as an expression behind the arrow. -/
theorem run_arrowText {w : String} {body : List Char} {n : Nat} (hw : IsPlainWord w)
    (hscopes : KeepsScopes quiet) (hsolid : IsSolid body)
    (hscans : ∃ t after, scanToken (body ++ rest) = .ok (t, after))
    (hbody : ∀ s : State, s.Stands (body ++ rest) → s.token ≠ .mark .braceOpen ∧
      ∃ e s', (Grammar.upTo n).assignment (.plain lineFeeds fuel false returnTypes) s =
        .ok (e, s') ∧ s.Meets quiet rest s')
    (hs : s.Stands (arrowText w body ++ rest)) :
    ∃ l s', assignment (Grammar.upTo n) (.plain lineFeeds fuel awaits returnTypes) s =
        .ok (.function l (String.ofList (arrowText w body)), s') ∧ s.Meets quiet rest s' := by
  obtain ⟨ht, hafter, hpeek⟩ := stands_arrowText hw hs
  -- from the parameter to the arrow, and from the arrow to the body
  obtain ⟨s₁, h₁, -, ht₁, hafter₁⟩ :=
    exists_reaches isGap_blank (isSolid_arrow _) (scanToken_arrow (' ' :: (body ++ rest))) s
  obtain ⟨t, after, hscan⟩ := hscans
  obtain ⟨s₂, h₂, hs₂, -, -⟩ := exists_reaches isGap_blank (hsolid.append rest) hscan s₁
  have hended : s₁.lineEnded = false := by
    obtain ⟨_, _, _, _, hskip', _, rfl⟩ := h₁
    cases (skipTrivia_arrow _).symm.trans hskip'
    rfl
  -- the body is read in a scope of its own, from which the state goes on
  obtain ⟨hbrace, -⟩ := hbody s₂ hs₂
  obtain ⟨-, e, s₃, he, hs₃⟩ := hbody (State.inFunction s₂) ⟨hs₂.start, hs₂.scanned⟩
  obtain ⟨s', hrun, hs'⟩ : ∃ s', arrowBody (Grammar.upTo n) false [w]
      (.plain lineFeeds fuel awaits returnTypes) s₂ = .ok ((), s') ∧ s₂.Meets quiet rest s' :=
    run_arrowBody hscopes hbrace he hs₃
  have hmeets : s.Meets quiet rest s' := (h₁.meets.trans h₂.meets).trans hs'
  obtain ⟨l, hl⟩ := run_arrowFunction (g := Grammar.upTo n) hw ht (by rw [hpeek]; rfl)
    (by rw [hpeek]) (hafter.symm ▸ h₁) (run_arrow hended ht₁ hafter₁ h₂) hrun
    (run_textSince hs hmeets)
  exact ⟨l, s', assignment_of_arrowFunction hl, hmeets⟩

end Arrow

/-- **A function with one parameter keeps its text**: its body is read as an expression in which
`await` is a name. -/
theorem reads_arrow {w : String} {body : List Char} (hw : IsPlainWord w)
    (h : Reads false assignment body p)
    (hbody : ∀ (s : State) (rest : List Char), s.Stands (body ++ rest) → IsEnd rest →
      s.token ≠ .mark .braceOpen) :
    Reads true assignment (arrowText w body)
      fun e => ∃ l, e = .function l (String.ofList (arrowText w body)) where
  solid := hw.word.solid.append _
  scans rest _ := scanToken_arrowText hw body rest
  reads n lineFeeds fuel s rest hn hf hs hrest := by
    have hlength := length_arrowText w body
    obtain ⟨k, rfl⟩ : ∃ k, n = k + 1 := ⟨n - 1, by omega⟩
    obtain ⟨l, s', hrun, hs'⟩ : ∃ l s', assignment (Grammar.upTo (k + 1))
        (.plain lineFeeds fuel true true) s =
          .ok (.function l (String.ofList (arrowText w body)), s') ∧
        s.Meets Item.Quiet rest s' := by
      refine run_arrowText hw keepsScopes_quiet h.solid (h.scans rest hrest)
        (fun s₂ hs₂ => ⟨hbody s₂ rest hs₂ hrest, ?_⟩) hs
      obtain ⟨e, s₃, he, hs₃, -⟩ := h.reads k lineFeeds fuel s₂ rest (by omega) (by omega) hs₂ hrest
      exact ⟨e, s₃, he, hs₃⟩
    exact ⟨_, s', hrun, hs', l, rfl⟩

end Reader

end CommandFiles.Script
