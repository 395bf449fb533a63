import CommandFiles.Proofs.BareSyntax
import CommandFiles.Proofs.BindingText
import CommandFiles.Proofs.ValueText

/-! # Texts of elements

What stands between brackets or braces is read as a list, and bound as one where it is tried as a
pattern. The elements of an array may be holes or spread. Where the expressions in them come back
from their texts, so does the array, and it does not look like more of a pattern than it is. -/
namespace CommandFiles.Script

/-- The expression of an element. -/
def Element.expr? : Element → Option Expr
  | .item e => some e
  | .spread _ e => some e
  | .hole => none

/-- Whether an element is a hole. -/
def Element.isHole : Element → Bool
  | .hole => true
  | _ => false

/-- A text behind the mark that spreads it. -/
def spreadText (text : List Char) : List Char := '.' :: '.' :: '.' :: text

variable {rest : List Char} {s s' : State}

theorem scanToken_spreadText (text : List Char) :
    scanToken (spreadText text) = .ok (.mark .ellipsis, text) := by
  have hdigit : Char.isDigit '.' = false := by decide
  simp [spreadText, scanToken, scanMark, Mark.spellings, dropStart?, hdigit]

theorem spreadText_append (text rest : List Char) :
    spreadText text ++ rest = spreadText (text ++ rest) := rfl

theorem solid_spreadText (text : List Char) : IsSolid (spreadText text) :=
  ⟨'.', _, rfl, by decide, by decide, by decide⟩

theorem stands_spreadText {text : List Char} (hs : s.Stands (spreadText text ++ rest)) :
    s.token = .mark .ellipsis ∧ s.after = text ++ rest := by
  rw [spreadText_append] at hs
  exact Prod.mk.inj (Except.ok.inj (hs.scanned.symm.trans (scanToken_spreadText _)))

namespace Reader

/-- A noted comma is no part of what the state has come to. -/
theorem run_noteRestComma {quiet : Item → Prop} (close : Mark) (c : Setting)
    (h : s.Meets quiet rest s') :
    ∃ s'', noteRestComma close c s' = .ok ((), s'') ∧ s.Meets quiet rest s'' := by
  obtain ⟨items, places, hitems, ended, start, token, after, hskip, hscan, rfl⟩ := h
  unfold noteRestComma
  obtain ⟨b, hb⟩ : ∃ b, atMark .comma c
      { s with items := items ++ s.items, restCommas := places, token, lineEnded := ended, start,
               after, last := rest } = .ok (b, _) := ⟨_, rfl⟩
  simp only [run_bind, hb, bind_ok, run_peek]
  split
  · exact ⟨_, rfl, items, _, hitems, ended, start, token, after, hskip, hscan, rfl⟩
  · exact ⟨_, rfl, items, places, hitems, ended, start, token, after, hskip, hscan, rfl⟩

/-- Texts in brackets begin a chain with what they are read as, if the rule that the opening mark
begins reads a list of such entries, and the rule for bindings one that each binds no more than it
is. -/
theorem readsSpine_bracketed {quiet : Item → Prop} {α β : Type} {text : β → List Char}
    {gap stopGap : List Char} {hole : β → Bool} (p : β → α → Prop)
    (opening close : Char × Mark) (item : Grammar → Reader α)
    (binding : Grammar → Reader (List String)) {node : Nat → List α → Expr}
    (hopen : opening ∈ literalMarks)
    (hopening : opening.2 = .bracketOpen ∨ opening.2 = .braceOpen) (hclose : close ∈ closers)
    (hcomma : close.2 ≠ .comma)
    (hbar : close.2 ∈ [Mark.assign, .comma, .bracketClose, .braceClose, .parenClose])
    (hgap : IsGap gap) (hstop : IsStop stopGap) {bs : List β}
    (hholes : ClosesHoles hole bs stopGap)
    (hitems : ∀ b ∈ bs, ∀ (k : Site) (outer : List Char), k.Fits outer →
      (text b).length < outer.length →
      ReadsEntry (State.Meets quiet) (item k.grammar) k.setting close.2 (hole b) (text b) (p b) ∧
        BindsEntry quiet (binding k.grammar) k.setting close.2 (hole b) (text b))
    (hprimary : ∀ {g : Grammar} {lineFeeds fuel : Nat} {awaits returnTypes : Bool}
      {s s₁ s' : State} {as : List α}, s.token = .mark opening.2 →
      advance (.plain lineFeeds fuel awaits returnTypes) s = .ok ((), s₁) →
      commaSeparated close.2 (item g) (.plain lineFeeds fuel awaits returnTypes) s₁ =
        .ok (as, s') →
      ∃ l, primary g (.plain lineFeeds fuel awaits returnTypes) s = .ok (node l as, s'))
    (hpattern : ∀ {g : Grammar} {c : Setting} {s s' : State} {names : List String},
      s.token = .mark opening.2 → pattern g c s = .ok (names, s') →
      ∃ s₁ found, s.Reaches s.after s₁ ∧
        commaSeparated close.2 (binding g) c s₁ = .ok (found, s')) :
    ReadsSpine quiet false (opening.1 :: inBrackets gap stopGap close.1 (bs.map text))
      fun o e => o = false ∧ ∃ l as, e = node l as ∧ List.Forall₂ p bs as := by
  obtain ⟨hcount, hlength⟩ := length_inBrackets gap stopGap close.1 (bs.map text)
  rw [List.length_map] at hcount
  have hstands {s : State} {rest : List Char}
      (hs : s.Stands (opening.1 :: inBrackets gap stopGap close.1 (bs.map text) ++ rest)) :
      s.token = .mark opening.2 ∧ s.after = inBrackets gap stopGap close.1 (bs.map text) ++ rest :=
    Prod.mk.inj (Except.ok.inj (hs.scanned.symm.trans (scanToken_literalMark hopen _)))
  have hinner {b : β} (hb : b ∈ bs) :
      (text b).length < (opening.1 :: inBrackets gap stopGap close.1 (bs.map text)).length :=
    Nat.lt_succ_of_le (hlength _ (List.mem_map_of_mem hb))
  have hmark {m : Mark} (hm : m ∉ [Mark.bracketOpen, .braceOpen]) {s : State} {rest : List Char}
      (hs : s.Stands (opening.1 :: inBrackets gap stopGap close.1 (bs.map text) ++ rest)) :
      s.token ≠ .mark m := by
    rw [(hstands hs).1]
    rintro h
    obtain rfl := Token.mark.inj h
    rcases hopening with h | h <;> (rw [h] at hm; exact hm (by decide))
  refine readsSpine_of_primary (solid_literalMark hopen _)
    (fun rest _ => ⟨_, _, scanToken_literalMark hopen _, ?_, by simp⟩)
    (fun k s rest _ hs _ => arrowFunction?_none (hmark (by decide) hs) fun w escaped hw => ?_)
    ⟨fun s rest hs _ m hm => ?_, fun k s rest names s' hk hs _ hrun => ?_⟩
    ⟨solid_literalMark hopen _, fun rest _ => ⟨_, _, scanToken_literalMark hopen _⟩,
      fun k s rest hk hs hrest => ?_⟩
  · rcases hopening with h | h <;> rw [h] <;> rfl
  · rw [(hstands hs).1] at hw
    cases hw
  · refine hmark ?_ hs
    revert m
    decide
  · -- what the rule for bindings reads ends where the literal ends
    obtain ⟨ht, hafter⟩ := hstands hs
    obtain ⟨s₁, found, h₁, hfound⟩ := hpattern ht hrun
    rw [hafter] at h₁
    exact .inl (meets_of_list close text hole hclose hcomma hbar hstop hgap
      (fun b hb => (hitems b hb k _ hk (hinner hb)).2) hholes h₁ hfound)
  · obtain ⟨ht, hafter⟩ := hstands hs
    have hfuel := hk.fuel
    rw [List.length_cons] at hfuel
    have hf : bs.length + 1 < k.setting.fuel := by
      change bs.length + 1 < k.fuel
      omega
    obtain ⟨s₁, as, s', hadvance, has, hs', hps⟩ :=
      run_list close hclose hcomma hgap hstop hrest.follows.hasToken
        (fun b hb => (hitems b hb k _ hk (hinner hb)).1) hholes hf hafter
    obtain ⟨l, hl⟩ := hprimary ht hadvance has
    exact ⟨_, s', hl, hs', l, as, rfl, hps⟩

/-- Reads an element of an array pattern, which may be a hole. -/
def patternEntry (g : Grammar) : Reader (List String) := do
  if ← atMark .comma then return []
  if ← skipMark .ellipsis then
    let names ← g.pattern
    unless ← atMark .bracketClose do fail
    return names
  patternElement g

theorem arrayPattern_eq (g : Grammar) : arrayPattern g = do
    let names ← commaSeparated .bracketClose (patternEntry g)
    return names.flatten := rfl

end Reader

end CommandFiles.Script

namespace CommandFiles.Literal

open Script Script.Reader

variable {quiet : Item → Prop} {k : Site} {outer rest gap stopGap : List Char} {s s' : State}

/-- Whether an expression comes back from a text, but for lines and parentheses. -/
abbrev ComesBack (quiet : Item → Prop) (text : List Char) (e : Expr) : Prop :=
  ReadsFully quiet text fun e' => bare e' = bare e

/-! ## Elements -/

/-- The text of an element, with the texts of expressions given. -/
def elementText (text : Expr → List Char) : Element → List Char
  | .item e => text e
  | .spread _ e => spreadText (text e)
  | .hole => []

variable {text : Expr → List Char} {a : Element}

/-- In front of the comma behind a hole a state has come to that comma. -/
theorem arrives_comma (quiet : Item → Prop) {more : List Char} (hs : s.Stands (',' :: more)) :
    s.token = .mark .comma ∧ Arrives (State.Meets quiet) s (',' :: more) s := by
  have hcomma : (',', Mark.comma) ∈ literalMarks := by decide
  obtain ⟨ht, hafter⟩ :=
    Prod.mk.inj (Except.ok.inj (hs.scanned.symm.trans (scanToken_literalMark hcomma more)))
  refine ⟨ht, fun {q gap rest} hq hgap htext => ?_, fun h => h.meets⟩
  cases gap with
  | nil =>
    have hscan := hs.scanned
    rw [htext, List.nil_append, scanToken_literalMark (closers_literalMarks hq)] at hscan
    obtain ⟨ht', hafter'⟩ := Prod.mk.inj (Except.ok.inj hscan)
    exact ⟨ht'.symm, hafter'.symm⟩
  | cons d gap =>
    obtain ⟨rfl, -⟩ := List.cons.inj htext
    rcases hgap _ List.mem_cons_self with hc | hc <;> cases hc

/-- A hole is read in front of its comma. -/
theorem readsEntry_hole (quiet : Item → Prop) (g : Grammar) (c : Setting) :
    ReadsEntry (State.Meets quiet) (element g .bracketClose true) c .bracketClose true []
      fun a' => bareElement a' = .hole := by
  have hcomma : (',', Mark.comma) ∈ literalMarks := by decide
  refine ⟨fun rest hrest => ?_, fun s rest hs hrest => ?_, fun s rest hs hrest => ?_⟩
  · obtain ⟨more, rfl⟩ := hrest.comma rfl
    exact ⟨solid_literalMark hcomma more, _, _, scanToken_literalMark hcomma more⟩
  · obtain ⟨more, rfl⟩ := hrest.comma rfl
    obtain ⟨ht, -⟩ := arrives_comma quiet hs
    simp [ht]
  · obtain ⟨more, rfl⟩ := hrest.comma rfl
    obtain ⟨ht, harrives⟩ := arrives_comma quiet hs
    refine ⟨.hole, s, ?_, harrives, rfl⟩
    unfold element
    simp only [run_bind, run_atMark ht, bind_ok, Bool.and_self, if_true, run_pure]

/-- An item or a spread element is read as what its expression comes back as. -/
theorem readsEntry_element {close : Mark}
    (hclose : close ∈ [Mark.bracketClose, .braceClose, .parenClose]) (holes : Bool)
    (ha : a.isHole = false) (h : ∀ e ∈ a.expr?, ComesBack quiet (text e) e) (hk : k.Fits outer)
    (hlength : (elementText text a).length < outer.length) :
    ReadsEntry (State.Meets quiet) (element k.grammar close holes) k.setting close false
      (elementText text a) fun a' => bareElement a' = bareElement a := by
  have hbar : close ∈ [Mark.decorator, .ellipsis, .comma, .bracketClose, .braceClose, .parenClose] :=
    List.mem_of_mem_drop (i := 3) hclose
  cases a with
  | hole => cases ha
  | item e =>
    have he := h e rfl
    refine ⟨fun rest hrest => ⟨he.whole.solid.append rest, he.whole.scans rest hrest.isEnd⟩,
      fun s rest hs hrest => he.binds.opens s rest hs hrest.isEnd close hbar,
      fun s rest hs hrest => ?_⟩
    have hopens := he.binds.opens s rest hs hrest.isEnd
    obtain ⟨e', s', he', hs', hbare⟩ := he.whole.run_assignment hk hlength hs hrest.isEnd
    refine ⟨.item e', s', ?_, IsMove.arrives_at hs', congrArg Element.item hbare⟩
    unfold element
    simp only [run_bind, run_atMark_other (hopens .comma (by decide)), bind_ok, Bool.and_false,
      Bool.false_eq_true, if_false, run_line, run_skipMark_other (hopens .ellipsis (by decide)), he',
      run_pure]
  | spread l e =>
    have he := h e rfl
    have hinner : (text e).length < outer.length :=
      Nat.lt_of_le_of_lt (by simp [elementText, spreadText]; omega) hlength
    refine ⟨fun rest _ => ⟨(solid_spreadText (text e)).append rest, _, _, scanToken_spreadText _⟩,
      fun s rest hs _ ht => ?_, fun s rest hs hrest => ?_⟩
    · rw [(stands_spreadText hs).1] at ht
      cases ht
      revert hclose
      decide
    · obtain ⟨ht, hafter⟩ := stands_spreadText hs
      obtain ⟨s₁, h₁, hs₁⟩ := he.whole.exists_reaches isGap_nil hrest.isEnd s
      obtain ⟨e', s₂, he', h₂, hbare⟩ := he.whole.run_assignment hk hinner hs₁ hrest.isEnd
      obtain ⟨s₃, hnote, h₃⟩ := run_noteRestComma close k.setting h₂
      have hcomma : s.token ≠ .mark .comma := by simp [ht]
      have hline : line k.setting s = .ok (k.setting.lineFeeds - s.start.count '\n' + 1, s) := rfl
      cases holes with
      | true =>
        refine ⟨.spread (k.setting.lineFeeds - s.start.count '\n' + 1) e', s₃, ?_,
          IsMove.arrives_at (h₁.meets.trans h₃), congrArg (Element.spread 0) hbare⟩
        unfold element
        simp only [run_bind, run_atMark_other hcomma, bind_ok, Bool.true_and, Bool.false_eq_true,
          if_false, hline, run_skipMark ht hafter h₁, if_true, he', hnote, run_pure]
      | false =>
        refine ⟨.spread (k.setting.lineFeeds - s.start.count '\n' + 1) e', s₂, ?_,
          IsMove.arrives_at (h₁.meets.trans h₂), congrArg (Element.spread 0) hbare⟩
        unfold element
        simp only [run_bind, run_atMark_other hcomma, bind_ok, Bool.and_false, Bool.false_eq_true,
          if_false, hline, run_skipMark ht hafter h₁, if_true, he', run_pure]

/-- As parts of a pattern, elements bind no more than they are. -/
theorem bindsEntry_element (h : ∀ e ∈ a.expr?, ComesBack quiet (text e) e) (hk : k.Fits outer)
    (hlength : (elementText text a).length < outer.length) :
    BindsEntry quiet (patternEntry k.grammar) k.setting .bracketClose a.isHole
      (elementText text a) := by
  cases a with
  | hole =>
    obtain ⟨hbegins, hopens, -⟩ := readsEntry_hole quiet k.grammar k.setting
    refine ⟨fun rest hrest => (hbegins rest hrest).1, hopens, fun s rest names s' hs hrest hrun => ?_⟩
    obtain ⟨more, rfl⟩ := hrest.comma rfl
    obtain ⟨ht, harrives⟩ := arrives_comma quiet hs
    unfold patternEntry at hrun
    simp only [run_bind, run_atMark ht, bind_ok, if_true, run_pure] at hrun
    cases hrun
    exact .inl harrives
  | item e =>
    have he := h e rfl
    refine ⟨fun rest _ => he.whole.solid.append rest, fun s rest hs hrest =>
      he.binds.opens s rest hs hrest.isEnd .bracketClose (by decide),
      fun s rest names s' hs hrest hrun => ?_⟩
    have hopens := he.binds.opens s rest hs hrest.isEnd
    unfold patternEntry at hrun
    simp only [run_bind, run_atMark_other (hopens .comma (by decide)), bind_ok,
      Bool.false_eq_true, if_false, run_skipMark_other (hopens .ellipsis (by decide))] at hrun
    exact (he.binds.of_patternElement hk hlength hs hrest.isEnd hrun).imp_left IsMove.arrives_at
  | spread l e =>
    have he := h e rfl
    have hinner : (text e).length < outer.length :=
      Nat.lt_of_le_of_lt (by simp [elementText, spreadText]; omega) hlength
    refine ⟨fun rest _ => (solid_spreadText (text e)).append rest, fun s rest hs _ => ?_,
      fun s rest names s' hs hrest hrun => ?_⟩
    · simp [(stands_spreadText hs).1]
    · obtain ⟨ht, hafter⟩ := stands_spreadText hs
      have hcomma : s.token ≠ .mark .comma := by simp [ht]
      unfold patternEntry at hrun
      simp only [run_bind, run_atMark_other hcomma, bind_ok, Bool.false_eq_true, if_false] at hrun
      obtain ⟨⟨b, s₁⟩, hskip, hbehind⟩ := bind_eq_ok.mp hrun
      obtain ⟨rfl, h₁⟩ := of_skipMark ht hskip
      rw [hafter] at h₁
      simp only [if_true, run_bind] at hbehind
      obtain ⟨⟨names', s₂⟩, hpattern, hlast⟩ := bind_eq_ok.mp hbehind
      have hstops := he.binds.of_pattern hk hinner (h₁.stands (he.whole.solid.append rest))
        hrest.isEnd hpattern
      -- what is spread must be the last part of a pattern
      by_cases hclose : s₂.token = .mark .bracketClose
      · simp only [run_atMark hclose, bind_ok, if_true, run_pure] at hlast
        cases hlast
        rcases hstops with h₂ | hbars
        · exact .inl (IsMove.arrives_at (h₁.meets.trans h₂))
        · exact absurd hclose (hbars .bracketClose (by decide))
      · simp only [run_atMark_other hclose, bind_ok, Bool.false_eq_true, if_false, run_bind] at hlast
        cases hlast

theorem map_eq_of_forall₂ {α β : Type} {f : α → β} {as bs : List α}
    (h : List.Forall₂ (fun a b => f b = f a) as bs) : bs.map f = as.map f := by
  induction h with
  | nil => rfl
  | cons hab _ ih => rw [List.map_cons, List.map_cons, hab, ih]

/-! ## Arrays -/

/-- **An array comes back from the texts of its elements.** -/
theorem readsSpine_array {elements : List Element} (hgap : IsGap gap) (hstop : IsStop stopGap)
    (hholes : ClosesHoles Element.isHole elements stopGap)
    (h : ∀ a ∈ elements, ∀ e ∈ a.expr?, ComesBack quiet (text e) e) :
    ReadsSpine quiet false ('[' :: inBrackets gap stopGap ']' (elements.map (elementText text)))
      fun o e => o = false ∧ ∃ l as, e = .array l as ∧
        as.map bareElement = elements.map bareElement := by
  refine (readsSpine_bracketed (fun a a' => bareElement a' = bareElement a)
    ('[', .bracketOpen) (']', .bracketClose) (fun g => element g .bracketClose true) patternEntry (by decide) (.inl rfl) (by decide)
    (by decide) (by decide) hgap hstop hholes (fun a ha k outer hk hlength => ?_) primary_array
    fun ht hpattern => ?_).mono ?_
  · refine ⟨?_, bindsEntry_element (h a ha) hk hlength⟩
    cases hhole : a.isHole with
    | true =>
      cases a with
      | hole => exact readsEntry_hole quiet k.grammar k.setting
      | _ => cases hhole
    | false => exact readsEntry_element (by decide) true hhole (h a ha) hk hlength
  · unfold pattern at hpattern
    rw [run_bind] at hpattern
    obtain ⟨⟨b, s₁⟩, hskip, hbehind⟩ := bind_eq_ok.mp hpattern
    obtain ⟨rfl, h₁⟩ := of_skipMark ht hskip
    simp only [if_true, arrayPattern_eq, run_bind] at hbehind
    obtain ⟨⟨found, s₂⟩, hfound, hlast⟩ := bind_eq_ok.mp hbehind
    cases hlast
    exact ⟨s₁, found, h₁, hfound⟩
  · rintro o e ⟨rfl, l, as, rfl, has⟩
    exact ⟨rfl, l, as, rfl, map_eq_of_forall₂ has⟩

end CommandFiles.Literal
