import CommandFiles.Proofs.ElementText

/-! # Texts of objects with all their parts

A property has a fixed or a computed key and a value, or is a method, or is spread. Where the
expressions in them come back from their texts, so does the object. As part of a pattern, a property
with a key binds what its value does, and a method is none. -/
namespace CommandFiles.Script

/-- The expression of a computed key. -/
def Key.expr? : Key → Option Expr
  | .fixed _ => none
  | .computed e => some e

variable {quiet : Item → Prop} {rest text : List Char} {s s' : State}

theorem State.Reaches.peek (h : s.Reaches rest s') :
    (Reader.Peek.ofText rest).token = s'.token := by
  obtain ⟨ended, start, token, after, hskip, hscan, rfl⟩ := h
  rw [Reader.Peek.ofText_eq hskip hscan]

namespace Reader

variable {g : Grammar} {c : Setting}

/-! ## Methods -/

theorem of_propertyModifier? {m? : Option String} (h : propertyModifier? c s = .ok (m?, s')) :
    s' = s ∧ (m?.isSome = true → (∃ w, s.token = .word w false) ∧
      ((Peek.ofText s.after).isPropertyName = true ∨
        (Peek.ofText s.after).isMark .times = true)) := by
  unfold propertyModifier? at h
  simp only [run_bind, run_peek, run_get, bind_ok] at h
  generalize s.token = t at h ⊢
  split at h
  · split at h
    · rename_i hp
      cases h
      simp only [Bool.and_eq_true, Bool.or_eq_true] at hp
      exact ⟨rfl, fun _ => ⟨⟨_, rfl⟩, hp.1⟩⟩
    · cases h
      exact ⟨rfl, nofun⟩
  · split at h
    · rename_i hp
      cases h
      exact ⟨rfl, fun _ => ⟨⟨_, rfl⟩, .inl hp⟩⟩
    · cases h
      exact ⟨rfl, nofun⟩
  · split at h
    · rename_i hp
      cases h
      exact ⟨rfl, fun _ => ⟨⟨_, rfl⟩, .inl hp⟩⟩
    · cases h
      exact ⟨rfl, nofun⟩
  · cases h
    exact ⟨rfl, nofun⟩

/-- What a method begins with: a word with the name or the asterisk of the method behind it, an
asterisk, or its key. -/
theorem of_property_method {l : Nat} {key : Key} {shown : String}
    (h : property g c s = .ok (.method l key shown, s')) : s.token ≠ .mark .ellipsis ∧
      ((∃ w, s.token = .word w false) ∧ ((Peek.ofText s.after).isPropertyName = true ∨
          (Peek.ofText s.after).isMark .times = true) ∨
        s.token = .mark .times ∨
        ∃ key s₁, propertyKey g c s = .ok (key, s₁) ∧
          (s₁.token = .mark .parenOpen ∨ s₁.token = .mark .less)) := by
  have hellipsis : s.token ≠ .mark .ellipsis := by
    intro ht
    unfold property at h
    simp only [run_bind, run_get, run_line, bind_ok] at h
    obtain ⟨⟨b, s₁⟩, hskip, h⟩ := bind_eq_ok.mp h
    obtain ⟨rfl, -⟩ := of_skipMark ht hskip
    simp only [if_true, run_bind] at h
    obtain ⟨_, -, h⟩ := bind_eq_ok.mp h
    obtain ⟨_, -, h⟩ := bind_eq_ok.mp h
    cases h
  refine ⟨hellipsis, ?_⟩
  by_contra hnone
  simp only [not_or] at hnone
  obtain ⟨hword, htimes, hkey⟩ := hnone
  unfold property at h
  simp only [run_bind, run_get, run_line, bind_ok, run_skipMark_other hellipsis,
    Bool.false_eq_true, if_false] at h
  obtain ⟨⟨modifier, s₀⟩, hmodifier, h⟩ := bind_eq_ok.mp h
  obtain ⟨rfl, hsome⟩ := of_propertyModifier? hmodifier
  cases modifier with
  | some w => exact hword (hsome rfl)
  | none =>
    obtain ⟨named, hnamed⟩ : ∃ b, atIdentifier c s₀ = .ok (b, s₀) := ⟨_, rfl⟩
    simp only [Option.isSome_none, Bool.false_eq_true, if_false, run_bind,
      run_skipMark_other htimes, bind_ok, hnamed] at h
    obtain ⟨⟨found, s₁⟩, hfound, h⟩ := bind_eq_ok.mp h
    have hparen : s₁.token ≠ .mark .parenOpen := fun ht => hkey ⟨found, s₁, hfound, .inl ht⟩
    have hless : s₁.token ≠ .mark .less := fun ht => hkey ⟨found, s₁, hfound, .inr ht⟩
    simp only [run_atMark_other hparen, run_atMark_other hless, bind_ok, Bool.or_self,
      Bool.false_eq_true, if_false, run_bind] at h
    -- what is left is a property with a value
    obtain ⟨⟨b, s₂⟩, -, h⟩ := bind_eq_ok.mp h
    cases b with
    | true =>
      simp only [if_true, run_bind] at h
      obtain ⟨_, -, h⟩ := bind_eq_ok.mp h
      cases h
    | false =>
      simp only [Bool.false_eq_true, if_false] at h
      split at h
      · simp only [run_bind] at h
        obtain ⟨⟨b, s₃⟩, -, h⟩ := bind_eq_ok.mp h
        cases b with
        | true =>
          simp only [if_true, run_bind] at h
          obtain ⟨_, -, h⟩ := bind_eq_ok.mp h
          obtain ⟨_, -, h⟩ := bind_eq_ok.mp h
          cases h
        | false => cases h
      · cases h

end Reader

end CommandFiles.Script

namespace CommandFiles.Literal

open Script Script.Reader

variable {quiet : Item → Prop} {k : Site} {outer rest gap stopGap : List Char} {s s' : State}

/-! ## Keys -/

/-- The text of a key, with the texts of expressions given. -/
def keyText (text : Expr → List Char) : Key → List Char
  | .fixed name => (Value.keySource name).toList
  | .computed e => '[' :: (text e ++ [']'])

/-- Whether a text is read as a key in front of a colon, and nothing but a key begins with it. -/
structure ReadsKey (quiet : Item → Prop) (text : List Char) (p : Key → Prop) : Prop where
  solid : IsSolid text
  scans : ∀ more, ∃ t after, scanToken (text ++ ':' :: more) = .ok (t, after)
  opens : ∀ (s : State) (more : List Char), s.Stands (text ++ ':' :: more) →
    ∀ m, s.token = .mark m → m = .bracketOpen
  modifier : ∀ (c : Setting) (s : State) (more : List Char), s.Stands (text ++ ':' :: more) →
    propertyModifier? c s = .ok (none, s)
  word : ∀ (s : State) (more : List Char), s.Stands (text ++ ':' :: more) → ∀ w escaped,
    s.token = .word w escaped → (Peek.ofText s.after).isMark .colon = true
  reads : ∀ (k : Site) (outer : List Char) (s : State) (more : List Char), k.Fits outer →
    text.length < outer.length → s.Stands (text ++ ':' :: more) →
    ∃ key s', propertyKey k.grammar k.setting s = .ok (key, s') ∧
      s.Meets quiet (':' :: more) s' ∧ p key

theorem ReadsKey.ne_mark {text : List Char} {p : Key → Prop} (h : ReadsKey quiet text p)
    {more : List Char} (hs : s.Stands (text ++ ':' :: more)) {m : Mark} (hm : m ≠ .bracketOpen) :
    s.token ≠ .mark m :=
  fun ht => hm (h.opens s more hs m ht)

theorem ReadsKey.mono {text : List Char} {p q : Key → Prop} (h : ReadsKey quiet text p)
    (hpq : ∀ key, p key → q key) : ReadsKey quiet text q where
  solid := h.solid
  scans := h.scans
  opens := h.opens
  modifier := h.modifier
  word := h.word
  reads k outer s more hk hlength hs := by
    obtain ⟨key, s', hkey, hs', hp⟩ := h.reads k outer s more hk hlength hs
    exact ⟨key, s', hkey, hs', hpq key hp⟩

theorem readsKey_fixed (name : String) :
    ReadsKey quiet (Value.keySource name).toList fun key => key = .fixed name := by
  have hkey := Value.isKey_keySource name
  have hcolon : (':', Mark.colon) ∈ literalMarks := by decide
  have hstands {s : State} {more : List Char}
      (hs : s.Stands ((Value.keySource name).toList ++ ':' :: more)) :
      (s.token = .word name false ∨ s.token = .string name) ∧ s.after = ':' :: more := by
    obtain ⟨t, hscan, ht⟩ := hkey.scan more
    obtain ⟨rfl, hafter⟩ := Prod.mk.inj (Except.ok.inj (hs.scanned.symm.trans hscan))
    exact ⟨ht, hafter⟩
  refine ⟨hkey.solid, fun more => ?_, fun s more hs m hm => ?_,
    fun c s more hs => run_propertyModifier? (hstands hs).2, fun s more hs w escaped _ => ?_,
    fun k outer s more _ _ hs => ?_⟩
  · obtain ⟨t, hscan, -⟩ := hkey.scan more
    exact ⟨t, _, hscan⟩
  · rcases (hstands hs).1 with ht | ht <;> (rw [ht] at hm; cases hm)
  · rw [(hstands hs).2]
    unfold Peek.isMark
    rw [peek_colon]
    rfl
  · obtain ⟨ht, hafter⟩ := hstands hs
    obtain ⟨s₁, h₁, -⟩ := exists_reaches isGap_nil (solid_literalMark hcolon more)
      (scanToken_literalMark hcolon more) s
    exact ⟨_, s₁, run_propertyKey ht (hafter ▸ h₁), h₁.meets, rfl⟩

theorem readsKey_computed {text : List Char} {e : Expr} (h : ComesBack quiet text e) :
    ReadsKey quiet ('[' :: (text ++ [']'])) fun key => ∃ e', key = .computed e' ∧
      bare e' = bare e := by
  have hopen : ('[', Mark.bracketOpen) ∈ literalMarks := by decide
  have hclose : (']', Mark.bracketClose) ∈ closers := by decide
  have hcolon : (':', Mark.colon) ∈ literalMarks := by decide
  have hscan (more : List Char) : scanToken ('[' :: (text ++ [']']) ++ ':' :: more) =
      .ok (.mark .bracketOpen, text ++ [']'] ++ ':' :: more) := scanToken_literalMark hopen _
  have hstands {s : State} {more : List Char}
      (hs : s.Stands ('[' :: (text ++ [']']) ++ ':' :: more)) :
      s.token = .mark .bracketOpen ∧ s.after = text ++ [']'] ++ ':' :: more :=
    Prod.mk.inj (Except.ok.inj (hs.scanned.symm.trans (hscan more)))
  refine ⟨solid_literalMark hopen _, fun more => ⟨_, _, hscan more⟩, fun s more hs m hm => ?_,
    fun c s more hs => ?_, fun s more hs w escaped hw => ?_,
    fun k outer s more hk hlength hs => ?_⟩
  · exact (Token.mark.inj ((hstands hs).1.symm.trans hm)).symm
  · unfold propertyModifier?
    simp only [run_bind, run_peek, run_get, bind_ok, (hstands hs).1, run_pure]
  · rw [(hstands hs).1] at hw
    cases hw
  · obtain ⟨ht, hafter⟩ := hstands hs
    rw [List.append_assoc, List.singleton_append] at hafter
    simp only [List.length_cons, List.length_append] at hlength
    have hend := isEnd_closer hclose isGap_nil (':' :: more)
    obtain ⟨s₁, h₁, hs₁⟩ := h.whole.exists_reaches isGap_nil hend s
    obtain ⟨e', s₂, he', h₂, hbare⟩ := h.whole.run_assignment hk (by omega) hs₁ hend
    obtain ⟨ht₂, hafter₂⟩ := IsMove.closer hclose isGap_nil h₂
    obtain ⟨s₃, h₃, -⟩ := exists_reaches isGap_nil (solid_literalMark hcolon more)
      (scanToken_literalMark hcolon more) s₂
    refine ⟨.computed e', s₃, ?_, (h₁.meets.trans h₂).trans h₃.meets, e', rfl, hbare⟩
    have hunder : under (fun c => { c with inOperator := true }) k.grammar.assignment k.setting s₁ =
        .ok (e', s₂) := he'
    unfold propertyKey
    simp only [run_bind, run_get, bind_ok, ht, run_advance hafter h₁, hunder,
      run_expectMark ht₂ hafter₂ h₃, run_pure]

/-! ## Properties -/

/-- The text of a property, with the texts of expressions given. -/
def propertyText (text : Expr → List Char) : Property → List Char
  | .value _ key e => keyText text key ++ ':' :: ' ' :: text e
  | .method _ _ shown => shown.toList
  | .accessor _ _ => []
  | .spread _ e => spreadText (text e)

variable {text : Expr → List Char}

/-- Whether a property comes back from its text. -/
def PropertyComesBack (quiet : Item → Prop) (text : Expr → List Char) : Property → Prop
  | .value _ key e => (∀ e' ∈ key.expr?, ComesBack quiet (text e') e') ∧ ComesBack quiet (text e) e
  | .method _ key shown => ReadsAt quiet IsEnd property shown.toList fun a =>
      ∃ l key', a = .method l key' shown ∧ bareKey key' = bareKey key
  | .accessor _ _ => False
  | .spread _ e => ComesBack quiet (text e) e

/-- What reads an entry of an object, and what binds it as a property of a pattern. -/
abbrev ObjectEntry (quiet : Item → Prop) (k : Site) (text : List Char) (a : Property) : Prop :=
  ReadsEntry (State.Meets quiet) (property k.grammar) k.setting .braceClose false text
      (fun a' => bareProperty a' = bareProperty a) ∧
    BindsEntry quiet (patternProperty k.grammar) k.setting .braceClose false text

theorem readsKey {key : Key} (h : ∀ e ∈ key.expr?, ComesBack quiet (text e) e) :
    ReadsKey quiet (keyText text key) fun key' => bareKey key' = bareKey key := by
  cases key with
  | fixed name => exact (readsKey_fixed name).mono fun key' hkey => by rw [hkey]
  | computed e =>
    refine (readsKey_computed (h e rfl)).mono ?_
    rintro key' ⟨e', rfl, he'⟩
    exact congrArg Key.computed he'

theorem objectEntry_value {l : Nat} {key : Key} {e : Expr}
    (hkey : ∀ e ∈ key.expr?, ComesBack quiet (text e) e) (he : ComesBack quiet (text e) e)
    (hk : k.Fits outer) (hlength : (propertyText text (.value l key e)).length < outer.length) :
    ObjectEntry quiet k (propertyText text (.value l key e)) (.value l key e) := by
  have hreads := readsKey hkey
  have htext (rest : List Char) : propertyText text (.value l key e) ++ rest =
      keyText text key ++ ':' :: (' ' :: (text e ++ rest)) := by simp [propertyText]
  have hcolon : (':', Mark.colon) ∈ closers := by decide
  simp only [propertyText, List.length_append, List.length_cons] at hlength
  -- behind the key and its colon the value stands
  have hbehind {s s₁ : State} {rest : List Char} (hrest : EndsEntry false rest)
      (h₁ : s.Meets quiet (':' :: (' ' :: (text e ++ rest))) s₁) : s₁.token = .mark .colon ∧
      s₁.after = ' ' :: (text e ++ rest) ∧
        ∃ s₂, s₁.Reaches (' ' :: (text e ++ rest)) s₂ ∧ s₂.Stands (text e ++ rest) := by
    obtain ⟨ht₁, hafter₁⟩ := IsMove.closer hcolon isGap_nil h₁
    exact ⟨ht₁, hafter₁, he.whole.exists_reaches isGap_blank hrest.isEnd s₁⟩
  refine ⟨⟨fun rest _ => ?_, fun s rest hs _ => ?_, fun s rest hs hrest => ?_⟩,
    ⟨fun rest _ => ?_, fun s rest hs _ => ?_, fun s rest names s' hs hrest hrun => ?_⟩⟩
  · rw [htext]
    exact ⟨hreads.solid.append _, hreads.scans _⟩
  · rw [htext] at hs
    exact hreads.ne_mark hs (by decide)
  · rw [htext] at hs
    obtain ⟨key', s₁, hkey', h₁, hbare⟩ := hreads.reads k outer s _ hk (by omega) hs
    obtain ⟨ht₁, hafter₁, s₂, h₂, hs₂⟩ := hbehind hrest h₁
    obtain ⟨e', s₃, he', h₃, hbare'⟩ := he.whole.run_assignment hk (by omega) hs₂ hrest.isEnd
    obtain ⟨l', hl'⟩ := run_value (hreads.ne_mark hs (by decide)) (hreads.ne_mark hs (by decide))
      (hreads.modifier k.setting s _ hs) hkey' ht₁ hafter₁ h₂ he'
    refine ⟨_, s₃, hl', IsMove.arrives_at ((h₁.trans h₂.meets).trans h₃), ?_⟩
    rw [bareProperty, bareProperty, hbare, hbare']
  · rw [htext]
    exact hreads.solid.append _
  · rw [htext] at hs
    exact hreads.ne_mark hs (by decide)
  · rw [htext] at hs
    obtain ⟨key', s₁, hkey', h₁, -⟩ := hreads.reads k outer s _ hk (by omega) hs
    obtain ⟨ht₁, hafter₁, s₂, h₂, hs₂⟩ := hbehind hrest h₁
    have hname : (atIdentifier k.setting s).bind (fun p =>
        .ok (p.1 && !(Peek.ofText s.after).isMark .colon, p.2)) = .ok (false, s) := by
      unfold atIdentifier
      cases ht : s.token with
      | word w escaped =>
        rw [hreads.word s _ hs w escaped ht]
        simp only [bind_ok, Bool.not_true, Bool.and_false]
      | _ => rfl
    obtain ⟨named, hnamed⟩ : ∃ b, atIdentifier k.setting s = .ok (b, s) := ⟨_, rfl⟩
    rw [hnamed, bind_ok] at hname
    obtain ⟨hname, -⟩ := Prod.mk.inj (Except.ok.inj hname)
    unfold patternProperty at hrun
    simp only [run_bind, run_skipMark_other (hreads.ne_mark hs (m := .ellipsis) (by decide)),
      bind_ok, Bool.false_eq_true, if_false, run_peek, hnamed, hname, run_discard, hkey',
      run_expectMark ht₁ hafter₁ h₂] at hrun
    exact (he.binds.of_patternElement hk (by omega) hs₂ hrest.isEnd hrun).imp_left fun h₃ =>
      IsMove.arrives_at ((h₁.trans h₂.meets).trans h₃)

theorem objectEntry_spread {l : Nat} {e : Expr} (he : ComesBack quiet (text e) e)
    (hk : k.Fits outer) (hlength : (propertyText text (.spread l e)).length < outer.length) :
    ObjectEntry quiet k (propertyText text (.spread l e)) (.spread l e) := by
  have hinner : (text e).length < outer.length :=
    Nat.lt_of_le_of_lt (by simp [propertyText, spreadText]; omega) hlength
  have hsolid : IsSolid (propertyText text (.spread l e)) := solid_spreadText (text e)
  have hopens {s : State} {rest : List Char} (hs : s.Stands (spreadText (text e) ++ rest)) :
      s.token ≠ .mark .braceClose := by
    rw [(stands_spreadText hs).1]
    simp
  refine ⟨⟨fun rest _ => ⟨hsolid.append rest, _, _, scanToken_spreadText _⟩,
    fun s rest hs _ => hopens hs, fun s rest hs hrest => ?_⟩,
    ⟨fun rest _ => hsolid.append rest, fun s rest hs _ => hopens hs,
      fun s rest names s' hs hrest hrun => ?_⟩⟩
  · obtain ⟨ht, hafter⟩ := stands_spreadText hs
    obtain ⟨s₁, h₁, hs₁⟩ := he.whole.exists_reaches isGap_nil hrest.isEnd s
    obtain ⟨e', s₂, he', h₂, hbare⟩ := he.whole.run_assignment hk hinner hs₁ hrest.isEnd
    obtain ⟨s₃, hnote, h₃⟩ := run_noteRestComma .braceClose k.setting h₂
    refine ⟨.spread (k.setting.lineFeeds - s.start.count '\n' + 1) e', s₃, ?_,
      IsMove.arrives_at (h₁.meets.trans h₃), congrArg (Property.spread 0) hbare⟩
    unfold property
    simp only [run_bind, run_get, run_line, bind_ok, run_skipMark ht hafter h₁, if_true, he', hnote,
      run_pure]
  · obtain ⟨ht, hafter⟩ := stands_spreadText hs
    unfold patternProperty at hrun
    rw [run_bind] at hrun
    obtain ⟨⟨b, s₁⟩, hskip, hbehind⟩ := bind_eq_ok.mp hrun
    obtain ⟨rfl, h₁⟩ := of_skipMark ht hskip
    rw [hafter] at h₁
    simp only [if_true, run_bind] at hbehind
    obtain ⟨⟨name, s₂⟩, hname, hlast⟩ := bind_eq_ok.mp hbehind
    have hs₁ := h₁.stands (he.whole.solid.append rest)
    have hpattern : pattern k.grammar k.setting s₁ = .ok ([name], s₂) := by
      obtain ⟨⟨escaped, ht₁⟩, -⟩ := of_identifier hname
      have hbracket : s₁.token ≠ .mark .bracketOpen := by simp [ht₁]
      have hbrace : s₁.token ≠ .mark .braceOpen := by simp [ht₁]
      unfold pattern
      simp only [run_bind, run_skipMark_other hbracket, run_skipMark_other hbrace, bind_ok,
        Bool.false_eq_true, if_false, hname, run_pure]
    have hstops := he.binds.stops k s₁ rest [name] s₂ (hk.mono (Nat.le_of_lt hinner)) hs₁
      hrest.isEnd hpattern
    -- what is spread must be the last part of a pattern
    by_cases hclose : s₂.token = .mark .braceClose
    · simp only [run_atMark hclose, bind_ok, if_true, run_pure] at hlast
      cases hlast
      rcases hstops with h₂ | hbars
      · exact .inl (IsMove.arrives_at (h₁.meets.trans h₂))
      · exact absurd hclose (hbars .braceClose (by decide))
    · simp only [run_atMark_other hclose, bind_ok, Bool.false_eq_true, if_false, run_bind] at hlast
      cases hlast

/-- Whether a token may stand behind the first one of a method. -/
def BeginsMethod (t : Token) : Prop :=
  ∀ m ∈ [Mark.assign, .comma, .bracketClose, .braceClose, .parenClose, .colon], t ≠ .mark m

theorem beginsMethod_of_peek {p : Peek} (h : p.isPropertyName = true ∨ p.isMark .times = true) :
    BeginsMethod p.token := by
  intro m hm ht
  unfold Peek.isPropertyName Peek.isMark at h
  rw [ht] at h
  simp only [List.mem_cons, List.not_mem_nil, or_false] at hm
  rcases hm with rfl | rfl | rfl | rfl | rfl | rfl <;> simp at h

theorem beginsMethod_open {t : Token} (h : t = .mark .parenOpen ∨ t = .mark .less) :
    BeginsMethod t := by
  intro m hm ht
  rw [ht] at h
  simp only [Token.mark.injEq] at h
  rcases h with rfl | rfl <;> simp at hm

/-- Where a method begins, no rule for bindings goes on. -/
theorem barsBinding_method {g : Grammar} {c : Setting} {l : Nat} {key : Key} {shown : String}
    {s₁ s₂ : State} {names : List String}
    (h : property g c s = .ok (.method l key shown, s₁))
    (hrun : patternProperty g c s = .ok (names, s₂)) : s₂.token.BarsBinding := by
  obtain ⟨hellipsis, hbegins⟩ := of_property_method h
  have hword {w : String} {escaped : Bool} {s₃ : State} (ht : s.token = .word w escaped)
      (h₃ : s.Reaches s.after s₃) : BeginsMethod s₃.token := by
    rcases hbegins with ⟨-, hpeek⟩ | htimes | ⟨key, s₄, hkey, hopen⟩
    · rw [← h₃.peek]
      exact beginsMethod_of_peek hpeek
    · simp [ht] at htimes
    · have hreads : propertyKey g c s = .ok (.fixed w, s₃) := by
        unfold propertyKey
        simp only [run_bind, run_get, bind_ok, ht, run_advance rfl h₃, run_pure]
      obtain ⟨-, rfl⟩ := Prod.mk.inj (Except.ok.inj (hreads.symm.trans hkey))
      exact beginsMethod_open hopen
  obtain ⟨named, hnamed⟩ : ∃ b, atIdentifier c s = .ok (b, s) := ⟨_, rfl⟩
  unfold patternProperty at hrun
  simp only [run_bind, run_skipMark_other hellipsis, bind_ok, Bool.false_eq_true, if_false, run_peek,
    hnamed] at hrun
  split at hrun
  · -- a name, behind which no default value stands
    simp only [run_bind] at hrun
    obtain ⟨⟨name, s₃⟩, hname, hbehind⟩ := bind_eq_ok.mp hrun
    obtain ⟨⟨escaped, ht⟩, -, h₃⟩ := of_identifier hname
    have hbars := hword ht h₃
    simp only [run_skipMark_other (hbars .assign (by decide)), bind_ok, Bool.false_eq_true,
      if_false, run_pure] at hbehind
    cases hbehind
    exact fun m hm => hbars m (List.mem_of_mem_take (i := 5) hm)
  · -- a key, behind which no colon stands
    simp only [run_bind, run_discard] at hrun
    obtain ⟨⟨u, s₃⟩, hdiscard, hbehind⟩ := bind_eq_ok.mp hrun
    obtain ⟨⟨key, s₄⟩, hkey, hlast⟩ := bind_eq_ok.mp hdiscard
    cases hlast
    obtain ⟨⟨u, s₅⟩, hcolon, -⟩ := bind_eq_ok.mp hbehind
    obtain ⟨ht₃, -⟩ := of_expectMark hcolon
    exfalso
    rcases hbegins with ⟨⟨w, ht⟩, -⟩ | htimes | ⟨key', s₆, hkey', hopen⟩
    · unfold propertyKey at hkey
      simp only [run_bind, run_get, bind_ok, ht] at hkey
      obtain ⟨⟨u, s₇⟩, hadvance, hkey⟩ := bind_eq_ok.mp hkey
      cases hkey
      exact hword ht (reaches_of_resume hadvance) .colon (by decide) ht₃
    · unfold propertyKey at hkey
      simp only [run_bind, run_get, bind_ok, htimes] at hkey
      cases hkey
    · cases hkey.symm.trans hkey'
      exact beginsMethod_open hopen .colon (by decide) ht₃

theorem objectEntry_method {l : Nat} {key : Key} {shown : String}
    (h : ReadsAt quiet IsEnd property shown.toList fun a =>
      ∃ l key', a = .method l key' shown ∧ bareKey key' = bareKey key)
    (hk : k.Fits outer) (hlength : shown.toList.length < outer.length) :
    ObjectEntry quiet k shown.toList (.method l key shown) := by
  have hopens {s : State} {rest : List Char} (hs : s.Stands (shown.toList ++ rest))
      (hrest : IsEnd rest) : s.token ≠ .mark .braceClose := by
    obtain ⟨_, s', hread, -, l', key', rfl, -⟩ :=
      h.reads ⟨8 * shown.toList.length, 0, shown.toList.length + 1, true, true⟩ s rest
        ⟨Nat.le_refl _, Nat.lt_succ_self _⟩ hs hrest
    obtain ⟨-, ⟨⟨w, hw⟩, -⟩ | ht | ⟨key, s₁, hkey, -⟩⟩ := of_property_method hread
    · simp [hw]
    · simp [ht]
    · intro ht
      unfold propertyKey at hkey
      simp only [run_bind, run_get, bind_ok, ht] at hkey
      cases hkey
  refine ⟨⟨fun rest hrest => ⟨h.solid.append rest, h.scans rest hrest.isEnd⟩,
    fun s rest hs hrest => hopens hs hrest.isEnd, fun s rest hs hrest => ?_⟩,
    ⟨fun rest _ => h.solid.append rest, fun s rest hs hrest => hopens hs hrest.isEnd,
      fun s rest names s' hs hrest hrun => ?_⟩⟩
  · obtain ⟨_, s', hread, hs', l', key', rfl, hbare⟩ :=
      h.reads k s rest (hk.mono (Nat.le_of_lt hlength)) hs hrest.isEnd
    refine ⟨_, s', hread, IsMove.arrives_at hs', ?_⟩
    rw [bareProperty, bareProperty, hbare]
  · obtain ⟨_, s₁, hread, -, l', key', rfl, -⟩ :=
      h.reads k s rest (hk.mono (Nat.le_of_lt hlength)) hs hrest.isEnd
    exact .inr (barsBinding_method hread hrun)

/-- Properties that come back are read and bound as entries of objects. -/
theorem objectEntry {a : Property} (h : PropertyComesBack quiet text a) (hk : k.Fits outer)
    (hlength : (propertyText text a).length < outer.length) :
    ObjectEntry quiet k (propertyText text a) a := by
  cases a with
  | value l key e => exact objectEntry_value h.1 h.2 hk hlength
  | method l key shown => exact objectEntry_method h hk hlength
  | accessor l key => cases h
  | spread l e => exact objectEntry_spread h hk hlength

/-- **An object comes back from the texts of its properties.** -/
theorem readsSpine_object {properties : List Property} (hgap : IsGap gap) (hstop : IsStop stopGap)
    (h : ∀ a ∈ properties, PropertyComesBack quiet text a) :
    ReadsSpine quiet false ('{' :: inBrackets gap stopGap '}' (properties.map (propertyText text)))
      fun o e => o = false ∧ ∃ l as, e = .object l as ∧
        as.map bareProperty = properties.map bareProperty := by
  refine (readsSpine_bracketed (fun a a' => bareProperty a' = bareProperty a) ('{', .braceOpen)
    ('}', .braceClose) property patternProperty (by decide) (.inr rfl) (by decide) (by decide)
    (by decide) hgap hstop (closesHoles_items properties stopGap)
    (fun a ha k outer hk hlength => objectEntry (h a ha) hk hlength) primary_object
    fun ht hpattern => ?_).mono ?_
  · rename_i s s' names
    have hbracket : s.token ≠ .mark .bracketOpen := by simp [ht]
    unfold pattern at hpattern
    simp only [run_bind, run_skipMark_other hbracket, bind_ok, Bool.false_eq_true, if_false]
      at hpattern
    obtain ⟨⟨b, s₁⟩, hskip, hbehind⟩ := bind_eq_ok.mp hpattern
    obtain ⟨rfl, h₁⟩ := of_skipMark ht hskip
    simp only [if_true, run_bind] at hbehind
    obtain ⟨⟨found, s₂⟩, hfound, hlast⟩ := bind_eq_ok.mp hbehind
    cases hlast
    exact ⟨s₁, found, h₁, hfound⟩
  · rintro o e ⟨rfl, l, as, rfl, has⟩
    exact ⟨rfl, l, as, rfl, map_eq_of_forall₂ has⟩

end CommandFiles.Literal
