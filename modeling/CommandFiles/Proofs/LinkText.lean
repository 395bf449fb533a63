import CommandFiles.Proofs.PropertyText

/-! # Texts of links

A link stands behind a part of a chain: a member, a member in brackets or a call, and a question
mark before it makes it optional. The mark a link begins with ends no binding, so a chain with a
link is never more of a pattern than what it begins with. -/
namespace CommandFiles.Script

variable {quiet : Item → Prop} {text rest : List Char} {s s₁ s₂ s' : State}

/-- How an optional link begins, unless it is a member. -/
def optionalMark (isOptional : Bool) : List Char := if isOptional then ['?', '.'] else []

theorem scanToken_questionDot {c : Char} (hc : c.isDigit = false) (rest : List Char) :
    scanToken ('?' :: '.' :: c :: rest) = .ok (.mark .questionDot, c :: rest) := by
  rw [scanToken_eq_scanMark (by decide) (by decide) (by decide)]
  simp [scanMark, Mark.spellings, dropStart?, hc]

namespace Reader

variable {g : Grammar} {c : Setting} {start : List Char} {l : Nat} {chain : Chain}
  {isOptional digits : Bool}

/-- Whether a text is read as a link behind any part of a chain. -/
structure ReadsLinkAt (quiet : Item → Prop) (text : List Char) (isOptional : Bool)
    (linked : Expr → Expr → Prop) : Prop where
  solid : IsSolid text
  begins : ∀ rest, Behind false rest → ∃ m after, scanToken (text ++ rest) = .ok (.mark m, after) ∧
    m ∈ [Mark.dot, .questionDot, .bracketOpen, .parenOpen]
  word : EndsWord text
  reads : ∀ (k : Site) (s : State) (rest : List Char),
    k.Fits text → s.Stands (text ++ rest) → Behind false rest →
    ∀ start l chain, ∃ e shown s', link? k.grammar true start l chain k.setting s =
      .ok (some ⟨e, chain.isOptional || isOptional, shown⟩, s') ∧ s.Meets quiet rest s' ∧
        linked chain.expr e

variable {linked : Expr → Expr → Prop}

theorem ReadsLinkAt.behind (h : ReadsLinkAt quiet text isOptional linked) (hrest : Behind false rest)
    (hdigits : digits = true → ∀ more, text ≠ '.' :: more) : Behind digits (text ++ rest) := by
  obtain ⟨m, after, hscan, hm⟩ := h.begins rest hrest
  obtain ⟨c, more, rfl, hc⟩ := h.solid
  have harrow : m ≠ .arrow := by
    rintro rfl
    revert hm
    decide
  refine ⟨follows_of_mark (h.word c more rfl) (IsSolid.append ⟨c, more, rfl, hc⟩ rest) hscan harrow,
    fun hd more' heq => ?_⟩
  obtain ⟨rfl, -⟩ := List.cons.inj heq
  exact hdigits hd more rfl

theorem ReadsLinkAt.barsBinding (h : ReadsLinkAt quiet text isOptional linked)
    (hs : s.Stands (text ++ rest)) (hrest : Behind false rest) : s.token.BarsBinding := by
  obtain ⟨m, after, hscan, hm⟩ := h.begins rest hrest
  obtain ⟨ht, -⟩ := Prod.mk.inj (Except.ok.inj (hs.scanned.symm.trans hscan))
  intro m' hm' ht'
  obtain rfl := Token.mark.inj (ht.symm.trans ht')
  simp only [List.mem_cons, List.not_mem_nil, or_false] at hm
  rcases hm with rfl | rfl | rfl | rfl <;> revert hm' <;> decide

/-- **A part of a chain with a link behind it is one again.** Behind digits no point may follow. -/
theorem ReadsSpine.link {linkText : List Char} {p : Bool → Expr → Prop}
    (h : ReadsSpine quiet digits text p) (hl : ReadsLinkAt quiet linkText isOptional linked)
    (hdigits : digits = true → ∀ more, linkText ≠ '.' :: more) :
    ReadsSpine quiet false (text ++ linkText) fun o e' =>
      ∃ o' e, p o' e ∧ o = (o' || isOptional) ∧ linked e e' where
  solid := h.solid.append _
  opens rest hrest := by
    rw [List.append_assoc]
    exact h.opens _ (hl.behind hrest hdigits)
  noFunction k s rest hk hs hrest := by
    rw [List.append_assoc] at hs
    exact h.noFunction k s _ (hk.mono (by simp)) hs (hl.behind hrest hdigits)
  binds := {
    opens := fun s rest hs hrest => by
      rw [List.append_assoc] at hs
      exact h.binds.opens s _ hs (hl.behind hrest hdigits)
    stops := fun k s rest names s' hk hs hrest hrun => by
      rw [List.append_assoc] at hs
      right
      rcases h.binds.stops k s _ names s' (hk.mono (by simp)) hs (hl.behind hrest hdigits) hrun with
        h' | hbars
      · obtain ⟨_, hbefore⟩ := IsMove.arrives h'
        exact hl.barsBinding (hbefore.stands (hl.solid.append rest)) hrest
      · exact hbars }
  reads k s rest hk hs hrest := by
    rw [List.append_assoc] at hs
    obtain ⟨l, rounds, o, shown, e, s₁, hrounds, hleft, h₁, hp⟩ :=
      h.reads k s _ (hk.mono (by simp)) hs (hl.behind hrest hdigits)
    obtain ⟨before, hbefore⟩ := IsMove.arrives h₁
    obtain ⟨e', shown', s', hlink, h₂, hlinked⟩ := hl.reads k s₁ rest (hk.mono (by simp))
      (hbefore.stands (hl.solid.append rest)) hrest s.start l ⟨e, o, shown⟩
    have hfuel := hk.fuel
    rw [List.length_append] at hfuel ⊢
    have hlength : 0 < linkText.length := by
      obtain ⟨c, more, rfl, -⟩ := hl.solid
      exact Nat.succ_pos _
    obtain ⟨j, rfl⟩ : ∃ j, rounds = j + 1 := ⟨rounds - 1, by omega⟩
    exact ⟨l, j, o || isOptional, shown', e', s', by omega, hleft.trans (linksFrom_of_link hlink),
      h₁.trans h₂, o, e, hp, rfl, hlinked⟩

/-! ## Members -/

/-- The text of a member. -/
def memberText (isOptional : Bool) (key : String) : List Char :=
  (if isOptional then ['?'] else []) ++ '.' :: key.toList

theorem scanToken_memberText {key : String} (hkey : IsWord key.toList) (rest : List Char) :
    scanToken (memberText isOptional key ++ rest) =
      .ok (.mark (if isOptional then .questionDot else .dot), key.toList ++ rest) := by
  cases isOptional with
  | false => exact scanToken_dot hkey rest
  | true =>
    obtain ⟨d, more, htext, hd⟩ := hkey.head
    have hscan := scanToken_questionDot (isDigit_of_isIdentifierStart hd) (more ++ rest)
    rw [← List.cons_append, ← htext] at hscan
    exact hscan

theorem run_valueTypeArguments? {k : Site} {g : Grammar} :
    valueTypeArguments? g k.setting s = .ok (false, s) := rfl

theorem link?_member {k : Site} {g : Grammar} {key : String}
    (ht : s.token = .mark (if isOptional then .questionDot else .dot)) (h₁ : s.Reaches s.after s₁)
    (ht₁ : s₁.token = .word key false) (h₂ : s₁.Reaches s₁.after s₂) :
    ∃ shown, link? g true start l chain k.setting s =
      .ok (some ⟨.member l isOptional chain.expr key, chain.isOptional || isOptional, shown⟩,
        s₂) := by
  have hword : anyWord k.setting s₁ = .ok (key, s₂) := by
    unfold anyWord
    simp only [run_bind, run_get, bind_ok, ht₁, run_advance rfl h₂, run_pure]
  refine ⟨String.ofList (start.take (start.length - s₂.last.length)), ?_⟩
  unfold link?
  cases isOptional with
  | false =>
    simp only [Bool.false_eq_true, if_false] at ht
    simp only [run_bind, run_get, bind_ok, ht, run_advance rfl h₁, link?.member, ht₁, hword,
      textSince, run_pure]
  | true =>
    simp only [if_true] at ht
    simp only [run_bind, run_get, bind_ok, ht, if_true, run_pure, run_advance rfl h₁,
      run_valueTypeArguments?, link?.member, ht₁, Bool.false_eq_true, if_false, hword, textSince]

theorem readsLinkAt_member {key : String} (hkey : IsWord key.toList) :
    ReadsLinkAt quiet (memberText isOptional key) isOptional
      fun e e' => ∃ l, e' = .member l isOptional e key where
  solid := by cases isOptional <;> exact ⟨_, _, rfl, by decide, by decide, by decide⟩
  begins rest _ := ⟨_, _, scanToken_memberText hkey rest, by cases isOptional <;> decide⟩
  word := by
    intro c more h
    cases isOptional <;> (obtain ⟨rfl, -⟩ := List.cons.inj h; decide)
  reads k s rest _ hs hrest start l chain := by
    obtain ⟨ht, hafter⟩ :=
      Prod.mk.inj (Except.ok.inj (hs.scanned.symm.trans (scanToken_memberText hkey rest)))
    obtain ⟨s₁, h₁, -, ht₁, hafter₁⟩ := exists_reaches isGap_nil (hkey.solid.append rest)
      (scanToken_word hkey hrest.follows.word) s
    rw [String.ofList_toList] at ht₁
    obtain ⟨s₂, h₂⟩ := hrest.follows.hasToken.exists_reaches s₁
    obtain ⟨shown, hlink⟩ : ∃ shown, link? k.grammar true start l chain k.setting s =
        .ok (some ⟨.member l isOptional chain.expr key, chain.isOptional || isOptional, shown⟩,
          s₂) := link?_member ht (hafter ▸ h₁) ht₁ (hafter₁ ▸ h₂)
    exact ⟨_, shown, s₂, hlink, h₁.meets.trans h₂.meets, l, rfl⟩

/-! ## Members in brackets and calls -/

/-- Whether the link at a state begins at another one: at the same, or behind the mark that makes it
optional. -/
structure Enters (isOptional : Bool) (s s₁ : State) : Prop where
  plain : isOptional = false → s₁ = s
  optional : isOptional = true → s.token = .mark .questionDot ∧ s.Reaches s.after s₁

theorem Enters.onward (h : Enters isOptional s s₁) (h' : s₁.Meets quiet rest s') :
    s.Meets quiet rest s' := by
  cases isOptional with
  | false =>
    obtain rfl := h.plain rfl
    exact h'
  | true => exact (h.optional rfl).2.meets.trans h'

/-- A character that is no part of a word begins a link behind the mark that makes it optional. -/
theorem begins_optionalMark (isOptional : Bool) {d : Char} {m : Mark} (hd : d.isDigit = false)
    {after : List Char} (hscan : scanToken (d :: after) = .ok (.mark m, after)) :
    ∃ m' after', scanToken (optionalMark isOptional ++ d :: after) = .ok (.mark m', after') ∧
      m' = if isOptional then .questionDot else m := by
  cases isOptional with
  | false => exact ⟨_, _, hscan, rfl⟩
  | true => exact ⟨_, _, scanToken_questionDot hd after, rfl⟩

theorem exists_enters {d : Char} {m : Mark} (hd : d.isDigit = false) {after : List Char}
    (hsolid : IsSolid (d :: after)) (hscan : scanToken (d :: after) = .ok (.mark m, after))
    (hs : s.Stands (optionalMark isOptional ++ d :: after)) :
    ∃ s₁, Enters isOptional s s₁ ∧ s₁.token = .mark m ∧ s₁.after = after := by
  cases isOptional with
  | false =>
    obtain ⟨ht, hafter⟩ := Prod.mk.inj (Except.ok.inj (hs.scanned.symm.trans hscan))
    exact ⟨s, ⟨fun _ => rfl, nofun⟩, ht, hafter⟩
  | true =>
    obtain ⟨ht, hafter⟩ :=
      Prod.mk.inj (Except.ok.inj (hs.scanned.symm.trans (scanToken_questionDot hd after)))
    obtain ⟨s₁, h₁, -, ht₁, hafter₁⟩ := exists_reaches isGap_nil hsolid hscan s
    exact ⟨s₁, ⟨nofun, fun _ => ⟨ht, hafter ▸ h₁⟩⟩, ht₁, hafter₁⟩

/-- A chain that has been made longer. -/
def extended (start : List Char) (chain : Chain) (e : Expr) (isOptional : Bool) :
    Reader (Option Chain) := do
  return some ⟨e, chain.isOptional || isOptional, ← textSince start⟩

theorem run_extended (start : List Char) (chain : Chain) (e : Expr) (isOptional : Bool) :
    ∃ shown, extended start chain e isOptional c s =
      .ok (some ⟨e, chain.isOptional || isOptional, shown⟩, s) := ⟨_, rfl⟩

theorem link?_index {k : Site} (h : Enters isOptional s s₁) (ht₁ : s₁.token = .mark .bracketOpen) :
    link? g true start l chain k.setting s =
      link?.index g l chain (extended start chain) isOptional k.setting s₁ := by
  unfold link?
  cases isOptional with
  | false =>
    obtain rfl := h.plain rfl
    simp only [run_bind, run_get, bind_ok, ht₁]
    rfl
  | true =>
    obtain ⟨ht, h₁⟩ := h.optional rfl
    simp only [run_bind, run_get, bind_ok, ht, if_true, run_advance rfl h₁,
      run_valueTypeArguments?, ht₁]
    rfl

theorem link?_call {k : Site} (h : Enters isOptional s s₁) (ht₁ : s₁.token = .mark .parenOpen) :
    link? g true start l chain k.setting s =
      link?.call g l chain (extended start chain) isOptional k.setting s₁ := by
  unfold link?
  cases isOptional with
  | false =>
    obtain rfl := h.plain rfl
    simp only [run_bind, run_get, bind_ok, ht₁, if_true]
    rfl
  | true =>
    obtain ⟨ht, h₁⟩ := h.optional rfl
    simp only [run_bind, run_get, bind_ok, ht, if_true, run_advance rfl h₁,
      run_valueTypeArguments?, ht₁]
    rfl

theorem solid_optionalMark {t : List Char} (h : IsSolid t) :
    IsSolid (optionalMark isOptional ++ t) := by
  cases isOptional with
  | false => exact h
  | true => exact ⟨_, _, rfl, by decide, by decide, by decide⟩

theorem endsWord_optionalMark {t : List Char} (h : EndsWord t) :
    EndsWord (optionalMark isOptional ++ t) := by
  cases isOptional with
  | false => exact h
  | true =>
    intro d more hd
    obtain ⟨rfl, -⟩ := List.cons.inj hd
    decide

/-- An expression in brackets is the key of a member. -/
theorem readsLinkAt_index {keyText : List Char} {p : Expr → Prop}
    (h : ReadsFully quiet keyText p) :
    ReadsLinkAt quiet (optionalMark isOptional ++ '[' :: (keyText ++ [']'])) isOptional
      fun e e' => ∃ l k, e' = .index l isOptional e k ∧ p k where
  solid := solid_optionalMark (solid_literalMark (p := ('[', .bracketOpen)) (by decide) _)
  begins rest _ := by
    obtain ⟨m, after, hscan, rfl⟩ := begins_optionalMark isOptional (d := '[')
      (by decide) (scanToken_literalMark (m := .bracketOpen) (by decide) (keyText ++ [']'] ++ rest))
    rw [List.append_assoc]
    exact ⟨_, after, hscan, by cases isOptional <;> decide⟩
  word := endsWord_optionalMark fun d more hd => by
    obtain ⟨rfl, -⟩ := List.cons.inj hd
    decide
  reads k s rest hk hs hrest start l chain := by
    have hclose : (']', Mark.bracketClose) ∈ closers := by decide
    have hopen : ('[', Mark.bracketOpen) ∈ literalMarks := by decide
    have hlength : keyText.length <
        (optionalMark isOptional ++ '[' :: (keyText ++ [']'])).length := by
      simp only [List.length_cons, List.length_append]
      omega
    rw [List.append_assoc, List.cons_append, List.append_assoc] at hs
    obtain ⟨s₁, henters, ht₁, hafter₁⟩ := exists_enters (by decide) (solid_literalMark hopen _)
      (scanToken_literalMark hopen _) hs
    obtain ⟨s₂, h₂, hs₂⟩ := h.whole.exists_reaches isGap_nil (isEnd_closer hclose isGap_nil rest) s₁
    obtain ⟨key, s₃, hkey, h₃, hp⟩ :=
      h.whole.run_expression hk hlength hs₂ hclose (by decide) isGap_nil rfl
    obtain ⟨ht₃, hafter₃⟩ := IsMove.closer hclose isGap_nil h₃
    obtain ⟨s₄, h₄⟩ := hrest.follows.hasToken.exists_reaches s₃
    obtain ⟨shown, hextended⟩ := run_extended (c := k.setting) (s := s₄) start chain
      (.index l isOptional chain.expr key) isOptional
    refine ⟨.index l isOptional chain.expr key, shown, s₄, ?_,
      henters.onward ((h₂.meets.trans h₃).trans h₄.meets), l, key, rfl, hp⟩
    have hunder : under (fun c => { c with inOperator := true }) k.grammar.expression k.setting s₂ =
        .ok (key, s₃) := hkey
    rw [link?_index henters ht₁]
    unfold link?.index
    simp only [run_bind, run_advance hafter₁ h₂, bind_ok, hunder, run_expectMark ht₃ hafter₃ h₄,
      hextended]

end Reader

end CommandFiles.Script

namespace CommandFiles.Literal

open Script Script.Reader

variable {quiet : Item → Prop} {text : Expr → List Char}

/-- Expressions in parentheses are the arguments of a call. -/
theorem readsLinkAt_call {isOptional : Bool} {arguments : List Element}
    (hholes : ∀ a ∈ arguments, a.isHole = false)
    (h : ∀ a ∈ arguments, ∀ e ∈ a.expr?, ComesBack quiet (text e) e) :
    ReadsLinkAt quiet
      (optionalMark isOptional ++ '(' :: inParens (arguments.map (elementText text))) isOptional
      fun e e' => ∃ l shown as, e' = .call l isOptional shown e as ∧
        as.map bareElement = arguments.map bareElement where
  solid := solid_optionalMark (solid_parenOpen _)
  begins rest _ := by
    obtain ⟨m, after, hscan, rfl⟩ := begins_optionalMark isOptional (d := '(')
      (by decide) (scanToken_parenOpen (inParens (arguments.map (elementText text)) ++ rest))
    rw [List.append_assoc]
    exact ⟨_, after, hscan, by cases isOptional <;> decide⟩
  word := endsWord_optionalMark fun d more hd => by
    obtain ⟨rfl, -⟩ := List.cons.inj hd
    decide
  reads k s rest hk hs hrest start l chain := by
    obtain ⟨hcount, hlength⟩ := length_inParens (arguments.map (elementText text))
    rw [List.length_map] at hcount
    have hfuel := hk.fuel
    simp only [List.length_append, List.length_cons] at hfuel
    -- types may be given again for what functions among the arguments return
    have hk' : Site.Fits { k with returnTypes := true }
      (optionalMark isOptional ++ '(' :: inParens (arguments.map (elementText text))) :=
      ⟨hk.depth, hk.fuel⟩
    have hitems : ∀ a ∈ arguments, ReadsEntry (State.Meets quiet)
        (element k.grammar .parenClose false) (Site.setting { k with returnTypes := true })
        .parenClose false (elementText text a) fun a' => bareElement a' = bareElement a := by
      intro a ha
      refine readsEntry_element (by decide) false (hholes a ha) (h a ha) hk' ?_
      have ha' := hlength _ (List.mem_map_of_mem ha)
      simp only [List.length_append, List.length_cons]
      omega
    rw [List.append_assoc, List.cons_append] at hs
    obtain ⟨s₁, henters, ht₁, hafter₁⟩ := exists_enters (by decide) (solid_parenOpen _)
      (scanToken_parenOpen _) hs
    obtain ⟨s₂, as, s₃, hadvance, hread, h₃, has⟩ := run_inParens hrest.follows.hasToken hitems
      (by change arguments.length + 1 < k.fuel; omega) hafter₁
    obtain ⟨shown, hextended⟩ := run_extended (c := k.setting) (s := s₃) start chain
      (.call l isOptional chain.text chain.expr as) isOptional
    refine ⟨.call l isOptional chain.text chain.expr as, shown, s₃, ?_, henters.onward h₃, l, _, as,
      rfl, map_eq_of_forall₂ has⟩
    have hunder : under (fun c => { c with inOperator := true, returnTypes := true })
        (elements k.grammar .parenClose false) k.setting s₂ = .ok (as, s₃) := hread
    rw [link?_call henters ht₁]
    unfold link?.call
    have hadvance' : advance k.setting s₁ = .ok ((), s₂) := hadvance
    simp only [run_bind, hadvance', bind_ok, hunder, hextended]

end CommandFiles.Literal
