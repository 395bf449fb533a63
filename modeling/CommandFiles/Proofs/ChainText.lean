import CommandFiles.Proofs.ListText

/-! # Texts of chains

Behind the name that a chain begins with its links are read one after another: members, members in
brackets and calls. Each link takes one round of the same loop, so what has been read so far is an
expression together with the rounds that are left. -/
namespace CommandFiles.Script

variable {text rest : List Char} {s s' : State}

/-! ## What may follow -/

/-- Whether a text may stand behind a part of a chain: a token can be scanned from it that is no
arrow, and nothing of it runs into a word. -/
structure Follows (rest : List Char) : Prop where
  word : EndsWord rest
  hasToken : HasToken rest
  noArrow : (Reader.Peek.ofText rest).isMark .arrow = false

theorem IsEnd.follows (h : IsEnd rest) : Follows rest :=
  ⟨h.word, h.hasToken, Reader.Peek.isMark_of_closes h.peek (by decide)⟩

theorem follows_of_mark {c : Char} {m : Mark} {after : List Char}
    (hword : isWordPart c = false ∧ c ≠ '\\') (hsolid : IsSolid (c :: rest))
    (hscan : scanToken (c :: rest) = .ok (.mark m, after))
    (hm : m ≠ .arrow) : Follows (c :: rest) := by
  have hskip := skipTrivia_solid hsolid false
  refine ⟨fun d more h => ?_, ⟨_, _, _, _, hskip, hscan⟩, ?_⟩
  · obtain ⟨rfl, -⟩ := List.cons.inj h
    exact hword
  · rw [Reader.Peek.ofText_eq hskip hscan]
    simpa [Reader.Peek.isMark] using Ne.symm hm

theorem State.Reaches.stands (hsolid : IsSolid rest) (h : s.Reaches rest s') : s'.Stands rest := by
  obtain ⟨ended, start, token, after, hskip, hscan, rfl⟩ := h
  cases (skipTrivia_solid hsolid false).symm.trans hskip
  exact ⟨rfl, hscan⟩

theorem solid_dot (cs : List Char) : IsSolid ('.' :: cs) :=
  ⟨'.', cs, rfl, by decide, by decide, by decide⟩

theorem solid_parenOpen (cs : List Char) : IsSolid ('(' :: cs) :=
  ⟨'(', cs, rfl, by decide, by decide, by decide⟩

theorem scanToken_parenOpen (rest : List Char) :
    scanToken ('(' :: rest) = .ok (.mark .parenOpen, rest) := by
  rw [scanToken_eq_scanMark (by decide) (by decide) (by decide)]
  simp [scanMark, Mark.spellings, dropStart?]

namespace Reader

variable {g : Grammar} {c : Setting} {moves : State → List Char → State → Prop} {awaits : Bool}
  {p : Expr → Prop}

/-! ## Rounds of the loop -/

/-- One round of reading a chain. -/
def linkStep (g : Grammar) (start : List Char) (l : Nat) (c : Chain) :
    Reader (Chain ⊕ Chain) := do
  match ← link? g true start l c with
  | some c => return .inl c
  | none => return .inr c

/-- Reads what is left of a chain in the rounds that are left. -/
def linksFrom (g : Grammar) (start : List Char) (l rounds : Nat) (c : Chain) : Reader Expr := do
  let c ← repeatUpTo (linkStep g start l) rounds c
  return if c.isOptional then .chain l c.expr else c.expr

theorem leftHand_eq_linksFrom {e : Expr} (h : chainBase g c s = .ok (e, s')) :
    ∃ l shown, leftHand g c s = linksFrom g s.start l c.fuel ⟨e, false, shown⟩ c s' := by
  refine ⟨c.lineFeeds - s.start.count '\n' + 1,
    String.ofList (s.start.take (s.start.length - s'.last.length)), ?_⟩
  unfold leftHand links
  simp only [run_bind, run_get, run_line, bind_ok, h, textSince, run_loop]
  rfl

theorem linksFrom_of_link {start : List Char} {l rounds : Nat} {chain chain' : Chain}
    (h : link? g true start l chain c s = .ok (some chain', s')) :
    linksFrom g start l (rounds + 1) chain c s = linksFrom g start l rounds chain' c s' := by
  simp only [linksFrom, repeatUpTo, linkStep, run_bind, h, bind_ok, run_pure]

theorem linksFrom_of_closes {start : List Char} {l rounds : Nat} {e : Expr} {shown : String}
    (h : s.token.Closes) :
    linksFrom g start l (rounds + 1) ⟨e, false, shown⟩ c s = .ok (e, s) := by
  simp only [linksFrom, repeatUpTo, linkStep, run_bind, link?_of_closes h, bind_ok, run_pure,
    Bool.false_eq_true, if_false]

/-! ## Texts of chains and of links -/

/-- Whether a text is read as a chain, wherever it stands, up to the links that may follow it. -/
structure ReadsChain (moves : State → List Char → State → Prop) (awaits : Bool) (text : List Char)
    (p : Expr → Prop) : Prop where
  solid : IsSolid text
  scans : ∀ rest, Follows rest → ∃ t after, scanToken (text ++ rest) = .ok (t, after)
  opens : ∀ (s : State) (rest : List Char), s.Stands (text ++ rest) → Follows rest → s.AtOperand
  reads : ∀ (n lineFeeds fuel : Nat) (s : State) (rest : List Char),
    8 * text.length ≤ n → text.length < fuel → s.Stands (text ++ rest) → Follows rest →
    ∃ l rounds shown e s', fuel ≤ rounds + text.length ∧
      leftHand (Grammar.upTo n) (.plain lineFeeds fuel awaits true) s =
        linksFrom (Grammar.upTo n) s.start l rounds ⟨e, false, shown⟩
          (.plain lineFeeds fuel awaits true) s' ∧
      moves s rest s' ∧ p e

/-- Whether a text is read as a link behind any chain. -/
structure ReadsLink (moves : State → List Char → State → Prop) (awaits : Bool) (text : List Char)
    (linked : Expr → Expr → Prop) : Prop where
  solid : IsSolid text
  follows : ∀ rest, Follows (text ++ rest)
  reads : ∀ (n lineFeeds fuel : Nat) (s : State) (rest : List Char),
    8 * text.length ≤ n → text.length < fuel → s.Stands (text ++ rest) → Follows rest →
    ∀ start l e shown, ∃ e' shown' s',
      link? (Grammar.upTo n) true start l ⟨e, false, shown⟩ (.plain lineFeeds fuel awaits true) s =
        .ok (some ⟨e', false, shown'⟩, s') ∧ moves s rest s' ∧ linked e e'

theorem ReadsChain.mono {q : Expr → Prop} (h : ReadsChain moves awaits text p)
    (hpq : ∀ e, p e → q e) : ReadsChain moves awaits text q where
  solid := h.solid
  scans := h.scans
  opens := h.opens
  reads n lineFeeds fuel s rest hn hf hs hrest := by
    obtain ⟨l, rounds, shown, e, s', hrounds, hleft, hs', hp⟩ :=
      h.reads n lineFeeds fuel s rest hn hf hs hrest
    exact ⟨l, rounds, shown, e, s', hrounds, hleft, hs', hpq e hp⟩

variable [IsMove moves]

/-- A chain that nothing follows is an operand. -/
theorem ReadsChain.readsBy (h : ReadsChain moves awaits text p) :
    OpensOperand text ∧ ReadsBy moves awaits leftHand text p := by
  refine ⟨fun s rest hs hrest => h.opens s rest hs hrest.follows, h.solid,
    fun rest hrest => h.scans rest hrest.follows, fun n lineFeeds fuel s rest hn hf hs hrest => ?_⟩
  obtain ⟨l, rounds, shown, e, s', hrounds, hleft, hs', hp⟩ :=
    h.reads n lineFeeds fuel s rest hn hf hs hrest.follows
  obtain ⟨k, rfl⟩ : ∃ k, rounds = k + 1 := ⟨rounds - 1, by omega⟩
  exact ⟨e, s', hleft.trans (linksFrom_of_closes (hrest.closes_of_move hs')), hs', hp⟩

/-- A name is a chain. -/
theorem readsChain_name {w : String} (hw : IsPlainWord w) :
    ReadsChain moves awaits w.toList fun e => ∃ l, e = .name l w := by
  have hstands {s : State} {rest : List Char} (hs : s.Stands (w.toList ++ rest))
      (hrest : Follows rest) : s.token = .word w false ∧ s.after = rest := by
    have hscanned := hs.scanned
    rw [scanToken_word hw.word hrest.word, String.ofList_toList] at hscanned
    obtain ⟨ht, hafter⟩ := Prod.mk.inj (Except.ok.inj hscanned)
    exact ⟨ht.symm, hafter.symm⟩
  have hopens : ∀ (s : State) (rest : List Char), s.Stands (w.toList ++ rest) → Follows rest →
      s.AtOperand := by
    intro s rest hs hrest
    obtain ⟨ht, hafter⟩ := hstands hs hrest
    have hatom := hw.isAtom
    rw [← ht] at hatom
    exact ⟨hatom.begins, hatom.noParen,
      fun w' escaped hw' => ⟨hatom.noWord w' escaped hw', hafter ▸ hrest.noArrow⟩⟩
  refine ⟨hw.word.solid, fun rest hrest => ⟨_, _, scanToken_word hw.word hrest.word⟩, hopens,
    fun n lineFeeds fuel s rest hn hf hs hrest => ?_⟩
  have hat := hopens s rest hs hrest
  obtain ⟨ht, hafter⟩ := hstands hs hrest
  obtain ⟨s', hs'⟩ := hrest.hasToken.exists_reaches s
  obtain ⟨l', hl'⟩ := primary_name (g := Grammar.upTo n)
    (c := .plain lineFeeds fuel awaits true) hw rfl ht (hafter ▸ hs')
  obtain ⟨l, shown, hleft⟩ := leftHand_eq_linksFrom (chainBase_of_primary (hat.ne_word (by decide))
    (hat.ne_word (by decide)) (hat.ne_word (by decide)) hl')
  exact ⟨l, fuel, shown, _, s', Nat.le_add_right .., hleft, IsMove.of_reaches hs', l', rfl⟩

/-- **A chain with a link behind it is a chain.** -/
theorem ReadsChain.link {linkText : List Char} {linked : Expr → Expr → Prop}
    (h : ReadsChain moves awaits text p) (hl : ReadsLink moves awaits linkText linked) :
    ReadsChain moves awaits (text ++ linkText) fun e' => ∃ e, p e ∧ linked e e' where
  solid := h.solid.append _
  scans rest _ := by
    rw [List.append_assoc]
    exact h.scans _ (hl.follows rest)
  opens s rest hs _ := by
    rw [List.append_assoc] at hs
    exact h.opens s _ hs (hl.follows rest)
  reads n lineFeeds fuel s rest hn hf hs hrest := by
    rw [List.append_assoc] at hs
    rw [List.length_append] at hn hf
    obtain ⟨l, rounds, shown, e, s₁, hrounds, hleft, h₁, hp⟩ :=
      h.reads n lineFeeds fuel s _ (by omega) (by omega) hs (hl.follows rest)
    obtain ⟨before, hbefore⟩ := IsMove.arrives h₁
    obtain ⟨e', shown', s', hlink, h₂, hlinked⟩ := hl.reads n lineFeeds fuel s₁ rest (by omega)
      (by omega) (hbefore.stands (hl.solid.append rest)) hrest s.start l e shown
    obtain ⟨k, rfl⟩ : ∃ k, rounds = k + 1 := ⟨rounds - 1, by omega⟩
    have hlength : 0 < linkText.length := by
      obtain ⟨c, more, rfl, -⟩ := hl.solid
      exact Nat.succ_pos _
    refine ⟨l, k, shown', e', s', ?_, hleft.trans (linksFrom_of_link hlink), IsMove.trans h₁ h₂, e,
      hp, hlinked⟩
    rw [List.length_append]
    omega

/-! ## Links -/

theorem link?_dot {g : Grammar} {c : Setting} {s₁ s₂ : State} {start : List Char} {l : Nat}
    {chain : Chain} {key : String} (ht : s.token = .mark .dot) (h₁ : s.Reaches s.after s₁)
    (ht₁ : s₁.token = .word key false) (h₂ : s₁.Reaches s₁.after s₂) :
    ∃ text, link? g true start l chain c s =
      .ok (some ⟨.member l false chain.expr key, chain.isOptional, text⟩, s₂) := by
  have hword : anyWord c s₁ = .ok (key, s₂) := by
    unfold anyWord
    simp only [run_bind, run_get, bind_ok, ht₁, run_advance rfl h₂, run_pure]
  refine ⟨String.ofList (start.take (start.length - s₂.last.length)), ?_⟩
  unfold link?
  simp only [run_bind, run_get, bind_ok, ht, run_advance rfl h₁, link?.member, ht₁, hword,
    textSince, run_pure, Bool.or_false]

theorem readsLink_member {key : String} (hkey : IsWord key.toList) :
    ReadsLink moves awaits ('.' :: key.toList) fun e e' => ∃ l, e' = .member l false e key where
  solid := solid_dot _
  follows rest := follows_of_mark (by decide) (solid_dot _) (scanToken_dot hkey rest) (by decide)
  reads n lineFeeds fuel s rest _ _ hs hrest start l e shown := by
    obtain ⟨ht, hafter⟩ := Prod.mk.inj (Except.ok.inj ((scanToken_dot hkey rest).symm.trans hs.scanned))
    obtain ⟨s₁, h₁, -, ht₁, hafter₁⟩ := exists_reaches isGap_nil (hkey.solid.append rest)
      (scanToken_word hkey hrest.word) s
    rw [String.ofList_toList] at ht₁
    obtain ⟨s₂, h₂⟩ := hrest.hasToken.exists_reaches s₁
    obtain ⟨shown', hlink⟩ : ∃ shown', link? (Grammar.upTo n) true start l ⟨e, false, shown⟩
        (.plain lineFeeds fuel awaits true) s =
          .ok (some ⟨.member l false e key, false, shown'⟩, s₂) :=
      link?_dot ht.symm (hafter ▸ h₁) ht₁ (hafter₁ ▸ h₂)
    exact ⟨_, shown', s₂, hlink, IsMove.trans (IsMove.of_reaches h₁) (IsMove.of_reaches h₂), l, rfl⟩

/-- A member of a name is read as such. -/
theorem readsBy_member {w key : String} (hw : IsPlainWord w) (hkey : IsWord key.toList) :
    ReadsBy moves awaits assignment (w.toList ++ '.' :: key.toList)
      fun e => ∃ l l', e = .member l false (.name l' w) key := by
  have hlink : ReadsLink moves awaits ('.' :: key.toList)
      fun e e' => ∃ l, e' = .member l false e key := readsLink_member hkey
  obtain ⟨hopens, hreads⟩ := ((readsChain_name hw).link hlink).readsBy
  refine (readsBy_assignment_of_leftHand hopens hreads).mono ?_
  rintro e ⟨_, ⟨l', rfl⟩, l, rfl⟩
  exact ⟨l, l', rfl⟩

/-- An expression that no comma follows is no sequence. -/
theorem run_expression {lineFeeds fuel : Nat} {n : Nat} {e : Expr}
    (h : assignment (Grammar.upTo n) (.plain lineFeeds fuel awaits true) s = .ok (e, s'))
    (hcomma : s'.token ≠ .mark .comma) :
    (Grammar.upTo (n + 2)).expression (.plain lineFeeds fuel awaits true) s = .ok (e, s') := by
  have hassignment : (Grammar.upTo (n + 1)).assignment (.plain lineFeeds fuel awaits true) s =
      .ok (e, s') := h
  change expression (Grammar.upTo (n + 1)) (.plain lineFeeds fuel awaits true) s = _
  unfold expression
  simp only [run_bind, run_line, bind_ok, hassignment, run_atMark_other hcomma, Bool.false_eq_true,
    if_false, run_pure]

/-- What stands behind the opening parenthesis of a call. -/
def inParens : List (List Char) → List Char
  | [] => [')']
  | t :: more => t ++ behindItem [' '] [')'] more

theorem length_inParens (ts : List (List Char)) :
    ts.length ≤ (inParens ts).length ∧ ∀ t ∈ ts, t.length ≤ (inParens ts).length := by
  cases ts with
  | nil => simp
  | cons t more => exact length_firstItem [' '] [] ')' t more

/-- Arguments are read one after another up to the closing parenthesis. -/
theorem run_inParens {α β : Type} {item : Reader α} {text : β → List Char} {p : β → α → Prop}
    (hrest : HasToken rest) {bs : List β}
    (hitems : ∀ b ∈ bs, ReadsEntry moves item c .parenClose false (text b) (p b))
    (hf : bs.length + 1 < c.fuel) (hafter : s.after = inParens (bs.map text) ++ rest) :
    ∃ s₁ as s', advance c s = .ok ((), s₁) ∧ commaSeparated .parenClose item c s₁ = .ok (as, s') ∧
      moves s rest s' ∧ List.Forall₂ p bs as := by
  cases bs with
  | nil =>
    exact run_list (')', .parenClose) (by decide) (by decide) isGap_nil
      (.inl isGap_nil) hrest hitems (closesHoles_items [] []) hf hafter
  | cons b bs =>
    rw [List.map_cons, inParens, List.append_assoc] at hafter
    exact run_listFrom isGap_nil (')', .parenClose) (by decide) (by decide) isGap_blank
      (.inl isGap_nil) hrest hitems (closesHoles_items (b :: bs) []) hf hafter

end Reader

end CommandFiles.Script
