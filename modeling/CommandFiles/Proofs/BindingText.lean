import CommandFiles.Proofs.OperandText

/-! # Texts in front of rules for bindings

Where a parenthesis opens, the parameters of an arrow function are tried first, and a literal may
look like the pattern of a parameter up to its end. But what is read as parameters ends behind the
closing parenthesis, and no arrow follows there. -/
namespace CommandFiles.Script

variable {quiet : Item → Prop} {text rest gap : List Char} {s s' : State}

theorem State.Reaches.stands_behind (hgap : IsGap gap) (hsolid : IsSolid text)
    (h : s.Reaches (gap ++ text) s') : s'.Stands text := by
  obtain ⟨ended, start, token, after, hskip, hscan, rfl⟩ := h
  obtain ⟨ended', hskip'⟩ := skipTrivia_gap hgap false text
  rw [hskip', skipTrivia_solid hsolid] at hskip
  cases hskip
  exact ⟨rfl, hscan⟩

theorem State.Meets.of_reaches {s₁ : State} (h : s.Reaches text s₁) (h' : s₁.Meets quiet rest s') :
    s.Meets quiet rest s' := h.meets.trans h'

namespace Reader

variable {g : Grammar} {c : Setting}

/-! ## What was gone past -/

theorem of_skipMark {m : Mark} {b : Bool} (ht : s.token = .mark m)
    (h : skipMark m c s = .ok (b, s')) : b = true ∧ s.Reaches s.after s' := by
  unfold skipMark at h
  simp only [run_bind, run_atMark ht, bind_ok, if_true] at h
  obtain ⟨p, hp, h⟩ := bind_eq_ok.mp h
  obtain ⟨rfl, rfl⟩ := Prod.mk.inj (Except.ok.inj h)
  exact ⟨rfl, reaches_of_resume hp⟩

theorem run_attempt {α : Type} {r : Reader α} {a : α} (h : r c s = .ok (a, s')) :
    attempt r c s = .ok (some a, s') := by
  unfold attempt
  rw [h]

theorem of_expectMark {m : Mark} {u : Unit} (h : expectMark m c s = .ok (u, s')) :
    s.token = .mark m ∧ s.Reaches s.after s' := by
  unfold expectMark at h
  rw [run_bind] at h
  by_cases ht : s.token = .mark m
  · obtain ⟨p, hp, h⟩ := bind_eq_ok.mp h
    obtain ⟨hb, hreaches⟩ := of_skipMark ht hp
    simp only [hb, if_true, run_pure] at h
    obtain ⟨-, rfl⟩ := Prod.mk.inj (Except.ok.inj h)
    exact ⟨ht, hreaches⟩
  · simp only [run_skipMark_other ht, bind_ok, Bool.false_eq_true, if_false] at h
    cases h

/-! ## Lists -/

/-- Whether a reader that takes some of an entry of a list either ends behind the entry or in front
of a token that no rule for bindings goes on with. -/
structure BindsEntry (quiet : Item → Prop) {α : Type} (item : Reader α) (c : Setting) (close : Mark)
    (hole : Bool) (text : List Char) : Prop where
  begins : ∀ rest, EndsEntry hole rest → IsSolid (text ++ rest)
  opens : ∀ (s : State) (rest : List Char), s.Stands (text ++ rest) → EndsEntry hole rest →
    s.token ≠ .mark close
  stops : ∀ (s : State) (rest : List Char) (a : α) (s' : State), s.Stands (text ++ rest) →
    EndsEntry hole rest → item c s = .ok (a, s') →
    Arrives (State.Meets quiet) s rest s' ∨ s'.token.BarsBinding

section Lists

variable {α β : Type} {item : Reader α} {acc as : List α} {rounds : Nat}

/-- In front of the closing mark a list ends. -/
theorem of_lastRound {close : Mark} (ht : s.token = .mark close)
    (h : repeatUpTo (listStep close item) rounds acc c s = .ok (as, s')) :
    s.Reaches s.after s' := by
  cases rounds with
  | zero => cases h
  | succ j =>
    simp only [repeatUpTo, listStep, run_bind] at h
    obtain ⟨p, hp, h⟩ := bind_eq_ok.mp h
    obtain ⟨q, hq, hp⟩ := bind_eq_ok.mp hp
    obtain ⟨hb, hreaches⟩ := of_skipMark ht hq
    simp only [hb, if_true, run_pure] at hp
    cases hp
    cases h
    exact hreaches

/-- In front of another token an entry is read, and a comma or the closing mark behind it. -/
theorem of_round {close : Mark} (ht : s.token ≠ .mark close)
    (h : repeatUpTo (listStep close item) rounds acc c s = .ok (as, s')) :
    ∃ a s₁, item c s = .ok (a, s₁) ∧
      ((s₁.token = .mark .comma ∧ ∃ j s₂, s₁.Reaches s₁.after s₂ ∧
          repeatUpTo (listStep close item) j (a :: acc) c s₂ = .ok (as, s')) ∨
        s₁.token = .mark close ∧ s₁.Reaches s₁.after s') := by
  cases rounds with
  | zero => cases h
  | succ j =>
    simp only [repeatUpTo, listStep, run_bind, run_skipMark_other ht, bind_ok, Bool.false_eq_true,
      if_false] at h
    obtain ⟨r, hr, h⟩ := bind_eq_ok.mp h
    obtain ⟨⟨a, s₁⟩, ha, hr⟩ := bind_eq_ok.mp hr
    refine ⟨a, s₁, ha, ?_⟩
    obtain ⟨q, hq, hr⟩ := bind_eq_ok.mp hr
    by_cases hcomma : s₁.token = .mark .comma
    · obtain ⟨hb, hreaches⟩ := of_skipMark hcomma hq
      simp only [hb, if_true, run_pure] at hr
      cases hr
      exact .inl ⟨hcomma, j, _, hreaches, h⟩
    · rw [run_skipMark_other hcomma] at hq
      cases hq
      simp only [Bool.false_eq_true, if_false, run_bind] at hr
      obtain ⟨x, hx, hr⟩ := bind_eq_ok.mp hr
      obtain ⟨hclose, hreaches⟩ := of_expectMark hx
      cases hr
      cases h
      exact .inr ⟨hclose, hreaches⟩

variable (close : Char × Mark) (entry : β → List Char) (hole : β → Bool) {stopGap : List Char}
  (hclose : close ∈ closers) (hcomma : close.2 ≠ .comma)
  (hbar : close.2 ∈ [Mark.assign, .comma, .bracketClose, .braceClose, .parenClose])
  (hstop : IsStop stopGap)

include hclose hcomma hbar hstop in
/-- Behind the last entry a list ends. -/
theorem meets_of_lastEntry {b : β} (hb : BindsEntry quiet item c close.2 (hole b) (entry b))
    (hhole : ClosesHoles hole [b] stopGap)
    (hs : s.Stands (entry b ++ (stopGap ++ close.1 :: rest)))
    (h : repeatUpTo (listStep close.2 item) rounds acc c s = .ok (as, s')) :
    s.Meets quiet rest s' := by
  have hend := endsEntry_stop hclose hstop hhole rest
  obtain ⟨a, s₁, ha, hbehind⟩ := of_round (hb.opens s _ hs hend) h
  rcases hb.stops s _ a s₁ hs hend ha with hs₁ | hbars
  · rcases hstop with hgap | ⟨gap, rfl, hgap⟩
    · obtain ⟨ht₁, rfl⟩ := hs₁.closer hclose hgap rfl
      rcases hbehind with ⟨ht, -⟩ | ⟨-, hreaches⟩
      · exact absurd (Token.mark.inj (ht₁.symm.trans ht)) hcomma
      · exact hs₁.onward hreaches
    · obtain ⟨ht₁, hafter₁⟩ := hs₁.closer (q := (',', .comma)) (by decide) isGap_nil rfl
      rcases hbehind with ⟨-, j, s₂, hreaches, hround⟩ | ⟨ht, -⟩
      · rw [hafter₁] at hreaches
        obtain ⟨ht₂, rfl⟩ := hreaches.closer hclose hgap
        exact (hs₁.onward hreaches).trans (of_lastRound ht₂ hround).meets
      · exact absurd (Token.mark.inj (ht₁.symm.trans ht)).symm hcomma
  · rcases hbehind with ⟨ht, -⟩ | ⟨ht, -⟩
    · exact absurd ht (hbars .comma (by decide))
    · exact absurd ht (hbars close.2 hbar)

include hclose hcomma hbar hstop in
/-- Where all entries of a list are bound, the list ends behind its closing mark. -/
theorem meets_of_entries (hgap : IsGap gap) (bs : List β) :
    ∀ (b : β) (acc : List α) (rounds : Nat) (s : State),
      (∀ b' ∈ b :: bs, BindsEntry quiet item c close.2 (hole b') (entry b')) →
      ClosesHoles hole (b :: bs) stopGap →
      s.Stands (entry b ++ (behindItem gap (stopGap ++ [close.1]) (bs.map entry) ++ rest)) →
      repeatUpTo (listStep close.2 item) rounds acc c s = .ok (as, s') → s.Meets quiet rest s' := by
  induction bs with
  | nil =>
    intro b acc rounds s hitems hholes hs h
    rw [List.map_nil, behindItem, List.append_assoc, List.singleton_append] at hs
    exact meets_of_lastEntry close entry hole hclose hcomma hbar hstop
      (hitems b List.mem_cons_self) hholes hs h
  | cons b' bs ih =>
    intro b acc rounds s hitems hholes hs h
    have hb := hitems b List.mem_cons_self
    have hb' := hitems b' (List.mem_cons_of_mem b List.mem_cons_self)
    have hholes' : ClosesHoles hole (b' :: bs) stopGap := by
      rw [ClosesHoles, List.getLast?_cons_cons] at hholes
      exact hholes
    have hend := endsEntry_behindItem hclose hstop gap entry hholes rest
    have hsolid' := hb'.begins _ (endsEntry_behindItem hclose hstop gap entry hholes' rest)
    obtain ⟨a, s₁, ha, hbehind⟩ := of_round (hb.opens s _ hs hend) h
    rw [List.map_cons, behindItem, List.cons_append, List.append_assoc, List.append_assoc] at hend hs
    rcases hb.stops s _ a s₁ hs hend ha with hs₁ | hbars
    · -- behind the comma the next entry is read
      obtain ⟨ht₁, hafter₁⟩ := hs₁.closer (q := (',', .comma)) (by decide) isGap_nil rfl
      rcases hbehind with ⟨-, j, s₂, hreaches, hround⟩ | ⟨ht, -⟩
      · rw [hafter₁] at hreaches
        have hs₂ := hreaches.stands_behind hgap hsolid'
        exact (hs₁.onward hreaches).trans (ih b' (a :: acc) j s₂
          (fun b'' h => hitems b'' (List.mem_cons_of_mem b h)) hholes' hs₂ hround)
      · exact absurd (Token.mark.inj (ht₁.symm.trans ht)).symm hcomma
    · rcases hbehind with ⟨ht, -⟩ | ⟨ht, -⟩
      · exact absurd ht (hbars .comma (by decide))
      · exact absurd ht (hbars close.2 hbar)

include hclose hcomma hbar hstop in
/-- The same from the opening mark on, whatever blanks stand before the first entry. -/
theorem meets_of_listFrom {first : List Char} (hfirst : IsGap first) (hgap : IsGap gap) {b : β}
    {bs : List β}
    (hitems : ∀ b' ∈ b :: bs, BindsEntry quiet item c close.2 (hole b') (entry b'))
    (hholes : ClosesHoles hole (b :: bs) stopGap) {s₁ : State}
    (h₁ : s.Reaches
      (first ++ (entry b ++ (behindItem gap (stopGap ++ [close.1]) (bs.map entry) ++ rest))) s₁)
    (h : commaSeparated close.2 item c s₁ = .ok (as, s')) : s.Meets quiet rest s' := by
  have hsolid := (hitems b List.mem_cons_self).begins _
    (endsEntry_behindItem hclose hstop gap entry hholes rest)
  rw [commaSeparated_eq, run_bind] at h
  obtain ⟨p, hp, h⟩ := bind_eq_ok.mp h
  obtain ⟨-, rfl⟩ := Prod.mk.inj (Except.ok.inj h)
  exact h₁.meets.trans (meets_of_entries close entry hole hclose hcomma hbar hstop hgap bs b []
    c.fuel s₁ hitems hholes (h₁.stands_behind hfirst hsolid) hp)

include hclose hcomma hbar hstop in
theorem meets_of_list (hgap : IsGap gap) {bs : List β}
    (hitems : ∀ b ∈ bs, BindsEntry quiet item c close.2 (hole b) (entry b))
    (hholes : ClosesHoles hole bs stopGap) {s₁ : State}
    (h₁ : s.Reaches (inBrackets gap stopGap close.1 (bs.map entry) ++ rest) s₁)
    (h : commaSeparated close.2 item c s₁ = .ok (as, s')) : s.Meets quiet rest s' := by
  cases bs with
  | nil =>
    rw [List.map_nil, inBrackets, List.singleton_append] at h₁
    obtain ⟨ht, rfl⟩ := h₁.closer hclose isGap_nil
    rw [commaSeparated_eq, run_bind] at h
    obtain ⟨p, hp, h⟩ := bind_eq_ok.mp h
    obtain ⟨-, rfl⟩ := Prod.mk.inj (Except.ok.inj h)
    exact h₁.meets.trans (of_lastRound ht hp).meets
  | cons b bs =>
    rw [List.map_cons, inBrackets, List.append_assoc, List.append_assoc] at h₁
    exact meets_of_listFrom close entry hole hclose hcomma hbar hstop hgap hgap hitems hholes h₁ h

end Lists

end Reader

/-! ## Parentheses -/

section Bindings

open Reader

variable {k : Site} {outer : List Char} {names : List String} {g : Grammar} {c : Setting}

theorem run_annotation? : annotation? g k.setting s = .ok ((), s) := rfl

theorem run_typeParameters? : typeParameters? g k.setting s = .ok ((), s) := rfl

/-- A binding behind which no rule for bindings goes on ends in front of no equals sign. -/
theorem BindsNoMore.ne_assign (hrest : IsEnd rest)
    (h : s.Meets quiet rest s' ∨ s'.token.BarsBinding) : s'.token ≠ .mark .assign := by
  rcases h with h | h
  · exact Closes.ne_mark (hrest.closes_of_move h) (by decide)
  · exact h .assign (by decide)

/-- A pattern one level deeper. -/
theorem BindsNoMore.of_pattern (h : BindsNoMore quiet IsEnd text) (hk : k.Fits outer)
    (hlength : text.length < outer.length) (hs : s.Stands (text ++ rest)) (hrest : IsEnd rest)
    (hrun : k.grammar.pattern k.setting s = .ok (names, s')) :
    s.Meets quiet rest s' ∨ s'.token.BarsBinding := by
  have hdepth := hk.depth
  rw [Site.pattern_eq (by omega)] at hrun
  exact h.stops (k.down 1) s rest names s' (hk.down hlength (by decide)) hs hrest hrun

/-- A pattern that may have a default value has none. -/
theorem BindsNoMore.of_patternElement (h : BindsNoMore quiet IsEnd text) (hk : k.Fits outer)
    (hlength : text.length < outer.length) (hs : s.Stands (text ++ rest)) (hrest : IsEnd rest)
    (hrun : patternElement k.grammar k.setting s = .ok (names, s')) :
    s.Meets quiet rest s' ∨ s'.token.BarsBinding := by
  unfold patternElement at hrun
  rw [run_bind] at hrun
  obtain ⟨⟨names', s₁⟩, hpattern, hrun⟩ := bind_eq_ok.mp hrun
  have hstops := h.of_pattern hk hlength hs hrest hpattern
  simp only [run_bind, run_skipMark_other (BindsNoMore.ne_assign hrest hstops), bind_ok,
    Bool.false_eq_true, if_false, run_pure] at hrun
  cases hrun
  exact hstops

theorem of_loop_skipMark {m : Mark} {u u' : Unit} {next : Reader (Unit ⊕ Unit)}
    (ht : s.token ≠ .mark m)
    (h : loop u (fun _ => do
      if ← skipMark m then next
      else return .inr ()) c s = .ok (u', s')) : s' = s := by
  rw [run_loop] at h
  cases hf : c.fuel with
  | zero => rw [hf] at h; cases h
  | succ j =>
    rw [hf] at h
    simp only [repeatUpTo, run_bind, run_skipMark_other ht, bind_ok, Bool.false_eq_true, if_false,
      run_pure] at h
    cases h
    rfl

/-- A parameter is a binding. -/
theorem BindsNoMore.of_parameter (h : BindsNoMore quiet IsEnd text) (hk : k.Fits outer)
    (hlength : text.length < outer.length) (hs : s.Stands (text ++ rest)) (hrest : IsEnd rest)
    {a : Option Parameter} (hrun : parameter k.grammar k.setting s = .ok (a, s')) :
    s.Meets quiet rest s' ∨ s'.token.BarsBinding := by
  have hother := h.opens s rest hs hrest
  have htyped : k.setting.typed = false := rfl
  unfold parameter at hrun
  rw [run_bind] at hrun
  obtain ⟨⟨u, s₁⟩, hdecorators, hbehind⟩ := bind_eq_ok.mp hrun
  have hs₁ : s₁ = s := of_loop_skipMark (hother .decorator (by decide)) hdecorators
  rw [hs₁] at hbehind
  simp only [run_bind, run_read, bind_ok, htyped, Bool.false_eq_true, if_false,
    run_skipMark_other (hother .ellipsis (by decide))] at hbehind
  obtain ⟨⟨names, s₂⟩, hpattern, hlast⟩ := bind_eq_ok.mp hbehind
  have hstops := h.of_pattern hk hlength hs hrest hpattern
  simp only [run_annotation?, bind_ok,
    run_skipMark_other (BindsNoMore.ne_assign hrest hstops), Bool.false_eq_true, if_false,
    run_pure] at hlast
  cases hlast
  exact hstops

/-- An expression in parentheses, behind which no arrow stands, has no parameters of a function in
them. -/
theorem BindsNoMore.arrowFunction?_paren (h : BindsNoMore quiet IsEnd text) (hsolid : IsSolid text)
    (hk : k.Fits ('(' :: (text ++ [')']))) (hs : s.Stands ('(' :: (text ++ [')']) ++ rest))
    (hrest : Follows rest) : arrowFunction? k.grammar k.setting s = .ok (none, s) := by
  have hlength : text.length < ('(' :: (text ++ [')'])).length := by
    simp only [List.length_cons, List.length_append]
    omega
  have htext : '(' :: (text ++ [')']) ++ rest = '(' :: (text ++ ')' :: rest) := by simp
  rw [htext] at hs
  obtain ⟨ht, hafter⟩ := Prod.mk.inj (Except.ok.inj ((scanToken_parenOpen _).symm.trans hs.scanned))
  have hclose : (')', Mark.parenClose) ∈ closers := by decide
  -- whatever the parameters are, they end behind the closing parenthesis
  have hparameters {ps : List Parameter} {s' : State}
      (hrun : parameters k.grammar k.setting s = .ok (ps, s')) : s.Meets quiet rest s' := by
    unfold parameters at hrun
    rw [run_bind] at hrun
    obtain ⟨⟨u, s₁⟩, hopen, hrun⟩ := bind_eq_ok.mp hrun
    obtain ⟨-, h₁⟩ := of_expectMark hopen
    rw [run_bind] at hrun
    obtain ⟨⟨found, s₂⟩, hfound, hrun⟩ := bind_eq_ok.mp hrun
    cases hrun
    have hentry : BindsEntry quiet (parameter k.grammar) k.setting .parenClose false text :=
      ⟨fun rest _ => hsolid.append rest,
        fun s rest hs hrest => h.opens s rest hs hrest.isEnd .parenClose (by decide),
        fun s rest a s' hs hrest hrun =>
          (h.of_parameter hk hlength hs hrest.isEnd hrun).imp_left IsMove.arrives_at⟩
    rw [← hafter] at h₁
    have hitems : ∀ b ∈ [()],
        BindsEntry quiet (parameter k.grammar) k.setting .parenClose false text := fun _ _ => hentry
    exact meets_of_listFrom (')', .parenClose) (fun _ : Unit => text) (fun _ => false) hclose
      (by decide) (by decide) (.inl isGap_nil) isGap_nil isGap_nil hitems (closesHoles_items [()] [])
      h₁ hfound
  have hhead (names : List String × Bool) (s' : State) :
      arrowHead k.grammar false k.setting s ≠ .ok (names, s') := by
    intro hrun
    unfold arrowHead at hrun
    have hunder : { k.setting with
        awaits := k.setting.awaits || false, yields := k.setting.yields && !false,
        inOperator := true } = k.setting :=
      congrArg (fun awaits => { k.setting with awaits }) (Bool.or_false k.awaits)
    have htyped : k.setting.typed = false := rfl
    rw [run_under, hunder] at hrun
    simp only [run_bind, run_typeParameters?, bind_ok] at hrun
    obtain ⟨⟨ps, s₁⟩, hps, hrun⟩ := bind_eq_ok.mp hrun
    obtain ⟨_, _, _, h₁⟩ := hparameters hps
    -- behind them an arrow would have to stand
    obtain ⟨b, hb⟩ : ∃ b, atMark .colon k.setting s₁ = .ok (b, s₁) := ⟨_, rfl⟩
    simp only [run_read, bind_ok, htyped, hb, Bool.false_and, Bool.false_eq_true, if_false] at hrun
    obtain ⟨⟨u, s₂⟩, harrow, -⟩ := bind_eq_ok.mp hrun
    unfold arrow at harrow
    simp only [run_bind, run_get, bind_ok] at harrow
    split at harrow
    · cases harrow
    · obtain ⟨ht₁, -⟩ := of_expectMark harrow
      obtain ⟨ended, start, token, after, hskip, hscan, rfl⟩ := h₁
      have hpeek := hrest.noArrow
      rw [Peek.ofText_eq hskip hscan, Peek.isMark] at hpeek
      dsimp only at ht₁ hpeek
      rw [ht₁] at hpeek
      cases hpeek
  have hattempt : attempt (arrowHead k.grammar false) k.setting s = .ok (none, s) := by
    unfold attempt
    cases hrun : arrowHead k.grammar false k.setting s with
    | error e => rfl
    | ok r => exact absurd hrun (hhead r.1 r.2)
  unfold arrowFunction?
  simp only [run_bind, run_line, bind_ok, run_get, run_atMark ht.symm, Bool.true_or, if_true,
    run_read, run_atArrowTypes]
  split
  · simp only [run_bind, hattempt, bind_ok, run_pure]
  · rw [run_bind,
      run_attempt (a := none) (by simp only [run_bind, hattempt, bind_ok, run_pure]; rfl)]
    rfl

/-- Whether a text is read as an expression in front of a closing mark, and looks like no more than
itself to rules for bindings. -/
structure ReadsFully (quiet : Item → Prop) (text : List Char) (p : Expr → Prop) : Prop where
  whole : ReadsWhole quiet text p
  binds : BindsNoMore quiet IsEnd text

variable {p q : Expr → Prop}

theorem ReadsFully.mono (h : ReadsFully quiet text p) (hpq : ∀ e, p e → q e) :
    ReadsFully quiet text q :=
  ⟨h.whole.mono hpq, h.binds⟩

theorem Reader.ReadsOperand.fully (h : ReadsOperand quiet text p) : ReadsFully quiet text p :=
  ⟨h.whole, h.binds.mono fun _ hrest => hrest.endsOperand⟩

/-- A text that begins with something else than a bracket, a brace or a word is no binding. -/
theorem bindsNoMore_of_token {ends : List Char → Prop} {t : Token}
    (hscan : ∀ rest, ends rest → ∃ after, scanToken (text ++ rest) = .ok (t, after))
    (hword : ∀ w escaped, t = .word w escaped → reserved.contains w = true)
    (hmark : ∀ m ∈ [Mark.decorator, .ellipsis, .comma, .bracketClose, .braceClose, .parenClose] ++
      [.bracketOpen, .braceOpen], t ≠ .mark m) : BindsNoMore quiet ends text := by
  have hstands {s : State} {rest : List Char} (hs : s.Stands (text ++ rest)) (hrest : ends rest) :
      s.token = t := by
    obtain ⟨after, h⟩ := hscan rest hrest
    exact (Prod.mk.inj (Except.ok.inj (hs.scanned.symm.trans h))).1
  refine ⟨fun s rest hs hrest m hm => ?_, fun k s rest names s' _ hs hrest hrun => ?_⟩
  · rw [hstands hs hrest]
    exact hmark m (List.mem_append_left _ hm)
  · have ht := hstands hs hrest
    obtain ⟨name, hname⟩ := Reader.of_pattern (by rw [ht]; exact hmark .bracketOpen (by decide))
      (by rw [ht]; exact hmark .braceOpen (by decide)) hrun
    obtain ⟨⟨escaped, hw⟩, hreserved, -⟩ := of_identifier hname
    rw [hword name escaped (ht.symm.trans hw)] at hreserved
    cases hreserved

/-- **An expression in parentheses begins a chain.** -/
theorem ReadsFully.paren (h : ReadsFully quiet text p) :
    ReadsSpine quiet false ('(' :: (text ++ [')']))
      fun o e => o = false ∧ ∃ l e', e = .wrapped l e' ∧ p e' := by
  have hclose : (')', Mark.parenClose) ∈ closers := by decide
  have hlength : text.length < ('(' :: (text ++ [')'])).length := by
    simp only [List.length_cons, List.length_append]
    omega
  have hscan (rest : List Char) : scanToken ('(' :: (text ++ [')']) ++ rest) =
      .ok (.mark .parenOpen, text ++ [')'] ++ rest) := scanToken_parenOpen _
  have hbinds : BindsNoMore quiet (Behind false) ('(' :: (text ++ [')'])) :=
    bindsNoMore_of_token (fun rest _ => ⟨_, hscan rest⟩) nofun (by simp)
  refine readsSpine_of_primary (solid_parenOpen _)
    (fun rest _ => ⟨_, _, hscan rest, rfl, by simp⟩)
    (fun k s rest hk hs hrest => h.binds.arrowFunction?_paren h.whole.solid hk hs hrest.follows)
    hbinds ⟨solid_parenOpen _, fun rest _ => ⟨_, _, hscan rest⟩, fun k s rest hk hs hrest => ?_⟩
  obtain ⟨ht, hafter⟩ := Prod.mk.inj (Except.ok.inj ((hscan rest).symm.trans hs.scanned))
  rw [List.append_assoc, List.singleton_append] at hafter
  -- behind the parenthesis types may be given again for what functions return
  have hk' : Site.Fits { k with returnTypes := true } ('(' :: (text ++ [')'])) :=
    ⟨hk.depth, hk.fuel⟩
  obtain ⟨s₁, h₁, hs₁⟩ := h.whole.exists_reaches isGap_nil (isEnd_closer hclose isGap_nil rest) s
  obtain ⟨e, s₂, he, h₂, hp⟩ := h.whole.run_expression hk' hlength hs₁ hclose (by decide) isGap_nil
    rfl
  obtain ⟨ht₂, hafter₂⟩ := IsMove.closer hclose isGap_nil h₂
  obtain ⟨s₃, h₃⟩ := hrest.follows.hasToken.exists_reaches s₂
  refine ⟨.wrapped (k.setting.lineFeeds - s.start.count '\n' + 1) e, s₃, ?_,
    (h₁.meets.trans h₂).trans h₃.meets, _, e, rfl, hp⟩
  have hexpression : under (fun c => { c with inOperator := true, returnTypes := true })
      k.grammar.expression k.setting s₁ = .ok (e, s₂) := he
  unfold primary
  simp only [run_bind, run_line, bind_ok, run_get, ← ht, run_advance hafter.symm h₁, hexpression,
    run_expectMark ht₂ hafter₂ h₃, run_pure]

end Bindings

end CommandFiles.Script
