import CommandFiles.Proofs.ChainText

/-! # Texts of operands

An operand is the first expression of a chain with the links behind it. What follows it may be a
closing mark, an operator or one more link, and decides whether the chain goes on. So an operand is
read up to the links that are left, and ends in front of any token that is none. Next to that stands
what a rule for bindings makes of the same text, which is tried first where a parenthesis may open
the parameters of a function. -/
namespace CommandFiles.Script

variable {quiet : Item → Prop} {text rest : List Char} {s s' : State}

/-! ## Sites -/

/-- Where rules are run outside of generators: how deep they may nest, the line feeds of the whole
text, the bound for loops, whether `await` is an operator, and whether arrow functions may tell what
they return. -/
structure Site where
  depth : Nat
  lineFeeds : Nat
  fuel : Nat
  awaits : Bool
  returnTypes : Bool

namespace Site

/-- The rules that may be run there. -/
abbrev grammar (k : Site) : Grammar := .upTo k.depth

/-- The setting they are run in. -/
abbrev setting (k : Site) : Setting := .plain k.lineFeeds k.fuel k.awaits k.returnTypes

/-- The same site some levels deeper. -/
def down (k : Site) (levels : Nat) : Site := { k with depth := k.depth - levels }

/-- Whether rules may nest deep enough and loops run long enough for a text. -/
structure Fits (k : Site) (text : List Char) : Prop where
  depth : 8 * text.length ≤ k.depth
  fuel : text.length < k.fuel

variable {k : Site} {inner : List Char}

theorem Fits.mono (h : k.Fits text) (hinner : inner.length ≤ text.length) : k.Fits inner :=
  ⟨Nat.le_trans (Nat.mul_le_mul_left 8 hinner) h.depth, Nat.lt_of_le_of_lt hinner h.fuel⟩

/-- A shorter text leaves room for some levels. -/
theorem Fits.down (h : k.Fits text) (hinner : inner.length < text.length) {levels : Nat}
    (hlevels : levels ≤ 8) : (k.down levels).Fits inner := by
  refine ⟨?_, Nat.lt_trans hinner h.fuel⟩
  have hdepth := h.depth
  change 8 * inner.length ≤ k.depth - levels
  omega

section Rules

variable (hk : 0 < k.depth)
include hk

theorem assignment_eq : k.grammar.assignment = Reader.assignment (k.down 1).grammar := by
  obtain ⟨n, _, _, _, _⟩ := k
  cases n with
  | zero => cases hk
  | succ n => rfl

theorem unary_eq : k.grammar.unary = Reader.unary (k.down 1).grammar := by
  obtain ⟨n, _, _, _, _⟩ := k
  cases n with
  | zero => cases hk
  | succ n => rfl

theorem binary_eq : k.grammar.binary = Reader.binary (k.down 1).grammar := by
  obtain ⟨n, _, _, _, _⟩ := k
  cases n with
  | zero => cases hk
  | succ n => rfl

theorem pattern_eq : k.grammar.pattern = Reader.pattern (k.down 1).grammar := by
  obtain ⟨n, _, _, _, _⟩ := k
  cases n with
  | zero => cases hk
  | succ n => rfl

theorem expression_eq : k.grammar.expression = Reader.expression (k.down 1).grammar := by
  obtain ⟨n, _, _, _, _⟩ := k
  cases n with
  | zero => cases hk
  | succ n => rfl

end Rules

end Site

/-! ## Texts that a rule reads at any site -/

/-- Whether a rule reads a text at every site, in front of whatever may end it there. -/
structure ReadsAt {α : Type} (quiet : Item → Prop) (ends : List Char → Prop)
    (rule : Grammar → Reader α) (text : List Char) (p : α → Prop) : Prop where
  solid : IsSolid text
  scans : ∀ rest, ends rest → ∃ t after, scanToken (text ++ rest) = .ok (t, after)
  reads : ∀ (k : Site) (s : State) (rest : List Char),
    k.Fits text → s.Stands (text ++ rest) → ends rest →
    ∃ a s', rule k.grammar k.setting s = .ok (a, s') ∧ s.Meets quiet rest s' ∧ p a

/-- Whether a text is read as an expression in front of a closing mark. -/
abbrev ReadsWhole (quiet : Item → Prop) (text : List Char) (p : Expr → Prop) : Prop :=
  ReadsAt quiet IsEnd Reader.assignment text p

variable {p q : Expr → Prop}

theorem ReadsAt.mono {α : Type} {ends : List Char → Prop} {rule : Grammar → Reader α}
    {p q : α → Prop} (h : ReadsAt quiet ends rule text p) (hpq : ∀ a, p a → q a) :
    ReadsAt quiet ends rule text q where
  solid := h.solid
  scans := h.scans
  reads k s rest hk hs hrest := by
    obtain ⟨e, s', he, hs', hp⟩ := h.reads k s rest hk hs hrest
    exact ⟨e, s', he, hs', hpq e hp⟩

theorem ReadsAt.readsBy {rule : Grammar → Reader Expr} (h : ReadsAt quiet IsEnd rule text p)
    (awaits : Bool) : ReadsBy (State.Meets quiet) awaits rule text p where
  solid := h.solid
  scans := h.scans
  reads n lineFeeds fuel s rest hn hf hs hrest :=
    h.reads ⟨n, lineFeeds, fuel, awaits, true⟩ s rest ⟨hn, hf⟩ hs hrest

/-- Behind blanks a text is found that a rule reads. -/
theorem ReadsAt.exists_reaches {α : Type} {ends : List Char → Prop} {rule : Grammar → Reader α}
    {p : α → Prop} (h : ReadsAt quiet ends rule text p) {gap : List Char} (hgap : IsGap gap)
    (hrest : ends rest) (s : State) : ∃ s', s.Reaches (gap ++ (text ++ rest)) s' ∧ s'.Stands (text ++ rest) := by
  obtain ⟨t, after, hscan⟩ := h.scans rest hrest
  obtain ⟨s', hreaches, hstands, -, -⟩ :=
    CommandFiles.Script.exists_reaches hgap (h.solid.append rest) hscan s
  exact ⟨s', hreaches, hstands⟩

/-- An expression one level deeper. -/
theorem ReadsAt.run_assignment (h : ReadsWhole quiet text p) {k : Site} {outer : List Char}
    (hk : k.Fits outer) (hlength : text.length < outer.length) (hs : s.Stands (text ++ rest))
    (hrest : IsEnd rest) :
    ∃ e s', k.grammar.assignment k.setting s = .ok (e, s') ∧ s.Meets quiet rest s' ∧ p e := by
  have hdepth := hk.depth
  obtain ⟨e, s', he, hs', hp⟩ :=
    h.reads (k.down 1) s rest (hk.down hlength (by decide)) hs hrest
  rw [Site.assignment_eq (by omega)]
  exact ⟨e, s', he, hs', hp⟩

/-- An expression that no comma follows is no sequence. -/
theorem ReadsAt.run_expression (h : ReadsWhole quiet text p) {k : Site} {outer : List Char}
    (hk : k.Fits outer) (hlength : text.length < outer.length) (hs : s.Stands (text ++ rest))
    {close : Char × Mark} (hclose : close ∈ closers) (hcomma : close.2 ≠ .comma) {gap : List Char}
    (hgap : IsGap gap) {more : List Char} (hmore : rest = gap ++ close.1 :: more) :
    ∃ e s', k.grammar.expression k.setting s = .ok (e, s') ∧ s.Meets quiet rest s' ∧ p e := by
  have hdepth := hk.depth
  subst hmore
  obtain ⟨e, s', he, hs', hp⟩ := h.reads (k.down 2) s _ (hk.down hlength (by decide)) hs
    (isEnd_closer hclose hgap more)
  obtain ⟨ht', -⟩ := IsMove.closer hclose hgap hs'
  refine ⟨e, s', ?_, hs', hp⟩
  rw [Site.expression_eq (by omega)]
  have hassignment : (k.down 1).grammar.assignment k.setting s = .ok (e, s') := by
    rw [Site.assignment_eq (show 0 < k.depth - 1 by omega)]
    exact he
  have hmark : s'.token ≠ .mark .comma := by rw [ht']; simpa using hcomma
  unfold Reader.expression
  simp only [Reader.run_bind, Reader.run_line, Reader.bind_ok, hassignment,
    Reader.run_atMark_other hmark, Bool.false_eq_true, if_false, Reader.run_pure]

/-! ## What may follow an operand -/

/-- Marks that join operands. -/
def Mark.joining : List Mark :=
  [.question, .coalesce, .or, .and, .bitOr, .bitXor, .bitAnd, .equal, .notEqual, .identical,
    .notIdentical, .less, .lessEqual, .greater, .shiftLeft, .plus, .minus, .times, .slash, .percent,
    .power]

/-- Whether an operand is complete in front of a token. -/
def Token.EndsOperand (t : Token) : Prop :=
  (∃ m ∈ Mark.closing ++ Mark.joining, t = .mark m) ∨
    ∃ w ∈ ["in", "instanceof"], t = .word w false

/-- Whether an operand before a text is complete, and nothing of the text runs into it. -/
structure EndsOperand (rest : List Char) : Prop where
  ends : ∃ ended start token after, skipTrivia .between false rest = .ok (ended, start) ∧
    scanToken start = .ok (token, after) ∧ token.EndsOperand
  word : EndsWord rest
  noPoint : ∀ more, rest ≠ '.' :: more

theorem Token.Closes.endsOperand {t : Token} (h : t.Closes) : t.EndsOperand := by
  obtain ⟨m, hm, rfl⟩ := h
  exact .inl ⟨m, List.mem_append_left _ hm, rfl⟩

theorem IsEnd.endsOperand (h : IsEnd rest) : EndsOperand rest := by
  obtain ⟨ended, start, token, after, hskip, hscan, hcloses⟩ := h.closes
  exact ⟨⟨ended, start, token, after, hskip, hscan, hcloses.endsOperand⟩, h.word, h.number.noPoint⟩

/-- The tokens in front of which an operand ends. -/
theorem Token.EndsOperand.cases {t : Token} (h : t.EndsOperand) {P : Token → Prop}
    (hmark : ∀ m ∈ Mark.closing ++ Mark.joining, P (.mark m))
    (hword : ∀ w ∈ ["in", "instanceof"], P (.word w false)) : P t := by
  rcases h with ⟨m, hm, rfl⟩ | ⟨w, hw, rfl⟩
  · exact hmark m hm
  · exact hword w hw

theorem Token.EndsOperand.ne_mark {t : Token} (h : t.EndsOperand) {m : Mark}
    (hm : m ∉ Mark.closing ++ Mark.joining) : t ≠ .mark m := by
  refine h.cases (P := fun t => t ≠ .mark m) (fun m' hm' ht => ?_) nofun
  cases ht
  exact hm hm'

theorem EndsOperand.token_of_reaches (h : EndsOperand rest) (hs' : s.Reaches rest s') :
    s'.token.EndsOperand := by
  obtain ⟨ended, start, token, after, hskip, hscan, hends⟩ := h.ends
  obtain ⟨ended', start', token', after', hskip', hscan', rfl⟩ := hs'
  rw [hskip] at hskip'
  cases hskip'
  rw [hscan] at hscan'
  cases hscan'
  exact hends

theorem EndsOperand.token_of_meets (h : EndsOperand rest) (hs' : s.Meets quiet rest s') :
    s'.token.EndsOperand := by
  obtain ⟨_, hs'⟩ := IsMove.arrives hs'
  exact h.token_of_reaches hs'

/-- Whether a text may stand behind a part of a chain. Behind digits it may not begin with a point,
which would be one of the number. -/
structure Behind (digits : Bool) (rest : List Char) : Prop where
  follows : Follows rest
  noPoint : digits = true → ∀ more, rest ≠ '.' :: more

theorem EndsOperand.behind (h : EndsOperand rest) (digits : Bool) : Behind digits rest := by
  obtain ⟨ended, start, token, after, hskip, hscan, hends⟩ := h.ends
  refine ⟨⟨h.word, ⟨ended, start, token, after, hskip, hscan⟩, ?_⟩, fun _ => h.noPoint⟩
  rw [Reader.Peek.ofText_eq hskip hscan]
  have harrow := hends.ne_mark (m := .arrow) (by decide)
  unfold Reader.Peek.isMark
  split
  · rename_i m ht
    rw [beq_eq_false_iff_ne]
    rintro rfl
    exact harrow ht
  · rfl

/-! ## What a rule for bindings makes of a text -/

/-- Whether no rule for bindings goes on with a token. -/
def Token.BarsBinding (t : Token) : Prop :=
  ∀ m ∈ [Mark.assign, .comma, .bracketClose, .braceClose, .parenClose], t ≠ .mark m

/-- Whether a text begins with no mark that stands before or behind a parameter, and a rule for
bindings that accepts some of the text either ends behind it or in front of a token that no such
rule goes on with. -/
structure BindsNoMore (quiet : Item → Prop) (ends : List Char → Prop) (text : List Char) :
    Prop where
  opens : ∀ (s : State) (rest : List Char), s.Stands (text ++ rest) → ends rest →
    ∀ m ∈ [Mark.decorator, .ellipsis, .comma, .bracketClose, .braceClose, .parenClose],
      s.token ≠ .mark m
  stops : ∀ (k : Site) (s : State) (rest : List Char) (names : List String) (s' : State),
    k.Fits text → s.Stands (text ++ rest) → ends rest →
    Reader.pattern k.grammar k.setting s = .ok (names, s') →
    s.Meets quiet rest s' ∨ s'.token.BarsBinding

theorem BindsNoMore.mono {ends ends' : List Char → Prop} (h : BindsNoMore quiet ends text)
    (hends : ∀ rest, ends' rest → ends rest) : BindsNoMore quiet ends' text where
  opens s rest hs hrest := h.opens s rest hs (hends rest hrest)
  stops k s rest names s' hk hs hrest := h.stops k s rest names s' hk hs (hends rest hrest)

namespace Reader

variable {g : Grammar} {c : Setting}

theorem reaches_of_resume {u : Unit} (h : resume rest c s = .ok (u, s')) : s.Reaches rest s' := by
  unfold resume at h
  cases hskip : skipTrivia .between false rest with
  | error e => rw [hskip] at h; cases h
  | ok p =>
    obtain ⟨ended, start⟩ := p
    rw [hskip] at h
    cases hscan : scanToken start with
    | error e =>
      change (scanToken start).map _ = _ at h
      rw [hscan] at h
      cases h
    | ok t =>
      obtain ⟨token, after⟩ := t
      change (scanToken start).map _ = _ at h
      rw [hscan] at h
      cases h
      exact ⟨ended, start, token, after, hskip, hscan, rfl⟩

theorem bind_eq_ok {α β ε : Type} {r : Except ε α} {f : α → Except ε β} {b : β} :
    r.bind f = .ok b ↔ ∃ a, r = .ok a ∧ f a = .ok b := by
  cases r <;> simp [Except.bind]

/-- An identifier is a word that is not reserved, and what follows comes next. -/
theorem of_identifier {name : String} (h : identifier c s = .ok (name, s')) :
    (∃ escaped, s.token = .word name escaped) ∧ reserved.contains name = false ∧
      s.Reaches s.after s' := by
  unfold identifier at h
  simp only [run_bind, run_get, bind_ok] at h
  cases ht : s.token with
  | word w escaped =>
    simp only [ht, run_bind, run_read, bind_ok, run_ite] at h
    split at h
    · cases h
    · rename_i hw
      obtain ⟨p, hp, hname⟩ := bind_eq_ok.mp h
      obtain ⟨rfl, rfl⟩ := Prod.mk.inj (Except.ok.inj hname)
      simp only [Bool.or_eq_true, not_or, Bool.not_eq_true] at hw
      exact ⟨⟨escaped, rfl⟩, hw.1.1, reaches_of_resume hp⟩
  | _ => simp only [ht] at h; cases h

/-- In front of anything but a bracket or a brace a rule for bindings takes one identifier. -/
theorem of_pattern {names : List String} (hbracket : s.token ≠ .mark .bracketOpen)
    (hbrace : s.token ≠ .mark .braceOpen) (h : pattern g c s = .ok (names, s')) :
    ∃ name, identifier c s = .ok (name, s') := by
  unfold pattern at h
  simp only [run_bind, run_skipMark_other hbracket, run_skipMark_other hbrace, bind_ok,
    Bool.false_eq_true, if_false] at h
  obtain ⟨p, hp, hnames⟩ := bind_eq_ok.mp h
  obtain ⟨-, rfl⟩ := Prod.mk.inj (Except.ok.inj hnames)
  exact ⟨p.1, hp⟩

/-! ## Chains and operands -/

/-- Whether a text is read as a part of a chain at every site, up to the links that may follow it.
The Boolean says whether an optional link has been met. -/
structure ReadsSpine (quiet : Item → Prop) (digits : Bool) (text : List Char)
    (p : Bool → Expr → Prop) : Prop where
  solid : IsSolid text
  opens : ∀ rest, Behind digits rest →
    ∃ t after, scanToken (text ++ rest) = .ok (t, after) ∧ t.beginsOperand = true
  noFunction : ∀ (k : Site) (s : State) (rest : List Char), k.Fits text →
    s.Stands (text ++ rest) → Behind digits rest →
    arrowFunction? k.grammar k.setting s = .ok (none, s)
  binds : BindsNoMore quiet (Behind digits) text
  reads : ∀ (k : Site) (s : State) (rest : List Char),
    k.Fits text → s.Stands (text ++ rest) → Behind digits rest →
    ∃ l rounds isOptional shown e s', k.fuel ≤ rounds + text.length ∧
      leftHand k.grammar k.setting s =
        linksFrom k.grammar s.start l rounds ⟨e, isOptional, shown⟩ k.setting s' ∧
      s.Meets quiet rest s' ∧ p isOptional e

theorem ReadsSpine.mono {digits : Bool} {p q : Bool → Expr → Prop}
    (h : ReadsSpine quiet digits text p) (hpq : ∀ o e, p o e → q o e) :
    ReadsSpine quiet digits text q where
  solid := h.solid
  opens := h.opens
  noFunction := h.noFunction
  binds := h.binds
  reads k s rest hk hs hrest := by
    obtain ⟨l, rounds, o, shown, e, s', hrounds, hleft, hs', hp⟩ := h.reads k s rest hk hs hrest
    exact ⟨l, rounds, o, shown, e, s', hrounds, hleft, hs', hpq o e hp⟩

/-- Whether a text is read as an operand at every site: a chain that nothing goes on with. -/
structure ReadsOperand (quiet : Item → Prop) (text : List Char) (p : Expr → Prop) : Prop where
  leftHand : ReadsAt quiet EndsOperand leftHand text p
  begins : ∀ (s : State) (rest : List Char), s.Stands (text ++ rest) → EndsOperand rest →
    s.token.beginsOperand = true
  noFunction : ∀ (k : Site) (s : State) (rest : List Char), k.Fits text →
    s.Stands (text ++ rest) → EndsOperand rest →
    arrowFunction? k.grammar k.setting s = .ok (none, s)
  binds : BindsNoMore quiet EndsOperand text

theorem ReadsOperand.mono (h : ReadsOperand quiet text p) (hpq : ∀ e, p e → q e) :
    ReadsOperand quiet text q :=
  ⟨h.leftHand.mono hpq, h.begins, h.noFunction, h.binds⟩

theorem link?_of_endsOperand {k : Site} (h : s.token.EndsOperand) (calls : Bool)
    (start : List Char) (l : Nat) (chain : Chain) :
    link? k.grammar calls start l chain k.setting s = .ok (none, s) := by
  unfold link?
  rcases h with ⟨m, hm, ht⟩ | ⟨w, -, ht⟩
  · simp only [run_bind, run_get, bind_ok, ht]
    simp only [Mark.closing, Mark.joining, List.cons_append, List.nil_append, List.mem_cons,
      List.not_mem_nil, or_false] at hm
    rcases hm with rfl | rfl | rfl | rfl | rfl | rfl | rfl | rfl | rfl | rfl | rfl | rfl | rfl |
      rfl | rfl | rfl | rfl | rfl | rfl | rfl | rfl | rfl | rfl | rfl | rfl | rfl | rfl <;> rfl
  · simp only [run_bind, run_get, bind_ok, ht, run_pure]

theorem linksFrom_of_endsOperand {k : Site} {start : List Char} {l rounds : Nat} {chain : Chain}
    (h : s.token.EndsOperand) :
    linksFrom k.grammar start l (rounds + 1) chain k.setting s =
      .ok (if chain.isOptional then .chain l chain.expr else chain.expr, s) := by
  simp only [linksFrom, repeatUpTo, linkStep, run_bind, link?_of_endsOperand h, bind_ok, run_pure]

/-- A chain that nothing goes on with is an operand. -/
theorem ReadsSpine.operand {digits : Bool} {p : Bool → Expr → Prop}
    (h : ReadsSpine quiet digits text p) : ReadsOperand quiet text fun e' =>
      ∃ l o e, p o e ∧ e' = if o then .chain l e else e where
  leftHand := {
    solid := h.solid
    scans := fun rest hrest => by
      obtain ⟨t, after, hscan, -⟩ := h.opens rest (hrest.behind digits)
      exact ⟨t, after, hscan⟩
    reads := fun k s rest hk hs hrest => by
      obtain ⟨l, rounds, o, shown, e, s', hrounds, hleft, hs', hp⟩ :=
        h.reads k s rest hk hs (hrest.behind digits)
      have hfuel := hk.fuel
      obtain ⟨j, rfl⟩ : ∃ j, rounds = j + 1 := ⟨rounds - 1, by omega⟩
      exact ⟨_, s', hleft.trans (linksFrom_of_endsOperand (hrest.token_of_meets hs')), hs', l, o, e,
        hp, rfl⟩ }
  begins s rest hs hrest := by
    obtain ⟨t, after, hscan, ht⟩ := h.opens rest (hrest.behind digits)
    obtain ⟨rfl, -⟩ := Prod.mk.inj (Except.ok.inj (hs.scanned.symm.trans hscan))
    exact ht
  noFunction k s rest hk hs hrest := h.noFunction k s rest hk hs (hrest.behind digits)
  binds := h.binds.mono fun rest hrest => hrest.behind digits

/-- An operand is an expression. -/
theorem ReadsOperand.unary (h : ReadsOperand quiet text p) :
    ReadsAt quiet EndsOperand Reader.unary text p where
  solid := h.leftHand.solid
  scans := h.leftHand.scans
  reads k s rest hk hs hrest := by
    obtain ⟨e, s', he, hs', hp⟩ := h.leftHand.reads k s rest hk hs hrest
    have hends := hrest.token_of_meets hs'
    have hstep : ¬ IsStep s'.token := by
      rintro (ht | ht)
      · exact hends.ne_mark (by decide) ht
      · exact hends.ne_mark (by decide) ht
    exact ⟨e, s', unary_of_leftHand (h.begins s rest hs hrest) he hstep, hs', hp⟩

/-- What is read in front of closing marks without an operator is an expression, unless a function
begins there. -/
theorem readsWhole_of_unary (h : ReadsAt quiet IsEnd Reader.unary text p)
    (hfunction : ∀ (k : Site) (s : State) (rest : List Char), k.Fits text →
      s.Stands (text ++ rest) → IsEnd rest →
      arrowFunction? k.grammar k.setting s = .ok (none, s)) : ReadsWhole quiet text p where
  solid := h.solid
  scans := h.scans
  reads k s rest hk hs hrest := by
    obtain ⟨e, s', he, hs', hp⟩ := h.reads k s rest hk hs hrest
    have hcloses := hrest.closes_of_move hs'
    have hbinary : binary k.grammar 0 k.setting s = .ok (e, s') :=
      binary_of_unary he (Nat.zero_lt_of_lt hk.fuel) (infixOp?_of_closes hcloses)
    have hconditional := conditional_of_binary hbinary (Closes.ne_mark hcloses (by decide))
    exact ⟨e, s', assignment_of_conditional (hfunction k s rest hk hs hrest) hconditional
      (assignmentOp?_of_closes hcloses), hs', hp⟩

theorem ReadsOperand.whole (h : ReadsOperand quiet text p) : ReadsWhole quiet text p :=
  readsWhole_of_unary ⟨h.unary.solid, fun rest hrest => h.unary.scans rest hrest.endsOperand,
    fun k s rest hk hs hrest => h.unary.reads k s rest hk hs hrest.endsOperand⟩
    fun k s rest hk hs hrest => h.noFunction k s rest hk hs hrest.endsOperand

/-! ## Operands of one token -/

/-- What an expression without links is read as begins a chain. -/
theorem readsSpine_of_primary {digits : Bool} (hsolid : IsSolid text)
    (hopens : ∀ rest, Behind digits rest → ∃ t after, scanToken (text ++ rest) = .ok (t, after) ∧
      t.beginsOperand = true ∧ ∀ w ∈ ["new", "import", "super"], t ≠ .word w false)
    (hfunction : ∀ (k : Site) (s : State) (rest : List Char), k.Fits text →
      s.Stands (text ++ rest) → Behind digits rest →
      arrowFunction? k.grammar k.setting s = .ok (none, s))
    (hbinds : BindsNoMore quiet (Behind digits) text)
    (h : ReadsAt quiet (Behind digits) primary text p) :
    ReadsSpine quiet digits text fun o e => o = false ∧ p e where
  solid := hsolid
  opens rest hrest := by
    obtain ⟨t, after, hscan, ht, -⟩ := hopens rest hrest
    exact ⟨t, after, hscan, ht⟩
  noFunction := hfunction
  binds := hbinds
  reads k s rest hk hs hrest := by
    obtain ⟨e, s', he, hs', hp⟩ := h.reads k s rest hk hs hrest
    obtain ⟨t, after, hscan, -, hword⟩ := hopens rest hrest
    obtain ⟨rfl, -⟩ := Prod.mk.inj (Except.ok.inj (hs.scanned.symm.trans hscan))
    have hbase := chainBase_of_primary (hword "new" (by decide)) (hword "import" (by decide))
      (hword "super" (by decide)) he
    obtain ⟨l, shown, hleft⟩ := leftHand_eq_linksFrom hbase
    exact ⟨l, k.fuel, false, shown, e, s', Nat.le_add_right .., hleft, hs', rfl, hp⟩

/-- Whether a text is scanned as one token in front of what may stand behind an operand. -/
def ScansBefore (digits : Bool) (text : List Char) (t : Token) : Prop :=
  ∀ rest, Behind digits rest → scanToken (text ++ rest) = .ok (t, rest)

theorem ScansBefore.stands {digits : Bool} {t : Token} (h : ScansBefore digits text t)
    (hs : s.Stands (text ++ rest)) (hrest : Behind digits rest) : s.token = t ∧ s.after = rest :=
  Prod.mk.inj (Except.ok.inj (hs.scanned.symm.trans (h rest hrest)))

/-- A token that is an expression of its own begins a chain. -/
theorem readsSpine_atom {digits : Bool} {t : Token} (hsolid : IsSolid text)
    (h : ScansBefore digits text t) (ht : IsAtom t) (hbracket : t ≠ .mark .bracketOpen)
    (hbrace : t ≠ .mark .braceOpen)
    (hprimary : ∀ (g : Grammar) (c : Setting) (s s' : State), c.yields = false →
      s.token = t → s.Reaches s.after s' → ∃ e, primary g c s = .ok (e, s') ∧ p e) :
    ReadsSpine quiet digits text fun o e => o = false ∧ p e := by
  refine readsSpine_of_primary hsolid (fun rest hrest => ⟨t, rest, h rest hrest, ht.begins, ?_⟩)
    (fun k s rest _ hs hrest => ?_) ⟨fun s rest hs hrest m hm => ?_,
      fun k s rest names s' _ hs hrest hpattern => .inl ?_⟩
    ⟨hsolid, fun rest hrest => ⟨t, rest, h rest hrest⟩, fun k s rest _ hs hrest => ?_⟩
  · rintro w hw rfl
    exact ht.noWord w false rfl (List.mem_cons_of_mem "async" hw)
  · obtain ⟨rfl, hafter⟩ := h.stands hs hrest
    refine arrowFunction?_none ht.noParen fun w escaped hw => ⟨?_, hafter ▸ hrest.follows.noArrow⟩
    rintro rfl
    exact ht.noWord _ escaped hw (by decide)
  · obtain ⟨rfl, -⟩ := h.stands hs hrest
    refine Token.beginsOperand_ne_mark ht.begins ?_
    simp only [List.mem_cons, List.not_mem_nil, or_false] at hm
    rcases hm with rfl | rfl | rfl | rfl | rfl | rfl <;> rfl
  · obtain ⟨rfl, rfl⟩ := h.stands hs hrest
    obtain ⟨name, hname⟩ := of_pattern hbracket hbrace hpattern
    exact (of_identifier hname).2.2.meets
  · obtain ⟨hs₁, rfl⟩ := h.stands hs hrest
    obtain ⟨s', hs'⟩ := hrest.follows.hasToken.exists_reaches s
    obtain ⟨e, he, hp⟩ := hprimary k.grammar k.setting s s' rfl hs₁ hs'
    exact ⟨e, s', he, hs'.meets, hp⟩

/-- A text in quotes begins a chain. -/
theorem readsSpine_quote (t : String) :
    ReadsSpine quiet false (Json.quote t).toList fun o e => o = false ∧ ∃ l, e = .string l t := by
  refine readsSpine_atom (solid_quote t) (fun rest _ => scanToken_quote t rest)
    ⟨rfl, by simp, by simp⟩ (by simp) (by simp) fun g c s s' _ ht hs' => ?_
  obtain ⟨l, hl⟩ := primary_string (g := g) (c := c) ht hs'
  exact ⟨_, hl, l, rfl⟩

/-- A number begins a chain. If it is made of digits, it needs something else than a point behind
it. -/
theorem readsSpine_number {c : Char} {cs : List Char} {x : Float} (hc : c.isDigit = true)
    (h : scanNumber (c :: cs) = .ok (.number x, [])) :
    ReadsSpine quiet (isDigits (c :: cs)) (c :: cs)
      fun o e => o = false ∧ ∃ l, e = .number l x := by
  have hscan : ScansBefore (isDigits (c :: cs)) (c :: cs) (.number x) := fun rest hrest =>
    scanToken_number hc h hrest.follows.word.digits hrest.noPoint
  refine readsSpine_atom (solid_of_isDigit hc cs) hscan ⟨rfl, by simp, by simp⟩ (by simp) (by simp)
    fun g c s s' _ ht hs' => ?_
  obtain ⟨l, hl⟩ := primary_number (g := g) (c := c) ht hs'
  exact ⟨_, hl, l, rfl⟩

theorem scansBefore_word {w : String} (hw : IsWord w.toList) :
    ScansBefore false w.toList (.word w false) := by
  intro rest hrest
  rw [scanToken_word hw hrest.follows.word, String.ofList_toList]

theorem readsSpine_name {w : String} (hw : IsPlainWord w) :
    ReadsSpine quiet false w.toList fun o e => o = false ∧ ∃ l, e = .name l w := by
  refine readsSpine_atom hw.word.solid (scansBefore_word hw.word) hw.isAtom (by simp) (by simp)
    fun g c s s' hyields ht hs' => ?_
  obtain ⟨l, hl⟩ := primary_name (g := g) hw hyields ht hs'
  exact ⟨_, hl, l, rfl⟩

theorem readsSpine_null :
    ReadsSpine quiet false "null".toList fun o e => o = false ∧ ∃ l, e = .null l := by
  refine readsSpine_atom (by decide : IsWord "null".toList).solid (scansBefore_word (by decide))
    (isAtom_word (by decide) (by decide)) (by simp) (by simp) fun g c s s' _ ht hs' => ?_
  obtain ⟨l, hl⟩ := primary_null (g := g) (c := c) ht hs'
  exact ⟨_, hl, l, rfl⟩

theorem readsSpine_boolean (b : Bool) :
    ReadsSpine quiet false (booleanWord b).toList fun o e => o = false ∧ ∃ l, e = .boolean l b := by
  have hw : IsWord (booleanWord b).toList := by cases b <;> decide
  refine readsSpine_atom hw.solid (scansBefore_word hw)
    (isAtom_word (by cases b <;> decide) (by cases b <;> decide)) (by simp) (by simp)
    fun g c s s' _ ht hs' => ?_
  obtain ⟨l, hl⟩ := primary_boolean (g := g) (c := c) ht hs'
  exact ⟨_, hl, l, rfl⟩

end Reader

end CommandFiles.Script
