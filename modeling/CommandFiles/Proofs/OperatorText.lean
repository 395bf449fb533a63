import CommandFiles.Proofs.LinkText

/-! # Texts of operators

Operands stand before and behind an operator with a blank on either side. What stands before one is
read as an operand, since no operator is a link, and no operator goes on with a binding. -/
namespace CommandFiles.Script

variable {quiet : Item → Prop} {text rest more : List Char} {s s₁ s₂ s' : State}

/-! ## Joints -/

/-- Whether a text is scanned as a token between two operands, with a blank behind it. -/
structure IsJoint (joint : List Char) (t : Token) : Prop where
  skips : ∀ more ended, skipTrivia .between ended (joint ++ ' ' :: more) =
    .ok (ended, joint ++ ' ' :: more)
  scans : ∀ more, ∃ after, scanToken (joint ++ ' ' :: more) = .ok (t, after)
  joins : (∃ m ∈ Mark.joining, t = .mark m) ∨ ∃ w ∈ ["in", "instanceof"], t = .word w false

namespace Reader

/-- How an operator with two operands is written. -/
def Infix.spelling : Infix → List Char
  | .binary op => op.text.toList
  | .logical op => op.text.toList

/-- The token that an operator with two operands begins with. -/
def Infix.token : Infix → Token
  | .binary .add => .mark .plus
  | .binary .subtract => .mark .minus
  | .binary .multiply => .mark .times
  | .binary .divide => .mark .slash
  | .binary .remainder => .mark .percent
  | .binary .power => .mark .power
  | .binary .equal => .mark .equal
  | .binary .notEqual => .mark .notEqual
  | .binary .identical => .mark .identical
  | .binary .notIdentical => .mark .notIdentical
  | .binary .less => .mark .less
  | .binary .lessEqual => .mark .lessEqual
  | .binary .greater | .binary .greaterEqual | .binary .shiftRight
  | .binary .shiftRightUnsigned => .mark .greater
  | .binary .shiftLeft => .mark .shiftLeft
  | .binary .bitAnd => .mark .bitAnd
  | .binary .bitOr => .mark .bitOr
  | .binary .bitXor => .mark .bitXor
  | .binary .inside => .word "in" false
  | .binary .instanceOf => .word "instanceof" false
  | .logical .or => .mark .or
  | .logical .and => .mark .and
  | .logical .coalesce => .mark .coalesce

/-- What is left of an operator behind the token it begins with. -/
def Infix.behind : Infix → List Char
  | .binary .greaterEqual => ['=']
  | .binary .shiftRight => ['>']
  | .binary .shiftRightUnsigned => ['>', '>']
  | _ => []

theorem scanToken_spelling (op : Infix) (more : List Char) :
    scanToken (op.spelling ++ ' ' :: more) = .ok (op.token, op.behind ++ ' ' :: more) := by
  rcases op with op | op <;> cases op <;> rfl

theorem isJoint_operator (op : Infix) : IsJoint op.spelling op.token := by
  refine ⟨fun more ended => ?_, fun more => ⟨_, scanToken_spelling op more⟩, ?_⟩
  · rcases op with op | op <;> cases op <;> rfl
  · rcases op with op | op <;> cases op <;>
      first
        | exact .inl ⟨_, by decide, rfl⟩
        | exact .inr ⟨_, by decide, rfl⟩

end Reader

theorem isJoint_question : IsJoint ['?'] (.mark .question) where
  skips _ _ := rfl
  scans _ := ⟨_, rfl⟩
  joins := .inl ⟨_, by decide, rfl⟩

namespace IsJoint

variable {joint : List Char} {t : Token}

/-- An operand is complete in front of what joins it to another. -/
theorem endsOperand (h : IsJoint joint t) (more : List Char) :
    EndsOperand (' ' :: (joint ++ ' ' :: more)) where
  ends := by
    obtain ⟨after, hscan⟩ := h.scans more
    exact ⟨false, _, t, after, h.skips more false, hscan,
      h.joins.imp_left fun ⟨m, hm, ht⟩ => ⟨m, List.mem_append_right _ hm, ht⟩⟩
  word := endsWord_blank _
  noPoint more' h' := by
    obtain ⟨h', -⟩ := List.cons.inj h'
    cases h'

/-- In front of a joint a state stands at the joint. -/
theorem stands (h : IsJoint joint t) (hs' : s.Meets quiet (' ' :: (joint ++ ' ' :: more)) s') :
    s'.Stands (joint ++ ' ' :: more) ∧ s'.token = t := by
  obtain ⟨_, _, _, ended, start, token, after, hskip, hscan, rfl⟩ := hs'
  obtain ⟨after', hscan'⟩ := h.scans more
  cases (h.skips more false).symm.trans hskip
  cases hscan'.symm.trans hscan
  exact ⟨⟨rfl, hscan⟩, rfl⟩

theorem barsBinding (h : IsJoint joint t) : t.BarsBinding := by
  rintro m hm rfl
  rcases h.joins with ⟨m', hm', ht⟩ | ⟨w, -, ht⟩
  · obtain rfl := Token.mark.inj ht
    have hall : ∀ m ∈ [Mark.assign, .comma, .bracketClose, .braceClose, .parenClose],
        m ∉ Mark.joining := by decide
    exact hall m hm hm'
  · cases ht

/-- Behind an operand a joint ends whatever binding the operand looks like. -/
theorem binds (h : IsJoint joint t) (hL : BindsNoMore quiet EndsOperand text) (right : List Char) :
    BindsNoMore quiet IsEnd (text ++ ' ' :: (joint ++ ' ' :: right)) := by
  have htext (rest : List Char) : text ++ ' ' :: (joint ++ ' ' :: right) ++ rest =
      text ++ ' ' :: (joint ++ ' ' :: (right ++ rest)) := by simp
  refine ⟨fun s rest hs _ => ?_, fun k s rest names s' hk hs _ hrun => .inr ?_⟩
  · rw [htext] at hs
    exact hL.opens s _ hs (h.endsOperand _)
  · rw [htext] at hs
    rcases hL.stops k s _ names s' (hk.mono (by simp)) hs (h.endsOperand _) hrun with h' | hbars
    · rw [(h.stands h').2]
      exact h.barsBinding
    · exact hbars

end IsJoint

namespace Reader

/-- In front of an operator that operator is found, and what stands behind it. -/
theorem infixOp?_spelling (op : Infix) (hs : s.Stands (op.spelling ++ ' ' :: more)) {c : Setting}
    (hc : c.inOperator = true) : ∃ own, 0 < own ∧ infixOp? c s = some (op, own, ' ' :: more) := by
  obtain ⟨ht, hafter⟩ :=
    Prod.mk.inj (Except.ok.inj (hs.scanned.symm.trans (scanToken_spelling op more)))
  have hstart := hs.start
  unfold infixOp?
  rw [ht, hstart, hafter, hc]
  rcases op with op | op <;> cases op <;> exact ⟨_, by decide, rfl⟩

/-! ## Operators with two operands -/

variable {c : Setting} {g : Grammar} {L R : List Char} {p q : Expr → Prop}

/-- Whether no operator stands in an expression outside parentheses. -/
def IsTight (e : Expr) : Prop := isUnary e = false ∧ isOrAnd e = false ∧ isCoalesce e = false

/-- The expression that an operator makes of two others. -/
def Infix.node (l : Nat) (left right : Expr) : Infix → Expr
  | .binary op => .binary l op left right
  | .logical op => .logical l op left right

/-- An operator between two operands is read with them, where nothing goes on behind. -/
theorem binary_of_operator {k : Site} {op : Infix} {own : Nat} {a b : Expr}
    (hleft : unary g k.setting s = .ok (a, s₁)) (hfuel : 1 < k.fuel)
    (hop : infixOp? k.setting s₁ = some (op, own, more)) (hown : 0 < own)
    (h₂ : s₁.Reaches more s₂)
    (hright : ∀ level, g.binary level k.setting s₂ = .ok (b, s')) (ha : IsTight a) (hb : IsTight b)
    (hend : infixOp? k.setting s' = none) :
    ∃ l, binary g 0 k.setting s = .ok (op.node l a b, s') := by
  obtain ⟨n, hn⟩ : ∃ n, k.setting.fuel = n + 2 := ⟨k.fuel - 2, by change k.fuel = _; omega⟩
  have htyped : k.setting.typed = false := rfl
  obtain ⟨as, has⟩ := exists_run_atWord (c := k.setting) (s := s₁) "as"
  obtain ⟨sat, hsat⟩ := exists_run_atWord (c := k.setting) (s := s₁) "satisfies"
  obtain ⟨as', has'⟩ := exists_run_atWord (c := k.setting) (s := s') "as"
  obtain ⟨sat', hsat'⟩ := exists_run_atWord (c := k.setting) (s := s') "satisfies"
  refine ⟨k.setting.lineFeeds - s.start.count '\n' + 1, ?_⟩
  unfold binary
  simp only [run_bind, run_line, bind_ok, hleft, run_loop, hn, repeatUpTo, run_get, run_read, htyped,
    has, hsat, run_ite, Bool.false_and, Bool.false_eq_true, if_false, hop, hown, if_true,
    run_resume h₂]
  rcases op with op | op
  · cases op <;>
      simp only [ha.1, run_bind, hright, bind_ok, run_pure, run_get, run_read, htyped, has', hsat',
        hend, Infix.node, Bool.false_and, Bool.false_eq_true, if_false]
  · cases op <;>
      simp only [ha.2.1, ha.2.2, hb.2.1, hb.2.2, Bool.or_self, run_bind, hright, bind_ok, run_pure,
        run_get, run_read, htyped, has', hsat', hend, Infix.node, Bool.false_and,
        Bool.false_eq_true, if_false]

/-- Operands with what joins them between them. -/
def joined (joint left right : List Char) : List Char := left ++ ' ' :: (joint ++ ' ' :: right)

theorem joined_append (joint left right rest : List Char) :
    joined joint left right ++ rest = left ++ ' ' :: (joint ++ ' ' :: (right ++ rest)) := by
  simp [joined]

theorem length_joined (joint left right : List Char) :
    left.length + right.length + 2 ≤ (joined joint left right).length := by
  simp only [joined, List.length_append, List.length_cons]
  omega

variable {left right : List Char}

/-- What is made of an operand and something behind it is an expression where it is read as one
without functions and assignments. -/
theorem readsFully_of_conditional {joint : List Char} {t : Token} {r : Expr → Prop}
    (hjoint : IsJoint joint t) (hL : ReadsOperand quiet left p)
    (h : ∀ (k : Site) (s : State) (rest : List Char), k.Fits (joined joint left right) →
      s.Stands (joined joint left right ++ rest) → IsEnd rest →
      ∃ e s', conditional k.grammar k.setting s = .ok (e, s') ∧ s.Meets quiet rest s' ∧ r e) :
    ReadsFully quiet (joined joint left right) r where
  whole := {
    solid := hL.leftHand.solid.append _
    scans := fun rest _ => by
      rw [joined_append]
      exact hL.leftHand.scans _ (hjoint.endsOperand _)
    reads := fun k s rest hk hs hrest => by
      obtain ⟨e, s', he, hs', hr⟩ := h k s rest hk hs hrest
      rw [joined_append] at hs
      have hlength := length_joined joint left right
      have hfunction := hL.noFunction k s _ (hk.mono (by omega)) hs (hjoint.endsOperand _)
      exact ⟨e, s', assignment_of_conditional hfunction he
        (assignmentOp?_of_closes (hrest.closes_of_move hs')), hs', hr⟩ }
  binds := hjoint.binds hL.binds right

/-- **An operator between two operands is an expression of them.** -/
theorem readsFully_operator (op : Infix) (hL : ReadsOperand quiet left p)
    (hR : ReadsOperand quiet right q) (hp : ∀ e, p e → IsTight e) (hq : ∀ e, q e → IsTight e) :
    ReadsFully quiet (joined op.spelling left right) fun e =>
      ∃ l a b, e = op.node l a b ∧ p a ∧ q b := by
  refine readsFully_of_conditional (isJoint_operator op) hL fun k s rest hk hs hrest => ?_
  have hlength := length_joined op.spelling left right
  have hdepth := hk.depth
  have hfuel := hk.fuel
  rw [joined_append] at hs
  obtain ⟨a, s₁, ha, h₁, hpa⟩ :=
    hL.unary.reads k s _ (hk.mono (by omega)) hs ((isJoint_operator op).endsOperand _)
  obtain ⟨hs₁, -⟩ := (isJoint_operator op).stands h₁
  obtain ⟨own, hown, hop⟩ := infixOp?_spelling op hs₁ (c := k.setting) rfl
  obtain ⟨s₂, h₂, hs₂⟩ := hR.unary.exists_reaches isGap_blank hrest.endsOperand s₁
  obtain ⟨b, s₃, hb, h₃, hqb⟩ := hR.unary.reads (k.down 1) s₂ rest
    (hk.down (by omega) (by decide)) hs₂ hrest.endsOperand
  have hcloses := hrest.closes_of_move h₃
  have hright (level : Nat) : k.grammar.binary level k.setting s₂ = .ok (b, s₃) := by
    rw [Site.binary_eq (by omega)]
    exact binary_of_unary hb (by omega) (infixOp?_of_closes hcloses)
  obtain ⟨l, hl⟩ := binary_of_operator ha (by omega) hop hown h₂ hright (hp a hpa) (hq b hqb)
    (infixOp?_of_closes hcloses)
  exact ⟨_, s₃, conditional_of_binary hl (Closes.ne_mark hcloses (by decide)),
    (h₁.trans h₂.meets).trans h₃, l, a, b, rfl, hpa, hqb⟩

/-- A choice between two operands. -/
def chosen (test yes no : List Char) : List Char :=
  joined ['?'] test (yes ++ ' ' :: ':' :: ' ' :: no)

/-- **A choice between two operands is an expression of them and the test.** -/
theorem readsFully_conditional {test yes no : List Char} {p q r : Expr → Prop}
    (hT : ReadsOperand quiet test p) (hY : ReadsWhole quiet yes q) (hN : ReadsWhole quiet no r) :
    ReadsFully quiet (chosen test yes no) fun e =>
      ∃ l a b c, e = .conditional l a b c ∧ p a ∧ q b ∧ r c := by
  have hcolon : (':', Mark.colon) ∈ closers := by decide
  refine readsFully_of_conditional isJoint_question hT fun k s rest hk hs hrest => ?_
  have hlength := length_joined ['?'] test (yes ++ ' ' :: ':' :: ' ' :: no)
  rw [List.length_append, List.length_cons, List.length_cons, List.length_cons] at hlength
  have hfuel := hk.fuel
  rw [joined_append, List.append_assoc] at hs
  obtain ⟨a, s₁, ha, h₁, hpa⟩ :=
    hT.unary.reads k s _ (hk.mono (by omega)) hs (isJoint_question.endsOperand _)
  obtain ⟨hs₁, ht₁⟩ := isJoint_question.stands h₁
  have hafter₁ := (Prod.mk.inj (Except.ok.inj (hs₁.scanned.symm.trans rfl))).2
  have hquestion : infixOp? k.setting s₁ = none := by
    unfold infixOp?
    rw [ht₁]
    rfl
  -- types may not be given for what a function returns in front of the colon
  have hk' : Site.Fits { k with returnTypes := false }
      (joined ['?'] test (yes ++ ' ' :: ':' :: ' ' :: no)) := ⟨hk.depth, hk.fuel⟩
  have hend : IsEnd (' ' :: ':' :: ' ' :: (no ++ rest)) := isEnd_closer hcolon isGap_blank _
  obtain ⟨s₂, h₂, hs₂⟩ := hY.exists_reaches isGap_blank hend s₁
  obtain ⟨b, s₃, hb, h₃, hqb⟩ := hY.run_assignment hk' (by omega) hs₂ hend
  obtain ⟨ht₃, hafter₃⟩ := IsMove.closer hcolon isGap_blank h₃
  obtain ⟨s₄, h₄, hs₄⟩ := hN.exists_reaches isGap_blank hrest s₃
  obtain ⟨e, s₅, he, h₅, hre⟩ := hN.run_assignment hk (by omega) hs₄ hrest
  have hbinary : binary k.grammar 0 k.setting s = .ok (a, s₁) :=
    binary_of_unary ha (by omega) hquestion
  have hunder : under (fun c => { c with inOperator := true, returnTypes := false })
      k.grammar.assignment k.setting s₂ = .ok (b, s₃) := hb
  refine ⟨.conditional (k.setting.lineFeeds - s.start.count '\n' + 1) a b e, s₅, ?_,
    (((h₁.trans h₂.meets).trans h₃).trans h₄.meets).trans h₅, _, a, b, e, rfl, hpa, hqb, hre⟩
  unfold conditional
  simp only [run_bind, run_line, bind_ok, hbinary, run_skipMark ht₁ hafter₁ h₂, if_true, hunder,
    run_expectMark ht₃ hafter₃ h₄, he, run_pure]

/-! ## Operators with one operand -/

/-- A sign or an equals sign begins no operand. -/
theorem beginsOperand_of_sign {d : Char} (hd : d ∈ ['-', '+', '=']) {more after : List Char}
    {t : Token} (hscan : scanToken (d :: more) = .ok (t, after)) : t.beginsOperand = false := by
  have hnil : ∀ p ∈ Mark.spellings, p.1 ≠ [] := by decide
  obtain ⟨⟨hfirst, hdigit, hstart⟩, hspelling⟩ : (d ∉ ['`', '#', '.', '"', '\'', '\\'] ∧
      d.isDigit = false ∧ Text.isIdentifierStart d = false) ∧
      ∀ p ∈ Mark.spellings, p.1.head? = some d →
        p.2 ∉ [Mark.bracketOpen, .braceOpen, .parenOpen] ∧ p.2 ≠ .questionDot := by
    simp only [List.mem_cons, List.not_mem_nil, or_false] at hd
    rcases hd with rfl | rfl | rfl <;> decide
  rw [scanToken_eq_scanMark hfirst hdigit hstart] at hscan
  unfold scanMark at hscan
  cases hfound : Mark.spellings.findSome? fun p =>
      (dropStart? p.1 (d :: more)).map fun rest => (p.2, rest) with
  | none =>
    simp only [hfound] at hscan
    cases hscan
  | some found =>
    obtain ⟨⟨spelling, m⟩, hmem, hdrop⟩ := List.exists_of_findSome?_eq_some hfound
    have hhead : spelling.head? = some d := by
      cases spelling with
      | nil => exact absurd rfl (hnil _ hmem)
      | cons d' more' =>
        simp only [dropStart?] at hdrop
        split at hdrop
        · rename_i heq
          rw [beq_iff_eq] at heq
          rw [heq, List.head?_cons]
        · cases hdrop
    obtain ⟨hm, hquestion⟩ := hspelling _ hmem hhead
    obtain ⟨rest, -, rfl⟩ := Option.map_eq_some_iff.mp hdrop
    simp only [hfound] at hscan
    have ht : t = .mark m := by
      cases m <;> first | exact absurd rfl hquestion | (cases hscan; rfl)
    rw [ht, Token.beginsOperand]
    simpa using hm

/-- The token that an operator with one operand is. -/
def unaryToken : UnaryOp → Token
  | .negate => .mark .minus
  | .plus => .mark .plus
  | .not => .mark .bang
  | .bitNot => .mark .tilde
  | .typeOf => .word "typeof" false
  | .void => .word "void" false
  | .delete => .word "delete" false

theorem unaryOp?_unaryToken (op : UnaryOp) : unaryOp? (unaryToken op) = some op := by
  cases op <;> rfl

/-- What stands between an operator and its operand. -/
def unaryGap (op : UnaryOp) : List Char := if op.isWord then [' '] else []

theorem isGap_unaryGap (op : UnaryOp) : IsGap (unaryGap op) := by
  cases op <;> decide

/-- An operator with one operand, and the operand. -/
def unaryText (op : UnaryOp) (operand : List Char) : List Char :=
  op.text.toList ++ (unaryGap op ++ operand)

theorem scanToken_unaryText (op : UnaryOp) {c : Char} (hc : c ∉ ['-', '+', '=']) :
    scanToken (unaryText op (c :: more)) = .ok (unaryToken op, unaryGap op ++ c :: more) := by
  simp only [List.mem_cons, List.not_mem_nil, or_false, not_or] at hc
  obtain ⟨hminus, hplus, hequals⟩ := hc
  have hmark {d : Char} {m : Mark} (hd : d ∉ ['`', '#', '.', '"', '\'', '\\'])
      (hdigit : d.isDigit = false) (hstart : Text.isIdentifierStart d = false)
      (hscan : scanMark (d :: c :: more) = .ok (.mark m, c :: more)) :
      scanToken (d :: c :: more) = .ok (.mark m, c :: more) := by
    rw [scanToken_eq_scanMark hd hdigit hstart, hscan]
  have hword {w : String} (hw : IsWord w.toList) :
      scanToken (w.toList ++ ' ' :: c :: more) = .ok (.word w false, ' ' :: c :: more) := by
    rw [scanToken_word hw (endsWord_blank _), String.ofList_toList]
  cases op with
  | negate =>
    refine hmark (d := '-') (m := .minus) (by decide) (by decide) (by decide) ?_
    simp [scanMark, Mark.spellings, dropStart?, Ne.symm hminus, Ne.symm hequals]
  | plus =>
    refine hmark (d := '+') (m := .plus) (by decide) (by decide) (by decide) ?_
    simp [scanMark, Mark.spellings, dropStart?, Ne.symm hplus, Ne.symm hequals]
  | not =>
    refine hmark (d := '!') (m := .bang) (by decide) (by decide) (by decide) ?_
    simp [scanMark, Mark.spellings, dropStart?, Ne.symm hequals]
  | bitNot =>
    refine hmark (d := '~') (m := .tilde) (by decide) (by decide) (by decide) ?_
    simp [scanMark, Mark.spellings, dropStart?]
  | typeOf => exact hword (w := "typeof") (by decide)
  | void => exact hword (w := "void") (by decide)
  | delete => exact hword (w := "delete") (by decide)

/-- **An operator before an operand is an expression of it.** -/
theorem readsFully_unary (op : UnaryOp) (h : ReadsOperand quiet text p) :
    ReadsFully quiet (unaryText op text) fun e => ∃ l e', e = .unary l op e' ∧ p e' := by
  have htext (rest : List Char) : unaryText op text ++ rest = unaryText op (text ++ rest) := by
    simp [unaryText]
  have hlength : text.length < (unaryText op text).length := by
    have hop : 0 < op.text.toList.length := by cases op <;> decide
    simp only [unaryText, List.length_append]
    omega
  have hscan {rest : List Char} (hrest : IsEnd rest) : scanToken (unaryText op text ++ rest) =
      .ok (unaryToken op, unaryGap op ++ (text ++ rest)) := by
    obtain ⟨t, after, hscan⟩ := h.leftHand.scans rest hrest.endsOperand
    have hbegins := h.begins ⟨t, false, text ++ rest, after, [], [], [], [], [], [], []⟩ rest
      ⟨rfl, hscan⟩ hrest.endsOperand
    obtain ⟨c, more, hcons, -⟩ := h.leftHand.solid
    rw [htext]
    rw [hcons, List.cons_append] at hscan ⊢
    refine scanToken_unaryText op fun hc => ?_
    rw [beginsOperand_of_sign hc hscan] at hbegins
    cases hbegins
  have hmark {m : Mark} (hm : unaryToken op = .mark m) :
      m ∈ [Mark.minus, .plus, .bang, .tilde] := by
    cases op <;> cases hm <;> decide
  refine ⟨readsWhole_of_unary ⟨?_, fun rest hrest => ⟨_, _, hscan hrest⟩,
    fun k s rest hk hs hrest => ?_⟩ fun k s rest hk hs hrest => ?_,
    bindsNoMore_of_token (fun rest hrest => ⟨_, hscan hrest⟩) (fun w escaped hw => ?_)
      fun m hm ht => ?_⟩
  · cases op <;> exact ⟨_, _, rfl, by decide, by decide, by decide⟩
  · obtain ⟨ht, hafter⟩ := Prod.mk.inj (Except.ok.inj (hs.scanned.symm.trans (hscan hrest)))
    obtain ⟨s₁, h₁, hs₁⟩ := h.unary.exists_reaches (isGap_unaryGap op) hrest.endsOperand s
    obtain ⟨e, s', he, hs', hp⟩ := h.unary.reads (k.down 1) s₁ rest (hk.down hlength (by decide))
      hs₁ hrest.endsOperand
    refine ⟨.unary (k.setting.lineFeeds - s.start.count '\n' + 1) op e, s', ?_,
      h₁.meets.trans hs', _, e, rfl, hp⟩
    have hdeeper : k.grammar.unary k.setting s₁ = .ok (e, s') := by
      have hdepth := hk.depth
      rw [Site.unary_eq (by omega)]
      exact he
    have hstep : ¬ IsStep s.token := by
      rintro (hstep | hstep)
      · exact absurd (hmark (ht.symm.trans hstep)) (by decide)
      · exact absurd (hmark (ht.symm.trans hstep)) (by decide)
    unfold unary
    simp only [run_bind, run_line, bind_ok, run_get, run_atStep hstep, Bool.false_eq_true, if_false,
      ht, unaryOp?_unaryToken, run_advance hafter h₁, hdeeper, run_pure]
  · obtain ⟨ht, hafter⟩ := Prod.mk.inj (Except.ok.inj (hs.scanned.symm.trans (hscan hrest)))
    refine arrowFunction?_none (fun hparen => ?_) fun w escaped hw => ⟨?_, ?_⟩
    · exact absurd (hmark (ht.symm.trans hparen)) (by decide)
    · rintro rfl
      rw [ht] at hw
      cases op <;> simp [unaryToken] at hw
    · obtain ⟨s₁, h₁, hs₁⟩ := h.unary.exists_reaches (isGap_unaryGap op) hrest.endsOperand s
      have hbegins := h.begins s₁ rest hs₁ hrest.endsOperand
      rw [← h₁.peek, ← hafter] at hbegins
      unfold Peek.isMark
      split
      · rename_i m hm
        rw [hm] at hbegins
        cases m <;> first | rfl | cases hbegins
      · rfl
  · cases op <;> cases hw <;> decide
  · have hall : ∀ m ∈ [Mark.minus, .plus, .bang, .tilde], m ∉ [Mark.decorator, .ellipsis, .comma,
        .bracketClose, .braceClose, .parenClose] ++ [.bracketOpen, .braceOpen] := by decide
    exact hall m (hmark ht) hm

end Reader

end CommandFiles.Script
