import CommandFiles.Script.Reader.Module
import CommandFiles.Script.Walk

/-! # Runs of readers

How a reader goes on from a state is computed step by step. A state stands at a text once its first
token has been scanned; going on to a later text changes the place and nothing that was collected.
An expression ends where a closing mark comes next: none of the rules that could make it longer
takes such a mark. -/
namespace CommandFiles.Script

/-- The setting of a text without types and markup, outside generators. -/
def Setting.plain (lineFeeds fuel : Nat) (awaits returnTypes : Bool) : Setting :=
  { typed := false, markup := false, lineFeeds, fuel, awaits, returnTypes }

/-- Whether the first token of a text has been scanned, with nothing to skip before it. -/
structure State.Stands (s : State) (text : List Char) : Prop where
  start : s.start = text
  scanned : scanToken text = .ok (s.token, s.after)

/-- A state that has gone on to a text, and has collected nothing on the way. -/
def State.Reaches (s : State) (rest : List Char) (s' : State) : Prop :=
  ∃ ended start token after, skipTrivia .between false rest = .ok (ended, start) ∧
    scanToken start = .ok (token, after) ∧
    s' = { s with token, lineEnded := ended, start, after, last := rest }

theorem State.Reaches.collected {s s' : State} {rest : List Char} (h : s.Reaches rest s') :
    s'.items = s.items ∧ s'.defaults = s.defaults ∧ s'.exports = s.exports := by
  obtain ⟨_, _, _, _, _, _, rfl⟩ := h
  exact ⟨rfl, rfl, rfl⟩

/-- Whether no default export is visited in an item. -/
def Item.Quiet (i : Item) : Prop :=
  ∀ scopes, ∀ v ∈ visitsOfItem scopes i, ∀ d, v.node ≠ .exportedDefault d

theorem not_mem_visits {items : List Item} (h : ∀ i ∈ items, i.Quiet) (scopes : List (List String))
    {v : Visit} (hv : v ∈ visitsOfItems scopes items) (d : DefaultExport) :
    v.node ≠ .exportedDefault d := by
  induction items with
  | nil => cases hv
  | cons i rest ih =>
    rw [visitsOfItems] at hv
    rcases List.mem_append.mp hv with hv | hv
    · exact h i List.mem_cons_self scopes v hv d
    · exact ih (fun j hj => h j (List.mem_cons_of_mem i hj)) hv

/-- A state that has read something and gone on to the text behind it. Items of a kind may have been
collected on the way. -/
def State.Meets (quiet : Item → Prop) (s : State) (rest : List Char) (s' : State) : Prop :=
  ∃ items places, (∀ i ∈ items, quiet i) ∧
    State.Reaches { s with items := items ++ s.items, restCommas := places } rest s'

theorem State.Reaches.meets {quiet : Item → Prop} {s s' : State} {rest : List Char}
    (h : s.Reaches rest s') : s.Meets quiet rest s' :=
  ⟨[], s.restCommas, by simp, h⟩

theorem State.Meets.trans {quiet : Item → Prop} {s s₁ s₂ : State} {rest more : List Char}
    (h : s.Meets quiet rest s₁) (h' : s₁.Meets quiet more s₂) : s.Meets quiet more s₂ := by
  obtain ⟨items, places, hitems, _, _, _, _, _, _, rfl⟩ := h
  obtain ⟨items', places', hitems', ended, start, token, after, hskip, hscan, rfl⟩ := h'
  refine ⟨items' ++ items, places', ?_, ended, start, token, after, hskip, hscan, ?_⟩
  · intro i hi
    rcases List.mem_append.mp hi with hi | hi
    · exact hitems' i hi
    · exact hitems i hi
  · simp only [List.append_assoc]

/-- A state that has read something and gone on to the text behind it. The scopes of functions may
have been collected on the way, but no default export. -/
def State.Passes (s : State) (rest : List Char) (s' : State) : Prop :=
  ∃ items places, (∀ i ∈ items, i.Quiet) ∧
    State.Reaches { s with items := items ++ s.items, restCommas := places } rest s'

theorem State.Reaches.passes {s s' : State} {rest : List Char} (h : s.Reaches rest s') :
    s.Passes rest s' := h.meets

theorem State.Passes.trans {s s₁ s₂ : State} {rest more : List Char} (h : s.Passes rest s₁)
    (h' : s₁.Passes more s₂) : s.Passes more s₂ := State.Meets.trans h h'

/-- The marks behind an expression that is complete. -/
def Mark.closing : List Mark :=
  [.comma, .bracketClose, .braceClose, .parenClose, .colon, .semicolon]

/-- Whether a token is a mark behind which an expression is complete. -/
def Token.Closes (t : Token) : Prop := ∃ m ∈ Mark.closing, t = .mark m

/-- Whether an expression without operators can begin with a token. -/
def Token.beginsOperand : Token → Bool
  | .string _ | .number _ | .piece _ _ => true
  | .mark m => [.bracketOpen, .braceOpen, .parenOpen].contains m
  | .word w _ => !(["typeof", "void", "delete", "await"].contains w)
  | _ => false

theorem Token.beginsOperand_ne_mark {t : Token} (h : t.beginsOperand = true) {m : Mark}
    (hm : [Mark.bracketOpen, .braceOpen, .parenOpen].contains m = false) : t ≠ .mark m := by
  rintro rfl
  rw [Token.beginsOperand, hm] at h
  cases h

theorem Token.beginsOperand_ne_word {t : Token} (h : t.beginsOperand = true) {w : String}
    (hw : ["typeof", "void", "delete", "await"].contains w = true) {escaped : Bool} :
    t ≠ .word w escaped := by
  rintro rfl
  rw [Token.beginsOperand, hw] at h
  cases h

namespace Reader

variable {α β : Type} {c : Setting} {s s' : State}

/-! ## Steps -/

theorem run_bind (r : Reader α) (f : α → Reader β) :
    (r >>= f) c s = (r c s).bind fun p => f p.1 c p.2 := rfl

theorem run_pure (a : α) : (pure a : Reader α) c s = .ok (a, s) := rfl

theorem run_map (f : α → β) (r : Reader α) :
    (f <$> r) c s = (r c s).bind fun p => .ok (f p.1, p.2) := by
  change (r c s).bind _ = _
  cases r c s <;> rfl

theorem run_discard (r : Reader α) :
    (discard r) c s = (r c s).bind fun p => .ok ((), p.2) := run_map _ r

theorem run_get : (get : Reader State) c s = .ok (s, s) := rfl

theorem run_read : (read : Reader Setting) c s = .ok (c, s) := rfl

theorem run_set (t : State) : (set t : Reader Unit) c s = .ok ((), t) := rfl

theorem run_modify (f : State → State) : (modify f : Reader Unit) c s = .ok ((), f s) := rfl

theorem run_under (f : Setting → Setting) (r : Reader α) : under f r c s = r (f c) s := rfl

theorem run_ite (p : Prop) [Decidable p] (x y : Reader α) :
    (if p then x else y) c s = if p then x c s else y c s := by
  split <;> rfl

theorem bind_ok {ε : Type} (a : α) (f : α → Except ε β) :
    (Except.ok a : Except ε α).bind f = f a := rfl

theorem bind_error {ε : Type} (e : ε) (f : α → Except ε β) :
    (Except.error e : Except ε α).bind f = .error e := rfl

theorem run_line : line c s = .ok (c.lineFeeds - s.start.count '\n' + 1, s) := rfl

theorem run_atMark {m : Mark} (h : s.token = .mark m) : atMark m c s = .ok (true, s) := by
  simp [atMark, h]

theorem run_atMark_other {m : Mark} (h : s.token ≠ .mark m) : atMark m c s = .ok (false, s) := by
  unfold atMark
  split
  · rename_i m' ht
    have hne : ¬ m = m' := fun hm => h (hm ▸ ht)
    simp [hne]
  · rfl

theorem run_atWord {w : String} (h : s.token = .word w false) :
    atWord w c s = .ok (true, s) := by
  simp [atWord, h]

theorem run_atWord_other {w : String} (h : s.token ≠ .word w false) :
    atWord w c s = .ok (false, s) := by
  unfold atWord
  split
  · rename_i w' escaped ht
    have hne : ¬ (w = w' ∧ escaped = false) := fun ⟨hw, he⟩ => h (by rw [ht, hw, he])
    simpa using hne
  · rfl

theorem run_skipMark_other {m : Mark} (h : s.token ≠ .mark m) :
    skipMark m c s = .ok (false, s) := by
  unfold skipMark
  simp only [run_bind, run_atMark_other h, bind_ok, Bool.false_eq_true, if_false, run_pure]

theorem run_skipWord_other {w : String} (h : s.token ≠ .word w false) :
    skipWord w c s = .ok (false, s) := by
  unfold skipWord
  simp only [run_bind, run_atWord_other h, bind_ok, Bool.false_eq_true, if_false, run_pure]

theorem run_peek : peek c s = .ok (Peek.ofText s.after, s) := rfl

theorem run_loop (a : α) (step : α → Reader (α ⊕ β)) :
    loop a step c s = repeatUpTo step c.fuel a c s := rfl

/-- Whether a token changes a variable by one. -/
def IsStep (t : Token) : Prop := t = .mark .increment ∨ t = .mark .decrement

variable {g : Grammar} {e : Expr} {lineFeeds fuel : Nat} {awaits returnTypes : Bool}

theorem run_atStep (h : ¬ IsStep s.token) : atStep c s = .ok (false, s) := by
  simp only [IsStep, not_or] at h
  unfold atStep
  simp only [run_bind, run_atMark_other h.1, run_atMark_other h.2, bind_ok, run_pure, Bool.or_self]

theorem unaryOp?_of_beginsOperand {t : Token} (h : t.beginsOperand = true) : unaryOp? t = none := by
  unfold unaryOp?
  split
  · exact absurd rfl (Token.beginsOperand_ne_mark h rfl)
  · exact absurd rfl (Token.beginsOperand_ne_mark h rfl)
  · exact absurd rfl (Token.beginsOperand_ne_mark h rfl)
  · exact absurd rfl (Token.beginsOperand_ne_mark h rfl)
  · exact absurd rfl (Token.beginsOperand_ne_word h (by decide))
  · exact absurd rfl (Token.beginsOperand_ne_word h (by decide))
  · exact absurd rfl (Token.beginsOperand_ne_word h (by decide))
  · rfl

theorem unary_of_leftHand (hs : s.token.beginsOperand = true)
    (h : leftHand g (.plain lineFeeds fuel awaits returnTypes) s = .ok (e, s'))
    (hs' : ¬ IsStep s'.token) :
    unary g (.plain lineFeeds fuel awaits returnTypes) s = .ok (e, s') := by
  have hstep : ¬ IsStep s.token := by
    rintro (ht | ht)
    · exact Token.beginsOperand_ne_mark hs rfl ht
    · exact Token.beginsOperand_ne_mark hs rfl ht
  have hless : s.token ≠ .mark .less := Token.beginsOperand_ne_mark hs rfl
  have hawait : s.token ≠ .word "await" false := Token.beginsOperand_ne_word hs (by decide)
  unfold unary
  simp only [run_bind, run_line, bind_ok, run_get, run_atStep hstep, Bool.false_eq_true, if_false,
    unaryOp?_of_beginsOperand hs, run_read, run_atWord_other hawait, run_ite, Bool.and_false]
  cases ht : s.token with
  | privateWord w => rw [ht] at hs; cases hs
  | _ =>
    simp only [run_bind, run_atMark_other hless, bind_ok, run_read, Bool.false_and, run_ite,
      Bool.false_eq_true, if_false, h, run_atStep hs', run_get, run_pure]

theorem exists_run_atWord (w : String) : ∃ b, atWord w c s = .ok (b, s) := ⟨_, rfl⟩

theorem binary_of_unary {level : Nat}
    (h : unary g (.plain lineFeeds fuel awaits returnTypes) s = .ok (e, s'))
    (hf : 0 < fuel) (hop : infixOp? (.plain lineFeeds fuel awaits returnTypes) s' = none) :
    binary g level (.plain lineFeeds fuel awaits returnTypes) s = .ok (e, s') := by
  obtain ⟨k, rfl⟩ : ∃ k, fuel = k + 1 := ⟨fuel - 1, by omega⟩
  have htyped : (Setting.plain lineFeeds (k + 1) awaits returnTypes).typed = false := rfl
  have hfuel : (Setting.plain lineFeeds (k + 1) awaits returnTypes).fuel = k + 1 := rfl
  obtain ⟨as, has⟩ :=
    exists_run_atWord (c := .plain lineFeeds (k + 1) awaits returnTypes) (s := s') "as"
  obtain ⟨sat, hsat⟩ :=
    exists_run_atWord (c := .plain lineFeeds (k + 1) awaits returnTypes) (s := s') "satisfies"
  unfold binary
  simp only [run_bind, run_line, bind_ok, h, run_loop, hfuel, repeatUpTo, run_get, run_read, htyped,
    has, hsat, run_ite, Bool.false_and, Bool.false_eq_true, if_false, hop, run_pure]

theorem conditional_of_binary (h : binary g 0 c s = .ok (e, s'))
    (hs' : s'.token ≠ .mark .question) : conditional g c s = .ok (e, s') := by
  unfold conditional
  simp only [run_bind, run_line, bind_ok, h, run_skipMark_other hs', run_ite, Bool.false_eq_true,
    if_false, run_pure]

theorem assignment_of_conditional
    (harrow : arrowFunction? g (.plain lineFeeds fuel awaits returnTypes) s = .ok (none, s))
    (h : conditional g (.plain lineFeeds fuel awaits returnTypes) s = .ok (e, s'))
    (hop : assignmentOp? s' = none) :
    assignment g (.plain lineFeeds fuel awaits returnTypes) s = .ok (e, s') := by
  have hyields : (Setting.plain lineFeeds fuel awaits returnTypes).yields = false := rfl
  obtain ⟨y, hy⟩ :=
    exists_run_atWord (c := .plain lineFeeds fuel awaits returnTypes) (s := s) "yield"
  unfold assignment
  simp only [run_bind, run_line, bind_ok, run_read, hyields, hy, Bool.false_and, run_ite,
    Bool.false_eq_true, if_false, harrow, run_get, h, hop, run_pure]

/-! ## Going on -/

theorem run_resume {rest : List Char} (h : s.Reaches rest s') : resume rest c s = .ok ((), s') := by
  obtain ⟨ended, start, token, after, hskip, hscan, rfl⟩ := h
  unfold resume
  rw [hskip]
  change (scanToken start).map _ = _
  rw [hscan]
  rfl

theorem run_advance {rest : List Char} (hafter : s.after = rest) (h : s.Reaches rest s') :
    advance c s = .ok ((), s') := by
  unfold advance
  rw [hafter]
  exact run_resume h

theorem run_skipMark {m : Mark} {rest : List Char} (ht : s.token = .mark m)
    (hafter : s.after = rest) (h : s.Reaches rest s') : skipMark m c s = .ok (true, s') := by
  unfold skipMark
  simp only [run_bind, run_atMark ht, bind_ok, if_true, run_advance hafter h, run_pure]

theorem run_expectMark {m : Mark} {rest : List Char} (ht : s.token = .mark m)
    (hafter : s.after = rest) (h : s.Reaches rest s') : expectMark m c s = .ok ((), s') := by
  unfold expectMark
  simp only [run_bind, run_skipMark ht hafter h, bind_ok, if_true, run_pure]

theorem run_skipWord {w : String} {rest : List Char} (ht : s.token = .word w false)
    (hafter : s.after = rest) (h : s.Reaches rest s') : skipWord w c s = .ok (true, s') := by
  unfold skipWord
  simp only [run_bind, run_atWord ht, bind_ok, if_true, run_advance hafter h, run_pure]

theorem run_expectWord {w : String} {rest : List Char} (ht : s.token = .word w false)
    (hafter : s.after = rest) (h : s.Reaches rest s') : expectWord w c s = .ok ((), s') := by
  unfold expectWord
  simp only [run_bind, run_skipWord ht hafter h, bind_ok, if_true, run_pure]

/-! ## Closing marks end an expression -/

theorem link?_of_closes (h : s.token.Closes) (g : Grammar) (calls : Bool) (start : List Char)
    (l : Nat) (chain : Chain) : link? g calls start l chain c s = .ok (none, s) := by
  obtain ⟨m, hm, ht⟩ := h
  unfold link?
  simp only [run_bind, run_get, bind_ok, ht]
  simp only [Mark.closing, List.mem_cons, List.not_mem_nil, or_false] at hm
  rcases hm with rfl | rfl | rfl | rfl | rfl | rfl <;> rfl

theorem infixOp?_of_closes (h : s.token.Closes) : infixOp? c s = none := by
  obtain ⟨m, hm, ht⟩ := h
  unfold infixOp?
  rw [ht]
  simp only [Mark.closing, List.mem_cons, List.not_mem_nil, or_false] at hm
  rcases hm with rfl | rfl | rfl | rfl | rfl | rfl <;> rfl

theorem assignmentOp?_of_closes (h : s.token.Closes) : assignmentOp? s = none := by
  obtain ⟨m, hm, ht⟩ := h
  unfold assignmentOp?
  rw [ht]
  simp only [Mark.closing, List.mem_cons, List.not_mem_nil, or_false] at hm
  rcases hm with rfl | rfl | rfl | rfl | rfl | rfl <;> rfl

theorem Closes.ne_mark {t : Token} (h : t.Closes) {m : Mark} (hm : m ∉ Mark.closing) :
    t ≠ .mark m := by
  obtain ⟨m', hm', rfl⟩ := h
  intro ht
  cases ht
  exact hm hm'

theorem not_isStep_of_closes {t : Token} (h : t.Closes) : ¬ IsStep t := by
  rintro (ht | ht)
  · exact Closes.ne_mark h (by decide) ht
  · exact Closes.ne_mark h (by decide) ht

theorem run_atArrowTypes :
    atArrowTypes (.plain lineFeeds fuel awaits returnTypes) s = .ok (false, s) := by
  have htyped : (Setting.plain lineFeeds fuel awaits returnTypes).typed = false := rfl
  obtain ⟨less, hless⟩ :
      ∃ b, atMark .less (.plain lineFeeds fuel awaits returnTypes) s = .ok (b, s) := ⟨_, rfl⟩
  unfold atArrowTypes
  simp only [run_bind, run_read, bind_ok, htyped, hless, Bool.false_and, Bool.false_eq_true,
    if_false, run_pure]

theorem arrowFunction?_none (hparen : s.token ≠ .mark .parenOpen)
    (hword : ∀ w escaped, s.token = .word w escaped →
      w ≠ "async" ∧ (Peek.ofText s.after).isMark .arrow = false) :
    arrowFunction? g (.plain lineFeeds fuel awaits returnTypes) s = .ok (none, s) := by
  have hasync : s.token ≠ .word "async" false := fun ht => (hword _ _ ht).1 rfl
  obtain ⟨named, hnamed⟩ :
      ∃ b, atIdentifier (.plain lineFeeds fuel awaits returnTypes) s = .ok (b, s) := ⟨_, rfl⟩
  unfold arrowFunction?
  simp only [run_bind, run_line, bind_ok, run_get, run_atMark_other hparen, run_atArrowTypes,
    run_ite, Bool.or_self, Bool.false_eq_true, if_false, hnamed]
  cases named with
  | false => simp only [Bool.false_eq_true, if_false, run_pure]
  | true =>
    have harrow : (Peek.ofText s.after).isMark .arrow = false := by
      cases ht : s.token with
      | word w escaped => exact (hword w escaped ht).2
      | _ => simp [atIdentifier, ht] at hnamed
    simp only [if_true, run_peek, bind_ok, harrow, Bool.false_and, Bool.false_eq_true, if_false,
      run_atWord_other hasync, run_pure]

/-- An expression can begin no word that begins a rule of its own. -/
theorem chainBase_of_primary {e : Expr} {c : Setting} (hnew : s.token ≠ .word "new" false)
    (himport : s.token ≠ .word "import" false) (hsuper : s.token ≠ .word "super" false)
    (h : primary g c s = .ok (e, s')) : chainBase g c s = .ok (e, s') := by
  unfold chainBase
  simp only [run_bind, run_line, bind_ok, run_atWord_other hnew, run_atWord_other himport,
    run_skipWord_other hsuper, run_ite, Bool.false_eq_true, if_false, h]

theorem leftHand_of_chainBase {e : Expr} {c : Setting} (hf : 0 < c.fuel)
    (h : chainBase g c s = .ok (e, s')) (hs' : s'.token.Closes) :
    leftHand g c s = .ok (e, s') := by
  obtain ⟨k, hk⟩ : ∃ k, c.fuel = k + 1 := ⟨c.fuel - 1, by omega⟩
  unfold leftHand links
  simp only [run_bind, run_get, run_line, bind_ok, h, textSince, run_loop, hk, repeatUpTo,
    link?_of_closes hs', run_pure, Bool.false_eq_true, if_false]

/-! ## Marks that begin no expression -/

/-- Marks of lists that begin no expression. -/
def unfit : List Mark := [.comma, .ellipsis, .bracketClose, .parenClose]

theorem leftHand_eq_error {m : Mark} {c : Setting} (hm : m ∈ unfit) (ht : s.token = .mark m) :
    ∃ fault, leftHand g c s = .error fault := by
  have hword : ∀ w, s.token ≠ .word w false := by simp [ht]
  have hprimary : primary g c s = .error ⟨s.start⟩ := by
    unfold primary
    simp only [run_bind, run_line, bind_ok, run_get, ht]
    simp only [unfit, List.mem_cons, List.not_mem_nil, or_false] at hm
    rcases hm with rfl | rfl | rfl | rfl <;> rfl
  refine ⟨⟨s.start⟩, ?_⟩
  unfold leftHand chainBase
  simp only [run_bind, run_get, run_line, bind_ok, run_atWord_other (hword _),
    run_skipWord_other (hword _), run_ite, Bool.false_eq_true, if_false, hprimary, bind_error]

theorem assignment_eq_error {m : Mark} (hm : m ∈ unfit) (ht : s.token = .mark m) :
    ∃ fault, assignment g (.plain lineFeeds fuel awaits returnTypes) s = .error fault := by
  obtain ⟨fault, hleft⟩ :=
    leftHand_eq_error (g := g) (c := .plain lineFeeds fuel awaits returnTypes) hm ht
  have hne : ∀ m', m' ∉ unfit → s.token ≠ .mark m' := by
    rintro m' hm' h
    rw [ht] at h
    cases h
    exact hm' hm
  have hstep : ¬ IsStep s.token := by
    rintro (h | h)
    · exact hne _ (by decide) h
    · exact hne _ (by decide) h
  have hop : unaryOp? s.token = none := by
    rw [ht]
    simp only [unfit, List.mem_cons, List.not_mem_nil, or_false] at hm
    rcases hm with rfl | rfl | rfl | rfl <;> rfl
  have hless : s.token ≠ .mark .less := hne _ (by decide)
  have hawait : s.token ≠ .word "await" false := by simp [ht]
  have hunary : unary g (.plain lineFeeds fuel awaits returnTypes) s = .error fault := by
    unfold unary
    simp only [run_bind, run_line, bind_ok, run_get, run_atStep hstep, Bool.false_eq_true, if_false,
      hop, run_read, run_atWord_other hawait, run_ite, Bool.and_false]
    simp only [ht]
    simp only [run_bind, run_atMark_other hless, bind_ok, run_read, Bool.false_and, run_ite,
      Bool.false_eq_true, if_false, hleft, bind_error]
  have harrow : arrowFunction? g (.plain lineFeeds fuel awaits returnTypes) s = .ok (none, s) :=
    arrowFunction?_none (hne _ (by decide)) (by simp [ht])
  have hyields : (Setting.plain lineFeeds fuel awaits returnTypes).yields = false := rfl
  obtain ⟨y, hy⟩ :=
    exists_run_atWord (c := .plain lineFeeds fuel awaits returnTypes) (s := s) "yield"
  refine ⟨fault, ?_⟩
  unfold assignment conditional binary
  simp only [run_bind, run_line, bind_ok, run_read, hyields, hy, Bool.false_and, run_ite,
    Bool.false_eq_true, if_false, harrow, run_get, hunary, bind_error]

end Reader

end CommandFiles.Script
