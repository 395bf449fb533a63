import CommandFiles.Proofs.LinkText
import CommandFiles.Proofs.PieceText

/-! # Texts of templates

The pieces of a template stand between its expressions as they were written. After an expression the
piece behind it is scanned from the closing brace on. -/
namespace CommandFiles.Script

/-- The expression of a template's span. -/
def TemplateSpan.expr : TemplateSpan → Expr
  | .mk e _ => e

/-- The text behind the expression of a template's span. -/
def TemplateSpan.quasi : TemplateSpan → Quasi
  | .mk _ q => q

end CommandFiles.Script

namespace CommandFiles.Literal

open Script Script.Reader

variable {quiet : Item → Prop} {text : Expr → List Char} {k : Site} {rest : List Char}
  {s s' : State}

/-- What stands behind a piece of a template: the mark that ends the template, or the expressions
that are left, each with the piece behind it. -/
def spansText (text : Expr → List Char) : List TemplateSpan → List Char
  | [] => pieceEnd true
  | .mk e q :: spans => pieceEnd false ++ (text e ++ '}' :: (q.raw.toList ++ spansText text spans))

/-- Whether a template ends behind a piece. -/
theorem spansText_eq (text : Expr → List Char) (spans : List TemplateSpan) :
    ∃ tail, spansText text spans = pieceEnd spans.isEmpty ++ tail := by
  cases spans with
  | nil => exact ⟨[], rfl⟩
  | cons span spans =>
    cases span
    exact ⟨_, rfl⟩

/-- One round of reading a template: an expression with the piece behind it. -/
def spanStep (g : Grammar) (acc : List TemplateSpan) :
    Reader (List TemplateSpan ⊕ List TemplateSpan) := do
  let e ← under (fun c => { c with inOperator := true }) g.expression
  unless ← atMark .braceClose do fail
  let (token, rest) ← template.scan (scanPiece (← get).start)
  modify fun s => { s with token, after := rest }
  let (q, last) ← template.quasi false
  advance
  return if last then .inr (.mk e q :: acc) else .inl (.mk e q :: acc)

theorem template_eq (g : Grammar) : template g false = do
    let (head, last) ← template.quasi false
    if last then
      advance
      return (head, [])
    advance
    let spans ← loop [] (spanStep g)
    return (head, spans.reverse) := rfl

theorem run_quasi {q : Quasi} {last : Bool} {c : Setting}
    (ht : s.token = .piece ⟨some q.cooked, q.raw⟩ last) :
    template.quasi false c s = .ok ((q, last), s) := by
  unfold template.quasi
  simp only [run_bind, run_get, bind_ok, ht, run_pure]

/-- An expression of a template is read with the piece behind it. -/
theorem run_span {e : Expr} {q : Quasi} {outer more : List Char} (last : Bool) (hq : IsPiece q)
    (he : ComesBack quiet (text e) e) (hk : k.Fits outer) (hlength : (text e).length < outer.length)
    (hs : s.Stands (text e ++ '}' :: (q.raw.toList ++ (pieceEnd last ++ more))))
    (hmore : HasToken more) (acc : List TemplateSpan) :
    ∃ e' s', spanStep k.grammar acc k.setting s =
        .ok (if last then .inr (.mk e' q :: acc) else .inl (.mk e' q :: acc), s') ∧
      s.Meets quiet more s' ∧ bare e' = bare e := by
  have hclose : ('}', Mark.braceClose) ∈ closers := by decide
  obtain ⟨e', s₁, he', h₁, hbare⟩ := he.whole.run_expression hk hlength hs hclose (by decide)
    isGap_nil rfl
  obtain ⟨ht₁, -⟩ := IsMove.closer hclose isGap_nil h₁
  obtain ⟨_, hbefore⟩ := IsMove.arrives h₁
  have hstart := (hbefore.stands (solid_literalMark (closers_literalMarks hclose) _)).start
  -- the piece is scanned again from the brace on
  obtain ⟨s₂, h₂⟩ := hmore.exists_reaches
    { s₁ with token := .piece ⟨some q.cooked, q.raw⟩ last, after := more }
  have hscan : template.scan (scanPiece s₁.start) k.setting s₁ =
      .ok ((.piece ⟨some q.cooked, q.raw⟩ last, more), s₁) := by
    unfold template.scan
    rw [hstart, hq.scanPiece '}' last more]
    rfl
  have hquasi : template.quasi false k.setting
      { s₁ with token := .piece ⟨some q.cooked, q.raw⟩ last, after := more } = .ok ((q, last), _) :=
    run_quasi rfl
  have hunder : under (fun c => { c with inOperator := true }) k.grammar.expression k.setting s =
      .ok (e', s₁) := he'
  refine ⟨e', s₂, ?_, h₁.trans (State.Reaches.meets ?_), hbare⟩
  · unfold spanStep
    simp only [run_bind, hunder, bind_ok, run_atMark ht₁, if_true, run_get, hscan, run_modify,
      hquasi, run_advance rfl h₂, run_ite, run_pure]
  · obtain ⟨ended, start, token, after, hskip, hscan', rfl⟩ := h₂
    exact ⟨ended, start, token, after, hskip, hscan', rfl⟩

/-- Expressions of a template are read one after another, each with the piece behind it. -/
theorem run_spans {outer : List Char} (hk : k.Fits outer) (hrest : HasToken rest)
    (spans : List TemplateSpan) : ∀ (e : Expr) (q : Quasi) (acc : List TemplateSpan) (rounds : Nat)
      (s : State),
      (∀ span ∈ .mk e q :: spans, IsPiece span.quasi ∧ ComesBack quiet (text span.expr) span.expr ∧
        (text span.expr).length < outer.length) →
      spans.length < rounds →
      s.Stands (text e ++ '}' :: (q.raw.toList ++ (spansText text spans ++ rest))) →
      ∃ (spans' : List TemplateSpan) (s' : State),
        repeatUpTo (spanStep k.grammar) rounds acc k.setting s =
          .ok (spans'.reverse ++ acc, s') ∧ s.Meets quiet rest s' ∧
        spans'.map bareSpan = (.mk e q :: spans).map bareSpan := by
  induction spans with
  | nil =>
    intro e q acc rounds s hspans hrounds hs
    obtain ⟨j, rfl⟩ : ∃ j, rounds = j + 1 := ⟨rounds - 1, by omega⟩
    obtain ⟨hq, he, hlength⟩ : IsPiece q ∧ ComesBack quiet (text e) e ∧
        (text e).length < outer.length := hspans _ List.mem_cons_self
    obtain ⟨e', s', hstep, hs', hbare⟩ := run_span true hq he hk hlength hs hrest acc
    refine ⟨[.mk e' q], s', ?_, hs', congrArg (fun e => [TemplateSpan.mk e q]) hbare⟩
    simp only [repeatUpTo, run_bind, hstep, bind_ok, if_true, run_pure, List.reverse_singleton,
      List.singleton_append]
  | cons span spans ih =>
    intro e q acc rounds s hspans hrounds hs
    obtain ⟨e₂, q₂⟩ := span
    obtain ⟨j, rfl⟩ : ∃ j, rounds = j + 1 := ⟨rounds - 1, by omega⟩
    obtain ⟨hq, he, hlength⟩ : IsPiece q ∧ ComesBack quiet (text e) e ∧
        (text e).length < outer.length := hspans _ List.mem_cons_self
    have hspans₂ := fun span h => hspans span (List.mem_cons_of_mem (TemplateSpan.mk e q) h)
    obtain ⟨-, he₂, -⟩ := hspans₂ _ List.mem_cons_self
    rw [spansText, List.append_assoc, List.append_assoc, List.cons_append, List.append_assoc] at hs
    -- behind the piece the next expression stands
    have hclose : ('}', Mark.braceClose) ∈ closers := by decide
    have hend : IsEnd ('}' :: (q₂.raw.toList ++ (spansText text spans ++ rest))) :=
      isEnd_closer hclose isGap_nil _
    obtain ⟨t, after, hscan⟩ := he₂.whole.scans _ hend
    have hsolid := he₂.whole.solid.append
      ('}' :: (q₂.raw.toList ++ (spansText text spans ++ rest)))
    obtain ⟨e', s₁, hstep, h₁, hbare⟩ := run_span false hq he hk hlength hs
      ⟨_, _, _, _, skipTrivia_solid hsolid false, hscan⟩ acc
    obtain ⟨_, hbefore⟩ := IsMove.arrives h₁
    obtain ⟨spans', s', hrun, hs', hbares⟩ := ih e₂ q₂ (.mk e' q :: acc) j s₁ hspans₂
      (by simpa using hrounds) (hbefore.stands hsolid)
    refine ⟨.mk e' q :: spans', s', ?_, h₁.trans hs', ?_⟩
    · simp only [repeatUpTo, run_bind, hstep, bind_ok, Bool.false_eq_true, if_false, hrun,
        List.reverse_cons, List.append_assoc, List.singleton_append]
    · rw [List.map_cons, List.map_cons, hbares, bareSpan, bareSpan, hbare]

theorem length_spansText (text : Expr → List Char) (spans : List TemplateSpan) :
    spans.length < (spansText text spans).length ∧
      ∀ span ∈ spans, (text span.expr).length < (spansText text spans).length := by
  induction spans with
  | nil => simp [spansText, pieceEnd]
  | cons span spans ih =>
    obtain ⟨e, q⟩ := span
    obtain ⟨hcount, hlength⟩ := ih
    simp only [spansText, pieceEnd, Bool.false_eq_true, if_false, List.length_append,
      List.length_cons, List.length_nil]
    refine ⟨by omega, fun span hspan => ?_⟩
    rcases List.mem_cons.mp hspan with rfl | hspan
    · rw [TemplateSpan.expr]
      omega
    · have := hlength span hspan
      omega

/-- **A template comes back from its pieces and the texts of its expressions.** -/
theorem readsSpine_template {head : Quasi} {spans : List TemplateSpan} (hhead : IsPiece head)
    (hspans : ∀ span ∈ spans, IsPiece span.quasi ∧ ComesBack quiet (text span.expr) span.expr) :
    ReadsSpine quiet false ('`' :: (head.raw.toList ++ spansText text spans))
      fun o e => o = false ∧ ∃ l spans', e = .template l head spans' ∧
        spans'.map bareSpan = spans.map bareSpan := by
  obtain ⟨hcount, hlength⟩ := length_spansText text spans
  have hsolid (cs : List Char) : IsSolid ('`' :: cs) :=
    ⟨'`', cs, rfl, by decide, by decide, by decide⟩
  have hscan (rest : List Char) : ∃ tail, spansText text spans = pieceEnd spans.isEmpty ++ tail ∧
      scanToken ('`' :: (head.raw.toList ++ spansText text spans) ++ rest) =
        .ok (.piece ⟨some head.cooked, head.raw⟩ spans.isEmpty, tail ++ rest) := by
    obtain ⟨tail, htail⟩ := spansText_eq text spans
    refine ⟨tail, htail, ?_⟩
    have hpiece := hhead.scanPiece '`' spans.isEmpty (tail ++ rest)
    rw [htail, List.cons_append, List.append_assoc, List.append_assoc]
    exact hpiece
  have htoken {s : State} {rest : List Char}
      (hs : s.Stands ('`' :: (head.raw.toList ++ spansText text spans) ++ rest)) :
      s.token = .piece ⟨some head.cooked, head.raw⟩ spans.isEmpty := by
    obtain ⟨tail, -, hscan⟩ := hscan rest
    exact (Prod.mk.inj (Except.ok.inj (hs.scanned.symm.trans hscan))).1
  refine readsSpine_of_primary (hsolid _) (fun rest _ => ?_)
    (fun k s rest _ hs _ => arrowFunction?_none ?_ fun w escaped hw => ?_)
    (bindsNoMore_of_token (t := .piece ⟨some head.cooked, head.raw⟩ spans.isEmpty)
      (fun rest _ => ?_) nofun nofun)
    ⟨hsolid _, fun rest _ => ?_, fun k s rest hk hs hrest => ?_⟩
  · obtain ⟨tail, -, hscan⟩ := hscan rest
    exact ⟨_, _, hscan, rfl, nofun⟩
  · simp [htoken hs]
  · simp [htoken hs] at hw
  · obtain ⟨tail, -, hscan⟩ := hscan rest
    exact ⟨_, hscan⟩
  · obtain ⟨tail, -, hscan⟩ := hscan rest
    exact ⟨_, _, hscan⟩
  · obtain ⟨tail, htail, hscan⟩ := hscan rest
    have ht := htoken hs
    have hafter := (Prod.mk.inj (Except.ok.inj (hs.scanned.symm.trans hscan))).2
    obtain ⟨l, hl⟩ : ∃ l, primary k.grammar k.setting s =
        (template k.grammar false k.setting s).bind
          fun p => .ok (.template l p.1.1 p.1.2, p.2) := by
      refine ⟨k.setting.lineFeeds - s.start.count '\n' + 1, ?_⟩
      unfold primary
      simp only [run_bind, run_line, bind_ok, run_get, ht, run_pure]
    cases spans with
    | nil =>
      have hend : pieceEnd true = pieceEnd true ++ tail := htail
      obtain rfl := List.self_eq_append_right.mp hend
      obtain ⟨s', h'⟩ := hrest.follows.hasToken.exists_reaches s
      refine ⟨.template l head [], s', ?_, h'.meets, l, [], rfl, rfl⟩
      rw [hl, template_eq]
      simp only [run_bind, run_quasi ht, bind_ok, List.isEmpty_nil, if_true,
        run_advance hafter h', run_pure]
    | cons span spans =>
      obtain ⟨e, q⟩ := span
      rw [spansText] at htail
      obtain rfl := List.append_cancel_left htail
      have hfuel := hk.fuel
      have hclose : ('}', Mark.braceClose) ∈ closers := by decide
      rw [List.append_assoc, List.cons_append, List.append_assoc] at hafter
      have he : ComesBack quiet (text e) e := (hspans _ List.mem_cons_self).2
      have hend : IsEnd ('}' :: (q.raw.toList ++ (spansText text spans ++ rest))) :=
        isEnd_closer hclose isGap_nil _
      obtain ⟨s₁, h₁, hs₁⟩ := he.whole.exists_reaches isGap_nil hend s
      simp only [List.length_cons, List.length_append] at hfuel hcount
      obtain ⟨spans', s₂, hrun, h₂, hbares⟩ := run_spans hk hrest.follows.hasToken spans e q []
        k.fuel s₁ (fun span h => ⟨(hspans span h).1, (hspans span h).2, by
          have := hlength span h
          simp only [List.length_cons, List.length_append]
          omega⟩) (by omega) hs₁
      refine ⟨.template l head spans', s₂, ?_, h₁.meets.trans h₂, l, spans', rfl, hbares⟩
      have hfuel' : k.setting.fuel = k.fuel := rfl
      rw [hl, template_eq]
      simp only [run_bind, run_quasi ht, bind_ok, List.isEmpty_cons, Bool.false_eq_true, if_false,
        run_advance hafter h₁, run_loop, hfuel', hrun, List.append_nil, List.reverse_reverse,
        run_pure]

end CommandFiles.Literal
