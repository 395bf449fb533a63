import CommandFiles.Proofs.OperatorText
import CommandFiles.Proofs.PrintedLiterals
import CommandFiles.Proofs.TemplateText

/-! # Texts of whole literals

An expression is written with parentheses around the operands that need them, and comes back from
its text but for lines and parentheses. Excepted are a member of a whole number, which becomes
digits, and a link behind an optional chain that had ended. -/
namespace CommandFiles.Literal

open Script Script.Reader
open CommandLine (except_bind_eq_ok)

/-! ## Expressions that come back -/

/-- Whether a function may begin with a token and what stands behind it: a parenthesis, a word that
is no name, or a name behind which no binding goes on. -/
def BeginsFunction (t : Token) (after : List Char) : Prop :=
  t = .mark .parenOpen ∨ ∃ w escaped, t = .word w escaped ∧
    (reserved.contains w = true ∨ (Peek.ofText after).token.BarsBinding)

/-- Whether a text stands for itself as a function at the top of a module. -/
structure IsFunctionText (quiet : Item → Prop) (text : String) : Prop where
  reads : ReadsWhole quiet text.toList fun e => ∃ l, e = .function l text
  begins : ∀ (s : State) (rest : List Char), s.Stands (text.toList ++ rest) → IsEnd rest →
    BeginsFunction s.token s.after

/-- A function with one parameter stands for itself, if its body is an expression that does not
begin with a brace. -/
theorem isFunctionText_arrow {quiet : Item → Prop} (hscopes : KeepsScopes quiet) {w body : String}
    {p : Expr → Prop} (hw : IsPlainWord w) (h : ReadsWhole quiet body.toList p)
    (hbrace : ∀ (s : State) (rest : List Char), s.Stands (body.toList ++ rest) → IsEnd rest →
      s.token ≠ .mark .braceOpen) : IsFunctionText quiet (w ++ " => " ++ body) := by
  have htext : (w ++ " => " ++ body).toList = arrowText w body.toList := by simp [arrowText]
  have hlength := length_arrowText w body.toList
  refine ⟨⟨htext ▸ hw.word.solid.append _, fun rest _ => htext ▸ scanToken_arrowText hw _ rest,
    fun k s rest hk hs hrest => ?_⟩, fun s rest hs hrest => ?_⟩
  · rw [htext] at hk hs
    have hbody : body.toList.length < (arrowText w body.toList).length := by omega
    have hrun {s₂ : State} (hs₂ : s₂.Stands (body.toList ++ rest)) :
        ∃ e s', k.grammar.assignment (.plain k.lineFeeds k.fuel false k.returnTypes) s₂ =
          .ok (e, s') ∧ s₂.Meets quiet rest s' := by
      have hk' : Site.Fits { k with awaits := false } (arrowText w body.toList) :=
        ⟨hk.depth, hk.fuel⟩
      obtain ⟨e, s', he, hs', -⟩ := h.run_assignment hk' hbody hs₂ hrest
      exact ⟨e, s', he, hs'⟩
    obtain ⟨l, s', hl, hs'⟩ := run_arrowText hw hscopes h.solid (h.scans rest hrest)
      (fun s₂ hs₂ => ⟨hbrace s₂ rest hs₂ hrest, hrun hs₂⟩) hs
    exact ⟨_, s', hl, hs', l, by rw [← htext, String.ofList_toList]⟩
  · obtain ⟨ht, -, hpeek⟩ := stands_arrowText hw (htext ▸ hs)
    refine .inr ⟨w, false, ht, .inr ?_⟩
    rw [hpeek]
    rintro m hm ⟨⟩
    revert hm
    decide

/-- Whether the text of a property stands for itself as a method at the top of a module. -/
def IsMethodText (quiet : Item → Prop) (key : Key) (text : String) : Prop :=
  ReadsAt quiet IsEnd property text.toList fun a =>
    ∃ l key', a = .method l key' text ∧ bareKey key' = bareKey key

/-- Whether an optional chain has ended with an expression. -/
def endsChain (e : Expr) : Bool :=
  match e.unwrapped with
  | .chain _ _ => true
  | _ => false

/-- Whether an expression is a number that is written with digits only. -/
def isWhole (e : Expr) : Bool :=
  match e.unwrapped with
  | .number _ x => isDigits (numberText x).toList
  | _ => false

/-- The parts of a property that are expressions. -/
def propertyExprs : Property → List Expr
  | .value _ key e => key.expr?.toList ++ [e]
  | .method _ _ _ | .accessor _ _ => []
  | .spread _ e => [e]

/-- Whether an expression comes back from its text. The Boolean says whether it belongs to an
optional chain that goes on behind it. -/
inductive Recoverable (quiet : Item → Prop) : Bool → Expr → Prop
  | null (l : Nat) : Recoverable quiet false (.null l)
  | boolean (l : Nat) (b : Bool) : Recoverable quiet false (.boolean l b)
  | string (l : Nat) (t : String) : Recoverable quiet false (.string l t)
  | number (l : Nat) {x : Float} (hx : unsignedNumeral? (numberText x).toList = some x) :
    Recoverable quiet false (.number l x)
  | name (l : Nat) {w : String} (hw : IsPlainWord w) : Recoverable quiet false (.name l w)
  | template (l : Nat) {head : Quasi} {spans : List TemplateSpan} (hhead : IsPiece head)
    (hspans : ∀ span ∈ spans, IsPiece span.quasi)
    (h : ∀ span ∈ spans, Recoverable quiet false span.expr) :
    Recoverable quiet false (.template l head spans)
  | array (l : Nat) {elements : List Element}
    (h : ∀ a ∈ elements, ∀ e ∈ a.expr?, Recoverable quiet false e) :
    Recoverable quiet false (.array l elements)
  | object (l : Nat) {properties : List Property}
    (h : ∀ a ∈ properties, ∀ e ∈ propertyExprs a, Recoverable quiet false e)
    (hmethods : ∀ l key text, .method l key text ∈ properties → IsMethodText quiet key text)
    (haccessors : ∀ l key, .accessor l key ∉ properties) :
    Recoverable quiet false (.object l properties)
  | member (l : Nat) (optional : Bool) {goesOn : Bool} {target : Expr} {key : String}
    (h : Recoverable quiet goesOn target) (hended : endsChain target = false)
    (hkey : IsWord key.toList) (hwhole : optional = false → isWhole target = false) :
    Recoverable quiet (goesOn || optional) (.member l optional target key)
  | index (l : Nat) (optional : Bool) {goesOn : Bool} {target key : Expr}
    (h : Recoverable quiet goesOn target) (hended : endsChain target = false)
    (hkey : Recoverable quiet false key) :
    Recoverable quiet (goesOn || optional) (.index l optional target key)
  | call (l : Nat) (optional : Bool) (shown : String) {goesOn : Bool} {callee : Expr}
    {arguments : List Element} (h : Recoverable quiet goesOn callee)
    (hended : endsChain callee = false) (hholes : ∀ a ∈ arguments, a.isHole = false)
    (harguments : ∀ a ∈ arguments, ∀ e ∈ a.expr?, Recoverable quiet false e) :
    Recoverable quiet (goesOn || optional) (.call l optional shown callee arguments)
  | chain (l : Nat) {inner : Expr} (h : Recoverable quiet true inner) :
    Recoverable quiet false (.chain l inner)
  | function (l : Nat) {text : String} (h : IsFunctionText quiet text) :
    Recoverable quiet false (.function l text)
  | unary (l : Nat) (op : UnaryOp) {operand : Expr} (h : Recoverable quiet false operand) :
    Recoverable quiet false (.unary l op operand)
  | binary (l : Nat) (op : BinaryOp) {left right : Expr} (hleft : Recoverable quiet false left)
    (hright : Recoverable quiet false right) : Recoverable quiet false (.binary l op left right)
  | logical (l : Nat) (op : LogicalOp) {left right : Expr} (hleft : Recoverable quiet false left)
    (hright : Recoverable quiet false right) : Recoverable quiet false (.logical l op left right)
  | conditional (l : Nat) {test yes no : Expr} (htest : Recoverable quiet false test)
    (hyes : Recoverable quiet false yes) (hno : Recoverable quiet false no) :
    Recoverable quiet false (.conditional l test yes no)
  | wrapped (l : Nat) {inner : Expr} (h : Recoverable quiet false inner) :
    Recoverable quiet false (.wrapped l inner)

/-! ## Texts that come back -/

variable {quiet : Item → Prop} {depth : Nat} {e e' : Expr} {goesOn : Bool} {text : String}

/-- Whether an expression is another but for lines and parentheses, ends with a link where that one
does, and needs no parentheses as an operand. -/
structure Resembles (e e' : Expr) : Prop where
  bare : bare e' = bare e
  tight : IsTight e'
  link : isLink e = true → isLink e' = true

/-- Whether an expression has a text that it comes back from: as a whole and as an operand if no
optional chain goes on behind it, and as a part of a chain if none has ended with it. -/
structure Recovered (quiet : Item → Prop) (depth : Nat) (goesOn : Bool) (e : Expr) : Prop where
  source : exprSource depth e = .ok (textAt depth e)
  fully : goesOn = false → ComesBack quiet (textAt depth e).toList e
  operand : goesOn = false → ReadsOperand quiet (parenthesize e (textAt depth e)).toList
    fun e' => bare e' = bare e ∧ IsTight e'
  spine : endsChain e = false → ReadsSpine quiet (isWhole e)
    (parenthesize e (textAt depth e)).toList fun o e' => o = goesOn ∧ Resembles e e'
  link : goesOn = true → isLink e = true

theorem parenthesize_of_simple (h : isCompound e.unwrapped = false) :
    parenthesize e text = text := by
  rw [parenthesize, h]
  rfl

theorem toList_parenthesize_of_compound (h : isCompound e.unwrapped = true) :
    (parenthesize e text).toList = '(' :: (text.toList ++ [')']) := by
  rw [parenthesize, h]
  simp

/-- What comes back as a part of a chain and needs no parentheses comes back as a whole. -/
theorem recovered_of_spine (hsource : exprSource depth e = .ok text)
    (hsimple : isCompound e.unwrapped = false) (hlink : goesOn = true → isLink e = true)
    (h : ReadsSpine quiet (isWhole e) text.toList fun o e' => o = goesOn ∧ Resembles e e') :
    Recovered quiet depth goesOn e := by
  have htext := textAt_eq hsource
  have hoperand (hgoesOn : goesOn = false) :
      ReadsOperand quiet text.toList fun e' => bare e' = bare e ∧ IsTight e' := by
    refine h.operand.mono ?_
    rintro _ ⟨l, o, e', ⟨rfl, he'⟩, rfl⟩
    rw [hgoesOn]
    exact ⟨he'.bare, he'.tight⟩
  refine ⟨htext ▸ hsource, fun hgoesOn => ?_, fun hgoesOn => ?_, fun _ => ?_, hlink⟩
  · rw [htext]
    exact (hoperand hgoesOn).fully.mono fun e' he' => he'.1
  · rw [htext, parenthesize_of_simple hsimple]
    exact hoperand hgoesOn
  · rw [htext, parenthesize_of_simple hsimple]
    exact h

/-- What comes back as a whole and needs parentheses comes back in them as an operand. -/
theorem recovered_of_fully (hsource : exprSource depth e = .ok text)
    (hcompound : isCompound e.unwrapped = true) (hlink : isLink e = false)
    (h : ComesBack quiet text.toList e) : Recovered quiet depth false e := by
  have htext := textAt_eq hsource
  have hwhole : isWhole e = false := by
    unfold isWhole
    revert hcompound
    cases e.unwrapped <;> first | exact fun _ => rfl | nofun
  have hspine : ReadsSpine quiet false ('(' :: (text.toList ++ [')'])) fun o e' =>
      o = false ∧ Resembles e e' := by
    refine h.paren.mono ?_
    rintro o e' ⟨rfl, l, inner, rfl, hinner⟩
    refine ⟨rfl, ⟨by rw [bare, hinner], ⟨rfl, rfl, rfl⟩, fun he => ?_⟩⟩
    rw [hlink] at he
    cases he
  refine ⟨htext ▸ hsource, fun _ => htext ▸ h, fun _ => ?_, fun _ => ?_, nofun⟩
  · rw [htext, toList_parenthesize_of_compound hcompound]
    refine hspine.operand.mono ?_
    rintro _ ⟨l, o, e', ⟨rfl, he'⟩, rfl⟩
    exact ⟨he'.bare, he'.tight⟩
  · rw [htext, toList_parenthesize_of_compound hcompound, hwhole]
    exact hspine

/-! ## Constants -/

theorem recovered_null (l : Nat) : Recovered quiet depth false (.null l) := by
  refine recovered_of_spine rfl rfl nofun (readsSpine_null.mono ?_)
  rintro o e ⟨rfl, l, rfl⟩
  exact ⟨rfl, rfl, ⟨rfl, rfl, rfl⟩, nofun⟩

theorem recovered_boolean (l : Nat) (b : Bool) : Recovered quiet depth false (.boolean l b) := by
  refine recovered_of_spine rfl rfl nofun ((readsSpine_boolean b).mono ?_)
  rintro o e ⟨rfl, l, rfl⟩
  exact ⟨rfl, rfl, ⟨rfl, rfl, rfl⟩, nofun⟩

theorem recovered_string (l : Nat) (t : String) : Recovered quiet depth false (.string l t) := by
  refine recovered_of_spine rfl rfl nofun ((readsSpine_quote t).mono ?_)
  rintro o e ⟨rfl, l, rfl⟩
  exact ⟨rfl, rfl, ⟨rfl, rfl, rfl⟩, nofun⟩

theorem recovered_name (l : Nat) {w : String} (hw : IsPlainWord w) :
    Recovered quiet depth false (.name l w) := by
  refine recovered_of_spine rfl rfl nofun ((readsSpine_name hw).mono ?_)
  rintro o e ⟨rfl, l, rfl⟩
  exact ⟨rfl, rfl, ⟨rfl, rfl, rfl⟩, nofun⟩

/-- A text without a sign begins a chain with its number. -/
theorem readsSpine_numeral {cs : List Char} {x : Float} (h : unsignedNumeral? cs = some x) :
    ReadsSpine quiet (isDigits cs) cs fun o e => o = false ∧ IsNumeral cs x e := by
  unfold unsignedNumeral? at h
  split at h
  · rename_i hcs
    cases h
    subst hcs
    refine (readsSpine_name isPlainWord_NaN).mono ?_
    rintro o e ⟨rfl, l, rfl⟩
    exact ⟨rfl, .inr ⟨l, "NaN", rfl, rfl, .inl ⟨rfl, rfl⟩⟩⟩
  split at h
  · rename_i hcs
    cases h
    subst hcs
    refine (readsSpine_name isPlainWord_Infinity).mono ?_
    rintro o e ⟨rfl, l, rfl⟩
    exact ⟨rfl, .inr ⟨l, "Infinity", rfl, rfl, .inr ⟨rfl, rfl⟩⟩⟩
  split at h
  · cases h
  split at h
  · rename_i c rest _ _ hdigit
    split at h
    · rename_i y hscan
      cases h
      refine (readsSpine_number hdigit hscan).mono ?_
      rintro o e ⟨rfl, l, rfl⟩
      exact ⟨rfl, .inl ⟨l, rfl⟩⟩
    · cases h
  · cases h

theorem resembles_numeral {cs : List Char} {x : Float} (l : Nat) (h : IsNumeral cs x e) :
    Resembles (.number l x) e := by
  rcases h with ⟨l, rfl⟩ | ⟨l, w, rfl, -, ⟨rfl, rfl⟩ | ⟨rfl, rfl⟩⟩
  · exact ⟨rfl, ⟨rfl, rfl, rfl⟩, nofun⟩
  · exact ⟨rfl, ⟨rfl, rfl, rfl⟩, nofun⟩
  · exact ⟨rfl, ⟨rfl, rfl, rfl⟩, nofun⟩

theorem recovered_number (l : Nat) {x : Float}
    (hx : unsignedNumeral? (numberText x).toList = some x) :
    Recovered quiet depth false (.number l x) := by
  refine recovered_of_spine rfl rfl nofun ((readsSpine_numeral hx).mono ?_)
  rintro o e ⟨rfl, he⟩
  exact ⟨rfl, resembles_numeral l he⟩

theorem recovered_function (l : Nat) (h : IsFunctionText quiet text) :
    Recovered quiet depth false (.function l text) := by
  have hother {s : State} {rest : List Char} (hs : s.Stands (text.toList ++ rest))
      (hrest : IsEnd rest) {m : Mark} (hm : m ≠ .parenOpen) : s.token ≠ .mark m := by
    rcases h.begins s rest hs hrest with ht | ⟨w, escaped, ht, -⟩
    · rw [ht]
      exact fun h => hm (Token.mark.inj h).symm
    · simp [ht]
  refine recovered_of_fully rfl rfl rfl ⟨h.reads.mono ?_, fun s rest hs hrest m hm => ?_,
    fun k s rest names s' _ hs hrest hrun => .inr ?_⟩
  · rintro e ⟨l, rfl⟩
    rfl
  · refine hother hs hrest ?_
    rintro rfl
    revert hm
    decide
  · obtain ⟨name, hname⟩ :=
      of_pattern (hother hs hrest (by decide)) (hother hs hrest (by decide)) hrun
    obtain ⟨⟨escaped, ht⟩, hreserved, h'⟩ := of_identifier hname
    rcases h.begins s rest hs hrest with hparen | ⟨w, escaped', ht', hw⟩
    · simp [ht] at hparen
    · cases ht.symm.trans ht'
      rcases hw with hw | hw
      · rw [hreserved] at hw
        cases hw
      · rw [← h'.peek]
        exact hw

/-! ## Arrays, objects and templates -/

/-- The texts of expressions at a depth. -/
abbrev textsAt (depth : Nat) (e : Expr) : List Char := (textAt depth e).toList

/-- How an element is written. -/
def elementAt (depth : Nat) : Element → String
  | .item e => textAt depth e
  | .spread _ e => "..." ++ textAt depth e
  | .hole => ""

theorem toList_elementAt (a : Element) :
    (elementAt depth a).toList = elementText (textsAt depth) a := by
  cases a <;> simp [elementAt, elementText, spreadText]

theorem elementSources_eq {elements : List Element}
    (h : ∀ a ∈ elements, ∀ e ∈ a.expr?, exprSource depth e = .ok (textAt depth e)) :
    elementSources depth elements = .ok (elements.map (elementAt depth)) := by
  induction elements with
  | nil => rfl
  | cons a elements ih =>
    have ha := h a List.mem_cons_self
    have hrest := ih fun a' ha' => h a' (List.mem_cons_of_mem a ha')
    cases a with
    | item e =>
      rw [elementSources, ha e rfl, hrest]
      rfl
    | spread l e =>
      rw [elementSources, ha e rfl, hrest]
      rfl
    | hole =>
      rw [elementSources, hrest]
      rfl

/-- How the key of a property is written. -/
def keyAt (depth : Nat) : Key → String
  | .fixed name => Value.keySource name
  | .computed e => "[" ++ textAt depth e ++ "]"

/-- How a property is written. -/
def propertyAt (depth : Nat) : Property → String
  | .value _ key e => keyAt depth key ++ ": " ++ textAt depth e
  | .method _ _ text => text
  | .accessor _ _ => ""
  | .spread _ e => "..." ++ textAt depth e

theorem toList_propertyAt (a : Property) :
    (propertyAt depth a).toList = propertyText (textsAt depth) a := by
  cases a with
  | value l key e => cases key <;> simp [propertyAt, keyAt, propertyText, keyText]
  | method l key text => rfl
  | accessor l key => rfl
  | spread l e => simp [propertyAt, propertyText, spreadText]

theorem propertySources_eq {properties : List Property}
    (h : ∀ a ∈ properties, ∀ e ∈ propertyExprs a, exprSource depth e = .ok (textAt depth e))
    (haccessors : ∀ l key, .accessor l key ∉ properties) :
    propertySources depth properties = .ok (properties.map (propertyAt depth)) := by
  induction properties with
  | nil => rfl
  | cons a properties ih =>
    have ha := h a List.mem_cons_self
    have hrest := ih (fun a' ha' => h a' (List.mem_cons_of_mem a ha'))
      fun l key hmem => haccessors l key (List.mem_cons_of_mem a hmem)
    cases a with
    | value l key e =>
      have hkey : keySource depth key = .ok (keyAt depth key) := by
        cases key with
        | fixed name => rfl
        | computed e' =>
          rw [keySource, ha e' (by simp [propertyExprs, Key.expr?])]
          rfl
      rw [propertySources, hkey, ha e (by simp [propertyExprs]), hrest]
      rfl
    | method l key text =>
      rw [propertySources, hrest]
      rfl
    | accessor l key => exact absurd List.mem_cons_self (haccessors l key)
    | spread l e =>
      rw [propertySources, ha e List.mem_cons_self, hrest]
      rfl

/-- One more entry without a text is one more comma. -/
theorem behindItem_hole (gap stop : List Char) (ts : List (List Char)) :
    behindItem gap stop (ts ++ [[]]) = behindItem gap (',' :: (gap ++ stop)) ts := by
  induction ts with
  | nil => simp [behindItem]
  | cons t ts ih => rw [List.cons_append, behindItem, behindItem, ih]

/-- An array that ends with a hole is written with a comma behind it. -/
theorem exists_stop_closeHole (depth : Nat) (elements : List Element) :
    ∃ stopGap, IsStop stopGap ∧ ClosesHoles Element.isHole elements stopGap ∧
      (Value.brackets (closeHole (elements.map (elementAt (depth + 1)))) depth).toList =
        '[' :: inBrackets (Value.lineStart (depth + 1)) stopGap ']'
          (elements.map (elementText (textsAt (depth + 1)))) := by
  have htexts : (elements.map (elementAt (depth + 1))).map String.toList =
      elements.map (elementText (textsAt (depth + 1))) := by
    rw [List.map_map]
    exact List.map_congr_left fun a _ => toList_elementAt a
  have hblock (entries : List String) : (Value.brackets entries depth).toList =
      '[' :: inBrackets (Value.lineStart (depth + 1)) (Value.lineStart depth) ']'
        (entries.map String.toList) := Value.toList_block '[' ']' entries depth
  have hgap := Value.isGap_lineStart depth
  have hgap' := Value.isGap_lineStart (depth + 1)
  unfold closeHole
  split
  · -- the comma that the last hole needs stands on a line of its own
    rename_i hlast
    refine ⟨',' :: (Value.lineStart (depth + 1) ++ Value.lineStart depth), .inr ⟨_, rfl, ?_⟩,
      fun _ _ _ => ⟨_, rfl⟩, ?_⟩
    · intro c hc
      rcases List.mem_append.mp hc with hc | hc
      · exact hgap' c hc
      · exact hgap c hc
    · rw [hblock, List.map_append, htexts]
      cases elements with
      | nil => cases hlast
      | cons a elements =>
        rw [List.map_cons, List.map_singleton, List.cons_append, inBrackets, inBrackets]
        exact congrArg (fun more => '[' :: (_ ++ (_ ++ more))) ((behindItem_hole _ _ _).trans
          (by rw [List.cons_append, List.append_assoc]))
  · rename_i hlast
    refine ⟨Value.lineStart depth, .inl hgap, fun a ha hhole => ?_, by rw [hblock, htexts]⟩
    cases a with
    | hole =>
      rw [List.getLast?_map] at hlast
      exact absurd (by rw [Option.mem_def.mp ha]; rfl) hlast
    | _ => cases hhole

theorem recovered_array (l : Nat) {elements : List Element}
    (h : ∀ a ∈ elements, ∀ e ∈ a.expr?, Recovered quiet (depth + 1) false e) :
    Recovered quiet depth false (.array l elements) := by
  obtain ⟨stopGap, hstop, hholes, htext⟩ := exists_stop_closeHole depth elements
  have hsource : exprSource depth (.array l elements) =
      .ok (Value.brackets (closeHole (elements.map (elementAt (depth + 1)))) depth) :=
    except_bind_eq_ok.mpr ⟨_, elementSources_eq fun a ha e he => (h a ha e he).source, rfl⟩
  refine recovered_of_spine hsource rfl nofun ?_
  rw [htext]
  refine (readsSpine_array (Value.isGap_lineStart (depth + 1)) hstop hholes
    fun a ha e he => (h a ha e he).fully rfl).mono ?_
  rintro o e ⟨rfl, l, as, rfl, has⟩
  exact ⟨rfl, by rw [bare, bare, bareElements_eq, bareElements_eq, has], ⟨rfl, rfl, rfl⟩, nofun⟩

/-- The properties of an object come back where the expressions in them do. -/
theorem propertyComesBack {a : Property}
    (h : ∀ e ∈ propertyExprs a, Recovered quiet depth false e)
    (hmethod : ∀ l key text, a = .method l key text → IsMethodText quiet key text)
    (haccessor : ∀ l key, a ≠ .accessor l key) : PropertyComesBack quiet (textsAt depth) a := by
  cases a with
  | value l key e =>
    refine ⟨fun e' he' => (h e' ?_).fully rfl, (h e (by simp [propertyExprs])).fully rfl⟩
    rw [propertyExprs, List.mem_append, Option.mem_toList]
    exact .inl he'
  | method l key text => exact hmethod l key text rfl
  | accessor l key => exact absurd rfl (haccessor l key)
  | spread l e => exact (h e List.mem_cons_self).fully rfl

/-- Properties between braces come back as the properties of an object. -/
theorem readsSpine_properties {properties : List Property}
    (h : ∀ a ∈ properties, ∀ e ∈ propertyExprs a, Recovered quiet (depth + 1) false e)
    (hmethods : ∀ l key text, .method l key text ∈ properties → IsMethodText quiet key text)
    (haccessors : ∀ l key, .accessor l key ∉ properties) :
    ReadsSpine quiet false
      (Value.braces (properties.map (propertyAt (depth + 1))) depth).toList fun o e =>
        o = false ∧ ∃ l as, e = .object l as ∧ bareProperties as = bareProperties properties := by
  have htext : (Value.braces (properties.map (propertyAt (depth + 1))) depth).toList =
      '{' :: inBrackets (Value.lineStart (depth + 1)) (Value.lineStart depth) '}'
        (properties.map (propertyText (textsAt (depth + 1)))) := by
    have hblock := Value.toList_block '{' '}' (properties.map (propertyAt (depth + 1))) depth
    have htexts : String.toList ∘ propertyAt (depth + 1) = propertyText (textsAt (depth + 1)) :=
      funext toList_propertyAt
    rw [List.map_map, htexts] at hblock
    exact hblock
  rw [htext]
  refine (readsSpine_object (Value.isGap_lineStart (depth + 1)) (.inl (Value.isGap_lineStart depth))
    fun a ha => propertyComesBack (h a ha) ?_ ?_).mono ?_
  · rintro l key text rfl
    exact hmethods l key text ha
  · rintro l key rfl
    exact haccessors l key ha
  · rintro o e ⟨rfl, l, as, rfl, has⟩
    exact ⟨rfl, l, as, rfl, by rw [bareProperties_eq, bareProperties_eq, has]⟩

theorem recovered_object (l : Nat) {properties : List Property}
    (h : ∀ a ∈ properties, ∀ e ∈ propertyExprs a, Recovered quiet (depth + 1) false e)
    (hmethods : ∀ l key text, .method l key text ∈ properties → IsMethodText quiet key text)
    (haccessors : ∀ l key, .accessor l key ∉ properties) :
    Recovered quiet depth false (.object l properties) := by
  have hsource : exprSource depth (.object l properties) =
      .ok (Value.braces (properties.map (propertyAt (depth + 1))) depth) :=
    except_bind_eq_ok.mpr
      ⟨_, propertySources_eq (fun a ha e he => (h a ha e he).source) haccessors, rfl⟩
  refine recovered_of_fully hsource rfl rfl
    ((readsSpine_properties h hmethods haccessors).operand.fully.mono ?_)
  rintro _ ⟨l, o, e, ⟨rfl, l', as, rfl, has⟩, rfl⟩
  change bare (.object l' as) = _
  rw [bare, bare, has]

theorem spanSources_eq {spans : List TemplateSpan}
    (h : ∀ span ∈ spans, exprSource depth span.expr = .ok (textAt depth span.expr)) :
    ∃ t, spanSources depth spans = .ok t ∧
      t.toList ++ ['`'] = spansText (textsAt depth) spans := by
  induction spans with
  | nil => exact ⟨"", rfl, rfl⟩
  | cons span spans ih =>
    obtain ⟨e, q⟩ := span
    obtain ⟨more, hmore, htext⟩ := ih fun span hspan => h span (List.mem_cons_of_mem _ hspan)
    have he : exprSource depth e = .ok (textAt depth e) := h _ List.mem_cons_self
    refine ⟨"$\x7b" ++ textAt depth e ++ "\x7d" ++ q.raw ++ more, ?_, ?_⟩
    · rw [spanSources, he, hmore]
      rfl
    · rw [spansText, ← htext]
      simp [pieceEnd]

theorem recovered_template (l : Nat) {head : Quasi} {spans : List TemplateSpan}
    (hhead : IsPiece head) (hspans : ∀ span ∈ spans, IsPiece span.quasi)
    (h : ∀ span ∈ spans, Recovered quiet depth false span.expr) :
    Recovered quiet depth false (.template l head spans) := by
  obtain ⟨t, ht, htext⟩ := spanSources_eq fun span hspan => (h span hspan).source
  have hsource : exprSource depth (.template l head spans) = .ok ("`" ++ head.raw ++ t ++ "`") :=
    except_bind_eq_ok.mpr ⟨_, ht, rfl⟩
  have hwritten : ("`" ++ head.raw ++ t ++ "`").toList =
      '`' :: (head.raw.toList ++ spansText (textsAt depth) spans) := by
    rw [← htext]
    simp
  refine recovered_of_spine hsource rfl nofun ?_
  rw [hwritten]
  refine (readsSpine_template hhead fun span hspan =>
    ⟨hspans span hspan, (h span hspan).fully rfl⟩).mono ?_
  rintro o e ⟨rfl, l, spans', rfl, hspans'⟩
  exact ⟨rfl, by rw [bare, bare, bareSpans_eq, bareSpans_eq, hspans'], ⟨rfl, rfl, rfl⟩, nofun⟩

/-! ## Links -/

/-- Behind an expression that has not ended an optional chain, a link makes another one. -/
theorem recovered_link (text : String) {linkText : List Char} {optional : Bool} {target : Expr}
    {linked : Expr → Expr → Prop} (h : Recovered quiet depth goesOn target)
    (hended : endsChain target = false) (hlink : ReadsLinkAt quiet linkText optional linked)
    (hwhole : isWhole target = true → ∀ more, linkText ≠ '.' :: more)
    (hsource : exprSource depth e = .ok text) (he : isLink e = true)
    (htext : text.toList = (parenthesize target (textAt depth target)).toList ++ linkText)
    (hlinked : ∀ a b, bare a = bare target → linked a b →
      bare b = bare e ∧ IsTight b ∧ isLink b = true) :
    Recovered quiet depth (goesOn || optional) e := by
  have hsimple : isCompound e.unwrapped = false := isCompound_of_isChain (by
    cases e <;> first | rfl | cases he)
  have hwhole' : isWhole e = false := by cases e <;> first | rfl | cases he
  refine recovered_of_spine hsource hsimple (fun _ => he) ?_
  rw [htext, hwhole']
  refine ((h.spine hended).link hlink hwhole).mono ?_
  rintro o b ⟨o', a, ⟨rfl, ha⟩, rfl, hb⟩
  obtain ⟨hbare, htight, hlink'⟩ := hlinked a b ha.bare hb
  exact ⟨rfl, hbare, htight, fun _ => hlink'⟩

theorem recovered_member (l : Nat) (optional : Bool) {target : Expr} {key : String}
    (h : Recovered quiet depth goesOn target) (hended : endsChain target = false)
    (hkey : IsWord key.toList) (hwhole : optional = false → isWhole target = false) :
    Recovered quiet depth (goesOn || optional) (.member l optional target key) := by
  refine recovered_link
    (parenthesize target (textAt depth target) ++ (if optional then "?." else ".") ++ key)
    h hended (readsLinkAt_member hkey) (fun hdigits more hmore => ?_) ?_ rfl ?_ ?_
  · cases optional with
    | false =>
      rw [hwhole rfl] at hdigits
      cases hdigits
    | true => cases hmore
  · exact except_bind_eq_ok.mpr ⟨_, h.source, rfl⟩
  · cases optional <;> simp [memberText]
  · rintro a _ ha ⟨l, rfl⟩
    exact ⟨by rw [bare, bare, ha], ⟨rfl, rfl, rfl⟩, rfl⟩

theorem recovered_index (l : Nat) (optional : Bool) {target key : Expr}
    (h : Recovered quiet depth goesOn target) (hended : endsChain target = false)
    (hkey : Recovered quiet depth false key) :
    Recovered quiet depth (goesOn || optional) (.index l optional target key) := by
  refine recovered_link
    (parenthesize target (textAt depth target) ++ (if optional then "?." else "") ++ "[" ++
      textAt depth key ++ "]")
    h hended (readsLinkAt_index (hkey.fully rfl)) (fun _ more hmore => ?_) ?_ rfl ?_ ?_
  · cases optional <;> cases hmore
  · exact except_bind_eq_ok.mpr ⟨_, h.source, except_bind_eq_ok.mpr ⟨_, hkey.source, rfl⟩⟩
  · cases optional <;> simp [optionalMark]
  · rintro a _ ha ⟨l, k, rfl, hk⟩
    exact ⟨by rw [bare, bare, ha, hk], ⟨rfl, rfl, rfl⟩, rfl⟩

theorem recovered_call (l : Nat) (optional : Bool) (shown : String) {callee : Expr}
    {arguments : List Element} (h : Recovered quiet depth goesOn callee)
    (hended : endsChain callee = false) (hholes : ∀ a ∈ arguments, a.isHole = false)
    (harguments : ∀ a ∈ arguments, ∀ e ∈ a.expr?, Recovered quiet depth false e) :
    Recovered quiet depth (goesOn || optional) (.call l optional shown callee arguments) := by
  have htexts : (", ".intercalate (arguments.map (elementAt depth))).toList ++ [')'] =
      inParens (arguments.map (elementText (textsAt depth))) := by
    have htext : String.toList ∘ elementAt depth = elementText (textsAt depth) :=
      funext toList_elementAt
    rw [toList_arguments, List.map_map, htext]
  refine recovered_link
    (parenthesize callee (textAt depth callee) ++ (if optional then "?." else "") ++ "(" ++
      ", ".intercalate (arguments.map (elementAt depth)) ++ ")")
    h hended (readsLinkAt_call hholes fun a ha e he => (harguments a ha e he).fully rfl)
    (fun _ more hmore => ?_) ?_ rfl ?_ ?_
  · cases optional <;> cases hmore
  · exact except_bind_eq_ok.mpr
      ⟨_, elementSources_eq fun a ha e he => (harguments a ha e he).source,
        except_bind_eq_ok.mpr ⟨_, h.source, rfl⟩⟩
  · rw [← htexts]
    cases optional <;> simp [optionalMark]
  · rintro a _ ha ⟨l, shown', as, rfl, has⟩
    exact ⟨by rw [bare, bare, ha, bareElements_eq, bareElements_eq, has], ⟨rfl, rfl, rfl⟩, rfl⟩

/-- An optional chain ends with its last link. -/
theorem recovered_chain (l : Nat) {inner : Expr} (h : Recovered quiet depth true inner) :
    Recovered quiet depth false (.chain l inner) := by
  have hlink := h.link rfl
  have hended : endsChain inner = false := by cases inner <;> first | rfl | cases hlink
  have hsimple : isCompound inner.unwrapped = false := isCompound_of_isChain (by
    cases inner <;> first | rfl | cases hlink)
  have hsource : exprSource depth (.chain l inner) = .ok (textAt depth inner) :=
    (if_pos hlink).trans h.source
  have htext := textAt_eq hsource
  have hspine := h.spine hended
  rw [parenthesize_of_simple hsimple] at hspine
  have hoperand : ReadsOperand quiet (textAt depth inner).toList
      fun e' => bare e' = bare (.chain l inner) ∧ IsTight e' := by
    refine hspine.operand.mono ?_
    rintro _ ⟨l, o, e', ⟨rfl, he'⟩, rfl⟩
    refine ⟨?_, rfl, rfl, rfl⟩
    change bare (.chain l e') = _
    rw [bare, bare, if_pos hlink, if_pos (he'.link hlink), he'.bare]
  refine ⟨htext ▸ hsource, fun _ => ?_, fun _ => ?_, nofun, nofun⟩
  · rw [htext]
    exact hoperand.fully.mono fun e' he' => he'.1
  · rw [htext]
    exact hoperand

/-! ## Operators -/

theorem recovered_unary (l : Nat) (op : UnaryOp) {operand : Expr}
    (h : Recovered quiet depth false operand) :
    Recovered quiet depth false (.unary l op operand) := by
  have hsource : exprSource depth (.unary l op operand) = .ok (op.text ++
      (if op.isWord then " " else "") ++ parenthesize operand (textAt depth operand)) :=
    except_bind_eq_ok.mpr ⟨_, h.source, rfl⟩
  have htext : (op.text ++ (if op.isWord then " " else "") ++
      parenthesize operand (textAt depth operand)).toList =
        unaryText op (parenthesize operand (textAt depth operand)).toList := by
    cases op <;> simp [unaryText, unaryGap, UnaryOp.isWord]
  refine recovered_of_fully hsource rfl rfl ?_
  rw [htext]
  refine (readsFully_unary op (h.operand rfl)).mono ?_
  rintro e ⟨l, e', rfl, he'⟩
  rw [bare, bare, he'.1]

/-- Operands with a text between them. -/
def between (depth : Nat) (left right : Expr) (joint : String) : String :=
  parenthesize left (textAt depth left) ++ " " ++ joint ++ " " ++
    parenthesize right (textAt depth right)

theorem toList_between (left right : Expr) (joint : String) :
    (between depth left right joint).toList = joined joint.toList
      (parenthesize left (textAt depth left)).toList
      (parenthesize right (textAt depth right)).toList := by
  simp [between, joined]

/-- An operator between two operands comes back with them. -/
theorem recovered_operator (op : Infix) (joint : String) (hjoint : op.spelling = joint.toList)
    (l : Nat) {left right : Expr} (hleft : Recovered quiet depth false left)
    (hright : Recovered quiet depth false right)
    (hsource : exprSource depth (op.node l left right) = .ok (between depth left right joint)) :
    Recovered quiet depth false (op.node l left right) := by
  refine recovered_of_fully hsource (by cases op <;> rfl) (by cases op <;> rfl) ?_
  rw [toList_between, ← hjoint]
  refine (readsFully_operator op (hleft.operand rfl) (hright.operand rfl) (fun e he => he.2)
    fun e he => he.2).mono ?_
  rintro e ⟨l', a, b, rfl, ha, hb⟩
  cases op with
  | binary op => rw [Infix.node, Infix.node, bare, bare, ha.1, hb.1]
  | logical op => rw [Infix.node, Infix.node, bare, bare, ha.1, hb.1]

theorem recovered_binary (l : Nat) (op : BinaryOp) {left right : Expr}
    (hleft : Recovered quiet depth false left) (hright : Recovered quiet depth false right) :
    Recovered quiet depth false (.binary l op left right) := by
  refine recovered_operator (.binary op) op.text rfl l hleft hright ?_
  exact except_bind_eq_ok.mpr ⟨_, hleft.source, except_bind_eq_ok.mpr ⟨_, hright.source, rfl⟩⟩

theorem recovered_logical (l : Nat) (op : LogicalOp) {left right : Expr}
    (hleft : Recovered quiet depth false left) (hright : Recovered quiet depth false right) :
    Recovered quiet depth false (.logical l op left right) := by
  refine recovered_operator (.logical op) op.text rfl l hleft hright ?_
  exact except_bind_eq_ok.mpr ⟨_, hleft.source, except_bind_eq_ok.mpr ⟨_, hright.source, rfl⟩⟩

theorem recovered_conditional (l : Nat) {test yes no : Expr}
    (htest : Recovered quiet depth false test) (hyes : Recovered quiet depth false yes)
    (hno : Recovered quiet depth false no) :
    Recovered quiet depth false (.conditional l test yes no) := by
  have hsource : exprSource depth (.conditional l test yes no) =
      .ok (parenthesize test (textAt depth test) ++ " ? " ++
        parenthesize yes (textAt depth yes) ++ " : " ++ parenthesize no (textAt depth no)) :=
    except_bind_eq_ok.mpr ⟨_, htest.source, except_bind_eq_ok.mpr ⟨_, hyes.source,
      except_bind_eq_ok.mpr ⟨_, hno.source, rfl⟩⟩⟩
  refine recovered_of_fully hsource rfl rfl ?_
  have htext : (parenthesize test (textAt depth test) ++ " ? " ++
      parenthesize yes (textAt depth yes) ++ " : " ++ parenthesize no (textAt depth no)).toList =
        chosen (parenthesize test (textAt depth test)).toList
          (parenthesize yes (textAt depth yes)).toList
          (parenthesize no (textAt depth no)).toList := by
    simp [chosen, joined]
  rw [htext]
  refine (readsFully_conditional (htest.operand rfl) (hyes.operand rfl).whole
    (hno.operand rfl).whole).mono ?_
  rintro e ⟨l, a, b, c, rfl, ha, hb, hc⟩
  rw [bare, bare, ha.1, hb.1, hc.1]

/-- Parentheses that were written are left out. -/
theorem recovered_wrapped (l : Nat) {inner : Expr} (h : Recovered quiet depth false inner) :
    Recovered quiet depth false (.wrapped l inner) := by
  obtain ⟨hsource, hfully, hoperand, hspine, -⟩ := h
  have htext : textAt depth (.wrapped l inner) = textAt depth inner := rfl
  have hbare : bare (.wrapped l inner) = bare inner := by rw [bare]
  refine ⟨?_, fun hgoesOn => ?_, fun hgoesOn => ?_, fun hended => ?_, nofun⟩
  · rw [htext]
    exact hsource
  · rw [htext, ComesBack, hbare]
    exact hfully hgoesOn
  · rw [htext, hbare]
    exact hoperand hgoesOn
  · rw [htext]
    refine (hspine hended).mono ?_
    rintro o e ⟨rfl, he⟩
    exact ⟨rfl, he.bare.trans hbare.symm, he.tight, nofun⟩

/-- **What is recoverable comes back from its text, at every depth.** -/
theorem Recoverable.recovered (h : Recoverable quiet goesOn e) (depth : Nat) :
    Recovered quiet depth goesOn e := by
  induction h generalizing depth with
  | null l => exact recovered_null l
  | boolean l b => exact recovered_boolean l b
  | string l t => exact recovered_string l t
  | number l hx => exact recovered_number l hx
  | name l hw => exact recovered_name l hw
  | template l hhead hspans _ ih =>
    exact recovered_template l hhead hspans fun span hspan => ih span hspan depth
  | array l _ ih => exact recovered_array l fun a ha e he => ih a ha e he (depth + 1)
  | object l _ hmethods haccessors ih =>
    exact recovered_object l (fun a ha e he => ih a ha e he (depth + 1)) hmethods haccessors
  | member l optional _ hended hkey hwhole ih =>
    exact recovered_member l optional (ih depth) hended hkey hwhole
  | index l optional _ hended _ ih ihkey =>
    exact recovered_index l optional (ih depth) hended (ihkey depth)
  | call l optional shown _ hended hholes _ ih ihargs =>
    exact recovered_call l optional shown (ih depth) hended hholes fun a ha e he =>
      ihargs a ha e he depth
  | chain l _ ih => exact recovered_chain l (ih depth)
  | function l h => exact recovered_function l h
  | unary l op _ ih => exact recovered_unary l op (ih depth)
  | binary l op _ _ ihleft ihright => exact recovered_binary l op (ihleft depth) (ihright depth)
  | logical l op _ _ ihleft ihright => exact recovered_logical l op (ihleft depth) (ihright depth)
  | conditional l _ _ _ ihtest ihyes ihno =>
    exact recovered_conditional l (ihtest depth) (ihyes depth) (ihno depth)
  | wrapped l _ ih => exact recovered_wrapped l (ih depth)

end CommandFiles.Literal
