import CommandFiles.Proofs.ReaderRun
import CommandFiles.Proofs.TokenText

/-! # Texts of literals

A text reads as an expression if the reader takes it for one wherever it stands and ends behind it,
whatever depth and bound for loops it is given beyond the size of the text. Quoted texts, numbers,
names and negative numbers read as what they are. -/
namespace CommandFiles.Script

/-! ## Ends of expressions -/

/-- Whether an expression before a text is complete: a closing mark comes next, and nothing of the
text runs into the expression. -/
structure IsEnd (rest : List Char) : Prop where
  closes : ∃ ended start token after, skipTrivia .between false rest = .ok (ended, start) ∧
    scanToken start = .ok (token, after) ∧ token.Closes
  word : EndsWord rest
  number : EndsNumber rest

variable {text rest gap : List Char} {s s' : State}

/-- Closing marks as they are written. -/
def closers : List (Char × Mark) := literalMarks.take 6

theorem closers_literalMarks {p : Char × Mark} (h : p ∈ closers) : p ∈ literalMarks :=
  List.mem_of_mem_take h

theorem solid_literalMark {p : Char × Mark} (h : p ∈ literalMarks) (rest : List Char) :
    IsSolid (p.1 :: rest) := by
  have hall : ∀ p ∈ literalMarks, p.1 ≠ '/' ∧ isLineEnd p.1 = false ∧ isSpace p.1 = false := by
    decide
  exact ⟨p.1, rest, rfl, hall p h⟩

/-- Behind blanks, a closing mark ends an expression. -/
theorem isEnd_closer {p : Char × Mark} (h : p ∈ closers) (hgap : IsGap gap) (rest : List Char) :
    IsEnd (gap ++ p.1 :: rest) := by
  have hall : ∀ p ∈ closers, p.2 ∈ Mark.closing ∧ isWordPart p.1 = false ∧ p.1 ≠ '\\' ∧
      Text.isIdentifierStart p.1 = false ∧ p.1.isDigit = false ∧ p.1 ≠ '.' := by decide
  obtain ⟨hm, hclear⟩ := hall p h
  have hmark := closers_literalMarks h
  have hfirst : ∀ c more, gap ++ p.1 :: rest = c :: more → isWordPart c = false ∧ c ≠ '\\' ∧
      Text.isIdentifierStart c = false ∧ c.isDigit = false ∧ c ≠ '.' := by
    intro c more hcs
    cases gap with
    | nil =>
      obtain ⟨rfl, _⟩ := List.cons.inj hcs
      exact hclear
    | cons d gap =>
      obtain ⟨rfl, _⟩ := List.cons.inj hcs
      rcases hgap d List.mem_cons_self with rfl | rfl
      · decide
      · decide
  obtain ⟨ended, hskip⟩ := skipTrivia_gap hgap false (p.1 :: rest)
  rw [skipTrivia_solid (solid_literalMark hmark rest)] at hskip
  refine ⟨⟨ended, _, .mark p.2, rest, hskip, scanToken_literalMark hmark rest, p.2, hm, rfl⟩,
    fun c more hcs => ?_, fun c more hcs => ?_⟩
  · obtain ⟨hpart, hslash, _⟩ := hfirst c more hcs
    exact ⟨hpart, hslash⟩
  · obtain ⟨_, hslash, hstart, hdigit, hdot⟩ := hfirst c more hcs
    exact ⟨hstart, hdigit, hslash, hdot⟩

/-- Whether a token can be scanned from a text, behind blanks and comments. -/
def HasToken (rest : List Char) : Prop :=
  ∃ ended start token after, skipTrivia .between false rest = .ok (ended, start) ∧
    scanToken start = .ok (token, after)

theorem HasToken.exists_reaches (h : HasToken rest) (s : State) : ∃ s', s.Reaches rest s' := by
  obtain ⟨ended, start, token, after, hskip, hscan⟩ := h
  exact ⟨_, ended, start, token, after, hskip, hscan, rfl⟩

theorem IsEnd.hasToken (h : IsEnd rest) : HasToken rest := by
  obtain ⟨ended, start, token, after, hskip, hscan, -⟩ := h.closes
  exact ⟨ended, start, token, after, hskip, hscan⟩

theorem IsEnd.exists_reaches (h : IsEnd rest) (s : State) :
    ∃ s', s.Reaches rest s' ∧ s'.token.Closes := by
  obtain ⟨ended, start, token, after, hskip, hscan, hcloses⟩ := h.closes
  exact ⟨_, ⟨ended, start, token, after, hskip, hscan, rfl⟩, hcloses⟩

theorem IsEnd.closes_of_reaches (h : IsEnd rest) (hs' : s.Reaches rest s') : s'.token.Closes := by
  obtain ⟨ended, start, token, after, hskip, hscan, hcloses⟩ := h.closes
  obtain ⟨ended', start', token', after', hskip', hscan', rfl⟩ := hs'
  rw [hskip] at hskip'
  cases hskip'
  rw [hscan] at hscan'
  cases hscan'
  exact hcloses

/-- Behind blanks the closing mark comes next. -/
theorem State.Reaches.closer {p : Char × Mark} (hp : p ∈ closers) (hgap : IsGap gap)
    (h : s.Reaches (gap ++ p.1 :: rest) s') : s'.token = .mark p.2 ∧ s'.after = rest := by
  have hmark := closers_literalMarks hp
  obtain ⟨ended, start, token, after, hskip, hscan, rfl⟩ := h
  obtain ⟨ended', hskip'⟩ := skipTrivia_gap hgap false (p.1 :: rest)
  rw [hskip', skipTrivia_solid (solid_literalMark hmark rest)] at hskip
  cases hskip
  rw [scanToken_literalMark hmark rest] at hscan
  cases hscan
  exact ⟨rfl, rfl⟩

theorem State.Passes.closer {p : Char × Mark} (hp : p ∈ closers) (hgap : IsGap gap)
    (h : s.Passes (gap ++ p.1 :: rest) s') : s'.token = .mark p.2 ∧ s'.after = rest := by
  obtain ⟨_, _, _, h⟩ := h
  exact h.closer hp hgap

theorem IsSolid.append (h : IsSolid text) (rest : List Char) : IsSolid (text ++ rest) := by
  obtain ⟨c, more, rfl, hc⟩ := h
  exact ⟨c, more ++ rest, rfl, hc⟩

theorem Reader.Peek.ofText_eq {ended : Bool} {start after : List Char} {t : Token}
    (hskip : skipTrivia .between false text = .ok (ended, start))
    (hscan : scanToken start = .ok (t, after)) : Reader.Peek.ofText text = ⟨t, ended, after⟩ := by
  unfold Reader.Peek.ofText
  rw [hskip]
  dsimp only
  rw [hscan]

theorem IsEnd.peek (h : IsEnd rest) : (Reader.Peek.ofText rest).token.Closes := by
  obtain ⟨ended, start, token, after, hskip, hscan, hcloses⟩ := h.closes
  rw [Reader.Peek.ofText_eq hskip hscan]
  exact hcloses

theorem Reader.Peek.isMark_of_closes {p : Reader.Peek} (h : p.token.Closes) {m : Mark}
    (hm : m ∉ Mark.closing) : p.isMark m = false := by
  obtain ⟨m', hm', ht⟩ := h
  have hne : ¬ m = m' := by rintro rfl; exact hm hm'
  unfold Reader.Peek.isMark
  rw [ht]
  simpa using hne

theorem isGap_nil : IsGap [] := by simp [IsGap]

theorem isGap_blank : IsGap [' '] := by simp [IsGap]

/-- Behind blanks the next token is found. -/
theorem exists_reaches {after : List Char} {t : Token} (hgap : IsGap gap) (hsolid : IsSolid text)
    (hscan : scanToken text = .ok (t, after)) (s : State) :
    ∃ s', s.Reaches (gap ++ text) s' ∧ s'.Stands text ∧ s'.token = t ∧ s'.after = after := by
  obtain ⟨ended, hskip⟩ := skipTrivia_gap hgap false text
  rw [skipTrivia_solid hsolid] at hskip
  exact ⟨_, ⟨ended, text, t, after, hskip, hscan, rfl⟩, ⟨rfl, hscan⟩, rfl, rfl⟩

/-! ## Texts that a rule reads -/

/-- Whether a rule of the grammar reads a text as an expression wherever the text stands, and ends
behind it. Whether `await` is an operator there is given. -/
structure Reads (awaits : Bool) (rule : Grammar → Reader Expr) (text : List Char)
    (p : Expr → Prop) : Prop where
  solid : IsSolid text
  scans : ∀ rest, IsEnd rest → ∃ t after, scanToken (text ++ rest) = .ok (t, after)
  reads : ∀ (n lineFeeds fuel : Nat) (s : State) (rest : List Char),
    8 * text.length ≤ n → text.length < fuel → s.Stands (text ++ rest) → IsEnd rest →
    ∃ e s', rule (Grammar.upTo n) (.plain lineFeeds fuel awaits true) s = .ok (e, s') ∧
      s.Passes rest s' ∧ p e

/-- Whether a relation says how a state may go on to a text: by scanning its first token, or in
several such steps. -/
class IsMove (moves : State → List Char → State → Prop) : Prop where
  of_reaches : ∀ {s s' : State} {rest : List Char}, s.Reaches rest s' → moves s rest s'
  trans : ∀ {s s₁ s' : State} {rest more : List Char}, moves s rest s₁ → moves s₁ more s' →
    moves s more s'
  arrives : ∀ {s s' : State} {rest : List Char}, moves s rest s' →
    ∃ before : State, before.Reaches rest s'

instance : IsMove State.Reaches where
  of_reaches := id
  trans := by
    rintro s s₁ s' rest more ⟨_, _, _, _, _, _, rfl⟩ ⟨ended, start, token, after, hskip, hscan, rfl⟩
    exact ⟨ended, start, token, after, hskip, hscan, rfl⟩
  arrives h := ⟨_, h⟩

instance {quiet : Item → Prop} : IsMove (State.Meets quiet) where
  of_reaches := State.Reaches.meets
  trans := State.Meets.trans
  arrives h := by
    obtain ⟨items, places, -, h⟩ := h
    exact ⟨_, h⟩

instance : IsMove State.Passes := inferInstanceAs (IsMove (State.Meets Item.Quiet))

/-- The same as `Reads` for another way to go on. Where this is `State.Reaches`, nothing is
collected while the text is read. -/
structure ReadsBy (moves : State → List Char → State → Prop) (awaits : Bool)
    (rule : Grammar → Reader Expr) (text : List Char) (p : Expr → Prop) : Prop where
  solid : IsSolid text
  scans : ∀ rest, IsEnd rest → ∃ t after, scanToken (text ++ rest) = .ok (t, after)
  reads : ∀ (n lineFeeds fuel : Nat) (s : State) (rest : List Char),
    8 * text.length ≤ n → text.length < fuel → s.Stands (text ++ rest) → IsEnd rest →
    ∃ e s', rule (Grammar.upTo n) (.plain lineFeeds fuel awaits true) s = .ok (e, s') ∧
      moves s rest s' ∧ p e

theorem reads_iff {awaits : Bool} {rule : Grammar → Reader Expr} {p : Expr → Prop} :
    Reads awaits rule text p ↔ ReadsBy State.Passes awaits rule text p :=
  ⟨fun h => ⟨h.solid, h.scans, h.reads⟩, fun h => ⟨h.solid, h.scans, h.reads⟩⟩

/-- Whether no function begins at a state and no word that begins a rule of its own, but an
expression without operators may. -/
structure State.AtOperand (s : State) : Prop where
  begins : s.token.beginsOperand = true
  noParen : s.token ≠ .mark .parenOpen
  noWord : ∀ w escaped, s.token = .word w escaped →
    w ∉ ["async", "new", "import", "super"] ∧ (Reader.Peek.ofText s.after).isMark .arrow = false

/-- Whether an expression without operators may begin with a text. -/
def OpensOperand (text : List Char) : Prop :=
  ∀ (s : State) (rest : List Char), s.Stands (text ++ rest) → IsEnd rest → s.AtOperand

variable {awaits : Bool} {p : Expr → Prop} {moves : State → List Char → State → Prop}

theorem ReadsBy.mono {rule : Grammar → Reader Expr} {q : Expr → Prop}
    (h : ReadsBy moves awaits rule text p) (hpq : ∀ e, p e → q e) :
    ReadsBy moves awaits rule text q where
  solid := h.solid
  scans := h.scans
  reads n lineFeeds fuel s rest hn hf hs hrest := by
    obtain ⟨e, s', he, hs', hp⟩ := h.reads n lineFeeds fuel s rest hn hf hs hrest
    exact ⟨e, s', he, hs', hpq e hp⟩

theorem Reads.mono {rule : Grammar → Reader Expr} {q : Expr → Prop} (h : Reads awaits rule text p)
    (hpq : ∀ e, p e → q e) : Reads awaits rule text q :=
  reads_iff.mpr ((reads_iff.mp h).mono hpq)

theorem IsEnd.closes_of_move [IsMove moves] (h : IsEnd rest) (hs' : moves s rest s') :
    s'.token.Closes := by
  obtain ⟨_, hs'⟩ := IsMove.arrives hs'
  exact h.closes_of_reaches hs'

/-- Behind what is read the closing mark comes next. -/
theorem IsMove.closer [IsMove moves] {p : Char × Mark} (hp : p ∈ closers) (hgap : IsGap gap)
    (h : moves s (gap ++ p.1 :: rest) s') : s'.token = .mark p.2 ∧ s'.after = rest := by
  obtain ⟨_, h⟩ := IsMove.arrives h
  exact h.closer hp hgap

theorem State.AtOperand.ne_word (h : s.AtOperand) {w : String}
    (hw : w ∈ ["async", "new", "import", "super"]) : s.token ≠ .word w false :=
  fun ht => (h.noWord w false ht).1 hw

namespace Reader

theorem arrowFunction?_of_atOperand {g : Grammar} {lineFeeds fuel : Nat} {awaits returnTypes : Bool}
    (h : s.AtOperand) :
    arrowFunction? g (.plain lineFeeds fuel awaits returnTypes) s = .ok (none, s) := by
  refine arrowFunction?_none h.noParen fun w escaped hw => ?_
  obtain ⟨hne, harrow⟩ := h.noWord w escaped hw
  refine ⟨?_, harrow⟩
  rintro rfl
  exact hne (by decide)

section Rules

variable [IsMove moves]

theorem readsBy_leftHand (hopens : OpensOperand text) (h : ReadsBy moves awaits primary text p) :
    ReadsBy moves awaits leftHand text p where
  solid := h.solid
  scans := h.scans
  reads n lineFeeds fuel s rest hn hf hs hrest := by
    obtain ⟨e, s', he, hs', hp⟩ := h.reads n lineFeeds fuel s rest hn hf hs hrest
    have hat := hopens s rest hs hrest
    have hbase := chainBase_of_primary (hat.ne_word (by decide)) (hat.ne_word (by decide))
      (hat.ne_word (by decide)) he
    exact ⟨e, s', leftHand_of_chainBase (Nat.zero_lt_of_lt hf) hbase (hrest.closes_of_move hs'),
      hs', hp⟩

theorem readsBy_unary (hopens : OpensOperand text) (h : ReadsBy moves awaits leftHand text p) :
    ReadsBy moves awaits unary text p where
  solid := h.solid
  scans := h.scans
  reads n lineFeeds fuel s rest hn hf hs hrest := by
    obtain ⟨e, s', he, hs', hp⟩ := h.reads n lineFeeds fuel s rest hn hf hs hrest
    have hcloses := hrest.closes_of_move hs'
    exact ⟨e, s', unary_of_leftHand (hopens s rest hs hrest).begins he
      (not_isStep_of_closes hcloses), hs', hp⟩

/-- What stands where an operand may is an expression, unless a function begins there. -/
theorem readsBy_assignment (h : ReadsBy moves awaits unary text p)
    (hfunction : ∀ (n lineFeeds fuel : Nat) (s : State) (rest : List Char),
      s.Stands (text ++ rest) → IsEnd rest →
      arrowFunction? (Grammar.upTo n) (.plain lineFeeds fuel awaits true) s = .ok (none, s)) :
    ReadsBy moves awaits assignment text p where
  solid := h.solid
  scans := h.scans
  reads n lineFeeds fuel s rest hn hf hs hrest := by
    obtain ⟨e, s', he, hs', hp⟩ := h.reads n lineFeeds fuel s rest hn hf hs hrest
    have hcloses := hrest.closes_of_move hs'
    have hbinary : binary (Grammar.upTo n) 0 (.plain lineFeeds fuel awaits true) s = .ok (e, s') :=
      binary_of_unary he (Nat.zero_lt_of_lt hf) (infixOp?_of_closes hcloses)
    have hconditional := conditional_of_binary hbinary (Closes.ne_mark hcloses (by decide))
    exact ⟨e, s', assignment_of_conditional (hfunction n lineFeeds fuel s rest hs hrest)
      hconditional (assignmentOp?_of_closes hcloses), hs', hp⟩

theorem readsBy_assignment_of_leftHand (hopens : OpensOperand text)
    (h : ReadsBy moves awaits leftHand text p) : ReadsBy moves awaits assignment text p :=
  readsBy_assignment (readsBy_unary hopens h) fun _ _ _ s rest hs hrest =>
    arrowFunction?_of_atOperand (hopens s rest hs hrest)

end Rules

/-- Whether a token is an expression of its own that no other rule takes. -/
structure IsAtom (t : Token) : Prop where
  begins : t.beginsOperand = true
  noParen : t ≠ .mark .parenOpen
  noWord : ∀ w escaped, t = .word w escaped → w ∉ ["async", "new", "import", "super"]

/-- Whether a text is scanned as one token in front of what may follow an expression. -/
def ScansAs (text : List Char) (t : Token) : Prop :=
  ∀ rest, IsEnd rest → scanToken (text ++ rest) = .ok (t, rest)

theorem ScansAs.stands {t : Token} (h : ScansAs text t) (hs : s.Stands (text ++ rest))
    (hrest : IsEnd rest) : s.token = t ∧ s.after = rest := by
  have hscanned := hs.scanned
  rw [h rest hrest] at hscanned
  cases hscanned
  exact ⟨rfl, rfl⟩

theorem ScansAs.opensOperand {t : Token} (h : ScansAs text t) (ht : IsAtom t) :
    OpensOperand text := by
  intro s rest hs hrest
  obtain ⟨rfl, hafter⟩ := h.stands hs hrest
  refine ⟨ht.begins, ht.noParen, fun w escaped hw => ⟨ht.noWord w escaped hw, ?_⟩⟩
  rw [hafter]
  exact Peek.isMark_of_closes hrest.peek (by decide)

theorem readsBy_atom [IsMove moves] {t : Token} (hsolid : IsSolid text) (h : ScansAs text t)
    (hprimary : ∀ (g : Grammar) (c : Setting) (s s' : State), c.yields = false →
      s.token = t → s.Reaches s.after s' → ∃ e, primary g c s = .ok (e, s') ∧ p e) :
    ReadsBy moves awaits primary text p where
  solid := hsolid
  scans rest hrest := ⟨t, rest, h rest hrest⟩
  reads n lineFeeds fuel s rest hn hf hs hrest := by
    obtain ⟨ht, hafter⟩ := h.stands hs hrest
    obtain ⟨s', hs', -⟩ := hrest.exists_reaches s
    obtain ⟨e, he, hp⟩ := hprimary (Grammar.upTo n) (.plain lineFeeds fuel awaits true) s s' rfl ht
      (hafter ▸ hs')
    exact ⟨e, s', he, IsMove.of_reaches hs', hp⟩

theorem readsBy_of_atom [IsMove moves] {t : Token} (h : ScansAs text t) (ht : IsAtom t)
    (hprimary : ReadsBy moves awaits primary text p) : ReadsBy moves awaits assignment text p :=
  readsBy_assignment_of_leftHand (h.opensOperand ht) (readsBy_leftHand (h.opensOperand ht) hprimary)

theorem primary_string {t : String} {g : Grammar} {c : Setting} (ht : s.token = .string t)
    (hs' : s.Reaches s.after s') : ∃ l, primary g c s = .ok (.string l t, s') := by
  refine ⟨c.lineFeeds - s.start.count '\n' + 1, ?_⟩
  unfold primary
  simp only [run_bind, run_line, bind_ok, run_get, ht, run_advance rfl hs', run_pure]

theorem primary_number {x : Float} {g : Grammar} {c : Setting} (ht : s.token = .number x)
    (hs' : s.Reaches s.after s') : ∃ l, primary g c s = .ok (.number l x, s') := by
  refine ⟨c.lineFeeds - s.start.count '\n' + 1, ?_⟩
  unfold primary
  simp only [run_bind, run_line, bind_ok, run_get, ht, run_advance rfl hs', run_pure]

/-- A token that stands for a text is that text. -/
theorem readsBy_string [IsMove moves] {t : String} (hsolid : IsSolid text)
    (h : ScansAs text (.string t)) :
    ReadsBy moves awaits assignment text fun e => ∃ l, e = .string l t := by
  have hopens := h.opensOperand ⟨rfl, by simp, by simp⟩
  refine readsBy_assignment_of_leftHand hopens (readsBy_leftHand hopens (readsBy_atom hsolid h ?_))
  intro g c s s' _ ht hs'
  obtain ⟨l, hl⟩ := primary_string (g := g) (c := c) ht hs'
  exact ⟨_, hl, l, rfl⟩

theorem solid_quote (t : String) : IsSolid (Json.quote t).toList := by
  rw [Json.quote, String.toList_ofList]
  exact ⟨'"', _, rfl, by decide, by decide, by decide⟩

theorem readsBy_quote [IsMove moves] (t : String) :
    ReadsBy moves awaits assignment (Json.quote t).toList fun e => ∃ l, e = .string l t := by
  have hscan : ScansAs (Json.quote t).toList (.string t) := fun rest _ => scanToken_quote t rest
  exact readsBy_string (solid_quote t) hscan

theorem reads_quote (t : String) :
    Reads awaits assignment (Json.quote t).toList fun e => ∃ l, e = .string l t :=
  reads_iff.mpr (readsBy_quote t)

theorem solid_of_isDigit {c : Char} (hc : c.isDigit = true) (cs : List Char) :
    IsSolid (c :: cs) := by
  have hall : ∀ n < 58, 48 ≤ n → Char.ofNat n ≠ '/' ∧ isLineEnd (Char.ofNat n) = false ∧
      isSpace (Char.ofNat n) = false := by decide
  obtain ⟨hlow, hhigh⟩ := toNat_of_isDigit hc
  exact ⟨c, cs, rfl, by simpa using hall c.toNat hhigh hlow⟩

theorem scansAs_number {c : Char} {cs : List Char} {x : Float} (hc : c.isDigit = true)
    (h : scanNumber (c :: cs) = .ok (.number x, [])) : ScansAs (c :: cs) (.number x) :=
  fun _ hrest => scanToken_number hc h hrest.number.digits fun _ => hrest.number.noPoint

theorem readsBy_number [IsMove moves] {c : Char} {cs : List Char} {x : Float}
    (hc : c.isDigit = true) (h : scanNumber (c :: cs) = .ok (.number x, [])) :
    ReadsBy moves awaits primary (c :: cs) fun e => ∃ l, e = .number l x := by
  refine readsBy_atom (solid_of_isDigit hc cs) (scansAs_number hc h) fun g c s s' _ ht hs' => ?_
  obtain ⟨l, hl⟩ := primary_number (g := g) (c := c) ht hs'
  exact ⟨_, hl, l, rfl⟩

/-! ## Words -/

/-- Whether a word is a name at the top of a module, and begins no function. -/
structure IsPlainWord (w : String) : Prop where
  word : IsWord w.toList
  notReserved : reserved.contains w = false
  notAwait : w ≠ "await"
  notAsync : w ≠ "async"

instance (w : String) : Decidable (IsPlainWord w) :=
  decidable_of_iff
    (IsWord w.toList ∧ reserved.contains w = false ∧ w ≠ "await" ∧ w ≠ "async")
    ⟨fun h => ⟨h.1, h.2.1, h.2.2.1, h.2.2.2⟩,
      fun h => ⟨h.word, h.notReserved, h.notAwait, h.notAsync⟩⟩

theorem IsPlainWord.ne {w k : String} (h : IsPlainWord w) (hk : reserved.contains k = true) :
    w ≠ k := by
  rintro rfl
  rw [h.notReserved] at hk
  cases hk

theorem IsPlainWord.isAtom {w : String} (h : IsPlainWord w) : IsAtom (.word w false) := by
  refine ⟨?_, by simp, ?_⟩
  · simp [Token.beginsOperand, h.ne (k := "typeof") (by decide), h.ne (k := "void") (by decide),
      h.ne (k := "delete") (by decide), h.notAwait]
  · rintro w' escaped hw
    cases hw
    simp [h.notAsync, h.ne (k := "new") (by decide), h.ne (k := "import") (by decide),
      h.ne (k := "super") (by decide)]

theorem scansAs_word {w : String} (h : IsWord w.toList) : ScansAs w.toList (.word w false) := by
  intro rest hrest
  rw [scanToken_word h hrest.word, String.ofList_toList]

theorem run_atFunction_other {c : Setting} {w : String} (ht : s.token = .word w false)
    (hfunction : w ≠ "function") (hasync : w ≠ "async") : atFunction c s = .ok (false, s) := by
  have hf : s.token ≠ .word "function" false := by rw [ht]; simpa using hfunction
  have ha : s.token ≠ .word "async" false := by rw [ht]; simpa using hasync
  unfold atFunction
  simp only [run_bind, run_atWord_other hf, bind_ok, run_peek, run_atWord_other ha, run_ite,
    Bool.false_and, Bool.false_eq_true, if_false, run_pure]

theorem run_atIdentifier {w : String} (hw : IsPlainWord w) {c : Setting}
    (hyields : c.yields = false) (ht : s.token = .word w false) :
    atIdentifier c s = .ok (true, s) := by
  have hawait : (w == "await") = false := by simpa using hw.notAwait
  unfold atIdentifier
  simp only [ht, hw.notReserved, hawait, hyields, Bool.false_and, Bool.and_false, Bool.or_self,
    Bool.not_false]

theorem run_identifier {w : String} (hw : IsPlainWord w) {c : Setting} (hyields : c.yields = false)
    (ht : s.token = .word w false) {rest : List Char} (hafter : s.after = rest)
    (hs' : s.Reaches rest s') : identifier c s = .ok (w, s') := by
  have hawait : (w == "await") = false := by simpa using hw.notAwait
  unfold identifier
  simp only [run_bind, run_get, bind_ok, ht, run_read, hw.notReserved, hawait, hyields,
    Bool.false_and, Bool.and_false, Bool.or_self, run_ite, Bool.false_eq_true, if_false,
    run_advance hafter hs', run_pure]

theorem primary_name {w : String} (hw : IsPlainWord w) {g : Grammar} {c : Setting}
    (hyields : c.yields = false) (ht : s.token = .word w false) (hs' : s.Reaches s.after s') :
    ∃ l, primary g c s = .ok (.name l w, s') := by
  have hat := run_atFunction_other (c := c) ht (hw.ne (by decide)) hw.notAsync
  have hname := run_identifier hw hyields ht rfl hs'
  refine ⟨c.lineFeeds - s.start.count '\n' + 1, ?_⟩
  unfold primary
  simp only [run_bind, run_line, bind_ok, run_get, ht, hat, run_ite, Bool.false_eq_true, if_false]
  split
  · exact absurd rfl (hw.ne (by decide))
  · exact absurd rfl (hw.ne (by decide))
  · exact absurd rfl (hw.ne (by decide))
  · exact absurd rfl (hw.ne (by decide))
  · exact absurd rfl (hw.ne (by decide))
  · simp only [run_bind, hname, bind_ok, run_pure]

theorem readsBy_name [IsMove moves] {w : String} (hw : IsPlainWord w) :
    ReadsBy moves awaits primary w.toList fun e => ∃ l, e = .name l w := by
  refine readsBy_atom hw.word.solid (scansAs_word hw.word) fun g c s s' hyields ht hs' => ?_
  obtain ⟨l, hl⟩ := primary_name (g := g) hw hyields ht hs'
  exact ⟨_, hl, l, rfl⟩

theorem primary_null {g : Grammar} {c : Setting} (ht : s.token = .word "null" false)
    (hs' : s.Reaches s.after s') : ∃ l, primary g c s = .ok (.null l, s') := by
  have hat := run_atFunction_other (c := c) ht (by decide) (by decide)
  refine ⟨c.lineFeeds - s.start.count '\n' + 1, ?_⟩
  unfold primary
  simp only [run_bind, run_line, bind_ok, run_get, ht, hat, run_ite, Bool.false_eq_true, if_false,
    run_advance rfl hs', run_pure]

/-- The word for a Boolean. -/
def booleanWord (b : Bool) : String := if b then "true" else "false"

theorem primary_boolean {b : Bool} {g : Grammar} {c : Setting}
    (ht : s.token = .word (booleanWord b) false) (hs' : s.Reaches s.after s') :
    ∃ l, primary g c s = .ok (.boolean l b, s') := by
  have hat := run_atFunction_other (c := c) ht (by cases b <;> decide) (by cases b <;> decide)
  refine ⟨c.lineFeeds - s.start.count '\n' + 1, ?_⟩
  unfold primary
  cases b with
  | true =>
    simp only [run_bind, run_line, bind_ok, run_get, ht, hat, run_ite, Bool.false_eq_true,
      if_false, booleanWord, if_true, run_advance rfl hs', run_pure]
  | false =>
    simp only [run_bind, run_line, bind_ok, run_get, ht, hat, run_ite, Bool.false_eq_true,
      if_false, booleanWord, run_advance rfl hs', run_pure]

theorem isAtom_word {w : String} (hbegins : (Token.word w false).beginsOperand = true)
    (hw : w ∉ ["async", "new", "import", "super"]) : IsAtom (.word w false) := by
  refine ⟨hbegins, by simp, ?_⟩
  rintro w' escaped h
  cases h
  exact hw

/-- The words `null`, `true` and `false` are values. -/
theorem readsBy_valueWord [IsMove moves] {w : String} (hw : IsWord w.toList)
    (hatom : IsAtom (.word w false))
    (hprimary : ∀ (g : Grammar) (c : Setting) (s s' : State), s.token = .word w false →
      s.Reaches s.after s' → ∃ e, primary g c s = .ok (e, s') ∧ p e) :
    ReadsBy moves awaits assignment w.toList p :=
  readsBy_of_atom (scansAs_word hw) hatom
    (readsBy_atom hw.solid (scansAs_word hw) fun g c s s' _ ht hs' => hprimary g c s s' ht hs')

theorem readsBy_null [IsMove moves] :
    ReadsBy moves awaits assignment "null".toList fun e => ∃ l, e = .null l := by
  refine readsBy_valueWord (by decide) (isAtom_word (by decide) (by decide)) fun g c s s' ht hs' => ?_
  obtain ⟨l, hl⟩ := primary_null (g := g) (c := c) ht hs'
  exact ⟨_, hl, l, rfl⟩

theorem readsBy_boolean [IsMove moves] (b : Bool) :
    ReadsBy moves awaits assignment (if b then "true" else "false").toList
      fun e => ∃ l, e = .boolean l b := by
  change ReadsBy moves awaits assignment (booleanWord b).toList _
  refine readsBy_valueWord (by cases b <;> decide)
    (isAtom_word (by cases b <;> decide) (by cases b <;> decide)) fun g c s s' ht hs' => ?_
  obtain ⟨l, hl⟩ := primary_boolean (g := g) (c := c) ht hs'
  exact ⟨_, hl, l, rfl⟩

theorem reads_null : Reads awaits assignment "null".toList fun e => ∃ l, e = .null l :=
  reads_iff.mpr readsBy_null

theorem reads_boolean (b : Bool) :
    Reads awaits assignment (if b then "true" else "false").toList fun e => ∃ l, e = .boolean l b :=
  reads_iff.mpr (readsBy_boolean b)

/-! ## Negative numbers -/

theorem scanToken_negate (hsolid : IsSolid text)
    (hfirst : ∀ c more, text = c :: more → c ≠ '-' ∧ c ≠ '=') :
    scanToken ('-' :: text ++ rest) = .ok (.mark .minus, text ++ rest) := by
  obtain ⟨c, more, rfl, -⟩ := hsolid
  refine scanToken_minus fun d more' hd => ?_
  obtain ⟨rfl, _⟩ := List.cons.inj hd
  exact hfirst _ more rfl

/-- A minus before an operand negates it. -/
theorem readsBy_negate [IsMove moves] (h : ReadsBy moves awaits unary text p)
    (hfirst : ∀ c more, text = c :: more → c ≠ '-' ∧ c ≠ '=') :
    ReadsBy moves awaits assignment ('-' :: text)
      fun e => ∃ l e', e = .unary l .negate e' ∧ p e' := by
  have hstands : ∀ {s : State} {rest : List Char}, s.Stands ('-' :: text ++ rest) →
      s.token = .mark .minus ∧ s.after = text ++ rest := by
    intro s rest hs
    have hscanned := hs.scanned
    rw [scanToken_negate h.solid hfirst] at hscanned
    obtain ⟨ht, hafter⟩ : .mark .minus = s.token ∧ text ++ rest = s.after := by
      simpa using hscanned
    exact ⟨ht.symm, hafter.symm⟩
  refine readsBy_assignment ⟨⟨'-', text, rfl, by decide, by decide, by decide⟩,
    fun rest _ => ⟨_, _, scanToken_negate h.solid hfirst⟩,
    fun n lineFeeds fuel s rest hn hf hs hrest => ?_⟩ ?_
  · obtain ⟨ht, hafter⟩ := hstands hs
    rw [List.length_cons] at hn hf
    obtain ⟨k, rfl⟩ : ∃ k, n = k + 1 := ⟨n - 1, by omega⟩
    obtain ⟨t, after, hscan⟩ := h.scans rest hrest
    obtain ⟨c, more, htext, hsolid⟩ := h.solid
    obtain ⟨s₁, h₁, hs₁, -, -⟩ := exists_reaches isGap_nil
      ⟨c, more ++ rest, by rw [htext]; rfl, hsolid⟩ hscan s
    obtain ⟨e, s', he, hs', hp⟩ := h.reads k lineFeeds fuel s₁ rest (by omega) (by omega) hs₁ hrest
    refine ⟨.unary (lineFeeds - s.start.count '\n' + 1) .negate e, s', ?_,
      IsMove.trans (IsMove.of_reaches h₁) hs', _, e, rfl, hp⟩
    have hdeeper : (Grammar.upTo (k + 1)).unary (.plain lineFeeds fuel awaits true) s₁ =
        .ok (e, s') := he
    have hstep : ¬ IsStep s.token := by simp [IsStep, ht]
    have hop : unaryOp? s.token = some .negate := by rw [ht]; rfl
    unfold unary
    simp only [run_bind, run_line, bind_ok, run_get, run_atStep hstep, Bool.false_eq_true, if_false,
      hop, run_advance hafter h₁, hdeeper, run_pure]
    rfl
  · intro n lineFeeds fuel s rest hs _
    obtain ⟨ht, -⟩ := hstands hs
    exact arrowFunction?_none (by simp [ht]) (by simp [ht])

end Reader

end CommandFiles.Script
