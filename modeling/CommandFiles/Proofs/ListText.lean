import CommandFiles.Proofs.LiteralText
import Mathlib.Data.List.Forall2

/-! # Texts of lists

Items with commas between them are read one after another, up to the mark that closes them. Texts
that read as expressions make up texts of arrays and objects that do. -/
namespace CommandFiles.Script.Reader

variable {rest gap : List Char} {s s' : State} {awaits : Bool}
  {moves : State → List Char → State → Prop}

/-! ## Lists -/

/-- One round of reading a list: an item with the comma or the closing mark behind it. -/
def listStep {α : Type} (close : Mark) (item : Reader α) (acc : List α) :
    Reader (List α ⊕ List α) := do
  if ← skipMark close then return .inr acc
  let a ← item
  if ← skipMark .comma then return .inl (a :: acc)
  expectMark close
  return .inr (a :: acc)

theorem commaSeparated_eq {α : Type} (close : Mark) (item : Reader α) :
    commaSeparated close item = do
      let items ← loop [] (listStep close item)
      return items.reverse := rfl

/-- Whether a reader takes a text for an item of a list that a mark closes. -/
structure ReadsItem (moves : State → List Char → State → Prop) {α : Type} (item : Reader α)
    (c : Setting) (close : Mark) (text : List Char) (p : α → Prop) : Prop where
  solid : IsSolid text
  scans : ∀ rest, IsEnd rest → ∃ t after, scanToken (text ++ rest) = .ok (t, after)
  opens : ∀ (s : State) (rest : List Char), s.Stands (text ++ rest) → IsEnd rest →
    s.token ≠ .mark close
  reads : ∀ (s : State) (rest : List Char), s.Stands (text ++ rest) → IsEnd rest →
    ∃ a s', item c s = .ok (a, s') ∧ moves s rest s' ∧ p a

/-- What stands behind an item of a list: the other items, each behind a comma and blanks, and what
ends the list. -/
def behindItem (gap stop : List Char) : List (List Char) → List Char
  | [] => stop
  | t :: more => ',' :: (gap ++ (t ++ behindItem gap stop more))

/-- What may stand behind an entry of a list: behind a hole only a comma. -/
structure EndsEntry (hole : Bool) (rest : List Char) : Prop where
  isEnd : IsEnd rest
  comma : hole = true → ∃ more, rest = ',' :: more

/-- Whether a state stands in front of the marks that a text begins with, and what it goes on to can
be gone on to from an earlier state. -/
structure Arrives (moves : State → List Char → State → Prop) (s : State) (rest : List Char)
    (s' : State) : Prop where
  closer : ∀ {q : Char × Mark} {gap more : List Char}, q ∈ closers → IsGap gap →
    rest = gap ++ q.1 :: more → s'.token = .mark q.2 ∧ s'.after = more
  onward : ∀ {more : List Char} {s'' : State}, s'.Reaches more s'' → moves s more s''

/-- Whether a reader takes a text for an entry of a list: an item, or a hole, which has no text. -/
structure ReadsEntry (moves : State → List Char → State → Prop) {α : Type} (item : Reader α)
    (c : Setting) (close : Mark) (hole : Bool) (text : List Char) (p : α → Prop) : Prop where
  begins : ∀ rest, EndsEntry hole rest →
    IsSolid (text ++ rest) ∧ ∃ t after, scanToken (text ++ rest) = .ok (t, after)
  opens : ∀ (s : State) (rest : List Char), s.Stands (text ++ rest) → EndsEntry hole rest →
    s.token ≠ .mark close
  reads : ∀ (s : State) (rest : List Char), s.Stands (text ++ rest) → EndsEntry hole rest →
    ∃ a s', item c s = .ok (a, s') ∧ Arrives moves s rest s' ∧ p a

variable {α β : Type} {item : Reader α} {c : Setting} {close : Char × Mark} {stopGap : List Char}
  {text : β → List Char} {p : β → α → Prop} {hole : β → Bool}

/-- What may stand between the last item of a list and its closing mark: blanks, perhaps behind a
comma. -/
def IsStop (stopGap : List Char) : Prop :=
  IsGap stopGap ∨ ∃ gap, stopGap = ',' :: gap ∧ IsGap gap

theorem isEnd_stop (hclose : close ∈ closers) (hstop : IsStop stopGap) (rest : List Char) :
    IsEnd (stopGap ++ close.1 :: rest) := by
  rcases hstop with hstop | ⟨gap, rfl, -⟩
  · exact isEnd_closer hclose hstop rest
  · exact isEnd_closer (p := (',', .comma)) (by decide) isGap_nil _

theorem isEnd_behindItem (hclose : close ∈ closers) (hstop : IsStop stopGap) (gap : List Char)
    (ts : List (List Char)) (rest : List Char) :
    IsEnd (behindItem gap (stopGap ++ [close.1]) ts ++ rest) := by
  cases ts with
  | nil =>
    rw [behindItem, List.append_assoc]
    exact isEnd_stop hclose hstop rest
  | cons t more => exact isEnd_closer (p := (',', .comma)) (by decide) isGap_nil _

/-- A list that ends with a hole has a comma behind its last entry. -/
def ClosesHoles (hole : β → Bool) (bs : List β) (stopGap : List Char) : Prop :=
  ∀ b ∈ bs.getLast?, hole b = true → ∃ more, stopGap = ',' :: more

theorem closesHoles_items (bs : List β) (stopGap : List Char) :
    ClosesHoles (fun _ => false) bs stopGap := nofun

theorem endsEntry_stop (hclose : close ∈ closers) (hstop : IsStop stopGap) {b : β}
    (hhole : ClosesHoles hole [b] stopGap) (rest : List Char) :
    EndsEntry (hole b) (stopGap ++ close.1 :: rest) := by
  refine ⟨isEnd_stop hclose hstop rest, fun hb => ?_⟩
  obtain ⟨more, rfl⟩ := hhole b rfl hb
  exact ⟨_, rfl⟩

/-- Behind an entry the others stand, or what ends the list. -/
theorem endsEntry_behindItem (hclose : close ∈ closers) (hstop : IsStop stopGap) (gap : List Char)
    (text : β → List Char) {b : β} {bs : List β} (hholes : ClosesHoles hole (b :: bs) stopGap)
    (rest : List Char) :
    EndsEntry (hole b) (behindItem gap (stopGap ++ [close.1]) (bs.map text) ++ rest) := by
  refine ⟨isEnd_behindItem hclose hstop gap _ rest, fun hhole => ?_⟩
  cases bs with
  | nil =>
    obtain ⟨more, rfl⟩ := hholes b rfl hhole
    exact ⟨_, rfl⟩
  | cons b' bs => exact ⟨_, rfl⟩

section Runs

variable [IsMove moves]

theorem IsMove.arrives_at (h : moves s rest s') : Arrives moves s rest s' where
  closer := by
    rintro q gap more hq hgap rfl
    exact IsMove.closer hq hgap h
  onward h' := IsMove.trans h (IsMove.of_reaches h')

/-- An item is an entry. -/
theorem ReadsItem.entry {itemText : List Char} {close : Mark} {q : α → Prop}
    (h : ReadsItem moves item c close itemText q) :
    ReadsEntry moves item c close false itemText q where
  begins rest hrest := ⟨h.solid.append rest, h.scans rest hrest.isEnd⟩
  opens s rest hs hrest := h.opens s rest hs hrest.isEnd
  reads s rest hs hrest := by
    obtain ⟨a, s', ha, hs', hq⟩ := h.reads s rest hs hrest.isEnd
    exact ⟨a, s', ha, IsMove.arrives_at hs', hq⟩

/-- The last entry is read together with what closes the list. -/
theorem run_lastEntry (hclose : close ∈ closers) (hcomma : close.2 ≠ .comma)
    (hstop : IsStop stopGap) {rest : List Char} (hrest : HasToken rest) {b : β} (acc : List α)
    (k : Nat) (hb : ReadsEntry moves item c close.2 (hole b) (text b) (p b))
    (hhole : ClosesHoles hole [b] stopGap)
    (hs : s.Stands (text b ++ (stopGap ++ close.1 :: rest))) :
    ∃ a s', repeatUpTo (listStep close.2 item) (k + 2) acc c s = .ok (a :: acc, s') ∧
      moves s rest s' ∧ p b a := by
  have hend := endsEntry_stop hclose hstop hhole rest
  obtain ⟨a, s₁, ha, hs₁, hp⟩ := hb.reads s _ hs hend
  have hopens := run_skipMark_other (c := c) (hb.opens s _ hs hend)
  rcases hstop with hgap | ⟨gap, rfl, hgap⟩
  · obtain ⟨ht₁, hafter₁⟩ := hs₁.closer hclose hgap rfl
    obtain ⟨s₂, h₂⟩ := hrest.exists_reaches s₁
    refine ⟨a, s₂, ?_, hs₁.onward h₂, hp⟩
    have hcomma₁ : s₁.token ≠ .mark .comma := by rw [ht₁]; simpa using hcomma
    simp only [repeatUpTo, listStep, run_bind, hopens, bind_ok, Bool.false_eq_true, if_false, ha,
      run_skipMark_other hcomma₁, run_expectMark ht₁ hafter₁ h₂, run_pure]
  · -- behind a last comma another round finds the closing mark
    have hmark := closers_literalMarks hclose
    obtain ⟨ht₁, hafter₁⟩ := hs₁.closer (q := (',', .comma)) (by decide) isGap_nil rfl
    obtain ⟨s₂, h₂, -, ht₂, hafter₂⟩ := exists_reaches hgap (solid_literalMark hmark rest)
      (scanToken_literalMark hmark rest) s₁
    obtain ⟨s₃, h₃⟩ := hrest.exists_reaches s₂
    refine ⟨a, s₃, ?_, IsMove.trans (hs₁.onward h₂) (IsMove.of_reaches h₃), hp⟩
    simp only [repeatUpTo, listStep, run_bind, hopens, bind_ok, Bool.false_eq_true, if_false, ha,
      run_skipMark ht₁ hafter₁ h₂, if_true, run_pure, run_skipMark ht₂ hafter₂ h₃]

/-- Entries are read one after another up to the mark that closes the list. -/
theorem run_entries (hclose : close ∈ closers) (hcomma : close.2 ≠ .comma) (hgap : IsGap gap)
    (hstop : IsStop stopGap) {rest : List Char} (hrest : HasToken rest) (bs : List β) :
    ∀ (b : β) (acc : List α) (k : Nat) (s : State),
      (∀ b' ∈ b :: bs, ReadsEntry moves item c close.2 (hole b') (text b') (p b')) →
      ClosesHoles hole (b :: bs) stopGap → bs.length + 1 < k →
      s.Stands (text b ++ (behindItem gap (stopGap ++ [close.1]) (bs.map text) ++ rest)) →
      ∃ as s', repeatUpTo (listStep close.2 item) k acc c s = .ok (as.reverse ++ acc, s') ∧
        moves s rest s' ∧ List.Forall₂ p (b :: bs) as := by
  induction bs with
  | nil =>
    -- the last entry, with the closing mark behind it
    intro b acc k s hitems hholes hk hs
    obtain ⟨k, rfl⟩ : ∃ j, k = j + 2 := ⟨k - 2, by rw [List.length_nil] at hk; omega⟩
    rw [List.map_nil, behindItem, List.append_assoc, List.singleton_append] at hs
    obtain ⟨a, s', ha, hs', hp⟩ :=
      run_lastEntry hclose hcomma hstop hrest acc k (hitems b List.mem_cons_self) hholes hs
    exact ⟨[a], s', ha, hs', .cons hp .nil⟩
  | cons b' bs ih =>
    -- an entry with a comma behind it, and the others from there on
    intro b acc k s hitems hholes hk hs
    obtain ⟨k, rfl⟩ : ∃ j, k = j + 1 := ⟨k - 1, by omega⟩
    have hb := hitems b List.mem_cons_self
    have hb' := hitems b' (List.mem_cons_of_mem b List.mem_cons_self)
    have hholes' : ClosesHoles hole (b' :: bs) stopGap := by
      rw [ClosesHoles, List.getLast?_cons_cons] at hholes
      exact hholes
    have hend := endsEntry_behindItem hclose hstop gap text hholes rest
    obtain ⟨a, s₁, ha, hs₁, hp⟩ := hb.reads s _ hs hend
    obtain ⟨hsolid', t, after, hscan⟩ :=
      hb'.begins _ (endsEntry_behindItem hclose hstop gap text hholes' rest)
    rw [List.map_cons, behindItem, List.cons_append, List.append_assoc, List.append_assoc] at hs₁
    obtain ⟨ht₁, hafter₁⟩ := hs₁.closer (q := (',', .comma)) (by decide) isGap_nil rfl
    obtain ⟨s₂, h₂, hs₂, -, -⟩ := exists_reaches hgap hsolid' hscan s₁
    obtain ⟨as, s', has, hs', hps⟩ := ih b' (a :: acc) k s₂
      (fun b'' h => hitems b'' (List.mem_cons_of_mem b h)) hholes' (by simpa using hk) hs₂
    refine ⟨a :: as, s', ?_, IsMove.trans (hs₁.onward h₂) hs', .cons hp hps⟩
    simp only [repeatUpTo, listStep, run_bind, run_skipMark_other (hb.opens s _ hs hend), bind_ok,
      Bool.false_eq_true, if_false, ha, run_skipMark ht₁ hafter₁ h₂, if_true, run_pure, has,
      List.reverse_cons, List.append_assoc, List.singleton_append]

/-- What stands behind the opening mark of a list: items with commas between them, or the closing
mark at once. -/
def inBrackets (gap stopGap : List Char) (close : Char) : List (List Char) → List Char
  | [] => [close]
  | t :: more => gap ++ (t ++ behindItem gap (stopGap ++ [close]) more)

theorem length_behindItem (gap stop : List Char) (ts : List (List Char)) :
    ts.length + stop.length ≤ (behindItem gap stop ts).length ∧
      ∀ t ∈ ts, t.length ≤ (behindItem gap stop ts).length := by
  induction ts with
  | nil => simp [behindItem]
  | cons t more ih =>
    obtain ⟨hcount, hlength⟩ := ih
    simp only [behindItem, List.length_cons, List.length_append]
    refine ⟨by omega, fun t' ht' => ?_⟩
    rcases List.mem_cons.mp ht' with rfl | ht'
    · omega
    · have := hlength t' ht'
      omega

theorem length_firstItem (gap stopGap : List Char) (close : Char) (t : List Char)
    (more : List (List Char)) :
    (t :: more).length ≤ (t ++ behindItem gap (stopGap ++ [close]) more).length ∧
      ∀ t' ∈ t :: more, t'.length ≤ (t ++ behindItem gap (stopGap ++ [close]) more).length := by
  obtain ⟨hcount, hlength⟩ := length_behindItem gap (stopGap ++ [close]) more
  simp only [List.length_append, List.length_cons, List.length_nil] at hcount ⊢
  refine ⟨by omega, fun t' ht' => ?_⟩
  rcases List.mem_cons.mp ht' with rfl | ht'
  · omega
  · have := hlength t' ht'
    omega

theorem length_inBrackets (gap stopGap : List Char) (close : Char) (ts : List (List Char)) :
    ts.length ≤ (inBrackets gap stopGap close ts).length ∧
      ∀ t ∈ ts, t.length ≤ (inBrackets gap stopGap close ts).length := by
  cases ts with
  | nil => simp
  | cons t more =>
    obtain ⟨hcount, hlength⟩ := length_firstItem gap stopGap close t more
    rw [inBrackets, List.length_append]
    exact ⟨Nat.le_trans hcount (Nat.le_add_left ..), fun t' ht' =>
      Nat.le_trans (hlength t' ht') (Nat.le_add_left ..)⟩

/-- A list with an entry is read from its opening mark on, whatever blanks stand before the entry. -/
theorem run_listFrom {first : List Char} (hfirst : IsGap first) (close : Char × Mark)
    (hclose : close ∈ closers) (hcomma : close.2 ≠ .comma) (hgap : IsGap gap)
    (hstop : IsStop stopGap) {rest : List Char} (hrest : HasToken rest) {b : β} {bs : List β}
    (hitems : ∀ b' ∈ b :: bs, ReadsEntry moves item c close.2 (hole b') (text b') (p b'))
    (hholes : ClosesHoles hole (b :: bs) stopGap) (hf : bs.length + 2 < c.fuel)
    (hafter : s.after =
      first ++ (text b ++ (behindItem gap (stopGap ++ [close.1]) (bs.map text) ++ rest))) :
    ∃ s₁ as s', advance c s = .ok ((), s₁) ∧ commaSeparated close.2 item c s₁ = .ok (as, s') ∧
      moves s rest s' ∧ List.Forall₂ p (b :: bs) as := by
  obtain ⟨hsolid, t, after, hscan⟩ := (hitems b List.mem_cons_self).begins _
    (endsEntry_behindItem hclose hstop gap text hholes rest)
  obtain ⟨s₁, h₁, hs₁, -, -⟩ := exists_reaches hfirst hsolid hscan s
  obtain ⟨as, s', has, hs', hps⟩ := run_entries hclose hcomma hgap hstop hrest bs b [] c.fuel s₁
    hitems hholes (by omega) hs₁
  refine ⟨s₁, as, s', run_advance hafter h₁, ?_, IsMove.trans (IsMove.of_reaches h₁) hs', hps⟩
  simp only [commaSeparated_eq, run_bind, run_loop, has, bind_ok, run_pure, List.append_nil,
    List.reverse_reverse]

/-- **A list is read entry by entry from its opening mark on, and ends behind its closing mark.** -/
theorem run_list (close : Char × Mark) (hclose : close ∈ closers) (hcomma : close.2 ≠ .comma)
    (hgap : IsGap gap) (hstop : IsStop stopGap) {rest : List Char} (hrest : HasToken rest)
    {bs : List β}
    (hitems : ∀ b ∈ bs, ReadsEntry moves item c close.2 (hole b) (text b) (p b))
    (hholes : ClosesHoles hole bs stopGap) (hf : bs.length + 1 < c.fuel)
    (hafter : s.after = inBrackets gap stopGap close.1 (bs.map text) ++ rest) :
    ∃ s₁ as s', advance c s = .ok ((), s₁) ∧ commaSeparated close.2 item c s₁ = .ok (as, s') ∧
      moves s rest s' ∧ List.Forall₂ p bs as := by
  cases bs with
  | nil =>
    obtain ⟨k, hk⟩ : ∃ k, c.fuel = k + 1 := ⟨c.fuel - 1, by omega⟩
    have hmark := closers_literalMarks hclose
    obtain ⟨s₁, h₁, -, ht₁, hafter₁⟩ := exists_reaches isGap_nil (solid_literalMark hmark rest)
      (scanToken_literalMark hmark rest) s
    obtain ⟨s₂, h₂⟩ := hrest.exists_reaches s₁
    refine ⟨s₁, [], s₂, run_advance hafter h₁, ?_,
      IsMove.trans (IsMove.of_reaches h₁) (IsMove.of_reaches h₂), .nil⟩
    simp only [commaSeparated_eq, run_bind, run_loop, hk, repeatUpTo, listStep,
      run_skipMark ht₁ hafter₁ h₂, bind_ok, if_true, run_pure, List.reverse_nil]
  | cons b bs =>
    rw [List.map_cons, inBrackets, List.append_assoc, List.append_assoc] at hafter
    exact run_listFrom hgap close hclose hcomma hgap hstop hrest hitems hholes hf hafter

theorem opensOperand_mark {p : Char × Mark} (hp : p ∈ literalMarks)
    (hopen : p.2 = .bracketOpen ∨ p.2 = .braceOpen) (inner : List Char) :
    OpensOperand (p.1 :: inner) := by
  intro s rest hs _
  have hscanned := hs.scanned
  rw [List.cons_append, scanToken_literalMark hp] at hscanned
  obtain ⟨ht, -⟩ : .mark p.2 = s.token ∧ inner ++ rest = s.after := by simpa using hscanned
  refine ⟨?_, ?_, fun w escaped hw => ?_⟩
  · rw [← ht]
    rcases hopen with h | h <;> rw [h] <;> rfl
  · rw [← ht]
    rcases hopen with h | h <;> simp [h]
  · rw [← ht] at hw
    cases hw

/-- Texts in brackets are an expression of the items they are read as, if the rule that the opening
mark begins reads a list of such items. -/
theorem readsBy_bracketed (opening close : Char × Mark) (item : Grammar → Reader α)
    {node : Nat → List α → Expr} (hopen : opening ∈ literalMarks)
    (hopening : opening.2 = .bracketOpen ∨ opening.2 = .braceOpen) (hclose : close ∈ closers)
    (hcomma : close.2 ≠ .comma) (hgap : IsGap gap) (hstop : IsStop stopGap) {bs : List β}
    (hitems : ∀ b ∈ bs, ∀ n lineFeeds fuel, 8 * (text b).length ≤ n → (text b).length < fuel →
      ReadsItem moves (item (Grammar.upTo (n + 1))) (.plain lineFeeds fuel awaits true) close.2
        (text b) (p b))
    (hprimary : ∀ {g : Grammar} {lineFeeds fuel : Nat} {s s₁ s' : State} {as : List α},
      s.token = .mark opening.2 →
      advance (.plain lineFeeds fuel awaits true) s = .ok ((), s₁) →
      commaSeparated close.2 (item g) (.plain lineFeeds fuel awaits true) s₁ = .ok (as, s') →
      ∃ l, primary g (.plain lineFeeds fuel awaits true) s = .ok (node l as, s')) :
    ReadsBy moves awaits assignment (opening.1 :: inBrackets gap stopGap close.1 (bs.map text))
      fun e => ∃ l as, e = node l as ∧ List.Forall₂ p bs as := by
  obtain ⟨hcount, hlength⟩ := length_inBrackets gap stopGap close.1 (bs.map text)
  rw [List.length_map] at hcount
  have hopens := opensOperand_mark hopen hopening (inBrackets gap stopGap close.1 (bs.map text))
  refine readsBy_assignment_of_leftHand hopens (readsBy_leftHand hopens
    ⟨solid_literalMark hopen _, fun rest _ => ⟨_, _, scanToken_literalMark hopen _⟩, ?_⟩)
  intro n lineFeeds fuel s rest hn hf hs hrest
  rw [List.length_cons] at hn hf
  obtain ⟨k, rfl⟩ : ∃ k, n = k + 1 := ⟨n - 1, by omega⟩
  have hscanned := hs.scanned
  rw [List.cons_append, scanToken_literalMark hopen] at hscanned
  obtain ⟨ht, hafter⟩ := Prod.mk.inj (Except.ok.inj hscanned)
  have hall : ∀ b ∈ bs, ReadsItem moves (item (Grammar.upTo (k + 1)))
      (.plain lineFeeds fuel awaits true) close.2 (text b) (p b) := by
    intro b hb
    have hb' := hlength _ (List.mem_map_of_mem hb)
    exact hitems b hb k lineFeeds fuel (by omega) (by omega)
  have hcf : bs.length + 1 < (Setting.plain lineFeeds fuel awaits true).fuel := by
    change bs.length + 1 < fuel
    omega
  obtain ⟨s₁, as, s', hadvance, has, hs', hps⟩ :=
    run_list close hclose hcomma hgap hstop hrest.hasToken (fun b hb => (hall b hb).entry)
      (closesHoles_items bs stopGap) hcf hafter.symm
  obtain ⟨l, hl⟩ := hprimary ht.symm hadvance has
  exact ⟨_, s', hl, hs', l, as, rfl, hps⟩

end Runs

/-! ## Arrays -/

/-- Reads an element of an array, which may be a hole, or an argument of a call. -/
def element (g : Grammar) (close : Mark) (holes : Bool) : Reader Element := do
  if holes && (← atMark .comma) then return .hole
  let l ← line
  if ← skipMark .ellipsis then
    let e ← g.assignment
    if holes then noteRestComma close
    return .spread l e
  return .item (← g.assignment)

theorem elements_eq (g : Grammar) (close : Mark) (holes : Bool) :
    elements g close holes = commaSeparated close (element g close holes) := rfl

variable {q : Expr → Prop} {elementText : List Char} {n lineFeeds fuel : Nat}

theorem not_unfit (h : ReadsBy moves awaits assignment elementText q) {s : State} {rest : List Char}
    (hs : s.Stands (elementText ++ rest)) (hrest : IsEnd rest) {m : Mark}
    (hm : m ∈ unfit) : s.token ≠ .mark m := by
  intro ht
  obtain ⟨e, s', he, -⟩ := h.reads _ 0 _ s rest (Nat.le_refl _) (Nat.lt_succ_self _) hs hrest
  obtain ⟨fault, hfault⟩ : ∃ fault, assignment (Grammar.upTo (8 * elementText.length))
      (.plain 0 elementText.length.succ awaits true) s = .error fault := assignment_eq_error hm ht
  rw [he] at hfault
  cases hfault

theorem readsItem_element {close : Mark} (hclose : close ∈ unfit) (holes : Bool)
    (h : ReadsBy moves awaits assignment elementText q) (hn : 8 * elementText.length ≤ n)
    (hf : elementText.length < fuel) :
    ReadsItem moves (element (Grammar.upTo (n + 1)) close holes)
      (.plain lineFeeds fuel awaits true) close elementText fun a => ∃ e, a = .item e ∧ q e where
  solid := h.solid
  scans := h.scans
  opens s rest hs hrest := not_unfit h hs hrest hclose
  reads s rest hs hrest := by
    obtain ⟨e, s', he, hs', hq⟩ := h.reads n lineFeeds fuel s rest hn hf hs hrest
    have hassignment : (Grammar.upTo (n + 1)).assignment (.plain lineFeeds fuel awaits true) s =
        .ok (e, s') := he
    refine ⟨.item e, s', ?_, hs', e, rfl, hq⟩
    unfold element
    simp only [run_bind, run_atMark_other (not_unfit h hs hrest (m := .comma) (by decide)), bind_ok,
      Bool.and_false, Bool.false_eq_true, if_false, run_line,
      run_skipMark_other (not_unfit h hs hrest (m := .ellipsis) (by decide)), hassignment, run_pure]

/-- A bracket begins an array of the elements that are read behind it. -/
theorem primary_array {g : Grammar} {lineFeeds fuel : Nat} {returnTypes : Bool} {s s₁ s' : State}
    {elements : List Element} (ht : s.token = .mark .bracketOpen)
    (hadvance : advance (.plain lineFeeds fuel awaits returnTypes) s = .ok ((), s₁))
    (hread : commaSeparated .bracketClose (element g .bracketClose true)
      (.plain lineFeeds fuel awaits returnTypes) s₁ = .ok (elements, s')) :
    ∃ l, primary g (.plain lineFeeds fuel awaits returnTypes) s = .ok (.array l elements, s') := by
  refine ⟨lineFeeds - s.start.count '\n' + 1, ?_⟩
  change commaSeparated .bracketClose (element g .bracketClose true)
    { Setting.plain lineFeeds fuel awaits returnTypes with inOperator := true } s₁ = _ at hread
  unfold primary arrayLiteral
  simp only [run_bind, run_line, bind_ok, run_get, ht, hadvance, run_under, elements_eq, hread,
    run_pure]
  rfl

/-- **Texts of elements in brackets are read as the array of what they are read as.** -/
theorem readsBy_array [IsMove moves] {q : β → Expr → Prop} (hgap : IsGap gap)
    (hstop : IsStop stopGap) {bs : List β}
    (h : ∀ b ∈ bs, ReadsBy moves awaits assignment (text b) (q b)) :
    ReadsBy moves awaits assignment ('[' :: inBrackets gap stopGap ']' (bs.map text)) fun e =>
      ∃ l elements, e = .array l elements ∧
        List.Forall₂ (fun b a => ∃ e, a = .item e ∧ q b e) bs elements := by
  exact readsBy_bracketed ('[', .bracketOpen) (']', .bracketClose)
    (fun g => element g .bracketClose true) (by decide) (.inl rfl) (by decide) (by decide) hgap
    hstop (fun b hb n lineFeeds fuel hn hf => readsItem_element (by decide) true (h b hb) hn hf)
    primary_array

theorem reads_array {q : β → Expr → Prop} (hgap : IsGap gap) (hstop : IsGap stopGap) {bs : List β}
    (h : ∀ b ∈ bs, Reads awaits assignment (text b) (q b)) :
    Reads awaits assignment ('[' :: inBrackets gap stopGap ']' (bs.map text)) fun e =>
      ∃ l elements, e = .array l elements ∧
        List.Forall₂ (fun b a => ∃ e, a = .item e ∧ q b e) bs elements :=
  reads_iff.mpr (readsBy_array hgap (.inl hstop) fun b hb => reads_iff.mp (h b hb))

/-! ## Objects -/

/-- Whether a text is the key of a property, as a word or in quotes. -/
def IsKey (keyText : List Char) (k : String) : Prop :=
  IsWord k.toList ∧ keyText = k.toList ∨ keyText = (Json.quote k).toList

variable {keyText : List Char} {k : String}

theorem IsKey.solid (h : IsKey keyText k) : IsSolid keyText := by
  rcases h with ⟨hk, rfl⟩ | rfl
  · exact hk.solid
  · rw [Json.quote, String.toList_ofList]
    exact ⟨'"', _, rfl, by decide, by decide, by decide⟩

theorem IsKey.scan (h : IsKey keyText k) (rest : List Char) :
    ∃ t, scanToken (keyText ++ ':' :: rest) = .ok (t, ':' :: rest) ∧
      (t = .word k false ∨ t = .string k) := by
  rcases h with ⟨hk, rfl⟩ | rfl
  · have hend : EndsWord (':' :: rest) := (isEnd_closer (p := (':', .colon)) (by decide) isGap_nil
      rest).word
    exact ⟨_, by rw [scanToken_word hk hend, String.ofList_toList], .inl rfl⟩
  · exact ⟨_, scanToken_quote k _, .inr rfl⟩

/-- A key with a colon behind it is the key of a plain property. -/
theorem run_value {g : Grammar} {s₁ s₂ : State} {key : Key} {more : List Char}
    (hellipsis : s.token ≠ .mark .ellipsis) (htimes : s.token ≠ .mark .times)
    (hmodifier : propertyModifier? c s = .ok (none, s)) (hkey : propertyKey g c s = .ok (key, s₁))
    (ht₁ : s₁.token = .mark .colon) (hafter₁ : s₁.after = more) (h₂ : s₁.Reaches more s₂) {e : Expr}
    (he : g.assignment c s₂ = .ok (e, s')) : ∃ l, property g c s = .ok (.value l key e, s') := by
  obtain ⟨named, hnamed⟩ : ∃ b, atIdentifier c s = .ok (b, s) := ⟨_, rfl⟩
  have hparen : s₁.token ≠ .mark .parenOpen := by simp [ht₁]
  have hless : s₁.token ≠ .mark .less := by simp [ht₁]
  refine ⟨c.lineFeeds - s.start.count '\n' + 1, ?_⟩
  unfold property
  simp only [run_bind, run_get, run_line, bind_ok, run_skipMark_other hellipsis,
    run_skipMark_other htimes, Bool.false_eq_true, if_false, hmodifier, Option.isSome_none, hnamed,
    hkey, run_atMark_other hparen, run_atMark_other hless, Bool.or_self,
    run_skipMark ht₁ hafter₁ h₂, if_true, he, run_pure]

theorem peek_colon (rest : List Char) : (Peek.ofText (':' :: rest)).token = .mark .colon := by
  have hcolon : (':', Mark.colon) ∈ literalMarks := by decide
  rw [Peek.ofText_eq (skipTrivia_solid (solid_literalMark hcolon rest) false)
    (scanToken_literalMark hcolon rest)]

/-- In front of a colon no word makes a property a method or an accessor. -/
theorem run_propertyModifier? {rest : List Char} (hafter : s.after = ':' :: rest) :
    propertyModifier? c s = .ok (none, s) := by
  have hpeek : (Peek.ofText s.after).token = .mark .colon := by rw [hafter, peek_colon]
  have hname : (Peek.ofText s.after).isPropertyName = false := by
    unfold Peek.isPropertyName
    rw [hpeek]
  have htimes : (Peek.ofText s.after).isMark .times = false := by
    unfold Peek.isMark
    rw [hpeek]
    rfl
  unfold propertyModifier?
  simp only [run_bind, run_peek, run_get, bind_ok]
  generalize s.token = t
  split
  · rw [hname, htimes]; rfl
  · rw [hname]; rfl
  · rw [hname]; rfl
  · rfl

theorem run_propertyKey {g : Grammar} {s₁ : State}
    (ht : s.token = .word k false ∨ s.token = .string k) (h₁ : s.Reaches s.after s₁) :
    propertyKey g c s = .ok (.fixed k, s₁) := by
  unfold propertyKey
  rcases ht with ht | ht
  · simp only [run_bind, run_get, bind_ok, ht, run_advance rfl h₁, run_pure]
  · simp only [run_bind, run_get, bind_ok, ht, run_advance rfl h₁, run_pure]

/-- A word or a text in quotes with a colon behind it is a key. -/
theorem run_key {g : Grammar} {s₁ s₂ : State} {rest more : List Char}
    (ht : s.token = .word k false ∨ s.token = .string k) (hafter : s.after = ':' :: rest)
    (h₁ : s.Reaches (':' :: rest) s₁) (ht₁ : s₁.token = .mark .colon) (hafter₁ : s₁.after = more)
    (h₂ : s₁.Reaches more s₂) {e : Expr} (he : g.assignment c s₂ = .ok (e, s')) :
    ∃ l, property g c s = .ok (.value l (.fixed k) e, s') := by
  have hmark : ∀ m, s.token ≠ .mark m := by
    intro m hm
    rcases ht with h | h <;> rw [h] at hm <;> cases hm
  exact run_value (hmark .ellipsis) (hmark .times) (run_propertyModifier? hafter)
    (run_propertyKey ht (hafter ▸ h₁)) ht₁ hafter₁ h₂ he

theorem readsItem_property [IsMove moves] (hkey : IsKey keyText k)
    (h : ReadsBy moves awaits assignment elementText q) (hn : 8 * elementText.length ≤ n)
    (hf : elementText.length < fuel) :
    ReadsItem moves (property (Grammar.upTo (n + 1))) (.plain lineFeeds fuel awaits true)
      .braceClose (keyText ++ ':' :: ' ' :: elementText)
      fun a => ∃ l e, a = .value l (.fixed k) e ∧ q e := by
  have hstands : ∀ {s : State} {rest : List Char},
      s.Stands (keyText ++ ':' :: ' ' :: elementText ++ rest) →
      (s.token = .word k false ∨ s.token = .string k) ∧
        s.after = ':' :: (' ' :: (elementText ++ rest)) := by
    intro s rest hs
    have hscanned := hs.scanned
    obtain ⟨t, hscan, ht⟩ := hkey.scan (' ' :: (elementText ++ rest))
    rw [List.append_assoc, List.cons_append, List.cons_append, hscan] at hscanned
    obtain ⟨rfl, hafter⟩ : t = s.token ∧ ':' :: ' ' :: (elementText ++ rest) = s.after := by
      simpa using hscanned
    exact ⟨ht, hafter.symm⟩
  refine ⟨hkey.solid.append _, fun rest _ => ?_, fun s rest hs _ => ?_, fun s rest hs hrest => ?_⟩
  · obtain ⟨t, hscan, -⟩ := hkey.scan (' ' :: (elementText ++ rest))
    rw [List.append_assoc, List.cons_append, List.cons_append]
    exact ⟨t, _, hscan⟩
  · obtain ⟨ht, -⟩ := hstands hs
    rcases ht with ht | ht <;> simp [ht]
  · obtain ⟨ht, hafter⟩ := hstands hs
    have hcolon : (':', Mark.colon) ∈ literalMarks := by decide
    obtain ⟨s₁, h₁, -, ht₁, hafter₁⟩ := exists_reaches isGap_nil (solid_literalMark hcolon _)
      (scanToken_literalMark hcolon (' ' :: (elementText ++ rest))) s
    obtain ⟨t, after, hscan⟩ := h.scans rest hrest
    obtain ⟨s₂, h₂, hs₂, -⟩ := exists_reaches isGap_blank (h.solid.append rest) hscan s₁
    obtain ⟨e, s', he, hs', hq⟩ := h.reads n lineFeeds fuel s₂ rest hn hf hs₂ hrest
    obtain ⟨l, hl⟩ := run_key (g := Grammar.upTo (n + 1)) ht hafter h₁ ht₁ hafter₁ h₂ he
    exact ⟨_, s', hl,
      IsMove.trans (IsMove.trans (IsMove.of_reaches h₁) (IsMove.of_reaches h₂)) hs', l, e, rfl, hq⟩

/-- A brace begins an object of the properties that are read behind it. -/
theorem primary_object {g : Grammar} {lineFeeds fuel : Nat} {returnTypes : Bool} {s s₁ s' : State}
    {properties : List Property} (ht : s.token = .mark .braceOpen)
    (hadvance : advance (.plain lineFeeds fuel awaits returnTypes) s = .ok ((), s₁))
    (hread : commaSeparated .braceClose (property g) (.plain lineFeeds fuel awaits returnTypes) s₁ =
      .ok (properties, s')) :
    ∃ l, primary g (.plain lineFeeds fuel awaits returnTypes) s =
      .ok (.object l properties, s') := by
  refine ⟨lineFeeds - s.start.count '\n' + 1, ?_⟩
  change commaSeparated .braceClose (property g)
    { Setting.plain lineFeeds fuel awaits returnTypes with inOperator := true } s₁ = _ at hread
  unfold primary objectLiteral
  simp only [run_bind, run_line, bind_ok, run_get, ht, hadvance, run_under, hread, run_pure]
  rfl

/-- **Texts of keys and values in braces are read as the object of what they are read as.** -/
theorem readsBy_object [IsMove moves] {key : β → String} {keyText valueText : β → List Char}
    {q : β → Expr → Prop}
    (hgap : IsGap gap) (hstop : IsStop stopGap) {bs : List β}
    (hkey : ∀ b ∈ bs, IsKey (keyText b) (key b))
    (h : ∀ b ∈ bs, ReadsBy moves awaits assignment (valueText b) (q b)) :
    ReadsBy moves awaits assignment ('{' :: inBrackets gap stopGap '}'
        (bs.map fun b => keyText b ++ ':' :: ' ' :: valueText b)) fun e =>
      ∃ l properties, e = .object l properties ∧
        List.Forall₂ (fun b a => ∃ l e, a = .value l (.fixed (key b)) e ∧ q b e) bs properties := by
  refine readsBy_bracketed ('{', .braceOpen) ('}', .braceClose) property
    (by decide) (.inr rfl) (by decide) (by decide) hgap hstop
    (fun b hb n lineFeeds fuel hn hf => ?_) primary_object
  simp only [List.length_append, List.length_cons] at hn hf
  exact readsItem_property (hkey b hb) (h b hb) (by omega) (by omega)

theorem reads_object {key : β → String} {keyText valueText : β → List Char} {q : β → Expr → Prop}
    (hgap : IsGap gap) (hstop : IsGap stopGap) {bs : List β}
    (hkey : ∀ b ∈ bs, IsKey (keyText b) (key b))
    (h : ∀ b ∈ bs, Reads awaits assignment (valueText b) (q b)) :
    Reads awaits assignment ('{' :: inBrackets gap stopGap '}'
        (bs.map fun b => keyText b ++ ':' :: ' ' :: valueText b)) fun e =>
      ∃ l properties, e = .object l properties ∧
        List.Forall₂ (fun b a => ∃ l e, a = .value l (.fixed (key b)) e ∧ q b e) bs properties :=
  reads_iff.mpr (readsBy_object hgap (.inl hstop) hkey fun b hb => reads_iff.mp (h b hb))

end CommandFiles.Script.Reader
