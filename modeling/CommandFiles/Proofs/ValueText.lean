import CommandFiles.Cache
import CommandFiles.Proofs.ChainText
import CommandFiles.Proofs.FunctionText
import CommandFiles.Proofs.ModuleText

/-! # Texts of values

A value is written as a literal that comes back as the value, whatever else stands in it: texts in
quotes, names without quotes where they are plain, negative numbers, and functions in their own
words. Minus zero is written as zero. -/
namespace CommandFiles

open Script Script.Reader

namespace Value

/-! ## Parts of values -/

/-- Whether a value is another one or stands in it at some depth. -/
inductive Within : Value → Value → Prop
  | self (v : Value) : Within v v
  | item {w u : Value} {items : List Value} : Within w u → u ∈ items → Within w (.array items)
  | field {w u : Value} {k : String} {fields : List (String × Value)} :
    Within w u → (k, u) ∈ fields → Within w (.object ⟨fields⟩)

mutual

/-- A value with zero in place of every minus zero. -/
def plainZeros : Value → Value
  | .number x => .number (if x == 0.0 then 0.0 else x)
  | .array items => .array (plainZerosInItems items)
  | .object ⟨fields⟩ => .object ⟨plainZerosInFields fields⟩
  | v => v

/-- Items with zero in place of every minus zero. -/
def plainZerosInItems : List Value → List Value
  | [] => []
  | v :: rest => plainZeros v :: plainZerosInItems rest

/-- Fields with zero in place of every minus zero. -/
def plainZerosInFields : List (String × Value) → List (String × Value)
  | [] => []
  | (k, v) :: rest => (k, plainZeros v) :: plainZerosInFields rest

end

theorem itemSources_eq (depth : Nat) (items : List Value) :
    itemSources depth items = items.map (sourceAt depth) := by
  induction items with
  | nil => rfl
  | cons v rest ih => rw [itemSources, ih, List.map_cons]

theorem fieldSources_eq (depth : Nat) (fields : List (String × Value)) :
    fieldSources depth fields =
      fields.map fun e => keySource e.1 ++ ": " ++ sourceAt depth e.2 := by
  induction fields with
  | nil => rfl
  | cons e rest ih => rw [fieldSources, ih, List.map_cons]

/-- The end of a line and the blanks before the next one. -/
def lineStart (depth : Nat) : List Char := '\n' :: (indent depth).toList

theorem isGap_lineStart (depth : Nat) : IsGap (lineStart depth) := by
  intro c hc
  rw [lineStart, indent, String.toList_ofList] at hc
  rcases List.mem_cons.mp hc with rfl | hc
  · exact .inr rfl
  · exact .inl (List.eq_of_mem_replicate hc)

theorem intercalate_lines (blanks stop t : List Char) (ts : List (List Char)) :
    '\n' :: ([',', '\n'].intercalate ((t :: ts).map (blanks ++ ·)) ++ stop) =
      '\n' :: blanks ++ (t ++ behindItem ('\n' :: blanks) stop ts) := by
  induction ts generalizing t with
  | nil => simp [behindItem]
  | cons t' ts ih =>
    have hrest := ih t'
    rw [List.map_cons] at hrest
    rw [List.map_cons, List.map_cons, List.intercalate_cons_cons, behindItem, ← hrest]
    simp

/-- A block is a list in brackets with every item on a line of its own. -/
theorem toList_block (opening closing : Char) (entries : List String) (depth : Nat) :
    (block (String.singleton opening) (String.singleton closing) entries depth).toList =
      opening :: inBrackets (lineStart (depth + 1)) (lineStart depth) closing
        (entries.map String.toList) := by
  cases entries with
  | nil => simp [block, inBrackets]
  | cons e rest =>
    have hlines := intercalate_lines (indent (depth + 1)).toList (lineStart depth ++ [closing])
      e.toList (rest.map String.toList)
    rw [List.map_cons, inBrackets, lineStart, ← hlines]
    simp only [block, List.isEmpty_cons, Bool.false_eq_true, if_false, String.toList_append,
      String.toList_intercalate, String.toList_singleton, List.map_map, List.map_cons,
      Function.comp_def, lineStart, List.append_assoc, List.cons_append, List.nil_append]
    rfl

theorem toList_sourceAt_array (depth : Nat) (items : List Value) :
    (sourceAt depth (.array items)).toList =
      '[' :: inBrackets (lineStart (depth + 1)) (lineStart depth) ']'
        (items.map fun u => (u.sourceAt (depth + 1)).toList) := by
  have hblock := toList_block '[' ']' (items.map (sourceAt (depth + 1))) depth
  rw [List.map_map] at hblock
  rw [sourceAt, itemSources_eq]
  exact hblock

theorem toList_sourceAt_object (depth : Nat) (fields : List (String × Value)) :
    (sourceAt depth (.object ⟨fields⟩)).toList =
      '{' :: inBrackets (lineStart (depth + 1)) (lineStart depth) '}'
        (fields.map fun b =>
          (keySource b.1).toList ++ ':' :: ' ' :: (b.2.sourceAt (depth + 1)).toList) := by
  have hblock := toList_block '{' '}'
    (fields.map fun b => keySource b.1 ++ ": " ++ b.2.sourceAt (depth + 1)) depth
  rw [List.map_map] at hblock
  rw [sourceAt, fieldSources_eq]
  refine hblock.trans ?_
  simp [Function.comp_def]

theorem isKey_keySource (k : String) : IsKey (keySource k).toList k := by
  unfold keySource
  split
  · rename_i hplain
    unfold isPlainName at hplain
    cases hk : k.toList with
    | nil => rw [hk] at hplain; cases hplain
    | cons c rest =>
      rw [hk] at hplain
      simp only [Bool.and_eq_true, List.all_eq_true] at hplain
      obtain ⟨hfirst, hrest⟩ := hplain
      have hstart : Text.isIdentifierStart c = true := by
        unfold Text.isIdentifierStart
        rw [hfirst]
        rfl
      refine .inl ⟨⟨⟨c, rest, hk, hstart⟩, ?_⟩, hk.symm⟩
      intro d hd
      rw [hk] at hd
      rcases List.mem_cons.mp hd with rfl | hd
      · simp [isWordPart, Text.isIdentifierPart, hstart]
      · have hpart := hrest d hd
        simp only [Char.isAlphanum, Bool.or_eq_true, beq_iff_eq] at hpart
        rcases hpart with ((h | h) | h) | h <;>
          simp [isWordPart, Text.isIdentifierPart, Text.isIdentifierStart, h]
  · exact .inr rfl

end Value

/-! ## Numerals -/

namespace Script

/-- The number that a text without a sign stands for in a literal: a number, or the name of a value
that no digits can write. -/
def unsignedNumeral? (cs : List Char) : Option Float :=
  if cs = "NaN".toList then some Number.notANumber
  else if cs = "Infinity".toList then some Number.infinity
  else match cs with
    | [] => none
    | c :: _ =>
      if c.isDigit then
        match scanNumber cs with
        | .ok (.number x, []) => some x
        | _ => none
      else none

/-- The number that a text stands for in a literal. -/
def numeral? : List Char → Option Float
  | '-' :: cs => (unsignedNumeral? cs).map (-·)
  | cs => unsignedNumeral? cs

end Script

/-- Whether the text of a number stands for the number, or for zero if the number is minus zero. -/
def ReadsBack (x : Float) : Prop :=
  numeral? (numberText x).toList = some (if x == 0.0 then 0.0 else x)

namespace Literal

variable {s : Scene} {v : Value} {x : Float} {cs : List Char}

/-- Whether an expression has a value, without any fault or warning. -/
def Evaluates (s : Scene) (v : Value) (e : Expr) : Prop := eval s e = pure v

theorem pure_bind_eval {α β : Type} (a : α) (f : α → Eval β) :
    ((pure a : Eval α) >>= f) = f a := rfl

theorem lift_ok {α : Type} (a : α) : (liftExcept (.ok a : Except Fault α) : Eval α) = pure a := rfl

theorem checkLink_false (v : Value) : checkLink false v = pure () := rfl

theorem isPlainWord_NaN : IsPlainWord "NaN" := by decide

theorem isPlainWord_Infinity : IsPlainWord "Infinity" := by decide

theorem isPlainWord_undefined : IsPlainWord "undefined" := by decide

/-- Whether an expression is the number that a text without a sign stands for: a number, or the name
of one. -/
def IsNumeral (cs : List Char) (x : Float) (e : Expr) : Prop :=
  (∃ l, e = .number l x) ∨
    ∃ l w, e = .name l w ∧ cs = w.toList ∧
      (w = "NaN" ∧ x = Number.notANumber ∨ w = "Infinity" ∧ x = Number.infinity)

theorem evaluates_numeral {e : Expr} (h : IsNumeral cs x e) : Evaluates s (.number x) e := by
  rcases h with ⟨l, rfl⟩ | ⟨l, w, rfl, -, ⟨rfl, rfl⟩ | ⟨rfl, rfl⟩⟩
  · rfl
  · rfl
  · rfl

/-- A text without a sign is an operand that is its number. -/
theorem leftHand_numeral (moves : State → List Char → State → Prop) [IsMove moves]
    (h : unsignedNumeral? cs = some x) :
    (OpensOperand cs ∧ ReadsBy moves true leftHand cs (IsNumeral cs x)) ∧
      ∀ c more, cs = c :: more → c ≠ '-' ∧ c ≠ '=' := by
  have hname {w : String} (hw : IsPlainWord w)
      (hx : w = "NaN" ∧ x = Number.notANumber ∨ w = "Infinity" ∧ x = Number.infinity) :
      OpensOperand w.toList ∧ ReadsBy moves true leftHand w.toList (IsNumeral w.toList x) := by
    have hopens := (scansAs_word hw.word).opensOperand hw.isAtom
    refine ⟨hopens, (readsBy_leftHand hopens (readsBy_name hw)).mono ?_⟩
    rintro e ⟨l, rfl⟩
    exact .inr ⟨l, w, rfl, rfl, hx⟩
  unfold unsignedNumeral? at h
  split at h
  · rename_i hcs
    cases h
    subst hcs
    refine ⟨hname isPlainWord_NaN (.inl ⟨rfl, rfl⟩), fun c more hc => ?_⟩
    obtain ⟨rfl, _⟩ := List.cons.inj hc
    decide
  split at h
  · rename_i hcs
    cases h
    subst hcs
    refine ⟨hname isPlainWord_Infinity (.inr ⟨rfl, rfl⟩), fun c more hc => ?_⟩
    obtain ⟨rfl, _⟩ := List.cons.inj hc
    decide
  split at h
  · cases h
  split at h
  · rename_i c rest _ _ hdigit
    split at h
    · rename_i y hscan
      cases h
      have hopens : OpensOperand (c :: rest) :=
        (scansAs_number hdigit hscan).opensOperand ⟨rfl, by simp, by simp⟩
      refine ⟨⟨hopens, (readsBy_leftHand hopens (readsBy_number hdigit hscan)).mono fun e => .inl⟩,
        ?_⟩
      intro d more hd
      obtain ⟨rfl, _⟩ := List.cons.inj hd
      constructor <;> (rintro rfl; exact absurd hdigit (by decide))
    · cases h
  · cases h

/-- **A numeral comes to its number.** -/
theorem reads_numeral (s : Scene) (h : numeral? cs = some x) :
    Reads true assignment cs (Evaluates s (.number x)) := by
  refine reads_iff.mpr ?_
  unfold numeral? at h
  split at h
  · rename_i rest
    cases hy : unsignedNumeral? rest with
    | none => rw [hy] at h; cases h
    | some y =>
      rw [hy] at h
      cases h
      obtain ⟨⟨hopens, hreads⟩, hfirst⟩ := leftHand_numeral State.Passes hy
      refine (readsBy_negate (readsBy_unary hopens hreads) hfirst).mono ?_
      rintro e ⟨l, e', rfl, he'⟩
      have he' := evaluates_numeral (s := s) he'
      unfold Evaluates at he' ⊢
      rw [eval, he']
      rfl
  · obtain ⟨⟨hopens, hreads⟩, -⟩ := leftHand_numeral State.Passes h
    exact (readsBy_assignment_of_leftHand hopens hreads).mono fun e => evaluates_numeral

/-! ## Helpers -/

theorem guarded_pure (s : Scene) (line : Nat) (v : Value) : guarded s line (pure v) = pure v := rfl

theorem evalElements_items {f : Value → Value} {items : List Value} {elements : List Element}
    (h : List.Forall₂ (fun v a => ∃ e, a = .item e ∧ Evaluates s (f v) e) items elements) :
    evalElements s elements = pure (items.map f) := by
  induction h with
  | nil => rfl
  | cons hv _ ih =>
    obtain ⟨e, rfl, he⟩ := hv
    rw [Evaluates] at he
    rw [evalElements, he, guarded_pure, pure_bind_eval, ih, pure_bind_eval, List.map_cons]

theorem insert_of_not_mem {α : Type} {r : Record α} {key : String} (h : key ∉ r.keys) (value : α) :
    r.insert key value = ⟨r.entries ++ [(key, value)]⟩ := by
  obtain ⟨entries⟩ := r
  rw [Record.insert]
  congr 1
  induction entries with
  | nil => rfl
  | cons e rest ih =>
    obtain ⟨k, v⟩ := e
    have hne : k ≠ key := fun hk => h (by simp [Record.keys, hk])
    have hrest : key ∉ Record.keys ⟨rest⟩ := fun hk => h (List.mem_cons_of_mem k hk)
    rw [Record.insertInto, if_neg hne, ih hrest, List.cons_append]

/-- A new name stays apart from the names that are still to come. -/
theorem nodup_insert_of_cons {α : Type} {r : Record α} {key : String} {rest : List String}
    (h : (r.keys ++ key :: rest).Nodup) (value : α) :
    key ∉ r.keys ∧ ((r.insert key value).keys ++ rest).Nodup := by
  have hnew : key ∉ r.keys := fun hmem =>
    (List.nodup_append.mp h).2.2 key hmem key List.mem_cons_self rfl
  refine ⟨hnew, ?_⟩
  rw [Record.keys_insert, if_neg hnew, List.append_assoc, List.singleton_append]
  exact h

/-- Fields of distinct names are put into an object in their order. -/
theorem evalProperties_values {f : Value → Value} {fields : List (String × Value)}
    {properties : List Property}
    (h : List.Forall₂ (fun b a => ∃ l e, a = .value l (.fixed b.1) e ∧ Evaluates s (f b.2) e)
      fields properties) (object : Record Value)
    (hkeys : (object.keys ++ fields.map Prod.fst).Nodup) :
    evalProperties s properties object =
      pure ⟨object.entries ++ fields.map fun b => (b.1, f b.2)⟩ := by
  induction h generalizing object with
  | nil => rw [evalProperties, List.map_nil, List.append_nil]
  | @cons b a fields properties hb _ ih =>
    obtain ⟨l, e, rfl, he⟩ := hb
    rw [Evaluates] at he
    obtain ⟨hnew, hnodup⟩ := nodup_insert_of_cons hkeys (f b.2)
    have hinsert := insert_of_not_mem hnew (f b.2)
    rw [evalProperties, evalKey, pure_bind_eval, he]
    change (guarded s e.line (pure (f b.2)) >>= fun v =>
      evalProperties s properties (object.insert b.1 v)) = _
    rw [guarded_pure, pure_bind_eval, ih _ hnodup, hinsert, List.map_cons, List.append_assoc,
      List.singleton_append]

/-! ## Values -/

/-- Whether the text of a function stands for the function wherever an expression may stand. -/
def Embeds (s : Scene) (source : String) : Prop :=
  Reads true assignment source.toList (Evaluates s (.function source))

/-- Whether a value can be had back from its text: no object in it has a name twice, its numbers
read back, and the texts of its functions stand for the functions. -/
structure Printable (s : Scene) (v : Value) : Prop where
  keys : ∀ r, Value.Within (.object r) v → r.keys.Nodup
  numbers : ∀ x, Value.Within (.number x) v → ReadsBack x
  functions : ∀ source, Value.Within (.function source) v → Embeds s source

theorem Printable.item {u : Value} {items : List Value} (h : Printable s (.array items))
    (hu : u ∈ items) : Printable s u :=
  ⟨fun r hr => h.keys r (.item hr hu), fun x hx => h.numbers x (.item hx hu),
    fun t ht => h.functions t (.item ht hu)⟩

theorem Printable.field {e : String × Value} {fields : List (String × Value)}
    (h : Printable s (.object ⟨fields⟩)) (he : e ∈ fields) : Printable s e.2 :=
  ⟨fun r hr => h.keys r (.field hr he), fun x hx => h.numbers x (.field hx he),
    fun t ht => h.functions t (.field ht he)⟩

/-- A function with one parameter stands for itself, if its body is an expression that does not
begin with a brace. -/
theorem embeds_arrow (s : Scene) {w : String} {body : List Char} {p : Expr → Prop}
    (hw : IsPlainWord w) (h : Reads false assignment body p)
    (hbody : ∀ (s : State) (rest : List Char), s.Stands (body ++ rest) → IsEnd rest →
      s.token ≠ .mark .braceOpen) : Embeds s (String.ofList (arrowText w body)) := by
  unfold Embeds
  rw [String.toList_ofList]
  refine (reads_arrow hw h hbody).mono ?_
  rintro e ⟨l, rfl⟩
  rfl

/-- The text of a function that comes to a list without items, whatever it is given. -/
theorem embeds_entry (s : Scene) : Embeds s "entry => []" := by
  have hentry : IsPlainWord "entry" := by decide
  have hbody : Reads false assignment "[]".toList fun _ => True := by
    have harray : Reads false assignment
        ('[' :: inBrackets [] [] ']' (([] : List Unit).map fun _ => [])) fun e => ∃ l elements,
          e = .array l elements ∧ List.Forall₂ (fun _ a => ∃ e, a = .item e ∧ True) [] elements :=
      reads_array isGap_nil isGap_nil (by simp)
    exact harray.mono fun _ _ => trivial
  have hopens : ∀ (s : State) (rest : List Char), s.Stands ("[]".toList ++ rest) → IsEnd rest →
      s.token ≠ .mark .braceOpen := by
    intro s rest hs _ ht
    have hscanned := hs.scanned
    change scanToken ('[' :: ']' :: rest) = _ at hscanned
    rw [scanToken_literalMark (m := .bracketOpen) (by decide)] at hscanned
    cases (Prod.mk.inj (Except.ok.inj hscanned)).1.trans ht
  have htext : String.ofList (arrowText "entry" "[]".toList) = "entry => []" := by decide
  exact htext ▸ embeds_arrow s hentry hbody hopens

end Literal

namespace Cache

open Literal

variable (c : Context) (path : String)

/-- Nodes that are no default exports are passed over. -/
theorem foldlM_evaluateExport (found : Option Value) {visits : List Visit}
    (h : ∀ v ∈ visits, ∀ d, v.node ≠ .exportedDefault d) :
    visits.foldlM (evaluateExport c path) found = pure found := by
  induction visits with
  | nil => rfl
  | cons v rest ih =>
    have hpassed : evaluateExport c path found v = pure found := by
      unfold evaluateExport
      split
      · rename_i d hd
        exact absurd hd (h v List.mem_cons_self d)
      · rfl
    rw [List.foldlM_cons, hpassed]
    exact ih fun w hw => h w (List.mem_cons_of_mem v hw)

theorem evaluateExport_default {e : Expr} {v : Value} {l : Nat} {scopes : List (List String)}
    (he : Evaluates ⟨path, c.globals, c.cwd⟩ v e) (found : Option Value) :
    evaluateExport c path found ⟨.exportedDefault ⟨l, some e⟩, scopes⟩ = pure (some v) := by
  unfold evaluateExport evaluateExpr
  dsimp only
  rw [Evaluates] at he
  rw [he, guarded_pure]
  rfl

/-- The default export of an object literal is what a file comes to: one of the values that the
literal is known to have. -/
theorem exists_outline_of {source : String} {ended : Bool} {text gap : List Char}
    {P : Value → Prop}
    (h : Reads true assignment ('{' :: text) fun e =>
      ∃ v, Evaluates ⟨path, c.globals, c.cwd⟩ v e ∧ P v)
    (hgap : IsGap gap)
    (hsource : skipTrivia .between false (skipInterpreterLine source.toList) =
      .ok (ended, defaultExport ('{' :: text) gap))
    (hlength : ('{' :: text).length ≤ source.toList.length) :
    ∃ o v, P v ∧ Outline.read ⟨false, false⟩ source = .ok o ∧
      (o.visits.foldlM (evaluateExport c path) none).run = ⟨.ok (some v), []⟩ := by
  obtain ⟨o, l, e, items, ho, ⟨v, he, hv⟩, hitems, hquiet⟩ :=
    read_defaultExport h hgap hsource hlength
  have hvisits : o.visits = ⟨.exportedDefault ⟨l, some e⟩, [o.names]⟩ ::
      visitsOfItems [o.names] items := by
    rw [Outline.visits, hitems]
    rfl
  refine ⟨o, v, hv, ho, ?_⟩
  rw [hvisits, List.foldlM_cons, evaluateExport_default c path he]
  change (List.foldlM (evaluateExport c path) (some _) _).run = _
  rw [foldlM_evaluateExport c path _ fun v hv => not_mem_visits hquiet _ hv]
  rfl

theorem exists_outline {source : String} {ended : Bool} {text gap : List Char} {v : Value}
    (h : Reads true assignment ('{' :: text) (Evaluates ⟨path, c.globals, c.cwd⟩ v))
    (hgap : IsGap gap)
    (hsource : skipTrivia .between false (skipInterpreterLine source.toList) =
      .ok (ended, defaultExport ('{' :: text) gap))
    (hlength : ('{' :: text).length ≤ source.toList.length) :
    ∃ o, Outline.read ⟨false, false⟩ source = .ok o ∧
      (o.visits.foldlM (evaluateExport c path) none).run = ⟨.ok (some v), []⟩ := by
  obtain ⟨o, _, rfl, ho⟩ := exists_outline_of c path (P := (· = v))
    (h.mono fun e he => ⟨v, he, rfl⟩) hgap hsource hlength
  exact ⟨o, ho⟩

end Cache

end CommandFiles
