import CommandFiles.Literal.Extract
import CommandFiles.Path.File
import CommandFiles.Proofs.ConstantText
import CommandFiles.Proofs.SeededCommands

/-! # Printed option literals

An option literal that is written, exported again and read is written the same way, with the path of
its file as one more field, as long as it is made of data: of constants, names, negative numbers,
arrays and objects, and of chains of members and calls that begin with a name. A number before a
member is an exception: it loses its parentheses, and what stands behind its point may be read as
digits. -/
namespace CommandFiles.Literal

open Script Script.Reader

/-! ## Data -/

/-- Whether an expression is a name or ends with a link. -/
def isChain (e : Expr) : Bool :=
  match e.unwrapped with
  | .name _ _ => true
  | e => isLink e

/-- A property with a plain key. -/
structure PlainField where
  line : Nat
  key : String
  value : Expr

/-- The property as syntax. -/
def PlainField.property (b : PlainField) : Property := .value b.line (.fixed b.key) b.value

/-- The text of an expression, if it has one. -/
def textAt (depth : Nat) (e : Expr) : String := (exprSource depth e).toOption.getD ""

variable {moves : State → List Char → State → Prop} {depth : Nat} {e : Expr} {text : String}

theorem textAt_eq (h : exprSource depth e = .ok text) : textAt depth e = text := by
  rw [textAt, h]
  rfl

/-- Whether an expression is written as a text and needs no parentheses as an operand. -/
structure IsOperandAt (depth : Nat) (text : String) (e : Expr) : Prop where
  source : exprSource depth e = .ok text
  simple : isCompound e.unwrapped = false

theorem IsOperandAt.parenthesize (h : IsOperandAt depth text e) : parenthesize e text = text := by
  rw [Literal.parenthesize, h.simple]
  rfl

theorem isCompound_of_isChain (h : isChain e) : isCompound e.unwrapped = false := by
  unfold isChain at h
  generalize e.unwrapped = e' at h ⊢
  cases e' <;> first | rfl | cases h

/-- Whether an expression has a text that is read as an expression with that text, and as a chain if
it is one. -/
structure Reprints (moves : State → List Char → State → Prop) (depth : Nat) (e : Expr) : Prop where
  source : exprSource depth e = .ok (textAt depth e)
  reads : ReadsBy moves true assignment (textAt depth e).toList
    fun e' => exprSource depth e' = .ok (textAt depth e)
  chain : isChain e →
    ReadsChain moves true (textAt depth e).toList (IsOperandAt depth (textAt depth e))

theorem Reprints.operand (h : Reprints moves depth e) (hchain : isChain e) :
    IsOperandAt depth (textAt depth e) e :=
  ⟨h.source, isCompound_of_isChain hchain⟩

theorem propertySources_of_fields {β : Type} {key text : β → String} {bs : List β}
    {properties : List Property}
    (h : List.Forall₂ (fun b a => ∃ l e, a = .value l (.fixed (key b)) e ∧
      exprSource depth e = .ok (text b)) bs properties) :
    propertySources depth properties =
      .ok (bs.map fun b => Value.keySource (key b) ++ ": " ++ text b) := by
  induction h with
  | nil => rfl
  | cons ha _ ih =>
    obtain ⟨l, e, rfl, he⟩ := ha
    change (exprSource depth e >>= _) = _
    rw [he]
    change (propertySources depth _ >>= _) = _
    rw [ih]
    rfl

/-- How a field is written. -/
def fieldText (depth : Nat) (b : PlainField) : String :=
  Value.keySource b.key ++ ": " ++ textAt depth b.value

variable [IsMove moves]

/-- **Fields between braces are read as an object whose properties are written the same way.** -/
theorem readsBy_fields {fields : List PlainField}
    (h : ∀ b ∈ fields, Reprints moves (depth + 1) b.value) :
    ReadsBy moves true assignment
      (Value.braces (fields.map (fieldText (depth + 1))) depth).toList
      fun e => ∃ l properties, e = .object l properties ∧
        propertySources (depth + 1) properties = .ok (fields.map (fieldText (depth + 1))) := by
  have htext := Value.toList_block '{' '}' (fields.map (fieldText (depth + 1))) depth
  have hfield : String.toList ∘ fieldText (depth + 1) = fun b : PlainField =>
      (Value.keySource b.key).toList ++ ':' :: ' ' :: (textAt (depth + 1) b.value).toList := by
    funext b
    simp [fieldText]
  rw [List.map_map, hfield] at htext
  refine htext ▸ (readsBy_object (Value.isGap_lineStart (depth + 1))
    (.inl (Value.isGap_lineStart depth)) (fun b _ => Value.isKey_keySource b.key)
    fun b hb => (h b hb).reads).mono ?_
  rintro e ⟨l, properties, rfl, hproperties⟩
  exact ⟨l, properties, rfl, propertySources_of_fields hproperties⟩

theorem toList_arguments (texts : List String) :
    (", ".intercalate texts).toList ++ [')'] = inParens (texts.map String.toList) := by
  have hrest (t : List Char) (ts : List (List Char)) :
      [',', ' '].intercalate (t :: ts) ++ [')'] = t ++ behindItem [' '] [')'] ts := by
    induction ts generalizing t with
    | nil => simp [behindItem]
    | cons t' ts ih =>
      rw [List.intercalate_cons_cons, behindItem, ← ih]
      simp
  rw [String.toList_intercalate]
  cases texts with
  | nil => rfl
  | cons t ts => exact hrest t.toList (ts.map String.toList)

/-- How the path of a file is written as the last field of its literal. -/
def pathEntry (path : String) : String := filePathKey ++ ": " ++ Json.quote path

/-- The module that exports a literal as options. -/
def optionsModule (text : String) : String := "export const " ++ optionsName ++ " = " ++ text ++ ";"

/-- The option literal that the module at a path exports, if it can be read. -/
def exportedFragment? (path source : String) : Option Fragment := do
  let o ← (Outline.read (Dialect.ofExtension (Path.extension? path)) source).toOption
  (optionFragment path o).value.toOption.join

theorem toList_optionsModule (text : String) :
    (optionsModule text).toList = exportedConstant optionsName text.toList [] := by
  have hkeywords : "export const ".toList = "export".toList ++ ' ' :: ("const".toList ++ [' ']) := by
    decide
  change ("export const " ++ optionsName ++ " = " ++ text ++ ";").toList = _
  simp only [String.toList_append, hkeywords, List.append_assoc, List.cons_append]
  rfl

/-- Nothing stands before the export in the module, and it is longer than the literal. -/
theorem optionsModule_of_brace {text : String} {inner : List Char}
    (hinner : text.toList = '{' :: inner) :
    skipTrivia .between false (skipInterpreterLine (optionsModule text).toList) =
        .ok (false, exportedConstant optionsName ('{' :: inner) []) ∧
      ('{' :: inner).length ≤ (optionsModule text).toList.length := by
  have hsource := toList_optionsModule text
  rw [hinner] at hsource
  refine ⟨?_, ?_⟩
  · rw [hsource]
    exact skipTrivia_solid (isWord_export.solid.append _) false
  · rw [hsource, exportedConstant_eq, behindName]
    simp only [List.length_append, List.length_cons]
    omega

theorem exportedFragment?_of_read {path source : String} {o : Outline}
    (ho : Outline.read (Dialect.ofExtension (Path.extension? path)) source = .ok o) :
    exportedFragment? path source = (optionFragment path o).value.toOption.join := by
  rw [exportedFragment?, ho]
  rfl

end CommandFiles.Literal
