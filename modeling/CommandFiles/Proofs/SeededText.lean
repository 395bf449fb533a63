import CommandFiles.Proofs.ChainText
import CommandFiles.Proofs.ConstantText
import CommandFiles.Proofs.DiscoveryRun
import CommandFiles.Scaffold

/-! # Texts of seeded files

The command files of a new project are read as what they were made of: a command with a name, a
description and some flags. A text stands for itself between single quotes as long as no quote, no
backslash and no end of a line is in it. -/
namespace CommandFiles

open Script Script.Reader

/-- What a seeded command file declares: the name and the description of a command, and those of
each of its flags. -/
structure Seed where
  name : String
  description : String
  flags : List (String × String)
  deriving DecidableEq

namespace Seed

variable {awaits : Bool} {moves : State → List Char → State → Prop} [IsMove moves]
  {e : Expr} {a : Element} {f : String × String} {seed : Seed}

/-- The option that a flag is. -/
def flag (f : String × String) : OptionSpec :=
  { name := .long f.1, kind := .boolean, description := some f.2 }

/-- What the command of a seeded file declares. -/
def declaration (seed : Seed) (path : String) : Declaration :=
  { name := seed.name, description := some seed.description, filePath := some path
    options := some (seed.flags.map flag) }

/-! ## Literals -/

/-- The flag that an element of an array is, if it has the shape of one. -/
def flagOf? : Element → Option (String × String)
  | .item (.object _ [
      .value _ (.fixed "name") (.string _ name),
      .value _ (.fixed "description") (.string _ description),
      .value _ (.fixed "type") (.member _ false (.name _ "OPTION_TYPES") "BOOLEAN")]) =>
    some (name, description)
  | _ => none

/-- What an expression declares, if it has the shape of a seeded literal. -/
def ofExpr? : Expr → Option Seed
  | .object _ [
      .value _ (.fixed "name") (.string _ name),
      .value _ (.fixed "description") (.string _ description),
      .value _ (.fixed "options") (.array _ elements)] =>
    (elements.mapM flagOf?).map (⟨name, description, ·⟩)
  | _ => none

/-- What a module declares that exports a seeded literal and nothing else. -/
def ofOutline? (o : Outline) : Option Seed :=
  match o.items with
  | [.exported ⟨_, [⟨some "OPTS", some e⟩]⟩] =>
    if o.names.contains Literal.optionsName then ofExpr? e else none
  | _ => none

/-! ## Texts of literals -/

/-- A text between single quotes. -/
def quotedText (t : String) : List Char := '\'' :: (t.toList ++ ['\''])

theorem readsBy_quotedText {t : String} (h : IsPlainText t.toList) :
    ReadsBy moves awaits assignment (quotedText t) fun e => ∃ l, e = .string l t := by
  refine readsBy_string ⟨'\'', _, rfl, by decide, by decide, by decide⟩ fun rest _ => ?_
  rw [quotedText, List.cons_append, List.append_assoc, List.singleton_append, scanToken_single h,
    String.ofList_toList]

/-- A field of a literal: its key, its text, and what it is read as. -/
structure Field where
  key : String
  text : List Char
  means : Expr → Prop

/-- The text of a list behind its opening mark, if every item stands on a line of its own, behind
some blanks. -/
def listText (blanks stop : String) (close : Char) (ts : List (List Char)) : List Char :=
  inBrackets ('\n' :: blanks.toList) (',' :: '\n' :: stop.toList) close ts

/-- The text of an object of some fields behind its opening brace. -/
def literalText (blanks stop : String) (fields : List Field) : List Char :=
  listText blanks stop '}' (fields.map fun b => b.key.toList ++ ':' :: ' ' :: b.text)

theorem readsBy_literalText {blanks stop : String} {fields : List Field}
    (hgap : IsGap ('\n' :: blanks.toList)) (hstop : IsGap ('\n' :: stop.toList))
    (hkeys : ∀ b ∈ fields, IsWord b.key.toList)
    (h : ∀ b ∈ fields, ReadsBy moves awaits assignment b.text b.means) :
    ReadsBy moves awaits assignment ('{' :: literalText blanks stop fields) fun e =>
      ∃ l properties, e = .object l properties ∧
        List.Forall₂ (fun b a => ∃ l e, a = .value l (.fixed b.key) e ∧ b.means e)
          fields properties :=
  readsBy_object hgap (.inr ⟨_, rfl, hstop⟩) (fun b hb => .inl ⟨hkeys b hb, rfl⟩) h

/-- The fields of a flag. -/
def flagFields (f : String × String) : List Field :=
  [⟨"name", quotedText f.1, fun e => ∃ l, e = .string l f.1⟩,
    ⟨"description", quotedText f.2, fun e => ∃ l, e = .string l f.2⟩,
    ⟨"type", "OPTION_TYPES".toList ++ '.' :: "BOOLEAN".toList,
      fun e => ∃ l l', e = .member l false (.name l' "OPTION_TYPES") "BOOLEAN"⟩]

/-- The text of a flag. -/
def flagText (f : String × String) : List Char :=
  '{' :: literalText "      " "    " (flagFields f)

/-- The fields of a seeded literal. -/
def fields (seed : Seed) : List Field :=
  [⟨"name", quotedText seed.name, fun e => ∃ l, e = .string l seed.name⟩,
    ⟨"description", quotedText seed.description, fun e => ∃ l, e = .string l seed.description⟩,
    ⟨"options", '[' :: listText "    " "  " ']' (seed.flags.map flagText),
      fun e => ∃ l elements, e = .array l elements ∧ elements.mapM flagOf? = some seed.flags⟩]

/-- Whether the texts of a command stand for themselves between single quotes. -/
structure IsPlain (seed : Seed) : Prop where
  name : IsPlainText seed.name.toList
  description : IsPlainText seed.description.toList
  flags : ∀ f ∈ seed.flags, IsPlainText f.1.toList ∧ IsPlainText f.2.toList

/-- The text of a flag is read as the flag. -/
theorem readsBy_flagText (h : IsPlainText f.1.toList ∧ IsPlainText f.2.toList) :
    ReadsBy moves awaits assignment (flagText f) fun e => flagOf? (.item e) = some f := by
  have hkind : IsPlainWord "OPTION_TYPES" := by decide
  have hboolean : IsWord "BOOLEAN".toList := by decide
  have hkeys : ∀ b ∈ flagFields f, IsWord b.key.toList := by
    simp only [flagFields, List.forall_mem_cons]
    decide
  have hfields : ∀ b ∈ flagFields f, ReadsBy moves awaits assignment b.text b.means := by
    simp only [flagFields, List.forall_mem_cons, List.not_mem_nil, false_imp_iff, implies_true,
      and_true]
    exact ⟨readsBy_quotedText h.1, readsBy_quotedText h.2,
      readsBy_member hkind hboolean⟩
  refine (readsBy_literalText (by decide) (by decide) hkeys hfields).mono ?_
  rintro e ⟨l, properties, rfl, hproperties⟩
  simp only [flagFields, List.forall₂_cons_left_iff, List.forall₂_nil_left_iff] at hproperties
  obtain ⟨_, _, ⟨_, _, rfl, _, rfl⟩, ⟨_, _, ⟨_, _, rfl, _, rfl⟩, ⟨_, _, ⟨_, _, rfl, _, _, rfl⟩, rfl,
    rfl⟩, rfl⟩, rfl⟩ := hproperties
  rfl

theorem mapM_flagOf? {flags : List (String × String)} {elements : List Element}
    (h : List.Forall₂ (fun f a => ∃ e, a = .item e ∧ flagOf? (.item e) = some f) flags elements) :
    elements.mapM flagOf? = some flags := by
  induction h with
  | nil => rfl
  | cons hf _ ih =>
    obtain ⟨e, rfl, he⟩ := hf
    simp only [List.mapM_cons, he, ih]
    rfl

/-- **The text of a seeded literal is read as what it was made of.** -/
theorem readsBy_fields (h : seed.IsPlain) :
    ReadsBy moves awaits assignment ('{' :: literalText "  " "" seed.fields) fun e =>
      ofExpr? e = some seed := by
  have hflags : ReadsBy moves awaits assignment
      ('[' :: listText "    " "  " ']' (seed.flags.map flagText)) fun e =>
        ∃ l elements, e = .array l elements ∧ elements.mapM flagOf? = some seed.flags := by
    refine (readsBy_array (by decide) (.inr ⟨_, rfl, by decide⟩) fun f hf =>
      readsBy_flagText (h.flags f hf)).mono ?_
    rintro e ⟨l, elements, rfl, helements⟩
    exact ⟨l, elements, rfl, mapM_flagOf? helements⟩
  have hkeys : ∀ b ∈ seed.fields, IsWord b.key.toList := by
    simp only [fields, List.forall_mem_cons]
    decide
  have hfields : ∀ b ∈ seed.fields, ReadsBy moves awaits assignment b.text b.means := by
    simp only [fields, List.forall_mem_cons, List.not_mem_nil, false_imp_iff, implies_true,
      and_true]
    exact ⟨readsBy_quotedText h.name, readsBy_quotedText h.description, hflags⟩
  refine (readsBy_literalText (by decide) (by decide) hkeys hfields).mono ?_
  rintro e ⟨l, properties, rfl, hproperties⟩
  simp only [fields, List.forall₂_cons_left_iff, List.forall₂_nil_left_iff] at hproperties
  obtain ⟨_, _, ⟨_, _, rfl, _, rfl⟩, ⟨_, _, ⟨_, _, rfl, _, rfl⟩, ⟨_, _, ⟨_, _, rfl, _, _, rfl,
    helements⟩, rfl, rfl⟩, rfl⟩, rfl⟩ := hproperties
  simp only [ofExpr?, helements, Option.map_some]

/-! ## Texts of files -/

theorem toList_ofLines (lines : List String) :
    (Scaffold.ofLines lines).toList = lines.flatMap fun l => l.toList ++ ['\n'] := by
  rw [Scaffold.ofLines, String.toList_join, List.flatMap_map]
  simp only [String.toList_append]
  rfl

/-- Every item of a list of lines has a comma and the end of its line behind it. -/
theorem listText_eq (blanks stop : String) (close : Char) (t : List Char) (ts : List (List Char)) :
    listText blanks stop close (t :: ts) =
      '\n' :: ((t :: ts).flatMap (fun t => blanks.toList ++ (t ++ [',', '\n'])) ++
        (stop.toList ++ [close])) := by
  have hbehind : ∀ ts,
      behindItem ('\n' :: blanks.toList) (',' :: '\n' :: (stop.toList ++ [close])) ts =
      ',' :: '\n' :: (ts.flatMap (fun t => blanks.toList ++ (t ++ [',', '\n'])) ++
        (stop.toList ++ [close])) := by
    intro ts
    induction ts with
    | nil => rfl
    | cons t more ih => simp [behindItem, ih]
  rw [listText, inBrackets, List.cons_append, List.cons_append, List.cons_append, hbehind]
  simp

theorem flatMap_flagLines (name description : String) :
    ((Scaffold.flagLines name description).flatMap fun l => l.toList ++ ['\n']) =
      "    ".toList ++ (flagText (name, description) ++ [',', '\n']) := by
  simp [Scaffold.flagLines, flagText, flagFields, literalText, listText_eq, quotedText, toString]

/-- What the index file of a project declares. -/
def index (executable : String) : Seed where
  name := executable
  description := executable ++ " commands"
  flags := ("verbose", "Like spam? This is for you.") ::
    Runtime.all.map fun r => (r.flag, "set " ++ r.name ++ " runtime")

theorem toList_indexText (executable : String) : (Scaffold.indexText executable).toList =
    exportedConstant "OPTS" ('{' :: literalText "  " "" (index executable).fields) ['\n'] := by
  have hflags : (Runtime.all.flatMap fun r =>
      Scaffold.flagLines r.flag s!"set {r.name} runtime").flatMap (fun l => l.toList ++ ['\n']) =
        Runtime.all.flatMap fun r => "    ".toList ++
          (flagText (r.flag, "set " ++ r.name ++ " runtime") ++ [',', '\n']) := by
    rw [List.flatMap_assoc]
    simp only [flatMap_flagLines, toString]
  rw [Scaffold.indexText, toList_ofLines]
  simp only [List.flatMap_append, flatMap_flagLines, hflags]
  simp [exportedConstant_eq, behindName, literalText, fields, index, listText_eq, quotedText, toString,
    List.flatMap_map]

theorem isPlain_index {executable : String} (h : IsPlainText executable.toList) :
    (index executable).IsPlain where
  name := h
  description c hc := by
    rw [index, String.toList_append] at hc
    have hcommands : IsPlainText " commands".toList := by decide
    exact (List.mem_append.mp hc).elim (h c) (hcommands c)
  flags := by
    change ∀ f ∈ ("verbose", "Like spam? This is for you.") ::
      Runtime.all.map fun r => (r.flag, "set " ++ r.name ++ " runtime"), _
    decide

/-- **The index file of a project is read as what it was made of.** -/
theorem outline_indexText {executable : String} (h : IsPlainText executable.toList) :
    ∃ o, Outline.read ⟨false, false⟩ (Scaffold.indexText executable) = .ok o ∧
      ofOutline? o = some (index executable) := by
  have htext := toList_indexText executable
  have hsource : skipTrivia .between false
      (skipInterpreterLine (Scaffold.indexText executable).toList) = .ok (false, exportedConstant
        "OPTS" ('{' :: literalText "  " "" (index executable).fields) ['\n']) := by
    rw [htext]
    exact skipTrivia_solid (isWord_export.solid.append _) false
  have hlength : ('{' :: literalText "  " "" (index executable).fields).length ≤
      (Scaffold.indexText executable).toList.length := by
    rw [htext]
    simp only [exportedConstant_eq, behindName, List.length_append, List.length_cons]
    omega
  obtain ⟨l, e, he, ho⟩ := read_exportedConstant (w := "OPTS") (by decide)
    (readsBy_fields (isPlain_index h)) (by decide) hsource hlength
  exact ⟨_, ho, he⟩

/-- What the file declares that shows all globals. -/
def showGlobals : Seed where
  name := "show-globals"
  description := "Display the globals visible to OPTS literals"
  flags := [("list", "Only list global names")]

/-- The outline of a text that is given by its characters. -/
def readChars (dialect : Dialect) (source : List Char) : Except Position Outline :=
  let setting : Setting :=
    { typed := dialect.typed, markup := dialect.markup, lineFeeds := source.count '\n'
      fuel := source.length + 2 }
  let state : State :=
    { token := .endOfText, lineEnded := false, start := source, after := source, last := source }
  let reader : Reader Outline := do
    Reader.resume (skipInterpreterLine source)
    Reader.moduleOutline (Grammar.upTo (8 * source.length + 16))
  match reader setting state with
  | .ok (outline, _) => .ok outline
  | .error e => .error (Position.behind (source.take (source.length - e.rest.length)))

theorem read_eq_readChars (dialect : Dialect) (text : String) :
    Outline.read dialect text = readChars dialect text.toList := rfl

set_option maxRecDepth 4096 in
theorem readChars_showGlobalsText :
    (readChars ⟨false, false⟩ Scaffold.showGlobalsText.toList).toOption.bind ofOutline? =
      some showGlobals := by
  -- the characters of a long text are had more cheaply from its lines than from the text
  rw [Scaffold.showGlobalsText, toList_ofLines]
  simp only [List.flatMap_cons, List.flatMap_nil]
  repeat rw [String.toList_ofList]
  decide +kernel

/-- The file that shows all globals is read as what it was made of. -/
theorem outline_showGlobalsText :
    ∃ o, Outline.read ⟨false, false⟩ Scaffold.showGlobalsText = .ok o ∧
      ofOutline? o = some showGlobals := by
  obtain ⟨o, ho, hseed⟩ := Option.bind_eq_some_iff.mp readChars_showGlobalsText
  have hread := read_eq_readChars ⟨false, false⟩ Scaffold.showGlobalsText
  exact ⟨o, hread.trans (Discovery.eq_ok_of_toOption ho), hseed⟩

/-- A quote in the name of the executable ends the literal around it. -/
theorem indexText_not_read :
    (Outline.read ⟨false, false⟩ (Scaffold.indexText "a'b")).toOption.isNone = true := by
  rw [read_eq_readChars, toList_indexText]
  decide +kernel

end Seed

end CommandFiles
