import CommandFiles.Proofs.CommandData
import CommandFiles.Proofs.LoadedCommands
import CommandFiles.Proofs.SeededText
import CommandFiles.Proofs.ValueText

/-! # Commands of seeded files

A seeded file holds the command that its text declares: the literal that is exported comes to an
object of the texts in it, and the command is read out of that object. -/
namespace CommandFiles

open CommandLine (except_bind_eq_ok)
open Script

namespace Literal

variable {s : Scene} {seed : Seed}

/-- Whether the kinds of options have their names in a scene. -/
def Scene.HasKinds (s : Scene) : Prop := s.globals.get? "OPTION_TYPES" = some Context.optionKinds

theorem hasKinds_globals (c : Context) (path directory : String) :
    Scene.HasKinds ⟨path, c.globals, directory⟩ := by
  simp [Scene.HasKinds, Context.globals, Record.insertAll, Record.get?_insert]

/-- The value of a flag. -/
def flagValue (f : String × String) : Value :=
  .object ⟨[("name", .string f.1), ("description", .string f.2),
    ("type", .string OptionKind.boolean.tag)]⟩

/-- The fields of the value of a seeded literal. -/
def seedFields (seed : Seed) : Record Value :=
  ⟨[("name", .string seed.name), ("description", .string seed.description),
    ("options", .array (seed.flags.map flagValue))]⟩

theorem evaluates_string (s : Scene) (l : Nat) (t : String) :
    Evaluates s (.string t) (.string l t) := rfl

theorem evaluates_kind (hs : s.HasKinds) (l l' : Nat) :
    Evaluates s (.string OptionKind.boolean.tag)
      (.member l false (.name l' "OPTION_TYPES") "BOOLEAN") := by
  have hname : nameValue s "OPTION_TYPES" l' = .ok Context.optionKinds := by
    unfold nameValue
    rw [hs]
    rfl
  have hmember : readMember Context.optionKinds "BOOLEAN" =
      .ok (.string OptionKind.boolean.tag) := by rfl
  rw [Evaluates, eval, eval, hname, lift_ok, pure_bind_eval, checkLink_false, pure_bind_eval,
    hmember, lift_ok]

/-- Two texts and a third property are put into an object in their order. -/
theorem evalProperties_texts {key name description : String} {v : Value} {e : Expr}
    (hkey : ["name", "description", key].Nodup) (he : Evaluates s v e) (l₁ l₂ l₃ l₄ l₅ : Nat) :
    evalProperties s [.value l₁ (.fixed "name") (.string l₂ name),
      .value l₃ (.fixed "description") (.string l₄ description), .value l₅ (.fixed key) e] {} =
      pure ⟨[("name", .string name), ("description", .string description), (key, v)]⟩ := by
  have hvalues : List.Forall₂
      (fun b a => ∃ l e, a = Property.value l (.fixed b.1) e ∧ Evaluates s (id b.2) e)
      [("name", .string name), ("description", .string description), (key, v)]
      [.value l₁ (.fixed "name") (.string l₂ name),
        .value l₃ (.fixed "description") (.string l₄ description), .value l₅ (.fixed key) e] :=
    .cons ⟨_, _, rfl, evaluates_string s l₂ name⟩
      (.cons ⟨_, _, rfl, evaluates_string s l₄ description⟩ (.cons ⟨_, _, rfl, he⟩ .nil))
  exact evalProperties_values hvalues {} hkey

/-- A flag comes to its value. -/
theorem evaluates_flag (hs : s.HasKinds) {a : Element} {f : String × String}
    (h : Seed.flagOf? a = some f) : ∃ e, a = .item e ∧ Evaluates s (flagValue f) e := by
  unfold Seed.flagOf? at h
  split at h
  · cases h
    refine ⟨_, rfl, ?_⟩
    rw [Evaluates, eval, evalProperties_texts (by decide) (evaluates_kind hs _ _)]
    rfl
  · cases h

theorem evaluates_flags (hs : s.HasKinds) {elements : List Element}
    {flags : List (String × String)} (h : elements.mapM Seed.flagOf? = some flags) :
    List.Forall₂ (fun v a => ∃ e, a = .item e ∧ Evaluates s (flagValue v) e) flags elements := by
  induction elements generalizing flags with
  | nil =>
    cases h
    exact .nil
  | cons a rest ih =>
    rw [List.mapM_cons] at h
    obtain ⟨f, hf, h⟩ := Option.bind_eq_some_iff.mp h
    obtain ⟨more, hmore, h⟩ := Option.bind_eq_some_iff.mp h
    cases h
    exact .cons (evaluates_flag hs hf) (ih hmore)

/-- **A seeded literal comes to an object of its texts.** -/
theorem evalProperties_seed (hs : s.HasKinds) {e : Expr} (h : Seed.ofExpr? e = some seed) :
    ∃ l properties, e = .object l properties ∧
      evalProperties s properties {} = pure (seedFields seed) := by
  unfold Seed.ofExpr? at h
  split at h
  · rename_i l elements
    obtain ⟨flags, hflags, h⟩ := Option.map_eq_some_iff.mp h
    cases h
    have hoptions : Evaluates s (.array (flags.map flagValue)) (.array l elements) := by
      have hitems : List.Forall₂ (fun v a => ∃ e, a = Element.item e ∧ Evaluates s (id v) e)
          (flags.map flagValue) elements :=
        List.forall₂_map_left_iff.mpr (evaluates_flags hs hflags)
      rw [Evaluates, eval, evalElements_items hitems, pure_bind_eval, List.map_id]
    exact ⟨_, _, rfl, evalProperties_texts (by decide) hoptions _ _ _ _ _⟩
  · cases h

end Literal

namespace Command

open Literal

theorem toJson_flagValue (f : String × String) : (flagValue f).toJson = (Seed.flag f).toJson := by
  have hjson : (flagValue f).toJson = Json.ofMembers [("name", .string f.1),
      ("description", .string f.2), ("type", .string OptionKind.boolean.tag)] := by
    simp only [flagValue, Value.toJson, Value.fieldsToJson]
  rw [hjson, OptionSpec.toJson_eq]
  exact Json.ofMembers_of_perm (.swap _ _ _)
    (Json.ordered_of_keys ["description", "name", "type"] (List.Sublist.refl _) (by decide))

theorem toJson_flagValues (flags : List (String × String)) :
    (Value.array (flags.map flagValue)).toJson =
      .array ((flags.map Seed.flag).map OptionSpec.toJson) := by
  have hitems : Value.itemsToJson (flags.map flagValue) =
      (flags.map Seed.flag).map OptionSpec.toJson := by
    induction flags with
    | nil => rfl
    | cons f more ih =>
      rw [List.map_cons, Value.itemsToJson, ih, toJson_flagValue]
      rfl
  rw [Value.toJson, hitems]

/-- The command that is read out of the object of a seeded literal. -/
theorem ofJson_seedFields (seed : Seed) (path : String) :
    ofJson (Value.object ((seedFields seed).insert filePathKey (.string path))).toJson =
      .ok (.mk (seed.declaration path) []) := by
  have hoptions := toJson_flagValues seed.flags
  have hfields : (Value.object ((seedFields seed).insert filePathKey (.string path))).toJson =
      Json.ofMembers [("name", .string seed.name), ("description", .string seed.description),
        ("options", .array ((seed.flags.map Seed.flag).map OptionSpec.toJson)),
        ("filePath", .string path)] := by
    rw [← hoptions, seedFields]
    rfl
  have hjson : (Value.object ((seedFields seed).insert filePathKey (.string path))).toJson =
      .object [("description", .string seed.description), ("filePath", .string path),
        ("name", .string seed.name),
        ("options", .array ((seed.flags.map Seed.flag).map OptionSpec.toJson))] := by
    rw [hfields]
    refine Json.ofMembers_of_perm ((List.Perm.swap _ _ _).trans (.cons _ ?_)) (Json.ordered_of_keys
      ["description", "filePath", "name", "options"] (List.Sublist.refl _) (by decide))
    exact List.perm_append_singleton _ [_, _]
  have hshape : Json.Shape.list OptionSpec.shape
      (.array ((seed.flags.map Seed.flag).map OptionSpec.toJson)) =
        .ok (seed.flags.map Seed.flag) := by
    refine options_shape fun o ho => ?_
    obtain ⟨f, -, rfl⟩ := List.mem_map.mp ho
    exact nofun
  rw [hjson, ofJson]
  refine except_bind_eq_ok.mpr ⟨.mk (seed.declaration path) [], ?_, rfl⟩
  rw [ofMembers_eq_foldlM]
  simp only [List.foldlM_cons, List.foldlM_nil]
  have hset : setField "options" (.array ((seed.flags.map Seed.flag).map OptionSpec.toJson))
      (.mk { seed.declaration path with options := none } []) =
        .ok (.mk (seed.declaration path) []) :=
    setField_declared "options" (by decide)
      (except_bind_eq_ok.mpr ⟨some _, Json.optional_eq_ok hshape nofun, rfl⟩)
  refine except_bind_eq_ok.mpr ⟨.mk { description := some seed.description } [], rfl,
    except_bind_eq_ok.mpr ⟨.mk { description := some seed.description, filePath := some path } [],
      rfl, except_bind_eq_ok.mpr ⟨_, rfl, except_bind_eq_ok.mpr ⟨_, hset, rfl⟩⟩⟩⟩

end Command

namespace Discovery

variable {fs : FileSystem} {c : Context} {path : String} {seed : Seed}

/-- A module with one export is walked by visiting the export. -/
theorem walk_single {σ ε : Type} (visit : Visit → σ → Except ε σ) {o : Outline}
    {node : NamedExport} (h : o.items = [.exported node]) (state : σ) :
    o.walk visit state = visit ⟨.exported node, [o.names]⟩ state := by
  rw [Outline.walk_eq_foldlM, Outline.visits, h]
  change (visit ⟨.exported node, [o.names]⟩ state >>= pure) = _
  exact bind_pure _

/-- Whether nothing that is visited in an item tells anything about options. -/
def IsSilent (i : Item) : Prop :=
  ∀ scopes, ∀ v ∈ visitsOfItem scopes i, ∀ found, Literal.findOptions v found = .ok found

theorem foldlM_findOptions_silent {visits : List Visit}
    (h : ∀ v ∈ visits, ∀ found, Literal.findOptions v found = .ok found) (found : Literal.Found) :
    visits.foldlM (fun found v => Literal.findOptions v found) found = .ok found := by
  induction visits with
  | nil => rfl
  | cons v rest ih =>
    rw [List.foldlM_cons, h v List.mem_cons_self]
    exact ih fun v' hv' => h v' (List.mem_cons_of_mem v hv')

/-- The option literal of a module that exports an object under the name of options and tells
nothing else about options. -/
theorem optionFragment_of_first {o : Outline} {l l' : Nat} {properties : List Property}
    {items : List Item}
    (hitems : o.items =
      .exported ⟨l, [⟨some Literal.optionsName, some (.object l' properties)⟩]⟩ :: items)
    (hsilent : ∀ i ∈ items, IsSilent i) (hnames : o.names.contains Literal.optionsName = true) :
    Literal.optionFragment path o = ⟨.ok (some ⟨path, properties⟩), []⟩ := by
  have hbinds : Visit.binds ⟨.exported ⟨l, [⟨some Literal.optionsName,
      some (.object l' properties)⟩]⟩, [o.names]⟩ Literal.optionsName = true := by
    simp only [Visit.binds, List.any_cons, List.any_nil, hnames, Bool.or_false]
  have hvisits : ∀ v ∈ visitsOfItems [o.names] items, ∀ found,
      Literal.findOptions v found = .ok found := by
    intro v hv
    obtain ⟨i, hi, hv⟩ := mem_visitsOfItems.mp hv
    exact hsilent i hi [o.names] v hv
  have hwalk : o.walk Literal.findOptions {} = .ok ⟨some properties, none⟩ := by
    rw [Outline.walk_eq_foldlM, Outline.visits, hitems, visitsOfItems, visitsOfItem,
      List.singleton_append, List.foldlM_cons, Literal.findOptions, hbinds]
    exact foldlM_findOptions_silent hvisits _
  rw [Literal.optionFragment, hwalk]
  rfl

/-- The option literal of a module whose one export is an object under the name of options. -/
theorem optionFragment_of_export {o : Outline} {l l' : Nat} {properties : List Property}
    (hitems : o.items =
      [.exported ⟨l, [⟨some Literal.optionsName, some (.object l' properties)⟩]⟩])
    (hnames : o.names.contains Literal.optionsName = true) :
    Literal.optionFragment path o = ⟨.ok (some ⟨path, properties⟩), []⟩ :=
  optionFragment_of_first hitems (by simp) hnames

/-- The outline of a seeded file has one export: the literal. -/
theorem exists_of_ofOutline? {o : Outline} (h : Seed.ofOutline? o = some seed) :
    ∃ l e, o.items = [.exported ⟨l, [⟨some Literal.optionsName, some e⟩]⟩] ∧
      o.names.contains Literal.optionsName = true ∧ Seed.ofExpr? e = some seed := by
  unfold Seed.ofOutline? at h
  split at h
  · rename_i l e hitems
    split at h
    · rename_i hnames
      exact ⟨l, e, hitems, hnames, h⟩
    · cases h
  · cases h

/-- **A file that exports a seeded literal holds the command that it declares.** -/
theorem holds_of_outline {o : Outline} (ho : outline fs Literal.optionsName path = .ok o)
    (hseed : Seed.ofOutline? o = some seed) : Holds fs c path (.mk (seed.declaration path) []) := by
  obtain ⟨l, e, hitems, hnames, he⟩ := exists_of_ofOutline? hseed
  obtain ⟨l', properties, rfl, hproperties⟩ := Literal.evalProperties_seed
    (Literal.hasKinds_globals c path c.cwd) he
  have hoptions : Literal.optionFragment path o = ⟨.ok (some ⟨path, properties⟩), []⟩ :=
    optionFragment_of_export hitems hnames
  have hdependencies : Literal.dependencies o = .ok none := by
    have hnone : NamedExport.variableNamed? ⟨l, [⟨some Literal.optionsName,
        some (.object l' properties)⟩]⟩ Literal.dependenciesName = none := rfl
    rw [Literal.dependencies, walk_single _ hitems, Literal.findDependencies]
    dsimp only
    rw [hnone]
    exact ite_self _
  have hevaluated : (evaluate c ⟨path, properties⟩).run.value =
      .ok (.object ((Literal.seedFields seed).insert Literal.filePathKey (.string path))) := by
    unfold evaluate Literal.Fragment.evaluate
    dsimp only
    rw [hproperties]
    rfl
  have hcommand : commandOf ⟨path, properties⟩
      (.object ((Literal.seedFields seed).insert Literal.filePathKey (.string path))) =
        .ok (.mk (seed.declaration path) []) := by
    rw [commandOf, Command.ofJson_seedFields]
    rfl
  refine Logged.bind_eq_ok.mpr ⟨o, ho, Logged.bind_eq_ok.mpr ⟨some ⟨path, properties⟩, ?_, ?_⟩⟩
  · rw [options, hoptions]
    rfl
  · refine Logged.bind_eq_ok.mpr ⟨none, ?_, Logged.bind_eq_ok.mpr ⟨_, hevaluated,
      Logged.bind_eq_ok.mpr ⟨_, hcommand, rfl⟩⟩⟩
    rw [dependenciesOf, hdependencies]
    rfl

end Discovery

end CommandFiles
