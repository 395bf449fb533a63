import CommandFiles.Proofs.RecoveredText

/-! # Literals that are exported again

An option literal whose properties come back from their texts is read again out of the module that
exports its text, and comes to the same value wherever it is evaluated. The path of its file stands
in the text as one more field, and is put into the value once more without a trace. -/
namespace CommandFiles

namespace Record

/-- A value that is put under a name a second time is there already. -/
theorem insert_insert_self {α : Type} (r : Record α) (key : String) (value : α) :
    (r.insert key value).insert key value = r.insert key value := by
  have htwice (es : List (String × α)) :
      insertInto key value (insertInto key value es) = insertInto key value es := by
    induction es with
    | nil => simp [insertInto]
    | cons e rest ih =>
      obtain ⟨k, v⟩ := e
      by_cases h : k = key
      · simp [insertInto, h]
      · simp [insertInto, h, ih]
  exact congrArg Record.mk (htwice r.entries)

end Record

namespace Literal

open Script Script.Reader

variable {f : Fragment}

/-- Whether the properties of a fragment come back from their texts, and nothing in them tells
anything about options. -/
def Fragment.IsRecoverable (f : Fragment) : Prop :=
  Recoverable Discovery.IsSilent false (.object 0 f.properties)

/-- The path of a fragment's file as one more property, as it is written. -/
def Fragment.pathProperty (f : Fragment) : Property :=
  .value 0 (.fixed filePathKey) (.string 0 f.path)

theorem propertyAt_pathProperty (f : Fragment) (depth : Nat) :
    propertyAt depth f.pathProperty = pathEntry f.path := by
  have hkey : Value.keySource filePathKey = filePathKey := by decide
  have htext : textAt depth (.string 0 f.path) = Json.quote f.path := rfl
  rw [Fragment.pathProperty, propertyAt, keyAt, hkey, htext, pathEntry]

/-! ## The text -/

/-- How the literal of a fragment is written. -/
def Fragment.text (f : Fragment) : String :=
  Value.braces ((f.properties ++ [f.pathProperty]).map (propertyAt 1)) 0

/-- What a recoverable object is made of. -/
theorem of_recoverable_object {quiet : Item → Prop} {l : Nat} {properties : List Property}
    (h : Recoverable quiet false (.object l properties)) :
    (∀ a ∈ properties, ∀ e ∈ propertyExprs a, Recoverable quiet false e) ∧
      (∀ l key text, .method l key text ∈ properties → IsMethodText quiet key text) ∧
      ∀ l key, .accessor l key ∉ properties := by
  generalize hobject : Expr.object l properties = e at h
  generalize false = goesOn at h
  cases h with
  | object l h hmethods haccessors =>
    cases hobject
    exact ⟨h, hmethods, haccessors⟩
  | _ => cases hobject

theorem Fragment.IsRecoverable.source (h : f.IsRecoverable) : f.source = .ok f.text := by
  obtain ⟨hexprs, -, haccessors⟩ := of_recoverable_object h
  have hentries : propertySources 1 f.properties = .ok (f.properties.map (propertyAt 1)) :=
    propertySources_eq (fun a ha e he => ((hexprs a ha e he).recovered 1).source) haccessors
  rw [Fragment.source, hentries, Fragment.text, List.map_append, List.map_singleton,
    propertyAt_pathProperty]
  rfl

/-- The path comes back with the properties. -/
theorem Fragment.IsRecoverable.reads_text (h : f.IsRecoverable) :
    ReadsBy (State.Meets Discovery.IsSilent) true assignment f.text.toList fun e => ∃ l properties,
      e = .object l properties ∧
        bareProperties properties = bareProperties (f.properties ++ [f.pathProperty]) := by
  obtain ⟨hexprs, hmethods, haccessors⟩ := of_recoverable_object h
  have hall : ∀ a ∈ f.properties ++ [f.pathProperty], ∀ e ∈ propertyExprs a,
      Recovered Discovery.IsSilent 1 false e := by
    intro a ha e he
    rcases List.mem_append.mp ha with ha | ha
    · exact (hexprs a ha e he).recovered 1
    · obtain rfl := List.mem_singleton.mp ha
      obtain rfl := List.mem_singleton.mp he
      exact recovered_string 0 f.path
  refine ((readsSpine_properties hall ?_ ?_).operand.fully.whole.readsBy true).mono ?_
  · intro l key text hmem
    rcases List.mem_append.mp hmem with hmem | hmem
    · exact hmethods l key text hmem
    · cases List.mem_singleton.mp hmem
  · intro l key hmem
    rcases List.mem_append.mp hmem with hmem | hmem
    · exact haccessors l key hmem
    · cases List.mem_singleton.mp hmem
  · rintro _ ⟨l, o, e, ⟨rfl, l', properties, rfl, hproperties⟩, rfl⟩
    exact ⟨l', properties, rfl, hproperties⟩

/-- The literal is read out of the module that exports its text. -/
theorem Fragment.IsRecoverable.exported (h : f.IsRecoverable)
    (hdialect : Dialect.ofExtension (Path.extension? f.path) = ⟨false, false⟩) :
    ∃ properties, exportedFragment? f.path (optionsModule f.text) = some ⟨f.path, properties⟩ ∧
      bareProperties properties = bareProperties (f.properties ++ [f.pathProperty]) := by
  have hname : IsPlainWord optionsName := by decide
  obtain ⟨inner, hinner⟩ : ∃ inner, f.text.toList = '{' :: inner :=
    ⟨_, Value.toList_block '{' '}' _ 0⟩
  obtain ⟨hstart, hlength⟩ := optionsModule_of_brace hinner
  have hreads := h.reads_text
  rw [hinner] at hreads
  obtain ⟨l, _, items, ⟨l', properties, rfl, hproperties⟩, hsilent, ho⟩ :=
    read_exportedLiteral hname hreads isGap_nil hstart hlength
  have hnames : [optionsName].contains optionsName = true := by
    rw [List.contains_cons, beq_self_eq_true, Bool.true_or]
  refine ⟨properties, ?_, hproperties⟩
  rw [exportedFragment?_of_read (hdialect ▸ ho),
    Discovery.optionFragment_of_first rfl hsilent hnames]
  rfl

/-! ## The value -/

theorem value_evaluate_eq_ok {globals : Record Value} {directory : String} {v : Value} :
    (f.evaluate globals directory).value = .ok v ↔
      ∃ object, meaning (evalProperties ⟨f.path, globals, directory⟩ f.properties {}) = .ok object ∧
        v = .object (object.insert filePathKey (.string f.path)) := by
  constructor
  · intro h
    obtain ⟨object, hobject, hv⟩ := evaluate_eq_ok h
    exact ⟨object, meaning_eq_ok.mpr hobject, hv⟩
  · rintro ⟨object, hobject, rfl⟩
    rw [meaning_eq_ok] at hobject
    unfold Fragment.evaluate
    dsimp only
    rw [hobject]

/-- One more property with the path puts the path into the object. -/
theorem meaning_pathProperty (s : Scene) (object : Record Value) :
    meaning (evalProperties s (f.properties ++ [f.pathProperty]) object) =
      (meaning (evalProperties s f.properties object)).map
        (·.insert filePathKey (.string f.path)) := by
  rw [meaning_evalProperties_append]
  rcases meaning (evalProperties s f.properties object) with fault | object'
  · rfl
  · rfl

/-- Properties that come back together with the path come to the same value. -/
theorem value_evaluate_iff {properties : List Property}
    (h : bareProperties properties = bareProperties (f.properties ++ [f.pathProperty]))
    {globals : Record Value} {directory : String} {v : Value} :
    (Fragment.evaluate ⟨f.path, properties⟩ globals directory).value = .ok v ↔
      (f.evaluate globals directory).value = .ok v := by
  rw [value_evaluate_eq_ok, value_evaluate_eq_ok, meaning_evalProperties_eq _ h,
    meaning_pathProperty]
  rcases meaning (evalProperties ⟨f.path, globals, directory⟩ f.properties {}) with fault | object
  · simp [Except.map]
  · simp [Except.map, Record.insert_insert_self]

/-- **A recoverable literal is written, its module is read under the same path, and what is read
comes to the same value in every scene.** -/
theorem evaluate_of_exported (h : f.IsRecoverable)
    (hdialect : Dialect.ofExtension (Path.extension? f.path) = ⟨false, false⟩) :
    ∃ text f', f.source = .ok text ∧ exportedFragment? f.path (optionsModule text) = some f' ∧
      ∀ globals directory v, (f'.evaluate globals directory).value = .ok v ↔
        (f.evaluate globals directory).value = .ok v := by
  obtain ⟨properties, hread, hproperties⟩ := h.exported hdialect
  exact ⟨f.text, ⟨f.path, properties⟩, h.source, hread, fun globals directory v =>
    value_evaluate_iff hproperties⟩

/-- A literal with a template, an optional chain, a hole, a function, operators and a spread. -/
def mixedFragment : Fragment where
  path := "/c/cmd.js"
  properties := [
    .value 1 (.fixed "name") (.template 1 ⟨"cmd-", "cmd\\u002d"⟩
      [.mk (.logical 1 .or (.name 1 "undefined") (.string 1 "x")) ⟨"", ""⟩]),
    .value 2 (.fixed "home") (.chain 2 (.member 2 false
      (.member 2 true (.name 2 "undefined") "dir") "name")),
    .value 3 (.fixed "tags") (.array 3 [.item (.string 3 "a"), .hole,
      .spread 3 (.wrapped 3 (.array 3 [.item (.number 3 (Number.compose false 5 0))]))]),
    .value 4 (.fixed "handler") (.function 4 "argv => argv.length"),
    .value 5 (.computed (.string 5 "quiet")) (.conditional 5 (.unary 5 .not (.wrapped 5
      (.binary 5 .identical (.null 5) (.boolean 5 true)))) (.string 5 "yes") (.string 5 "no")),
    .spread 6 (.object 6 [.value 6 (.fixed "sub dir") (.null 6)])]

/-- A function that looks up a member stands for itself. -/
theorem isFunctionText_member : IsFunctionText Discovery.IsSilent "argv => argv.length" := by
  have hargv : IsPlainWord "argv" := by decide
  have hbody : Recoverable Discovery.IsSilent false (.member 0 false (.name 0 "argv") "length") :=
    .member 0 false (.name 0 hargv) rfl (by decide) fun _ => rfl
  refine @isFunctionText_arrow _ (keepsScopes_visits _) "argv" "argv.length" _ hargv
    ((hbody.recovered 0).fully rfl).whole fun s rest hs _ ht => ?_
  have hword : scanToken ("argv".toList ++ '.' :: ("length".toList ++ rest)) =
      .ok (.word "argv" false, '.' :: ("length".toList ++ rest)) :=
    scanToken_word hargv.word (endsWord_dot _)
  cases ht.symm.trans (Prod.mk.inj (Except.ok.inj (hs.scanned.symm.trans hword))).1

theorem isRecoverable_mixedFragment : mixedFragment.IsRecoverable := by
  have hundefined := isPlainWord_undefined
  have hpiece {q : Quasi} (h : scanPiece ('`' :: (q.raw.toList ++ ['`'])) =
      .ok (.piece ⟨some q.cooked, q.raw⟩ true, [])) (hreturn : '\r' ∉ q.raw.toList) : IsPiece q :=
    ⟨_, [], true, by simp [hreturn], h⟩
  have hfive : unsignedNumeral? (numberText (Number.compose false 5 0)).toList =
      some (Number.compose false 5 0) := by rfl
  refine .object 0 (fun a ha e he => ?_) (fun l key text h => ?_) fun l key h => ?_
  · simp only [mixedFragment, List.mem_cons, List.not_mem_nil, or_false] at ha
    rcases ha with rfl | rfl | rfl | rfl | rfl | rfl
    · obtain rfl := List.mem_singleton.mp he
      refine .template 1 (hpiece rfl (by decide)) ?_ ?_
      · exact List.forall_mem_singleton.mpr (hpiece rfl (by decide))
      · exact List.forall_mem_singleton.mpr (.logical 1 .or (.name 1 hundefined) (.string 1 "x"))
    · obtain rfl := List.mem_singleton.mp he
      exact .chain 2 (.member 2 false (.member 2 true (.name 2 hundefined) rfl (by decide) nofun)
        rfl (by decide) fun _ => rfl)
    · obtain rfl := List.mem_singleton.mp he
      refine .array 3 (List.forall_mem_cons.mpr ⟨?_, List.forall_mem_cons.mpr ⟨nofun,
        List.forall_mem_singleton.mpr ?_⟩⟩)
      · rintro _ ⟨⟩
        exact .string 3 "a"
      · rintro _ ⟨⟩
        refine .wrapped 3 (.array 3 (List.forall_mem_singleton.mpr ?_))
        rintro _ ⟨⟩
        exact .number 3 hfive
    · obtain rfl := List.mem_singleton.mp he
      exact .function 4 isFunctionText_member
    · rcases List.mem_cons.mp he with rfl | he
      · exact .string 5 "quiet"
      · obtain rfl := List.mem_singleton.mp he
        exact .conditional 5 (.unary 5 .not (.wrapped 5 (.binary 5 .identical (.null 5)
          (.boolean 5 true)))) (.string 5 "yes") (.string 5 "no")
    · obtain rfl := List.mem_singleton.mp he
      refine .object 6 (List.forall_mem_singleton.mpr (List.forall_mem_singleton.mpr (.null 6)))
        (fun l key text h => ?_) fun l key h => ?_
      · cases List.mem_singleton.mp h
      · cases List.mem_singleton.mp h
  · simp [mixedFragment] at h
  · simp [mixedFragment] at h

theorem evaluate_of_exported_mixed :
    (mixedFragment.IsRecoverable ∧
      Dialect.ofExtension (Path.extension? mixedFragment.path) = ⟨false, false⟩) ∧
    ∃ text f', text = Value.braces ["name: `cmd\\u002d$\x7bundefined || \"x\"\x7d`",
        "home: undefined?.dir.name",
        "tags: " ++ Value.brackets ["\"a\"", "", "..." ++ Value.brackets ["5"] 2] 1,
        "handler: argv => argv.length", "[\"quiet\"]: (!(null === true)) ? \"yes\" : \"no\"",
        "..." ++ Value.braces ["\"sub dir\": null"] 1, "filePath: \"/c/cmd.js\""] 0 ∧
      exportedFragment? "/c/cmd.js" (optionsModule text) = some f' ∧
      (f'.evaluate {} "/c").value = .ok (.object ⟨[("name", .string "cmd-x"), ("home", .undefined),
        ("tags", .array [.string "a", .undefined, .number (Number.compose false 5 0)]),
        ("handler", .function "argv => argv.length"), ("quiet", .string "yes"), ("sub dir", .null),
        ("filePath", .string "/c/cmd.js")]⟩) := by
  have hdialect : Dialect.ofExtension (Path.extension? mixedFragment.path) = ⟨false, false⟩ := by
    decide
  obtain ⟨text, f', hsource, hread, hvalue⟩ :=
    evaluate_of_exported isRecoverable_mixedFragment hdialect
  exact ⟨⟨isRecoverable_mixedFragment, hdialect⟩, text, f',
    Except.ok.inj (hsource.symm.trans (by rfl)), hread, (hvalue {} "/c" _).mpr (by rfl)⟩

/-- Not every literal that has a value and a text is read again: a number that has lost its
parentheses takes the point of the member behind it. -/
theorem not_evaluate_of_exported :
    ¬ ∀ (path source text : String) (f : Fragment) (globals : Record Value) (directory : String)
      (v : Value), exportedFragment? path source = some f →
        (f.evaluate globals directory).value = .ok v → f.source = .ok text →
        ∃ f', exportedFragment? path (optionsModule text) = some f' ∧
          (f'.evaluate globals directory).value = .ok v := by
  intro h
  have hsource : ((exportedFragment? "/c/cmd.js"
      "export const OPTS = \x7b name: 'x', g: (1).foo \x7d;").bind fun f => f.source.toOption) =
        some (Value.braces ["name: \"x\"", "g: 1.foo", "filePath: \"/c/cmd.js\""] 0) := by
    decide +kernel
  have hvalue : ((exportedFragment? "/c/cmd.js"
      "export const OPTS = \x7b name: 'x', g: (1).foo \x7d;").bind
        fun f => (f.evaluate {} "/c").value.toOption).isSome = true := by
    decide +kernel
  have hread : (exportedFragment? "/c/cmd.js" (optionsModule
      (Value.braces ["name: \"x\"", "g: 1.foo", "filePath: \"/c/cmd.js\""] 0))).isNone = true := by
    decide +kernel
  obtain ⟨f, hf, htext⟩ := Option.bind_eq_some_iff.mp hsource
  rw [hf, Option.bind_some] at hvalue
  obtain ⟨v, hv⟩ := Option.isSome_iff_exists.mp hvalue
  obtain ⟨f', hf', -⟩ := h _ _ _ f {} "/c" v hf (Discovery.eq_ok_of_toOption hv)
    (Discovery.eq_ok_of_toOption htext)
  rw [hf'] at hread
  cases hread

/-- A link behind an optional chain that had ended goes on with the chain: the text in parentheses
had none, the one without them has one. -/
theorem link_of_ended_chain_exported :
    ((exportedFragment? "/c/cmd.js"
      "export const OPTS = \x7b a: (undefined?.b).c + 'x' \x7d;").bind
        fun f => (f.evaluate {} "/c").value.toOption.map Value.source) =
          some (Value.braces ["a: undefined", "filePath: \"/c/cmd.js\""] 0) ∧
    ((exportedFragment? "/c/cmd.js"
      "export const OPTS = \x7b a: (undefined?.b).c + 'x' \x7d;").bind
        fun f => f.source.toOption) =
          some (Value.braces ["a: undefined?.b.c + \"x\"", "filePath: \"/c/cmd.js\""] 0) ∧
    ((exportedFragment? "/c/cmd.js" (optionsModule
      (Value.braces ["a: undefined?.b.c + \"x\"", "filePath: \"/c/cmd.js\""] 0))).bind
        fun f => (f.evaluate {} "/c").value.toOption.map Value.source) =
          some (Value.braces ["a: \"undefinedx\"", "filePath: \"/c/cmd.js\""] 0) := by
  decide +kernel

end Literal

end CommandFiles
