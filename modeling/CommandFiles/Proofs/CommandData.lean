import CommandFiles.Proofs.TreeOrigins
import Mathlib.Algebra.Order.Group.Multiset
import Mathlib.Tactic.Abel

/-! # Commands written and read

What is written of a command is read back as the command. The members of an object come in the order
of their names, not in the order they are declared in, so each record is first written out in that
order, part by part; then every part sets its own field. The only thing that is lost is a default
value that is null: absent and null read the same. -/
namespace CommandFiles

open CommandLine (except_bind_eq_ok except_mapM_eq_ok)
open Json

namespace Json

variable {α β : Type} {set : α → String × Json → Except Mismatch α} {a b c : α} {key : String}

/-! ## Records part by part -/

theorem foldlM_append_ok {left right : List (String × Json)} (hleft : left.foldlM set a = .ok b)
    (hright : right.foldlM set b = .ok c) : (left ++ right).foldlM set a = .ok c := by
  rw [List.foldlM_append]
  exact except_bind_eq_ok.mpr ⟨b, hleft, hright⟩

theorem foldlM_singleton {m : String × Json} (h : set a m = .ok b) : [m].foldlM set a = .ok b := by
  rw [List.foldlM_cons, h]
  rfl

/-- A part that may be absent sets its field, or leaves it as it is. -/
theorem foldlM_optional {o : Option β} {f : β → Json} {r : Option β → α}
    (h : ∀ x, o = some x → set (r none) (key, f x) = .ok (r (some x))) :
    (o.map fun x => (key, f x)).toList.foldlM set (r none) = .ok (r o) := by
  cases o with
  | none => rfl
  | some x => exact foldlM_singleton (h x rfl)

/-- Parts that each have at most one member, of a given name, are ordered if the names are. -/
theorem ordered_of_keys {members : List (String × Json)} (keys : List String)
    (hmembers : (members.map Prod.fst).Sublist keys) (hkeys : keys.Pairwise (· < ·)) :
    Ordered members := List.pairwise_map.mp (hkeys.sublist hmembers)

theorem keys_optional (key : String) (o : Option β) (f : β → Json) :
    ((o.map fun x => (key, f x)).toList.map Prod.fst).Sublist [key] := by
  cases o with
  | none => exact List.nil_sublist _
  | some x => exact List.Sublist.refl _

theorem keys_append {left right : List (String × Json)} {keys more : List String}
    (hleft : (left.map Prod.fst).Sublist keys) (hright : (right.map Prod.fst).Sublist more) :
    ((left ++ right).map Prod.fst).Sublist (keys ++ more) := by
  rw [List.map_append]
  exact hleft.append hright

theorem checkMembers_eq_ok {members : List (String × Json)} {required : List String}
    (h : ∀ name ∈ required, name ∈ members.map Prod.fst) :
    Shape.checkMembers members required = .ok () := by
  have hfound : required.find? (fun name => (members.lookup name).isNone) = none := by
    refine List.find?_eq_none.mpr fun name hname => ?_
    obtain ⟨m, hm, rfl⟩ := List.mem_map.mp (h name hname)
    rw [Option.isNone_iff_eq_none, List.lookup_eq_none_iff]
    exact fun hnone => by simpa using hnone m hm
  rw [Shape.checkMembers, hfound]

/-- An object is read as a record if its members set the fields and none is missing. -/
theorem record_eq_ok {name : String} {fields required : List String} {start : α}
    {set : String → Json → α → Except Mismatch α} {members : List (String × Json)}
    (hset : members.foldlM (fun a m => set m.1 m.2 a) start = .ok a)
    (hrequired : ∀ name ∈ required, name ∈ members.map Prod.fst) :
    Shape.record name fields required start set (.object members) = .ok a :=
  except_bind_eq_ok.mpr ⟨a, hset,
    except_bind_eq_ok.mpr ⟨(), checkMembers_eq_ok hrequired, rfl⟩⟩

theorem optional_eq_ok {shape : Shape β} {j : Json} {x : β} (h : shape j = .ok x)
    (hj : j ≠ .null) : Shape.optional shape j = .ok (some x) := by
  cases j with
  | null => exact absurd rfl hj
  | _ => exact congrArg (Except.map some) h

end Json

theorem texts_shape (texts : List String) :
    Shape.list Shape.text (.array (texts.map .string)) = .ok texts :=
  except_mapM_eq_ok.mpr (by
    rw [List.forall₂_map_left_iff]
    exact List.forall₂_same.mpr fun _ _ => rfl)

/-! ## Options -/

namespace OptionSpec

/-- The members of an option in the order of their names. -/
def orderedMembers (o : OptionSpec) : List (String × Json) :=
  (o.choices.map fun cs => ("choices", Json.array (cs.map .string))).toList ++
  ((o.defaultValue.map fun v => ("defaultValue", v)).toList ++
  ((o.description.map fun d => ("description", Json.string d)).toList ++
  ([("name", o.name.toJson)] ++
  ((if o.required then [("required", Json.bool true)] else []) ++
  [("type", .string o.kind.tag)]))))

theorem toJson_eq (o : OptionSpec) : o.toJson = .object o.orderedMembers := by
  refine ofMembers_of_perm ?_ (ordered_of_keys (["choices"] ++ (["defaultValue"] ++
    (["description"] ++ (["name"] ++ (["required"] ++ ["type"]))))) ?_ (by decide))
  · rw [orderedMembers, ← Multiset.coe_eq_coe]
    simp only [← Multiset.coe_add, ← Multiset.cons_coe, ← Multiset.singleton_add]
    abel
  · refine keys_append (keys_optional _ _ _) <| keys_append (keys_optional _ _ _) <|
      keys_append (keys_optional _ _ _) <| keys_append (List.Sublist.refl _) <|
      keys_append ?_ (List.Sublist.refl _)
    cases o.required <;> simp

theorem kind_shape (kind : OptionKind) : OptionKind.shape (.string kind.tag) = .ok kind := by
  cases kind <;> rfl

theorem name_shape (name : OptionName) : OptionName.shape name.toJson = .ok name := by
  cases name <;> rfl

/-- An option is read back, unless its default value is null. -/
theorem shape_toJson (o : OptionSpec) (h : o.defaultValue ≠ some .null) :
    shape o.toJson = .ok o := by
  obtain ⟨name, description, defaultValue, required, kind, choices⟩ := o
  rw [toJson_eq]
  refine record_eq_ok (
    foldlM_append_ok (foldlM_optional
      (r := fun x => ({ name := .long "", kind := .boolean, choices := x } : OptionSpec))
      fun cs _ => ?_) <|
    foldlM_append_ok (foldlM_optional
      (r := fun x => ({ name := .long "", kind := .boolean, choices,
                        defaultValue := x } : OptionSpec)) fun v hv => ?_) <|
    foldlM_append_ok (foldlM_optional
      (r := fun x => ({ name := .long "", kind := .boolean, choices, defaultValue,
                        description := x } : OptionSpec)) fun _ _ => rfl) <|
    foldlM_append_ok
      (foldlM_singleton (except_bind_eq_ok.mpr ⟨name, name_shape name, rfl⟩)) <|
    foldlM_append_ok
      (b := { name, kind := .boolean, choices, defaultValue, description, required })
      ?_ (foldlM_singleton (except_bind_eq_ok.mpr ⟨kind, kind_shape kind, rfl⟩))) ?_
  · exact except_bind_eq_ok.mpr ⟨some cs, optional_eq_ok (texts_shape cs) nofun, rfl⟩
  · have hnull : v ≠ .null := fun hnull => h (hnull ▸ hv)
    exact except_bind_eq_ok.mpr ⟨some v, optional_eq_ok rfl hnull, rfl⟩
  · cases required <;> rfl
  · simp [orderedMembers]

end OptionSpec

/-! ## Commands -/

theorem Hook.shape_toJson (hook : Hook) : Hook.shape hook.toJson = .ok hook := rfl

theorem RuntimeDemand.shape_toJson (demand : RuntimeDemand) :
    RuntimeDemand.shape demand.toJson = .ok demand := by
  obtain ⟨_ | r⟩ := demand
  · rfl
  · cases r <;> rfl

/-- Whether the default values of a command have a property, and none is null. -/
def Declaration.DefaultsHave (Q : Json → Prop) (d : Declaration) : Prop :=
  ∀ o ∈ d.options.getD [], ∀ j, o.defaultValue = some j → j ≠ .null ∧ Q j

theorem options_shape {os : List OptionSpec} (h : ∀ o ∈ os, o.defaultValue ≠ some .null) :
    Shape.list OptionSpec.shape (.array (os.map OptionSpec.toJson)) = .ok os :=
  except_mapM_eq_ok.mpr (by
    rw [List.forall₂_map_left_iff]
    exact List.forall₂_same.mpr fun o ho => o.shape_toJson (h o ho))

namespace Command

variable {Q : Json → Prop}

/-- The members of a command in the order of their names. -/
def orderedMembers (d : Declaration) (subs : List Command) : List (String × Json) :=
  (d.secondName.map fun s => ("alias", Json.string s)).toList ++
  ((d.beforeRun.map fun h => ("beforeRun", h.toJson)).toList ++
  ((d.dependencies.map fun ds => ("deps", Json.array (ds.map .string))).toList ++
  ((d.description.map fun s => ("description", Json.string s)).toList ++
  ((d.filePath.map fun s => ("filePath", Json.string s)).toList ++
  ([("name", .string d.name)] ++
  ((d.options.map fun os => ("options", Json.array (os.map OptionSpec.toJson))).toList ++
  ((d.runtimeDemand.map fun r => ("requiresRunTime", r.toJson)).toList ++
  ((d.showsHelp.map fun b => ("showHelpWhenNoArgs", Json.bool b)).toList ++
  ([(subcommandsField, .array (toJsonList subs))] ++
  (d.validate.map fun h => ("validate", h.toJson)).toList)))))))))

theorem toJson_eq (d : Declaration) (subs : List Command) :
    toJson (mk d subs) = .object (orderedMembers d subs) := by
  rw [toJson]
  refine ofMembers_of_perm ?_ (ordered_of_keys (["alias"] ++ (["beforeRun"] ++ (["deps"] ++
    (["description"] ++ (["filePath"] ++ (["name"] ++ (["options"] ++ (["requiresRunTime"] ++
    (["showHelpWhenNoArgs"] ++ (["subcommands"] ++ ["validate"])))))))))) ?_ (by decide))
  · rw [declaredMembers, orderedMembers, ← Multiset.coe_eq_coe]
    simp only [← Multiset.coe_add, ← Multiset.cons_coe, ← Multiset.singleton_add]
    abel
  · exact keys_append (keys_optional _ _ _) <| keys_append (keys_optional _ _ _) <|
      keys_append (keys_optional _ _ _) <| keys_append (keys_optional _ _ _) <|
      keys_append (keys_optional _ _ _) <| keys_append (List.Sublist.refl _) <|
      keys_append (keys_optional _ _ _) <| keys_append (keys_optional _ _ _) <|
      keys_append (keys_optional _ _ _) <| keys_append (List.Sublist.refl _) (keys_optional _ _ _)

theorem ofMembers_eq_foldlM (members : List (String × Json)) (c : Command) :
    ofMembers members c = members.foldlM (fun c m => setField m.1 m.2 c) c := by
  induction members generalizing c with
  | nil => rw [ofMembers]; rfl
  | cons m rest ih =>
    rw [ofMembers, List.foldlM_cons]
    exact congrArg _ (funext ih)

theorem setField_declared (key : String) {j : Json} {d d' : Declaration} {subs : List Command}
    (hkey : key ≠ subcommandsField) (h : d.setField key j = .ok d') :
    setField key j (mk d subs) = .ok (mk d' subs) := by
  unfold setField
  rw [if_neg hkey, h]
  rfl

/-- The members of a command set all its fields, once the commands below it are read back. -/
theorem ofMembers_orderedMembers {d : Declaration} {subs : List Command} (hd : d.DefaultsHave Q)
    (hsubs : ofJsonList (toJsonList subs) = .ok subs) :
    ofMembers (orderedMembers d subs) empty = .ok (mk d subs) := by
  obtain ⟨name, description, secondName, filePath, options, runtimeDemand, beforeRun, validate,
    showsHelp, dependencies⟩ := d
  rw [ofMembers_eq_foldlM]
  refine
    foldlM_append_ok (foldlM_optional (r := fun x => mk { secondName := x } [])
      fun _ _ => rfl) <|
    foldlM_append_ok (foldlM_optional (r := fun x => mk { secondName, beforeRun := x } [])
      fun _ _ => rfl) <|
    foldlM_append_ok (foldlM_optional
      (r := fun x => mk { secondName, beforeRun, dependencies := x } []) fun ds _ => ?_) <|
    foldlM_append_ok (foldlM_optional
      (r := fun x => mk { secondName, beforeRun, dependencies, description := x } [])
      fun _ _ => rfl) <|
    foldlM_append_ok (foldlM_optional
      (r := fun x => mk { secondName, beforeRun, dependencies, description, filePath := x } [])
      fun _ _ => rfl) <|
    foldlM_append_ok (foldlM_singleton rfl) <|
    foldlM_append_ok (foldlM_optional
      (r := fun x => mk { name, secondName, beforeRun, dependencies, description, filePath
                          options := x } []) fun os hos => ?_) <|
    foldlM_append_ok (foldlM_optional
      (r := fun x => mk { name, secondName, beforeRun, dependencies, description, filePath, options
                          runtimeDemand := x } []) fun demand _ => ?_) <|
    foldlM_append_ok (foldlM_optional
      (r := fun x => mk { name, secondName, beforeRun, dependencies, description, filePath, options
                          runtimeDemand, showsHelp := x } []) fun _ _ => rfl) <|
    foldlM_append_ok (foldlM_singleton (except_bind_eq_ok.mpr ⟨subs, hsubs, rfl⟩)) <|
    foldlM_optional
      (r := fun x => mk { name, secondName, beforeRun, dependencies, description, filePath, options
                          runtimeDemand, showsHelp, validate := x } subs) fun _ _ => rfl
  · exact setField_declared "deps" (by decide)
      (except_bind_eq_ok.mpr ⟨some ds, optional_eq_ok (texts_shape ds) nofun, rfl⟩)
  · obtain rfl : options = some os := hos
    have hshape := options_shape fun o ho h => (hd o ho _ h).1 rfl
    exact setField_declared "options" (by decide)
      (except_bind_eq_ok.mpr ⟨some os, optional_eq_ok hshape nofun, rfl⟩)
  · exact setField_declared "requiresRunTime" (by decide) (except_bind_eq_ok.mpr
      ⟨some demand, optional_eq_ok demand.shape_toJson nofun, rfl⟩)

mutual

/-- **A command is read back as it was written**, unless a default value in it is null. -/
theorem ofJson_toJson : ∀ c : Command, c.Everywhere (Declaration.DefaultsHave Q) →
    ofJson c.toJson = .ok c
  | mk d subs, h => by
    have hsubs := ofJsonList_toJsonList subs (everywhere_iff.mp h).2
    rw [toJson_eq, ofJson]
    refine except_bind_eq_ok.mpr
      ⟨mk d subs, ofMembers_orderedMembers (everywhere_iff.mp h).1 hsubs, ?_⟩
    refine except_bind_eq_ok.mpr ⟨(), checkMembers_eq_ok ?_, rfl⟩
    simp [requiredFields, orderedMembers]

theorem ofJsonList_toJsonList : ∀ cs : List Command,
    (∀ c ∈ cs, c.Everywhere (Declaration.DefaultsHave Q)) → ofJsonList (toJsonList cs) = .ok cs
  | [], _ => rfl
  | c :: rest, h => by
    have hc := ofJson_toJson c (h c List.mem_cons_self)
    have hrest := ofJsonList_toJsonList rest fun k hk => h k (List.mem_cons_of_mem c hk)
    rw [toJsonList, ofJsonList]
    exact except_bind_eq_ok.mpr ⟨c, hc, except_bind_eq_ok.mpr ⟨rest, hrest, rfl⟩⟩

end

end Command

end CommandFiles
