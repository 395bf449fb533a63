import CommandFiles.Proofs.CommandData

/-! # Commands that are read

Many documents are read as one command: records may be arrays, null stands for what is absent, what
no field is named after is passed over, and a runtime has two names. The fields are set one after
another, so what setting a field keeps holds everywhere of the command that is read. A default value
is never read as null, which is all that writing a command could lose: the command that is written
and read again is the one that was read first. -/
namespace CommandFiles

open CommandLine (except_bind_eq_ok exists_of_except_mapM)
open Json

/-! ## What setting a field keeps -/

namespace Json

/-- Whether the parts of a document have a property if the document has it. -/
structure Hereditary (Q : Json → Prop) : Prop where
  items : ∀ {items : List Json}, Q (.array items) → ∀ j ∈ items, Q j
  members : ∀ {members : List (String × Json)}, Q (.object members) → ∀ m ∈ members, Q m.2

theorem InOrder.hereditary : Hereditary InOrder := ⟨InOrder.items, InOrder.members⟩

theorem hereditary_true : Hereditary fun _ => True :=
  ⟨fun _ _ _ => trivial, fun _ _ _ => trivial⟩

end Json

section Records

variable {α : Type} {Q : Json → Prop} {P : α → Prop} {name : String} {fields required : List String}
  {start a : α} {set : String → Json → α → Except Mismatch α} {j : Json}

theorem foldlM_keeps (hset : ∀ key j a a', Q j → P a → set key j a = .ok a' → P a')
    {members : List (String × Json)} (hmembers : ∀ m ∈ members, Q m.2) {a a' : α} (ha : P a)
    (h : members.foldlM (fun a m => set m.1 m.2 a) a = .ok a') : P a' := by
  induction members generalizing a with
  | nil =>
    cases h
    exact ha
  | cons m rest ih =>
    rw [List.foldlM_cons] at h
    obtain ⟨b, hb, h⟩ := except_bind_eq_ok.mp h
    exact ih (fun k hk => hmembers k (List.mem_cons_of_mem m hk))
      (hset _ _ a b (hmembers m List.mem_cons_self) ha hb) h

/-- What setting a field keeps holds of a record that is read. -/
theorem record_keeps (hparts : Hereditary Q) (hstart : P start)
    (hset : ∀ key j a a', Q j → P a → set key j a = .ok a' → P a') (hj : Q j)
    (h : Shape.record name fields required start set j = .ok a) : P a := by
  cases j with
  | object members =>
    obtain ⟨b, hb, h⟩ := except_bind_eq_ok.mp h
    obtain ⟨-, -, h⟩ := except_bind_eq_ok.mp h
    cases h
    exact foldlM_keeps hset (hparts.members hj) hstart hb
  | array items =>
    obtain ⟨b, hb, h⟩ := except_bind_eq_ok.mp h
    obtain ⟨-, -, h⟩ := except_bind_eq_ok.mp h
    cases h
    exact foldlM_keeps hset (fun m hm => hparts.items hj m.2 (List.of_mem_zip hm).2) hstart hb
  | _ => cases h

end Records

/-! ## Default values -/

section Defaults

variable {Q : Json → Prop} {j : Json}

/-- A default value that is read is a part of the document, and not null. -/
theorem OptionSpec.defaultValue_of_shape (hparts : Hereditary Q) {o : OptionSpec} (hj : Q j)
    (h : OptionSpec.shape j = .ok o) : ∀ v, o.defaultValue = some v → v ≠ .null ∧ Q v := by
  refine record_keeps (P := fun o : OptionSpec => ∀ v, o.defaultValue = some v → v ≠ .null ∧ Q v)
    hparts (fun _ hv => by cases hv) (fun key j o o' hj ho h => ?_) hj h
  unfold OptionSpec.setField at h
  split at h
  -- Only one field is a default value, and null is read as none.
  case h_3 =>
    obtain ⟨read, hread, h⟩ := except_bind_eq_ok.mp h
    cases h
    rintro v rfl
    cases j with
    | null => cases hread
    | _ => cases hread; exact ⟨nofun, hj⟩
  case h_7 => cases h; exact ho
  all_goals
    obtain ⟨a, -, h⟩ := except_bind_eq_ok.mp h
    cases h
    exact ho

namespace Declaration

theorem defaultsHave_name (name : String) : ({ name := name } : Declaration).DefaultsHave Q :=
  fun _ ho => absurd ho List.not_mem_nil

/-- A field that is set with a document keeps a property of default values that the parts of the
document have. -/
theorem defaultsHave_setField (hparts : Hereditary Q) {key : String} {d d' : Declaration}
    (hj : Q j) (hd : d.DefaultsHave Q) (h : d.setField key j = .ok d') : d'.DefaultsHave Q := by
  unfold Declaration.setField at h
  split at h
  -- Only one field holds options.
  case h_5 =>
    obtain ⟨read, hread, h⟩ := except_bind_eq_ok.mp h
    cases h
    cases j with
    | array items =>
      obtain ⟨os, hos, he⟩ := except_bind_eq_ok.mp hread
      cases he
      intro o ho
      obtain ⟨i, hi, ho⟩ := exists_of_except_mapM hos ho
      exact OptionSpec.defaultValue_of_shape hparts (hparts.items hj i hi) ho
    | null =>
      cases hread
      exact fun o ho => absurd ho List.not_mem_nil
    | _ => cases hread
  case h_11 => cases h; exact hd
  all_goals
    obtain ⟨a, -, h⟩ := except_bind_eq_ok.mp h
    cases h
    exact hd

end Declaration

end Defaults

/-! ## Commands -/

namespace Command

variable {Q : Json → Prop}

theorem everywhere_empty : empty.Everywhere (Declaration.DefaultsHave Q) :=
  everywhere_placeholder Declaration.defaultsHave_name ""

mutual

/-- **The default values of a command are parts of the document it is read out of**, so they have
what the parts of the document have. -/
theorem everywhere_of_ofJson (hparts : Hereditary Q) : ∀ (j : Json) (c : Command), Q j →
    ofJson j = .ok c → c.Everywhere (Declaration.DefaultsHave Q)
  | .object members, c, hj, h => by
    rw [ofJson] at h
    obtain ⟨read, hread, h⟩ := except_bind_eq_ok.mp h
    obtain ⟨-, -, h⟩ := except_bind_eq_ok.mp h
    cases h
    exact everywhere_of_ofMembers hparts members empty c (hparts.members hj) everywhere_empty hread
  | .array items, c, hj, h => by
    rw [ofJson] at h
    obtain ⟨read, hread, h⟩ := except_bind_eq_ok.mp h
    obtain ⟨-, -, h⟩ := except_bind_eq_ok.mp h
    cases h
    exact everywhere_of_ofItems hparts fieldNames items empty c (hparts.items hj)
      everywhere_empty hread
  | .null, _, _, h | .bool _, _, _, h | .int _, _, _, h | .float _, _, _, h
  | .string _, _, _, h => by cases h

theorem everywhere_of_ofMembers (hparts : Hereditary Q) : ∀ (members : List (String × Json))
    (c c' : Command), (∀ m ∈ members, Q m.2) → c.Everywhere (Declaration.DefaultsHave Q) →
    ofMembers members c = .ok c' → c'.Everywhere (Declaration.DefaultsHave Q)
  | [], c, c', _, hc, h => by
    rw [ofMembers] at h
    cases h
    exact hc
  | (key, j) :: rest, c, c', hmembers, hc, h => by
    rw [ofMembers] at h
    obtain ⟨next, hnext, h⟩ := except_bind_eq_ok.mp h
    have hnext := everywhere_of_setField hparts key j c next (hmembers _ List.mem_cons_self) hc
      hnext
    exact everywhere_of_ofMembers hparts rest next c'
      (fun m hm => hmembers m (List.mem_cons_of_mem _ hm)) hnext h

theorem everywhere_of_ofItems (hparts : Hereditary Q) : ∀ (keys : List String)
    (items : List Json) (c c' : Command), (∀ j ∈ items, Q j) →
    c.Everywhere (Declaration.DefaultsHave Q) → ofItems keys items c = .ok c' →
    c'.Everywhere (Declaration.DefaultsHave Q)
  | key :: keys, j :: rest, c, c', hitems, hc, h => by
    rw [ofItems] at h
    obtain ⟨next, hnext, h⟩ := except_bind_eq_ok.mp h
    have hnext := everywhere_of_setField hparts key j c next (hitems _ List.mem_cons_self) hc
      hnext
    exact everywhere_of_ofItems hparts keys rest next c'
      (fun m hm => hitems m (List.mem_cons_of_mem _ hm)) hnext h
  | [], _, c, c', _, hc, h | _ :: _, [], c, c', _, hc, h => by
    simp only [ofItems, Except.ok.injEq] at h
    exact h ▸ hc

theorem everywhere_of_setField (hparts : Hereditary Q) : ∀ (key : String) (j : Json)
    (c c' : Command), Q j → c.Everywhere (Declaration.DefaultsHave Q) → setField key j c = .ok c' →
    c'.Everywhere (Declaration.DefaultsHave Q)
  | key, j, .mk d subs, c', hj, hc, h => by
    have hown := (everywhere_iff.mp hc).1
    have hsubs := (everywhere_iff.mp hc).2
    unfold setField at h
    split at h
    · split at h
      · next items =>
        obtain ⟨read, hread, h⟩ := except_bind_eq_ok.mp h
        cases h
        exact everywhere_iff.mpr
          ⟨hown, everywhere_of_ofJsonList hparts items read (hparts.items hj) hread⟩
      · cases h
    · obtain ⟨d', hd', h⟩ := except_bind_eq_ok.mp h
      cases h
      exact everywhere_iff.mpr ⟨Declaration.defaultsHave_setField hparts hj hown hd', hsubs⟩

theorem everywhere_of_ofJsonList (hparts : Hereditary Q) : ∀ (items : List Json)
    (cs : List Command), (∀ j ∈ items, Q j) → ofJsonList items = .ok cs →
    ∀ c ∈ cs, c.Everywhere (Declaration.DefaultsHave Q)
  | [], cs, _, h => by
    cases h
    exact fun _ hc => absurd hc List.not_mem_nil
  | j :: rest, cs, hitems, h => by
    rw [ofJsonList] at h
    obtain ⟨c, hc, h⟩ := except_bind_eq_ok.mp h
    obtain ⟨more, hmore, h⟩ := except_bind_eq_ok.mp h
    cases h
    have hfirst := everywhere_of_ofJson hparts j c (hitems j List.mem_cons_self) hc
    have hrest := everywhere_of_ofJsonList hparts rest more
      (fun i hi => hitems i (List.mem_cons_of_mem j hi)) hmore
    exact List.forall_mem_cons.mpr ⟨hfirst, hrest⟩

end

/-- **What is written of a command that was read is read as the same command**, whatever document it
was read out of. -/
theorem ofJson_toJson_of_ofJson {j : Json} {c : Command} (h : ofJson j = .ok c) :
    ofJson c.toJson = .ok c :=
  ofJson_toJson c (everywhere_of_ofJson hereditary_true j c trivial h)

/-- A document with records as arrays, with absent parts as null, with a member that no field is
named after, and with the flag of a runtime for its name. -/
def looseDocument : Json :=
  .object [
    ("description", .null),
    ("name", .string "serve"),
    ("note", .array [.int 3]),
    ("options", .array [
      .array [.array [.string "p", .string "port"], .null, .null, .bool false, .string "input"],
      .object [("choices", .array []), ("defaultValue", .object [("a", .null), ("b", .bool true)]),
        ("name", .string "mode"), ("required", .bool true), ("type", .string "one_of")]]),
    ("requiresRunTime", .array [.string "prod"]),
    ("subcommands", .array [.array [.string "stop", .null, .string "halt", .null, .array []]]),
    ("validate", .array [.string "x => []"])]

/-- The command that is read out of it. -/
def looseCommand : Command :=
  .mk
    { name := "serve"
      options := some [
        { name := .pair "p" "port", kind := .input },
        { name := .long "mode", kind := .oneOf, required := true, choices := some []
          defaultValue := some (.object [("a", .null), ("b", .bool true)]) }]
      runtimeDemand := some ⟨some .production⟩
      validate := some ⟨"x => []"⟩ }
    [.mk { name := "stop", secondName := some "halt", options := some [] } []]

theorem ofJson_toJson_of_ofJson_loose :
    ofJson looseDocument = .ok looseCommand ∧ ofJson looseCommand.toJson = .ok looseCommand := by
  have hread : ofJson looseDocument = .ok looseCommand := rfl
  exact ⟨hread, ofJson_toJson_of_ofJson hread⟩

end Command

end CommandFiles
