import CommandFiles.Proofs.DiscoveryRun
import CommandFiles.Proofs.MatchRun
import CommandFiles.Proofs.ObjectMembers

/-! # Commands of files

The command of a file is read out of what its option literal comes to, and the path of the file
stands in there as the last field that is set. Nothing a literal says can change it. -/
namespace CommandFiles

open CommandLine (except_bind_eq_ok)

namespace Record

variable {α : Type} {r : Record α}

theorem nodup_insert (h : r.keys.Nodup) (key : String) (value : α) :
    (r.insert key value).keys.Nodup := by
  rw [keys_insert]
  split
  · exact h
  · next hnew =>
    refine List.nodup_append.mpr ⟨h, by simp, fun a ha b hb => ?_⟩
    rw [List.mem_singleton.mp hb]
    rintro rfl
    exact hnew ha

theorem nodup_insertAll (h : r.keys.Nodup) (entries : List (String × α)) :
    (r.insertAll entries).keys.Nodup := by
  induction entries generalizing r with
  | nil => exact h
  | cons e rest ih => exact ih (nodup_insert h e.1 e.2)

theorem mem_entries_insert (r : Record α) (key : String) (value : α) :
    (key, value) ∈ (r.insert key value).entries := by
  change _ ∈ insertInto key value r.entries
  induction r.entries with
  | nil => exact List.mem_singleton_self _
  | cons e rest ih =>
    unfold insertInto
    split
    · next h => rw [h]; exact List.mem_cons_self
    · exact List.mem_cons_of_mem _ ih

end Record

namespace Literal

theorem nodup_spreadInto {object : Record Value} (h : object.keys.Nodup) (v : Value) :
    (spreadInto object v).keys.Nodup := by
  cases v with
  | object fields => exact Record.nodup_insertAll h _
  | array items => exact Record.nodup_insertAll h _
  | string s => exact Record.nodup_insertAll h _
  | _ => exact h

/-- No two fields of an evaluated literal have one name. -/
theorem nodup_evalProperties (s : Scene) {ps : List Script.Property} {object r : Record Value}
    (hobject : object.keys.Nodup) (h : (evalProperties s ps object).run.value = .ok r) :
    r.keys.Nodup := by
  induction ps generalizing object with
  | nil =>
    unfold evalProperties at h
    exact Logged.pure_eq_ok.mp h ▸ hobject
  | cons p rest ih =>
    cases p with
    | value line key value =>
      unfold evalProperties at h
      obtain ⟨k, -, h⟩ := Logged.bind_eq_ok.mp h
      cases k with
      | none => exact ih hobject h
      | some name =>
        obtain ⟨v, -, h⟩ := Logged.bind_eq_ok.mp h
        exact ih (Record.nodup_insert hobject name v) h
    | method line key text =>
      unfold evalProperties at h
      obtain ⟨k, -, h⟩ := Logged.bind_eq_ok.mp h
      cases k with
      | none => exact ih hobject h
      | some name => exact ih (Record.nodup_insert hobject name _) h
    | accessor line key =>
      unfold evalProperties at h
      obtain ⟨k, -, h⟩ := Logged.bind_eq_ok.mp h
      cases k with
      | none => exact ih hobject h
      | some name => cases h
    | spread line e =>
      unfold evalProperties at h
      obtain ⟨v, -, h⟩ := Logged.bind_eq_ok.mp h
      exact ih (nodup_spreadInto hobject v) h

theorem evaluate_eq_ok {f : Fragment} {globals : Record Value} {directory : String} {v : Value}
    (h : (f.evaluate globals directory).value = .ok v) :
    ∃ object, (evalProperties ⟨f.path, globals, directory⟩ f.properties {}).run.value =
      .ok object ∧ v = .object (object.insert filePathKey (.string f.path)) := by
  unfold Fragment.evaluate at h
  dsimp only at h
  split at h
  · next object hobject => exact ⟨object, hobject, (Except.ok.inj h).symm⟩
  · cases h

theorem path_optionFragment {path : String} {o : Script.Outline} {f : Fragment}
    (h : (optionFragment path o).value = .ok (some f)) : f.path = path := by
  unfold optionFragment at h
  split at h
  · cases h
  · obtain ⟨ps, -, rfl⟩ := Option.map_eq_some_iff.mp (Except.ok.inj h)
    rfl

end Literal

theorem mapError_eq_ok {ε ε' α : Type} {f : ε → ε'} {r : Except ε α} {a : α} :
    r.mapError f = .ok a ↔ r = .ok a := by
  cases r <;> simp [Except.mapError]

namespace Value

theorem sublist_fieldsToJson (fields : List (String × Value)) :
    ((fieldsToJson fields).map Prod.fst).Sublist (fields.map Prod.fst) := by
  induction fields with
  | nil => exact List.Sublist.slnil
  | cons field rest ih =>
    unfold fieldsToJson
    split
    · next h => cases h
    · next h =>
      obtain ⟨rfl, rfl⟩ := List.cons.inj h
      exact ih.cons _
    · next h =>
      obtain ⟨rfl, rfl⟩ := List.cons.inj h
      exact ih.cons_cons _

theorem mem_fieldsToJson {key : String} {v : Value} (hv : v ≠ .undefined)
    {fields : List (String × Value)} (h : (key, v) ∈ fields) :
    (key, v.toJson) ∈ fieldsToJson fields := by
  induction fields with
  | nil => cases h
  | cons field rest ih =>
    unfold fieldsToJson
    split
    · next heq => cases heq
    · next heq =>
      obtain ⟨rfl, rfl⟩ := List.cons.inj heq
      rcases List.mem_cons.mp h with h | h
      · exact absurd (Prod.mk.inj h).2 hv
      · exact ih h
    · next heq =>
      obtain ⟨rfl, rfl⟩ := List.cons.inj heq
      rcases List.mem_cons.mp h with h | h
      · obtain ⟨rfl, rfl⟩ := Prod.mk.inj h
        exact List.mem_cons_self
      · exact List.mem_cons_of_mem _ (ih h)

end Value

namespace Command

/-! ## The path that is read -/

theorem filePath_setField {key : String} {j : Json} {c c' : Command} (hkey : key ≠ "filePath")
    (h : setField key j c = .ok c') : c'.filePath = c.filePath := by
  obtain ⟨d, subs⟩ := c
  unfold setField at h
  split at h
  · split at h
    · obtain ⟨below, -, h⟩ := except_bind_eq_ok.mp h
      cases h
      rfl
    · cases h
  · obtain ⟨d', hd, h⟩ := except_bind_eq_ok.mp h
    cases h
    change d'.filePath = d.filePath
    unfold Declaration.setField at hd
    split at hd
    case h_4 => exact absurd rfl hkey
    case h_11 => cases hd; rfl
    all_goals
      obtain ⟨a, -, hd⟩ := except_bind_eq_ok.mp hd
      cases hd
      rfl

theorem filePath_setField_self {path : String} {c c' : Command}
    (h : setField "filePath" (.string path) c = .ok c') : c'.filePath = some path := by
  obtain ⟨d, subs⟩ := c
  cases h
  rfl

/-- A path among members with different names is the path of the command they make. -/
theorem filePath_ofMembers {path : String} {members : List (String × Json)} {c c' : Command}
    (hnodup : (members.map Prod.fst).Nodup) (hpath : ("filePath", .string path) ∈ members)
    (h : ofMembers members c = .ok c') : c'.filePath = some path := by
  have hkept : ∀ (members : List (String × Json)) (c c' : Command),
      "filePath" ∉ members.map Prod.fst → ofMembers members c = .ok c' →
        c'.filePath = c.filePath := by
    intro members
    induction members with
    | nil =>
      intro c c' _ h
      cases h
      rfl
    | cons m rest ih =>
      intro c c' hnew h
      rw [List.map_cons, List.mem_cons, not_or] at hnew
      obtain ⟨next, hnext, h⟩ := except_bind_eq_ok.mp h
      rw [ih next c' hnew.2 h, filePath_setField (Ne.symm hnew.1) hnext]
  induction members generalizing c with
  | nil => cases hpath
  | cons m rest ih =>
    rw [List.map_cons, List.nodup_cons] at hnodup
    obtain ⟨next, hnext, hrest⟩ := except_bind_eq_ok.mp h
    rcases List.mem_cons.mp hpath with rfl | hpath
    · rw [hkept rest next c' hnodup.1 hrest, filePath_setField_self hnext]
    · exact ih hnodup.2 hpath hrest

/-- The command read out of an object of values has the path that stands in there. -/
theorem filePath_of_ofJson {fields : Record Value} {path : String} {c : Command}
    (hnodup : fields.keys.Nodup) (hpath : ("filePath", .string path) ∈ fields.entries)
    (h : ofJson (Value.object fields).toJson = .ok c) : c.filePath = some path := by
  have hmade := (Value.sublist_fieldsToJson fields.entries).nodup hnodup
  obtain ⟨own, hown, hordered, hperm⟩ := Json.exists_ofMembers hmade
  have hobject : (Value.object fields).toJson = .object own := hown
  rw [hobject] at h
  obtain ⟨read, hread, h⟩ := except_bind_eq_ok.mp h
  obtain ⟨-, -, h⟩ := except_bind_eq_ok.mp h
  cases h
  have hmem := Value.mem_fieldsToJson (Value.noConfusion) hpath
  exact filePath_ofMembers hordered.nodup (hperm.mem_iff.mpr hmem) hread

end Command

namespace Discovery

variable {fs : FileSystem} {c : Context} {path : String} {command : Command}

/-- What the command of a file is read out of: an object of fields with different names, and the
path of the file among them. -/
theorem exists_of_holds (h : Holds fs c path command) :
    ∃ (fields : Record Value) (found : Option (List String)) (read : Command),
      fields.keys.Nodup ∧ (Literal.filePathKey, .string path) ∈ fields.entries ∧
        Command.ofJson (Value.object fields).toJson = .ok read ∧
        command = withDependencies found read := by
  obtain ⟨o, -, h⟩ := Logged.bind_eq_ok.mp h
  obtain ⟨fragment, hfragment, h⟩ := Logged.bind_eq_ok.mp h
  cases fragment with
  | none => cases h
  | some f =>
    obtain ⟨found, -, h⟩ := Logged.bind_eq_ok.mp h
    obtain ⟨v, hv, h⟩ := Logged.bind_eq_ok.mp h
    obtain ⟨read, hread, h⟩ := Logged.bind_eq_ok.mp h
    cases h
    obtain rfl : f.path = path := Literal.path_optionFragment (mapError_eq_ok.mp hfragment)
    obtain ⟨object, hobject, rfl⟩ := Literal.evaluate_eq_ok (mapError_eq_ok.mp hv)
    have hempty : ({} : Record Value).keys.Nodup := List.nodup_nil
    have hnodup := Literal.nodup_evalProperties _ hempty hobject
    exact ⟨_, found, read, Record.nodup_insert hnodup _ _, Record.mem_entries_insert object _ _,
      mapError_eq_ok.mp hread, rfl⟩

theorem filePath_of_holds (h : Holds fs c path command) : command.filePath = some path := by
  obtain ⟨fields, found, read, hnodup, hpath, hread, rfl⟩ := exists_of_holds h
  have hread := Command.filePath_of_ofJson hnodup hpath hread
  obtain ⟨d, subs⟩ := read
  exact hread

end Discovery

end CommandFiles
