import CommandFiles.Proofs.ActionGate
import CommandFiles.Value.Plain

/-! # Members of objects

The members of an object stand in the order of their names, none twice. An object made of members
whose names differ holds just these, so it is the object of every ordered list of them. What values
come to as plain data is in order at every depth. -/
namespace CommandFiles.Json

/-- Whether members stand in the order of their names, none twice. -/
abbrev Ordered (members : List (String × Json)) : Prop := members.Pairwise fun a b => a.1 < b.1

/-- Whether the members of all objects in a document are ordered. -/
inductive InOrder : Json → Prop where
  | null : InOrder .null
  | bool (b : Bool) : InOrder (.bool b)
  | int (n : Int) : InOrder (.int n)
  | float (x : Float) : InOrder (.float x)
  | string (s : String) : InOrder (.string s)
  | array {items : List Json} : (∀ j ∈ items, InOrder j) → InOrder (.array items)
  | object {members : List (String × Json)} :
    Ordered members → (∀ m ∈ members, InOrder m.2) → InOrder (.object members)

theorem InOrder.items {items : List Json} (h : InOrder (.array items)) :
    ∀ j ∈ items, InOrder j := by
  cases h with
  | array h => exact h

theorem InOrder.members {members : List (String × Json)} (h : InOrder (.object members)) :
    ∀ m ∈ members, InOrder m.2 := by
  cases h with
  | object _ h => exact h

variable {key : String} {value : Json} {members acc : List (String × Json)}

theorem Ordered.nodup (h : Ordered members) : (members.map Prod.fst).Nodup := by
  rw [List.Nodup, List.pairwise_map]
  refine h.imp fun {a b} hlt heq => ?_
  rw [heq] at hlt
  exact String.lt_irrefl _ hlt

/-! ## Putting members at their places -/

theorem mem_insertMember {m : String × Json} (h : m ∈ insertMember key value members) :
    m = (key, value) ∨ m ∈ members := by
  induction members with
  | nil => exact .inl (List.mem_singleton.mp h)
  | cons first rest ih =>
    unfold insertMember at h
    split at h
    · exact List.mem_cons.mp h
    split at h
    · exact (List.mem_cons.mp h).imp_right (List.mem_cons_of_mem _)
    · rcases List.mem_cons.mp h with rfl | h
      · exact .inr List.mem_cons_self
      · exact (ih h).imp_right (List.mem_cons_of_mem _)

theorem ordered_insertMember (h : Ordered members) :
    Ordered (insertMember key value members) := by
  induction members with
  | nil => exact List.pairwise_singleton _ _
  | cons first rest ih =>
    obtain ⟨k, v⟩ := first
    obtain ⟨hfirst, hrest⟩ := List.pairwise_cons.mp h
    unfold insertMember
    split
    · next hlt =>
      refine List.pairwise_cons.mpr ⟨fun m hm => ?_, h⟩
      rcases List.mem_cons.mp hm with rfl | hm
      · exact hlt
      · exact String.lt_trans hlt (hfirst m hm)
    split
    · next heq => exact List.pairwise_cons.mpr ⟨fun m hm => heq ▸ hfirst m hm, hrest⟩
    · next hge hne =>
      refine List.pairwise_cons.mpr ⟨fun m hm => ?_, ih hrest⟩
      rcases mem_insertMember hm with rfl | hm
      · change k < key
        grind
      · exact hfirst m hm

theorem perm_insertMember (h : key ∉ members.map Prod.fst) :
    (insertMember key value members).Perm ((key, value) :: members) := by
  induction members with
  | nil => exact List.Perm.refl _
  | cons first rest ih =>
    rw [List.map_cons, List.mem_cons, not_or] at h
    unfold insertMember
    split
    · exact List.Perm.refl _
    rw [if_neg h.1]
    exact ((ih h.2).cons first).trans (List.Perm.swap _ _ _)

/-! ## Objects -/

theorem ordered_foldl (h : Ordered acc) :
    Ordered (members.foldl (fun acc m => insertMember m.1 m.2 acc) acc) := by
  induction members generalizing acc with
  | nil => exact h
  | cons m rest ih => exact ih (ordered_insertMember h)

theorem mem_foldl {m : String × Json}
    (h : m ∈ members.foldl (fun acc m => insertMember m.1 m.2 acc) acc) :
    m ∈ acc ∨ m ∈ members := by
  induction members generalizing acc with
  | nil => exact .inl h
  | cons first rest ih =>
    rcases ih h with h | h
    · rcases mem_insertMember h with rfl | h
      · exact .inr List.mem_cons_self
      · exact .inl h
    · exact .inr (List.mem_cons_of_mem _ h)

theorem perm_foldl (h : ((members ++ acc).map Prod.fst).Nodup) :
    (members.foldl (fun acc m => insertMember m.1 m.2 acc) acc).Perm (members ++ acc) := by
  induction members generalizing acc with
  | nil => exact List.Perm.refl _
  | cons m rest ih =>
    rw [List.cons_append, List.map_cons, List.nodup_cons] at h
    have hnew := h.1
    rw [List.map_append, List.mem_append, not_or] at hnew
    have hm := @perm_insertMember m.1 m.2 acc hnew.2
    have hmiddle : (rest ++ insertMember m.1 m.2 acc).Perm (m :: (rest ++ acc)) :=
      (hm.append_left rest).trans List.perm_middle
    refine (ih ?_).trans hmiddle
    rw [(hmiddle.map Prod.fst).nodup_iff, List.map_cons, List.nodup_cons]
    exact h

/-- The object made of members whose names differ. -/
theorem exists_ofMembers (h : (members.map Prod.fst).Nodup) :
    ∃ own, ofMembers members = .object own ∧ Ordered own ∧ own.Perm members :=
  ⟨_, rfl, ordered_foldl .nil, by
    simpa using @perm_foldl members [] (by simpa using h)⟩

/-- **The object made of some members is that of any ordered list of them.** -/
theorem ofMembers_of_perm {own : List (String × Json)} (hperm : members.Perm own)
    (hown : Ordered own) : ofMembers members = .object own := by
  have hnodup : (members.map Prod.fst).Nodup := (hperm.map Prod.fst).nodup_iff.mpr hown.nodup
  obtain ⟨made, hmade, hordered, hmadeperm⟩ := exists_ofMembers hnodup
  rw [hmade, (hmadeperm.trans hperm).eq_of_pairwise ?_ hordered hown]
  exact fun a b _ _ hab hba => absurd (String.lt_trans hab hba) (String.lt_irrefl _)

theorem ofMembers_of_ordered (h : Ordered members) : ofMembers members = .object members :=
  ofMembers_of_perm (List.Perm.refl _) h

/-! ## Documents in order -/

theorem inOrder_ofMembers (h : ∀ m ∈ members, InOrder m.2) : InOrder (ofMembers members) :=
  .object (ordered_foldl .nil) fun m hm =>
    (mem_foldl hm).elim (fun hm => absurd hm List.not_mem_nil) (h m)

theorem inOrder_numberJson (x : Float) : InOrder (Value.numberJson x) := by
  unfold Value.numberJson
  repeat' split
  all_goals constructor

end CommandFiles.Json

namespace CommandFiles.Value

open Json

theorem inOrder_functionJson (source : String) : InOrder (functionJson source) :=
  .object (List.pairwise_singleton _ _) fun m hm => by
    obtain rfl := List.mem_singleton.mp hm
    exact .string source

/-- Whether a property of documents holds of what values come to as plain data if it holds of what
their parts come to. -/
structure KeptByWriting (Q : Json → Prop) : Prop where
  null : Q .null
  bool : ∀ b, Q (.bool b)
  number : ∀ x, Q (numberJson x)
  string : ∀ s, Q (.string s)
  function : ∀ source, Q (functionJson source)
  array : ∀ {items}, (∀ j ∈ items, Q j) → Q (.array items)
  object : ∀ {members : List (String × Json)}, (∀ m ∈ members, Q m.2) → Q (ofMembers members)

section Writing

variable {Q : Json → Prop}

mutual

/-- A property that is kept by writing holds of what every value comes to. -/
theorem KeptByWriting.toJson (h : KeptByWriting Q) : ∀ v : Value, Q v.toJson
  | .undefined | .null => h.null
  | .boolean b => h.bool b
  | .number x => h.number x
  | .string s => h.string s
  | .array items => h.array (h.itemsToJson items)
  | .object ⟨fields⟩ => h.object (h.fieldsToJson fields)
  | .function source => h.function source
  | .helper f => h.function f.name

theorem KeptByWriting.itemsToJson (h : KeptByWriting Q) :
    ∀ items : List Value, ∀ j ∈ itemsToJson items, Q j
  | [], _, hj => absurd hj List.not_mem_nil
  | v :: rest, j, hj => by
    rcases List.mem_cons.mp hj with rfl | hj
    · exact h.toJson v
    · exact h.itemsToJson rest j hj

theorem KeptByWriting.fieldsToJson (h : KeptByWriting Q) :
    ∀ fields : List (String × Value), ∀ m ∈ fieldsToJson fields, Q m.2
  | [], _, hm => absurd hm List.not_mem_nil
  | (k, v) :: rest, m, hm => by
    unfold Value.fieldsToJson at hm
    split at hm
    · cases hm
    · next heq =>
      obtain ⟨⟨-, -⟩, rfl⟩ := List.cons.inj heq
      exact h.fieldsToJson _ m hm
    · next heq =>
      obtain ⟨hfirst, rfl⟩ := List.cons.inj heq
      obtain ⟨rfl, rfl⟩ := Prod.mk.inj hfirst
      rcases List.mem_cons.mp hm with rfl | hm
      · exact h.toJson _
      · exact h.fieldsToJson _ m hm

end

end Writing

theorem keptByWriting_inOrder : KeptByWriting InOrder where
  null := .null
  bool := .bool
  number := inOrder_numberJson
  string := .string
  function := inOrder_functionJson
  array := .array
  object := inOrder_ofMembers

/-- What a value comes to as plain data is in order. -/
theorem inOrder_toJson (v : Value) : InOrder v.toJson := keptByWriting_inOrder.toJson v

end CommandFiles.Value
