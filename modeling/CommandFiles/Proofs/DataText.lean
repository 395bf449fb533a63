import CommandFiles.Proofs.DataInOrder
import CommandFiles.Proofs.ValueText

/-! # Texts of documents

A document is written as the literal of its values. An expression stands for the document if it
comes to a value that is written as the document again; it need not be the value that was printed.
So the literal stands for the document as soon as its leaves do: the text of every number has to be
that of a number which is written the same, and the text of every function has to stand for the
document of the function. An object with one member under the name that stands for functions is a
function, wherever it comes from. -/
namespace CommandFiles

open Script Script.Reader

namespace Json

mutual

/-- The numbers in a document. -/
def numbers : Json → List Json
  | .int n => [.int n]
  | .float x => [.float x]
  | .array items => numbersInItems items
  | .object members => numbersInMembers members
  | _ => []

/-- The numbers in items. -/
def numbersInItems : List Json → List Json
  | [] => []
  | j :: rest => numbers j ++ numbersInItems rest

/-- The numbers in members. -/
def numbersInMembers : List (String × Json) → List Json
  | [] => []
  | (_, j) :: rest => numbers j ++ numbersInMembers rest

end

mutual

/-- The texts of the functions in a document. -/
def functionTexts : Json → List String
  | .array items => functionTextsInItems items
  | .object members =>
    match members with
    | [(key, .string source)] => if key = Value.functionKey then [source] else []
    | _ => functionTextsInMembers members
  | _ => []

/-- The texts of the functions in items. -/
def functionTextsInItems : List Json → List String
  | [] => []
  | j :: rest => functionTexts j ++ functionTextsInItems rest

/-- The texts of the functions in members. -/
def functionTextsInMembers : List (String × Json) → List String
  | [] => []
  | (_, j) :: rest => functionTexts j ++ functionTextsInMembers rest

end

variable {items : List Json} {members : List (String × Json)}

theorem numbersInItems_eq : numbersInItems items = items.flatMap numbers := by
  induction items with
  | nil => rfl
  | cons j rest ih => rw [numbersInItems, ih, List.flatMap_cons]

theorem numbersInMembers_eq : numbersInMembers members = members.flatMap fun m => numbers m.2 := by
  induction members with
  | nil => rfl
  | cons m rest ih => rw [numbersInMembers, ih, List.flatMap_cons]

theorem functionTextsInItems_eq : functionTextsInItems items = items.flatMap functionTexts := by
  induction items with
  | nil => rfl
  | cons j rest ih => rw [functionTextsInItems, ih, List.flatMap_cons]

theorem functionTextsInMembers_eq :
    functionTextsInMembers members = members.flatMap fun m => functionTexts m.2 := by
  induction members with
  | nil => rfl
  | cons m rest ih => rw [functionTextsInMembers, ih, List.flatMap_cons]

/-- Whether the members of an object are what stands for a function. -/
def IsFunction (members : List (String × Json)) : Prop :=
  ∃ source, members = [(Value.functionKey, .string source)]

/-- The functions in an object that is no function itself are those in its members. -/
theorem functionTexts_object (h : ¬ IsFunction members) :
    functionTexts (.object members) = members.flatMap fun m => functionTexts m.2 := by
  conv_lhs => unfold functionTexts
  split
  · next key source =>
    have hkey : key ≠ Value.functionKey := by
      rintro rfl
      exact h ⟨source, rfl⟩
    rw [if_neg hkey]
    rfl
  · exact functionTextsInMembers_eq

end Json

/-! ## Values of documents -/

namespace Record

theorem insertAll_of_nodup {α : Type} {r : Record α} {entries : List (String × α)}
    (h : (r.keys ++ entries.map Prod.fst).Nodup) :
    r.insertAll entries = ⟨r.entries ++ entries⟩ := by
  induction entries generalizing r with
  | nil => rw [List.append_nil]; rfl
  | cons e rest ih =>
    obtain ⟨hnew, hrest⟩ := Literal.nodup_insert_of_cons h e.2
    have hinsert : r.insert e.1 e.2 = ⟨r.entries ++ [e]⟩ := Literal.insert_of_not_mem hnew e.2
    change (r.insert e.1 e.2).insertAll rest = _
    rw [ih hrest, hinsert, List.append_assoc, List.singleton_append]

theorem ofList_of_nodup {α : Type} {entries : List (String × α)}
    (h : (entries.map Prod.fst).Nodup) : ofList entries = ⟨entries⟩ :=
  insertAll_of_nodup h

end Record

namespace Value

theorem itemsOfJson_eq (items : List Json) : itemsOfJson items = items.map ofJson := by
  induction items with
  | nil => rfl
  | cons j rest ih => rw [itemsOfJson, ih, List.map_cons]

theorem fieldsOfJson_eq (members : List (String × Json)) :
    fieldsOfJson members = members.map fun m => (m.1, ofJson m.2) := by
  induction members with
  | nil => rfl
  | cons m rest ih => rw [fieldsOfJson, ih, List.map_cons]

/-- The value of an object that is no function holds the values of its members. -/
theorem ofJson_object {members : List (String × Json)} (h : ¬ Json.IsFunction members)
    (hnodup : (members.map Prod.fst).Nodup) :
    ofJson (.object members) = .object ⟨members.map fun m => (m.1, ofJson m.2)⟩ := by
  conv_lhs => unfold ofJson
  split
  · next key source =>
    have hkey : key ≠ functionKey := by
      rintro rfl
      exact h ⟨source, rfl⟩
    rw [if_neg hkey]
    rfl
  · have hkeys : ((members.map fun m => (m.1, ofJson m.2)).map Prod.fst).Nodup := by
      rw [List.map_map]
      exact hnodup
    rw [fieldsOfJson_eq, Record.ofList_of_nodup hkeys]

theorem fieldsToJson_cons {v : Value} (hv : v ≠ .undefined) (key : String)
    (rest : List (String × Value)) :
    fieldsToJson ((key, v) :: rest) = (key, v.toJson) :: fieldsToJson rest := by
  rw [fieldsToJson]
  exact fun h => hv h

end Value

/-! ## Literals of documents -/

namespace Literal

variable {s : Scene} {j : Json}

/-- Whether an expression stands for a document: it comes to a value that is written so. -/
def StandsFor (s : Scene) (j : Json) (e : Expr) : Prop :=
  ∃ v, Evaluates s v e ∧ v ≠ .undefined ∧ v.toJson = j

theorem standsFor_of_evaluates {v : Value} {e : Expr} (h : Evaluates s v e) (hv : v ≠ .undefined) :
    StandsFor s v.toJson e := ⟨v, h, hv, rfl⟩

/-- Whether the text of a number is that of a number which is written the same. -/
def NumberRestores (n : Json) : Prop :=
  ∃ x, numeral? (Value.ofJson n).source.toList = some x ∧ Value.numberJson x = n

/-- Whether the text of a function stands for what is written of the function. -/
def FunctionRestores (s : Scene) (source : String) : Prop :=
  Reads true assignment source.toList (StandsFor s (Value.functionJson source))

theorem Embeds.restores {source : String} (h : Embeds s source) : FunctionRestores s source :=
  h.mono fun _ he => standsFor_of_evaluates he nofun

/-- Whether a document can be had back from its literal: its numbers and its functions can. -/
structure Restorable (s : Scene) (j : Json) : Prop where
  numbers : ∀ n ∈ j.numbers, NumberRestores n
  functions : ∀ source ∈ j.functionTexts, FunctionRestores s source

theorem Restorable.item {items : List Json} (h : Restorable s (.array items)) (hj : j ∈ items) :
    Restorable s j := by
  constructor
  · intro n hn
    refine h.numbers n ?_
    rw [Json.numbers, Json.numbersInItems_eq]
    exact List.mem_flatMap.mpr ⟨j, hj, hn⟩
  · intro source hsource
    refine h.functions source ?_
    rw [Json.functionTexts, Json.functionTextsInItems_eq]
    exact List.mem_flatMap.mpr ⟨j, hj, hsource⟩

theorem Restorable.member {members : List (String × Json)} (h : Restorable s (.object members))
    (hfunction : ¬ Json.IsFunction members) {m : String × Json} (hm : m ∈ members) :
    Restorable s m.2 := by
  constructor
  · intro n hn
    refine h.numbers n ?_
    rw [Json.numbers, Json.numbersInMembers_eq]
    exact List.mem_flatMap.mpr ⟨m, hm, hn⟩
  · intro source hsource
    refine h.functions source ?_
    rw [Json.functionTexts_object hfunction]
    exact List.mem_flatMap.mpr ⟨m, hm, hsource⟩

/-- Elements that stand for items come to values that are written as the items. -/
theorem exists_items {items : List Json} {elements : List Element}
    (h : List.Forall₂ (fun j a => ∃ e, a = .item e ∧ StandsFor s j e) items elements) :
    ∃ vs, evalElements s elements = pure vs ∧ Value.itemsToJson vs = items := by
  suffices hvalues : ∃ vs, List.Forall₂ (fun v a => ∃ e, a = .item e ∧ Evaluates s (id v) e) vs
      elements ∧ Value.itemsToJson vs = items by
    obtain ⟨vs, hvs, hitems⟩ := hvalues
    exact ⟨vs, by simpa using evalElements_items hvs, hitems⟩
  induction h with
  | nil => exact ⟨[], .nil, rfl⟩
  | cons hj _ ih =>
    obtain ⟨e, rfl, v, he, -, rfl⟩ := hj
    obtain ⟨vs, hvs, rfl⟩ := ih
    exact ⟨v :: vs, .cons ⟨e, rfl, he⟩ hvs, rfl⟩

/-- Properties that stand for members come to fields that are written as the members. -/
theorem exists_fields {members : List (String × Json)} {properties : List Property}
    (h : List.Forall₂ (fun m a => ∃ l e, a = .value l (.fixed m.1) e ∧ StandsFor s m.2 e)
      members properties) (hnodup : (members.map Prod.fst).Nodup) :
    ∃ fields, evalProperties s properties {} = pure ⟨fields⟩ ∧
      Value.fieldsToJson fields = members := by
  suffices hvalues : ∃ fields, List.Forall₂
      (fun b a => ∃ l e, a = .value l (.fixed b.1) e ∧ Evaluates s (id b.2) e) fields properties ∧
      fields.map Prod.fst = members.map Prod.fst ∧ Value.fieldsToJson fields = members by
    obtain ⟨fields, hfields, hkeys, hmembers⟩ := hvalues
    rw [← hkeys] at hnodup
    refine ⟨fields, ?_, hmembers⟩
    rw [evalProperties_values hfields {} hnodup]
    exact congrArg (fun fields => pure (Record.mk fields)) (List.map_id fields)
  clear hnodup
  induction h with
  | nil => exact ⟨[], .nil, rfl, rfl⟩
  | @cons m a _ _ hm _ ih =>
    obtain ⟨l, e, rfl, v, he, hv, hjson⟩ := hm
    obtain ⟨fields, hfields, hkeys, hmembers⟩ := ih
    refine ⟨(m.1, v) :: fields, .cons ⟨l, e, rfl, he⟩ hfields, by simp [hkeys], ?_⟩
    rw [Value.fieldsToJson_cons hv, hjson, hmembers]

/-- **The literal of a document stands for the document**, at any depth, if its numbers and its
functions can be had back. -/
theorem reads_json (hj : j.InOrder) (h : Restorable s j) (depth : Nat) :
    Reads true assignment ((Value.ofJson j).sourceAt depth).toList (StandsFor s j) := by
  have hnumber : ∀ n : Json, NumberRestores n →
      Reads true assignment (Value.ofJson n).source.toList (StandsFor s n) := by
    rintro n ⟨x, hx, rfl⟩
    exact (reads_numeral s hx).mono fun e he => standsFor_of_evaluates he (by simp)
  induction hj generalizing depth with
  | null =>
    refine reads_null.mono ?_
    rintro e ⟨l, rfl⟩
    exact ⟨.null, rfl, by simp, rfl⟩
  | bool b =>
    refine (reads_boolean b).mono ?_
    rintro e ⟨l, rfl⟩
    exact ⟨.boolean b, rfl, by simp, rfl⟩
  | int n => exact hnumber (.int n) (h.numbers _ (List.mem_singleton_self _))
  | float x => exact hnumber (.float x) (h.numbers _ (List.mem_singleton_self _))
  | string t =>
    refine (reads_quote t).mono ?_
    rintro e ⟨l, rfl⟩
    exact ⟨.string t, rfl, by simp, rfl⟩
  | @array items _ ih =>
    have hitems := fun j hj => ih j hj (h.item hj) (depth + 1)
    have harray := reads_array (Value.isGap_lineStart (depth + 1)) (Value.isGap_lineStart depth)
      hitems
    rw [Value.ofJson, Value.toList_sourceAt_array, Value.itemsOfJson_eq, List.map_map]
    refine harray.mono ?_
    rintro e ⟨l, elements, rfl, helements⟩
    obtain ⟨vs, hvs, rfl⟩ := exists_items helements
    refine standsFor_of_evaluates (v := .array vs) ?_ (by simp)
    rw [Evaluates, eval, hvs, pure_bind_eval]
  | @object members hordered _ ih =>
    by_cases hfunction : Json.IsFunction members
    · -- What stands for a function is printed as the function, not as an object.
      obtain ⟨source, rfl⟩ := hfunction
      exact h.functions source (by simp [Json.functionTexts])
    have hmembers := fun m hm => ih m hm (h.member hfunction hm) (depth + 1)
    have hobject := reads_object (Value.isGap_lineStart (depth + 1)) (Value.isGap_lineStart depth)
      (fun m _ => Value.isKey_keySource (Prod.fst m)) hmembers
    rw [Value.ofJson_object hfunction hordered.nodup, Value.toList_sourceAt_object, List.map_map]
    refine hobject.mono ?_
    rintro e ⟨l, properties, rfl, hproperties⟩
    obtain ⟨fields, hfields, hwritten⟩ := exists_fields hproperties hordered.nodup
    refine ⟨.object ⟨fields⟩, ?_, by simp, ?_⟩
    · rw [Evaluates, eval, hfields, pure_bind_eval]
    · rw [Value.toJson, hwritten, Json.ofMembers_of_ordered hordered]

end Literal

end CommandFiles
