import CommandFiles.Proofs.DataText
import CommandFiles.Proofs.WholeDoubles

/-! # Values as plain data and back

What a value comes to as plain data is the plain data of the value that is read out of it: what is
left out, made null or wrapped once stays so. The same holds of every document, as long as its
numbers are written as those of values are: whole numbers up to `2^53 - 1`, and as doubles only what
is no whole number or a larger one. -/
namespace CommandFiles

open Number

/-- Whether a number of a document is written as those of values are. -/
def Json.IsSettled : Json → Prop
  | .int z => z.natAbs ≤ 9007199254740991
  | .float x => Value.StaysDouble x
  | _ => True

namespace Value

open Json

/-! ## Documents that come back -/

theorem ofJson_ne_undefined (j : Json) : ofJson j ≠ .undefined := by
  intro h
  unfold ofJson at h
  split at h
  case h_7 =>
    split at h
    · split at h <;> cases h
    · cases h
  all_goals cases h

theorem itemsToJson_ofJson {items : List Json} (h : ∀ j ∈ items, (ofJson j).toJson = j) :
    itemsToJson (items.map ofJson) = items := by
  induction items with
  | nil => rfl
  | cons j rest ih =>
    obtain ⟨hj, hrest⟩ := List.forall_mem_cons.mp h
    rw [List.map_cons, itemsToJson, hj, ih hrest]

theorem fieldsToJson_ofJson {members : List (String × Json)}
    (h : ∀ m ∈ members, (ofJson m.2).toJson = m.2) :
    fieldsToJson (members.map fun m => (m.1, ofJson m.2)) = members := by
  induction members with
  | nil => rfl
  | cons m rest ih =>
    obtain ⟨hm, hrest⟩ := List.forall_mem_cons.mp h
    rw [List.map_cons, fieldsToJson_cons (ofJson_ne_undefined m.2), hm, ih hrest]

/-- **A document comes back from its value** if its numbers are settled. -/
theorem toJson_ofJson {j : Json} (hj : j.InOrder) (h : ∀ n ∈ j.numbers, n.IsSettled) :
    (ofJson j).toJson = j := by
  induction hj with
  | null | bool _ | string _ => rfl
  | int z =>
    have hz : z.natAbs ≤ 9007199254740991 := h _ (List.mem_singleton_self _)
    exact numberJson_of_whole (value?_intToFloat (by omega)) (by omega)
  | float x => exact numberJson_of_stays (h _ (List.mem_singleton_self _))
  | @array items _ ih =>
    rw [numbers, numbersInItems_eq] at h
    have hitems := fun j hj => ih j hj fun n hn => h n (List.mem_flatMap.mpr ⟨j, hj, hn⟩)
    rw [ofJson, itemsOfJson_eq, toJson, itemsToJson_ofJson hitems]
  | @object members hordered _ ih =>
    by_cases hfunction : IsFunction members
    · obtain ⟨source, rfl⟩ := hfunction
      rfl
    rw [numbers, numbersInMembers_eq] at h
    have hmembers := fun m hm => ih m hm fun n hn => h n (List.mem_flatMap.mpr ⟨m, hm, hn⟩)
    rw [ofJson_object hfunction hordered.nodup, toJson, fieldsToJson_ofJson hmembers,
      ofMembers_of_ordered hordered]

/-! ## Documents of values -/

theorem isSettled_numberJson (x : Float) : ∀ n ∈ (numberJson x).numbers, n.IsSettled := by
  rcases numberJson_cases x with ⟨-, h⟩ | ⟨z, -, hz, h⟩ | ⟨hx, h⟩
  · rw [h]
    nofun
  · rw [h]
    refine List.forall_mem_singleton.mpr ?_
    change z.natAbs ≤ 9007199254740991
    omega
  · rw [h]
    exact List.forall_mem_singleton.mpr hx

theorem isSettled_ofMembers {members : List (String × Json)}
    (h : ∀ m ∈ members, ∀ n ∈ m.2.numbers, n.IsSettled) :
    ∀ n ∈ (ofMembers members).numbers, n.IsSettled := by
  intro n hn
  rw [ofMembers, numbers, numbersInMembers_eq] at hn
  obtain ⟨m, hm, hn⟩ := List.mem_flatMap.mp hn
  exact (mem_foldl hm).elim (fun hm => absurd hm List.not_mem_nil) fun hm => h m hm n hn

theorem isSettled_items {items : List Json} (h : ∀ j ∈ items, ∀ n ∈ j.numbers, n.IsSettled) :
    ∀ n ∈ (Json.array items).numbers, n.IsSettled := by
  intro n hn
  rw [numbers, numbersInItems_eq] at hn
  obtain ⟨j, hj, hn⟩ := List.mem_flatMap.mp hn
  exact h j hj n hn

/-- The numbers in what a value comes to are settled. -/
theorem isSettled_toJson : ∀ v : Value, ∀ n ∈ v.toJson.numbers, n.IsSettled :=
  KeptByWriting.toJson
    { null := nofun
      bool := fun _ => nofun
      number := isSettled_numberJson
      string := fun _ => nofun
      function := fun _ => nofun
      array := isSettled_items
      object := isSettled_ofMembers }

/-- **Nothing is lost between values and plain data but what plain data never holds.** What a value
comes to comes back from there, and so does every document with settled numbers. -/
theorem toJson_ofJson_toJson :
    (∀ v : Value, (ofJson v.toJson).toJson = v.toJson) ∧
      ∀ j : Json, j.InOrder → (∀ n ∈ j.numbers, n.IsSettled) → (ofJson j).toJson = j :=
  ⟨fun v => toJson_ofJson (inOrder_toJson v) (isSettled_toJson v), fun _ => toJson_ofJson⟩

theorem staysDouble_half : StaysDouble 1.5 := by
  have hbits : Binary.ofFloat 1.5 = .finite false 6755399441055744 (-52) := by decide +kernel
  refine ⟨3 / 2, by rw [hbits]; norm_num [Binary.value?, signed], .inl fun z hz => ?_⟩
  have htwice : (3 : ℚ) = ((2 * z : Int) : ℚ) := by
    push_cast
    rw [← hz]
    norm_num
  have hodd : 3 = 2 * z := by exact_mod_cast htwice
  omega

theorem staysDouble_large : StaysDouble 9007199254740992.0 := by
  have hbits : Binary.ofFloat 9007199254740992.0 = .finite false 4503599627370496 1 := by
    decide +kernel
  exact ⟨9007199254740992, by rw [hbits]; norm_num [Binary.value?, signed], .inr (by norm_num)⟩

/-- A document with a function and with an object that only looks like one. -/
def nestedDocument : Json :=
  .object [("$function", .array [.float 1.5, .null, functionJson "x => x"]),
    ("size", .object [("high", .float 9007199254740992.0), ("low", .int (-9007199254740991))])]

theorem toJson_ofJson_toJson_of_nested :
    nestedDocument.InOrder ∧ (∀ n ∈ nestedDocument.numbers, n.IsSettled) ∧
      (ofJson nestedDocument).toJson = nestedDocument := by
  have horder : nestedDocument.InOrder := by
    refine .object (by decide) ?_
    simp only [List.forall_mem_cons, List.not_mem_nil, false_implies, implies_true, and_true]
    refine ⟨.array ?_, .object (by decide) ?_⟩
    · simp [InOrder.float, InOrder.null, inOrder_functionJson]
    · simp [InOrder.float, InOrder.int]
  have hsettled : ∀ n ∈ nestedDocument.numbers, n.IsSettled := by
    change ∀ n ∈ [Json.float 1.5, .float 9007199254740992.0, .int (-9007199254740991)], n.IsSettled
    simp only [List.forall_mem_cons, List.not_mem_nil, false_implies, implies_true, and_true]
    exact ⟨staysDouble_half, staysDouble_large,
      show (-9007199254740991 : Int).natAbs ≤ 9007199254740991 by decide⟩
  exact ⟨horder, hsettled, toJson_ofJson_toJson.2 nestedDocument horder hsettled⟩

end Value

end CommandFiles
