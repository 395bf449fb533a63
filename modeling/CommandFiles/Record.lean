/-!
# Records

Maps from names to values that keep their names in order of first insertion. Inserting under a name
that is there already replaces the value and keeps the place. Main statements: the names after an
insertion, and what can be looked up after it.
-/

namespace CommandFiles

/-- Named values in order of first insertion. -/
structure Record (α : Type u) where
  entries : List (String × α)

namespace Record

variable {α : Type u}

/-- The record without entries. -/
def empty : Record α := ⟨[]⟩

instance : EmptyCollection (Record α) := ⟨empty⟩
instance : Inhabited (Record α) := ⟨empty⟩

/-- Replaces the value under a name, or puts a new entry at the end. -/
def insertInto (key : String) (value : α) : List (String × α) → List (String × α)
  | [] => [(key, value)]
  | (k, v) :: rest => if k = key then (k, value) :: rest else (k, v) :: insertInto key value rest

/-- Puts a value under a name. -/
def insert (r : Record α) (key : String) (value : α) : Record α :=
  ⟨insertInto key value r.entries⟩

/-- The value under a name. -/
def get? (r : Record α) (key : String) : Option α := r.entries.lookup key

/-- The names in their order. -/
def keys (r : Record α) : List String := r.entries.map Prod.fst

/-- How many names there are. -/
def size (r : Record α) : Nat := r.entries.length

/-- Whether there is no name. -/
def isEmpty (r : Record α) : Bool := r.entries.isEmpty

/-- Inserts entries one after another. -/
def insertAll (r : Record α) (entries : List (String × α)) : Record α :=
  entries.foldl (fun r e => r.insert e.1 e.2) r

/-- Inserts the entries of another record. -/
def extend (r other : Record α) : Record α := r.insertAll other.entries

/-- The record made by inserting entries one after another. -/
def ofList (entries : List (String × α)) : Record α := empty.insertAll entries

theorem map_fst_insertInto (key : String) (value : α) (es : List (String × α)) :
    (insertInto key value es).map Prod.fst =
      if key ∈ es.map Prod.fst then es.map Prod.fst else es.map Prod.fst ++ [key] := by
  induction es with
  | nil => simp [insertInto]
  | cons e rest ih =>
    obtain ⟨k, v⟩ := e
    by_cases h : k = key
    · subst h; simp [insertInto]
    · have h' : key ≠ k := fun e => h e.symm
      simp only [insertInto, if_neg h, List.map_cons, ih, List.mem_cons, h', false_or]
      split <;> simp

theorem keys_insert (r : Record α) (key : String) (value : α) :
    (r.insert key value).keys = if key ∈ r.keys then r.keys else r.keys ++ [key] :=
  map_fst_insertInto key value r.entries

theorem lookup_entry (key k : String) (v : α) (es : List (String × α)) :
    ((k, v) :: es).lookup key = if key = k then some v else es.lookup key := by
  by_cases h : key = k
  · subst h; simp only [List.lookup_cons_self, if_true]
  · have hb : (key == k) = false := by simp [h]
    simp only [List.lookup_cons, hb, if_neg h]

theorem lookup_insertInto (key other : String) (value : α) (es : List (String × α)) :
    (insertInto key value es).lookup other =
      if other = key then some value else es.lookup other := by
  induction es with
  | nil => simp only [insertInto, lookup_entry]
  | cons e rest ih =>
    obtain ⟨k, v⟩ := e
    by_cases h : k = key
    · subst h
      by_cases h' : other = k <;> simp [insertInto, lookup_entry, h']
    · by_cases h' : other = k
      · subst h'; simp [insertInto, h]
      · simp [insertInto, lookup_entry, h, h', ih]

theorem get?_insert (r : Record α) (key other : String) (value : α) :
    (r.insert key value).get? other = if other = key then some value else r.get? other :=
  lookup_insertInto key other value r.entries

/-- Of several entries under a name the last one counts. -/
theorem get?_insertAll (r : Record α) (es : List (String × α)) (name : String) :
    (r.insertAll es).get? name = (es.reverse.lookup name).or (r.get? name) := by
  induction es generalizing r with
  | nil => rfl
  | cons e rest ih =>
    change ((r.insert e.1 e.2).insertAll rest).get? name = _
    rw [ih, get?_insert, List.reverse_cons, List.lookup_append, Option.or_assoc, lookup_entry]
    by_cases h : name = e.1
    · rw [if_pos h, if_pos h, Option.some_or]
    · rw [if_neg h, if_neg h, List.lookup_nil, Option.none_or]

/-- Where every name occurs once, the order of the entries does not count. -/
theorem lookup_of_perm {es es' : List (String × α)} (h : es.Perm es')
    (hnodup : (es.map Prod.fst).Nodup) (name : String) : es.lookup name = es'.lookup name := by
  induction h with
  | nil => rfl
  | cons e _ ih =>
    rw [lookup_entry, lookup_entry, ih (List.nodup_cons.mp hnodup).2]
  | swap e d rest =>
    have hne : d.1 ≠ e.1 := fun heq => (List.nodup_cons.mp hnodup).1 (heq ▸ List.mem_cons_self)
    rw [lookup_entry, lookup_entry, lookup_entry, lookup_entry]
    by_cases hd : name = d.1
    · rw [if_pos hd, if_pos hd, if_neg (hd ▸ hne)]
    · rw [if_neg hd, if_neg hd]
  | trans hfirst _ ih ih' =>
    rw [ih hnodup, ih' ((hfirst.map Prod.fst).nodup hnodup)]

/-- The value under a name, where every name occurs once. -/
theorem get?_ofList {es : List (String × α)} (hnodup : (es.map Prod.fst).Nodup) (name : String) :
    (ofList es).get? name = es.lookup name := by
  have hreverse : (es.reverse.map Prod.fst).Nodup :=
    ((List.reverse_perm es).map Prod.fst).symm.nodup hnodup
  rw [ofList, get?_insertAll, lookup_of_perm (List.reverse_perm es) hreverse]
  exact Option.or_none

theorem lookup_of_not_mem {es : List (String × α)} {name : String} (h : name ∉ es.map Prod.fst) :
    es.lookup name = none := by
  rw [List.lookup_eq_none_iff]
  intro e he
  rw [bne_iff_ne]
  rintro rfl
  exact h (List.mem_map_of_mem he)

/-- An entry is found, where every name occurs once. -/
theorem lookup_of_mem {es : List (String × α)} {name : String} {value : α}
    (hnodup : (es.map Prod.fst).Nodup) (h : (name, value) ∈ es) :
    es.lookup name = some value := by
  obtain ⟨before, after, rfl⟩ := List.append_of_mem h
  rw [lookup_of_perm List.perm_middle hnodup, lookup_entry, if_pos rfl]

theorem mem_of_lookup {es : List (String × α)} {name : String} {value : α}
    (h : es.lookup name = some value) : (name, value) ∈ es := by
  obtain ⟨before, after, rfl, -⟩ := List.lookup_eq_some_iff.mp h
  exact List.mem_append_right _ List.mem_cons_self

end Record

end CommandFiles
